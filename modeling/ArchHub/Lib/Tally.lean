import Mathlib
import ArchHub.Lib.Dict

/-!
# Dictionaries that count

A dictionary kept by adding one and taking one away *counts* a list when it
holds of every key how often the key stands in the list, and no row for a key
that stands there not at all.  The two updates are then what adding to the list
and removing from it are, whatever the order.
-/

namespace Lib

open List

namespace Tally

universe u

variable {κ : Type u} [DecidableEq κ]

/-- One more of a key. -/
def up (d : Dict κ ℕ) (k : κ) : Dict κ ℕ := d.set k ((d.get? k).getD 0 + 1)

/-- One less of a key, whose row is dropped at nothing; none where there is none. -/
def down (d : Dict κ ℕ) (k : κ) : Option (Dict κ ℕ) :=
  match d.get? k with
  | some (n + 1) => some (if n = 0 then d.erase k else d.set k n)
  | _ => none

/-- A dictionary counts a list. -/
def Counts (d : Dict κ ℕ) (xs : List κ) : Prop :=
  ∀ k, d.get? k = if xs.count k = 0 then none else some (xs.count k)

variable {d : Dict κ ℕ} {k : κ} {xs ys ks : List κ} {α : Type*} {rs : List α}

theorem counts_empty : Counts (.empty : Dict κ ℕ) [] := fun k => by simp

theorem Counts.getD (h : Counts d xs) (k : κ) : (d.get? k).getD 0 = xs.count k := by
  rw [h k]
  split
  · next hzero => rw [hzero]; rfl
  · rfl

/-- Counting does not look at the order. -/
theorem Counts.perm (h : Counts d xs) (hperm : xs.Perm ys) : Counts d ys := fun k => by
  rw [h k, hperm.count_eq]

theorem Counts.up (h : Counts d xs) (k : κ) : Counts (up d k) (k :: xs) := by
  intro j
  rw [Tally.up, Dict.get?_set, h.getD]
  by_cases hj : j = k
  · subst hj
    simp
  · rw [if_neg hj, count_cons_of_ne (Ne.symm hj), h j]

theorem Counts.ups (h : Counts d xs) (ks : List κ) : Counts (ks.foldl Tally.up d) (ks ++ xs) := by
  induction ks generalizing d xs with
  | nil => exact h
  | cons k ks ih => exact (ih (h.up k)).perm perm_middle

/-- What is counted can be taken away. -/
theorem Counts.down (h : Counts d (k :: xs)) : ∃ d', Tally.down d k = some d' ∧ Counts d' xs := by
  have hk : d.get? k = some (xs.count k + 1) := by
    rw [h k, count_cons_self, if_neg (Nat.succ_ne_zero _)]
  have hdown : Tally.down d k = some (if xs.count k = 0 then d.erase k else d.set k (xs.count k)) := by
    rw [Tally.down, hk]
  refine ⟨_, hdown, fun j => ?_⟩
  by_cases hj : j = k
  · subst hj
    split <;> simp_all
  · have hother : d.get? j = if xs.count j = 0 then none else some (xs.count j) := by
      rw [h j, count_cons_of_ne (Ne.symm hj)]
    split
    · rw [Dict.get?_erase, if_neg hj, hother]
    · rw [Dict.get?_set, if_neg hj, hother]

/-- How often a key stands in the keys of a list of things, each of which has
it once at most. -/
theorem count_flatMap (f : α → List κ) (k : κ) (hnodup : ∀ r ∈ rs, (f r).Nodup) :
    (rs.flatMap f).count k = rs.countP fun r => decide (k ∈ f r) := by
  induction rs with
  | nil => rfl
  | cons r rs ih =>
      have hrest := ih fun s hs => hnodup s (mem_cons_of_mem r hs)
      have hhead := hnodup r mem_cons_self
      rw [flatMap_cons, count_append, hrest, countP_cons]
      by_cases hk : k ∈ f r
      · rw [count_eq_one_of_mem hhead hk]
        simp [hk, Nat.add_comm]
      · rw [count_eq_zero_of_not_mem hk]
        simp [hk]

omit [DecidableEq κ] in
/-- The same for the keys that meet a check, of which each thing has one at most. -/
theorem countP_flatMap (f : α → List κ) (p : κ → Bool)
    (hone : ∀ r ∈ rs, ((f r).filter p).length ≤ 1) :
    (rs.flatMap f).countP p = rs.countP fun r => (f r).any p := by
  induction rs with
  | nil => rfl
  | cons r rs ih =>
      have hrest := ih fun s hs => hone s (mem_cons_of_mem r hs)
      have hhead := hone r mem_cons_self
      rw [flatMap_cons, countP_append, hrest, countP_cons, countP_eq_length_filter]
      by_cases hany : (f r).any p = true
      · obtain ⟨k, hk, hpk⟩ := List.any_eq_true.1 hany
        have hpos : 0 < ((f r).filter p).length :=
          length_pos_of_mem (List.mem_filter.2 ⟨hk, hpk⟩)
        rw [if_pos hany]
        omega
      · have hnone : (f r).filter p = [] := by
          rw [filter_eq_nil_iff]
          exact fun k hk hpk => hany (List.any_eq_true.2 ⟨k, hk, hpk⟩)
        rw [if_neg hany, hnone, length_nil, Nat.zero_add, Nat.add_zero]

/-- The keys of a dictionary that counts a list. -/
theorem Counts.perm_keys (h : Counts d xs) : d.keys.Perm xs.dedup := by
  rw [perm_ext_iff_of_nodup d.nodup_keys (nodup_dedup xs)]
  intro k
  rw [Dict.mem_keys, mem_dedup, h k, ← count_pos_iff]
  split
  · next hzero => simp [hzero]
  · next hne => simp [Nat.pos_of_ne_zero hne]

/-- **A range of the rows sums up to what it counts.** -/
theorem Counts.sum_filter (h : Counts d xs) (p : κ → Bool) :
    ((d.entries.filter fun e => p e.1).map Prod.snd).sum = xs.countP p := by
  have hvalues : (d.entries.filter fun e => p e.1).map Prod.snd =
      (d.keys.filter p).map fun k => xs.count k := by
    unfold Dict.keys
    rw [filter_map, map_map]
    refine map_congr_left fun e he => ?_
    have hmem : (e.1, e.2) ∈ d.entries := (List.mem_filter.1 he).1
    have hget := Dict.mem_entries_iff.1 hmem
    have hcount := h.getD e.1
    rw [hget] at hcount
    exact hcount
  rw [hvalues, (((h.perm_keys.filter p).map _)).sum_eq]
  exact sum_map_count_dedup_filter_eq_countP p xs

/-! ## Integer counters

Counters that nothing keeps from falling below nothing.  A row at nothing may stay; once
such rows are dropped, what is left counts the list.
-/

section Integers

variable {z : Dict κ ℤ}

/-- The counters say of every key how often it stands in a list. -/
def Amounts (z : Dict κ ℤ) (xs : List κ) : Prop := ∀ k, (z.get? k).getD 0 = (xs.count k : ℤ)

/-- No row stands at nothing. -/
def Nonzero (z : Dict κ ℤ) : Prop := ∀ k n, z.get? k = some n → n ≠ 0

/-- One more of a key. -/
def countUp (z : Dict κ ℤ) (k : κ) : Dict κ ℤ := z.set k ((z.get? k).getD 0 + 1)

theorem amounts_empty : Amounts (.empty : Dict κ ℤ) [] := fun k => by simp

theorem Amounts.perm (h : Amounts z xs) (hperm : xs.Perm ys) : Amounts z ys := fun k => by
  rw [h k, hperm.count_eq]

theorem Amounts.up (h : Amounts z xs) (k : κ) : Amounts (countUp z k) (k :: xs) := by
  intro j
  unfold countUp
  rw [Dict.get?_set, h k]
  by_cases hj : j = k
  · subst hj
    rw [if_pos rfl, Option.getD_some, count_cons_self]
    push_cast
    ring
  · rw [if_neg hj, h j, count_cons_of_ne (Ne.symm hj)]

theorem Amounts.ups (h : Amounts z xs) (ks : List κ) : Amounts (ks.foldl countUp z) (ks ++ xs) := by
  induction ks generalizing z xs with
  | nil => exact h
  | cons k ks ih => exact (ih (h.up k)).perm perm_middle

theorem Nonzero.ups (hamounts : Amounts z xs) (h : Nonzero z) (ks : List κ) :
    Nonzero (ks.foldl countUp z) := by
  induction ks generalizing z xs with
  | nil => exact h
  | cons k ks ih =>
      refine ih (hamounts.up k) fun j n hj => ?_
      unfold countUp at hj
      rw [Dict.get?_set, hamounts k] at hj
      split at hj
      · have hn := Option.some.inj hj
        omega
      · exact h j n hj

/-- **One less of some keys**, which all have a row. -/
theorem Amounts.downs {ks : List κ} {f : κ → ℤ → ℤ} (h : Amounts z (ks ++ xs)) (hnodup : ks.Nodup)
    (hin : ∀ k ∈ ks, ∀ n, f k n = n - 1) (hout : ∀ k ∉ ks, ∀ n, f k n = n) :
    Amounts (z.map f) xs := by
  intro j
  have hj := h j
  rw [count_append] at hj
  rw [Dict.get?_map]
  by_cases hmem : j ∈ ks
  · rw [count_eq_one_of_mem hnodup hmem] at hj
    cases hget : z.get? j with
    | none =>
        rw [hget, Option.getD_none] at hj
        omega
    | some n =>
        rw [hget, Option.getD_some] at hj
        rw [Option.map_some, hin j hmem, Option.getD_some, hj]
        push_cast
        ring
  · rw [count_eq_zero_of_not_mem hmem, Nat.zero_add] at hj
    rw [← hj]
    cases z.get? j with
    | none => rfl
    | some n => rw [Option.map_some, hout j hmem]

/-- Rows at nothing may be dropped. -/
theorem Amounts.dropped (h : Amounts z xs) :
    Amounts (z.filter fun e => e.2 ≠ 0) xs ∧ Nonzero (z.filter fun e => e.2 ≠ 0) := by
  have hget : ∀ k, (z.filter fun e => e.2 ≠ 0).get? k = (z.get? k).filter fun n => n ≠ 0 := fun k =>
    Dict.get?_filter _ z k
  refine ⟨fun k => ?_, fun k n hn => ?_⟩
  · rw [hget k, ← h k]
    cases z.get? k with
    | none => rfl
    | some n => by_cases hn : n = 0 <;> simp [Option.filter, hn]
  · rw [hget k, Option.filter_eq_some_iff] at hn
    simpa using hn.2

/-- **Integer counters without a row at nothing count.** -/
theorem Amounts.get? (h : Amounts z xs) (hnonzero : Nonzero z) (k : κ) :
    z.get? k = if xs.count k = 0 then none else some (xs.count k : ℤ) := by
  have hk := h k
  cases hget : z.get? k with
  | none =>
      rw [hget, Option.getD_none, eq_comm, Nat.cast_eq_zero] at hk
      rw [if_pos hk]
  | some n =>
      have hne := hnonzero k n hget
      rw [hget, Option.getD_some] at hk
      rw [if_neg (fun hzero => hne (by rw [hk, hzero]; rfl)), hk]

theorem Amounts.counts (h : Amounts z xs) (hnonzero : Nonzero z) :
    Counts (z.map fun _ n => n.toNat) xs := by
  intro k
  rw [Dict.get?_map, h.get? hnonzero k]
  split <;> rfl

theorem Amounts.entries_eq (h : Amounts z xs) (hnonzero : Nonzero z) :
    z.entries = (z.map fun _ n => n.toNat).entries.map fun e => (e.1, (e.2 : ℤ)) := by
  show z.entries = (z.entries.map fun e => (e.1, e.2.toNat)).map fun e => (e.1, (e.2 : ℤ))
  rw [map_map]
  refine (map_id _).symm.trans (map_congr_left fun e he => ?_)
  have hget := h.get? hnonzero e.1
  rw [Dict.mem_entries_iff.1 he] at hget
  split at hget
  · cases hget
  · refine Prod.ext rfl ?_
    show e.2 = ((e.2.toNat : ℕ) : ℤ)
    rw [Option.some.inj hget, Int.toNat_natCast]

end Integers

/-! ## Groups -/

/-- More of a key. -/
def raise (d : Dict κ ℕ) (k : κ) (n : ℕ) : Dict κ ℕ := d.set k ((d.get? k).getD 0 + n)

/-- The sums of a list of rows by key. -/
def groups (rows : List (κ × ℕ)) : Dict κ ℕ := rows.foldl (fun d row => raise d row.1 row.2) .empty

theorem sum_put (es : List (κ × ℕ)) (k : κ) (n : ℕ) :
    ((Assoc.put es k ((Assoc.find es k).getD 0 + n)).map Prod.snd).sum =
      (es.map Prod.snd).sum + n := by
  induction es with
  | nil => simp [Assoc.put]
  | cons e es ih =>
      by_cases hk : e.1 = k
      · simp only [Assoc.put, Assoc.find_cons, if_pos hk, map_cons, sum_cons, Option.getD_some]
        omega
      · simp only [Assoc.put, Assoc.find_cons, if_neg hk, map_cons, sum_cons, ih]
        omega

/-- The groups sum up to the rows. -/
theorem sum_groups (rows : List (κ × ℕ)) : (groups rows).values.sum = (rows.map Prod.snd).sum := by
  have hfold : ∀ d : Dict κ ℕ, (rows.foldl (fun d row => raise d row.1 row.2) d).values.sum =
      d.values.sum + (rows.map Prod.snd).sum := by
    induction rows with
    | nil => intro d; simp
    | cons row rows ih =>
        intro d
        have hraise : (raise d row.1 row.2).values.sum = d.values.sum + row.2 :=
          sum_put d.entries row.1 row.2
        rw [foldl_cons, ih, hraise, map_cons, sum_cons, Nat.add_assoc]
  have hall := hfold .empty
  rwa [show (Dict.empty : Dict κ ℕ).values.sum = 0 from rfl, Nat.zero_add] at hall

/-- A group sums up its rows. -/
theorem getD_groups (rows : List (κ × ℕ)) (k : κ) :
    ((groups rows).get? k).getD 0 = ((rows.filter fun row => decide (row.1 = k)).map Prod.snd).sum := by
  have hfold : ∀ d : Dict κ ℕ,
      ((rows.foldl (fun d row => raise d row.1 row.2) d).get? k).getD 0 =
        (d.get? k).getD 0 + ((rows.filter fun row => decide (row.1 = k)).map Prod.snd).sum := by
    induction rows with
    | nil => intro d; simp
    | cons row rows ih =>
        intro d
        rw [foldl_cons, ih, raise, Dict.get?_set, filter_cons]
        by_cases hk : row.1 = k
        · rw [if_pos hk.symm, if_pos (decide_eq_true hk), map_cons, sum_cons, hk,
            Option.getD_some, Nat.add_assoc]
        · rw [if_neg (Ne.symm hk), if_neg (by simpa using hk)]
  have hall := hfold .empty
  rwa [Dict.get?_empty, Option.getD_none, Nat.zero_add] at hall

/-- The keys of the groups are those of the rows. -/
theorem mem_keys_groups (rows : List (κ × ℕ)) (k : κ) :
    k ∈ (groups rows).keys ↔ k ∈ rows.map Prod.fst := by
  have hfold : ∀ d : Dict κ ℕ, k ∈ (rows.foldl (fun d row => raise d row.1 row.2) d).keys ↔
      k ∈ d.keys ∨ k ∈ rows.map Prod.fst := by
    induction rows with
    | nil => intro d; simp
    | cons row rows ih =>
        intro d
        rw [foldl_cons, ih, raise, Dict.mem_keys_set, map_cons, mem_cons]
        tauto
  have hnone : k ∉ (Dict.empty : Dict κ ℕ).keys := not_mem_nil
  exact (hfold .empty).trans (or_iff_right hnone)

end Tally

end Lib

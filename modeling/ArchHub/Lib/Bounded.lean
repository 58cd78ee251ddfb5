import Mathlib
import ArchHub.Lib.Dict
import ArchHub.Lib.Weight

/-!
# Bounded caches

A cache that holds no more than a number of entries and no more than a number of bytes.
What an entry costs is told when it is put in and kept beside it; the total is kept up to
date rather than recomputed.  What overflows is dropped, the entry that was not used for
the longest time first.

* `Ledger`: entries, their costs and the total.  It carries the proof that the total is
  the sum of the costs of the entries that are held, so a ledger with an entry that was
  counted twice or not at all cannot be built.
* `Bounded`: a ledger within its limits.
* `Bounded.held_of_put`: a cache forgets; it never makes up an entry.
-/

namespace Lib

universe u v

variable {κ : Type u} {ν : Type v} [DecidableEq κ]

/-! ## The order of use -/

namespace Dict

theorem size_set (d : Dict κ ν) {k : κ} (h : d.get? k = none) (v : ν) :
    (d.set k v).size = d.size + 1 := by
  unfold size
  rw [entries_set_of_new h v, List.length_append]
  rfl

theorem size_erase (d : Dict κ ν) {k : κ} (h : (d.get? k).isSome) :
    (d.erase k).size + 1 = d.size := by
  obtain ⟨v, hv⟩ := Option.isSome_iff_exists.1 h
  have hperm : ((d.erase k).set k v).size = d.size := by
    refine size_eq_of_get?_eq fun k' => ?_
    by_cases hk : k' = k
    · rw [hk, get?_set_self, hv]
    · rw [get?_set_of_ne _ _ hk, get?_erase, if_neg hk]
  rw [← hperm, size_set _ (by rw [get?_erase, if_pos rfl])]

/-- Mark an entry as the one used last. -/
def touch (d : Dict κ ν) (k : κ) : Dict κ ν :=
  match d.get? k with
  | some v => (d.erase k).set k v
  | none => d

@[simp] theorem get?_touch (d : Dict κ ν) (k k' : κ) : (d.touch k).get? k' = d.get? k' := by
  unfold touch
  split
  · next v hv =>
    by_cases hk : k' = k
    · rw [hk, get?_set_self, hv]
    · rw [get?_set_of_ne _ _ hk, get?_erase, if_neg hk]
  · rfl

theorem size_touch (d : Dict κ ν) (k : κ) : (d.touch k).size = d.size :=
  size_eq_of_get?_eq fun k' => get?_touch d k k'

end Dict

/-! ## Ledgers -/

/-- Entries with their costs, and the total of the costs. -/
structure Ledger (κ : Type u) (ν : Type v) [DecidableEq κ] where
  entries : Dict κ ν
  costs : Dict κ ℕ
  retained : ℤ
  /-- What is held has a cost, and nothing else has. -/
  keyed : ∀ k, (costs.get? k).isSome = (entries.get? k).isSome
  /-- The total is the sum of the costs. -/
  accounted : retained = (costs.total (fun _ n => n) : ℕ)

namespace Ledger

/-- The ledger without an entry. -/
def empty : Ledger κ ν := ⟨Dict.empty, Dict.empty, 0, fun _ => rfl, rfl⟩

/-- Drop an entry. -/
def drop (l : Ledger κ ν) (k : κ) : Ledger κ ν :=
  match h : l.costs.get? k with
  | none => l
  | some n =>
    { entries := l.entries.erase k
      costs := l.costs.erase k
      retained := l.retained - n
      keyed := fun k' => by
        by_cases hk : k' = k
        · rw [Dict.get?_erase, Dict.get?_erase, if_pos hk, if_pos hk]
          rfl
        · rw [Dict.get?_erase, Dict.get?_erase, if_neg hk, if_neg hk]
          exact l.keyed k'
      accounted := by
        have hsum : l.costs.total (fun _ n => n) = n + (l.costs.erase k).total fun _ n => n :=
          Dict.total_erase_add _ h
        rw [l.accounted, hsum]
        push_cast
        ring }

/-- Enter what is not held yet. -/
def enter (l : Ledger κ ν) (k : κ) (v : ν) (cost : ℕ) (h : l.entries.get? k = none) : Ledger κ ν where
  entries := l.entries.set k v
  costs := l.costs.set k cost
  retained := l.retained + cost
  keyed k' := by
    by_cases hk : k' = k
    · rw [hk, Dict.get?_set_self, Dict.get?_set_self]
      rfl
    · rw [Dict.get?_set_of_ne _ _ hk, Dict.get?_set_of_ne _ _ hk]
      exact l.keyed k'
  accounted := by
    have hnone : l.costs.get? k = none := by
      rw [← Option.isNone_iff_eq_none, ← Option.not_isSome, l.keyed, h]
      rfl
    rw [Dict.total_set_of_new _ hnone, l.accounted]
    push_cast
    rfl

/-- Mark an entry as the one used last. -/
def touch (l : Ledger κ ν) (k : κ) : Ledger κ ν where
  entries := l.entries.touch k
  costs := l.costs
  retained := l.retained
  keyed k' := by rw [Dict.get?_touch, l.keyed]
  accounted := l.accounted

variable {l : Ledger κ ν} {k k' : κ} {v : ν}

@[simp] theorem get?_drop (l : Ledger κ ν) (k k' : κ) :
    (l.drop k).entries.get? k' = if k' = k then none else l.entries.get? k' := by
  unfold drop
  split
  · next h =>
    split
    · next hk =>
      rw [hk, ← Option.isNone_iff_eq_none, ← Option.not_isSome, ← l.keyed, h]
      rfl
    · rfl
  · exact Dict.get?_erase _ _ _

theorem held_of_drop (h : (l.drop k).entries.get? k' = some v) : l.entries.get? k' = some v := by
  rw [get?_drop] at h
  split at h
  · cases h
  · exact h

theorem size_drop (h : (l.entries.get? k).isSome) :
    (l.drop k).entries.size + 1 = l.entries.size := by
  unfold drop
  split
  · next hnone =>
    rw [← l.keyed, hnone] at h
    cases h
  · exact Dict.size_erase _ h

/-- Drop several entries. -/
def dropAll (l : Ledger κ ν) (ks : List κ) : Ledger κ ν := ks.foldl drop l

theorem held_of_dropAll {ks : List κ} (h : (l.dropAll ks).entries.get? k' = some v) :
    l.entries.get? k' = some v := by
  induction ks generalizing l with
  | nil => exact h
  | cons k ks ih => exact held_of_drop (ih h)

theorem drop_le (l : Ledger κ ν) (k : κ) :
    (l.drop k).entries.size ≤ l.entries.size ∧ (l.drop k).retained ≤ l.retained := by
  by_cases h : (l.entries.get? k).isSome
  · refine ⟨by have := size_drop h; omega, ?_⟩
    unfold drop
    split
    · exact le_rfl
    · exact sub_le_self _ (Int.natCast_nonneg _)
  · have hnone : l.costs.get? k = none := by
      rw [← Option.isNone_iff_eq_none, ← Option.not_isSome, l.keyed]
      simpa using h
    have hsame : l.drop k = l := by
      unfold drop
      split
      · rfl
      · next hsome =>
        rw [hnone] at hsome
        cases hsome
    rw [hsame]
    exact ⟨le_rfl, le_rfl⟩

theorem dropAll_le (l : Ledger κ ν) (ks : List κ) :
    (l.dropAll ks).entries.size ≤ l.entries.size ∧ (l.dropAll ks).retained ≤ l.retained := by
  induction ks generalizing l with
  | nil => exact ⟨le_rfl, le_rfl⟩
  | cons k ks ih => exact ⟨(ih _).1.trans (drop_le l k).1, (ih _).2.trans (drop_le l k).2⟩

/-- Whether the ledger is within its limits. -/
def Within (l : Ledger κ ν) (maxEntries maxBytes : ℕ) : Prop :=
  l.entries.size ≤ maxEntries ∧ l.retained ≤ maxBytes

instance (l : Ledger κ ν) (maxEntries maxBytes : ℕ) : Decidable (l.Within maxEntries maxBytes) :=
  inferInstanceAs (Decidable (_ ∧ _))

/-- Drop the entries that were not used for the longest time, until the rest is within
the limits. -/
def trim (maxEntries maxBytes : ℕ) : ℕ → Ledger κ ν → Ledger κ ν
  | 0, l => l
  | n + 1, l =>
      if l.Within maxEntries maxBytes then l
      else match l.entries.keys with
        | [] => l
        | k :: _ => trim maxEntries maxBytes n (l.drop k)

/-- An empty ledger is within any limits. -/
theorem within_of_size_eq_zero {maxEntries maxBytes : ℕ} (h : l.entries.size = 0) :
    l.Within maxEntries maxBytes := by
  refine ⟨by omega, ?_⟩
  have hcosts : l.costs.size = 0 := by
    unfold Dict.size at h ⊢
    rw [List.length_eq_zero_iff] at h ⊢
    refine List.eq_nil_iff_forall_not_mem.2 fun e he => ?_
    have hsome := l.keyed e.1
    rw [Dict.mem_entries_iff.1 he] at hsome
    unfold Dict.get? at hsome
    rw [h] at hsome
    cases hsome
  have hzero : l.costs.total (fun _ n => n) = 0 := by
    unfold Dict.size at hcosts
    unfold Dict.total
    rw [List.length_eq_zero_iff.1 hcosts]
    rfl
  rw [l.accounted, hzero]
  exact Int.natCast_nonneg _

theorem trim_within {maxEntries maxBytes n : ℕ} (h : l.entries.size ≤ n) :
    (trim maxEntries maxBytes n l).Within maxEntries maxBytes := by
  induction n generalizing l with
  | zero => exact within_of_size_eq_zero (Nat.le_zero.1 h)
  | succ n ih =>
      unfold trim
      split
      · assumption
      · split
        · next hkeys =>
          refine within_of_size_eq_zero ?_
          rw [← Dict.length_keys, hkeys]
          rfl
        · next k ks hkeys =>
          have hheld : (l.entries.get? k).isSome :=
            Dict.mem_keys.1 (hkeys ▸ List.mem_cons_self)
          have hsize := size_drop hheld
          exact ih (by omega)

theorem held_of_trim {maxEntries maxBytes n : ℕ}
    (h : (trim maxEntries maxBytes n l).entries.get? k = some v) :
    l.entries.get? k = some v := by
  induction n generalizing l with
  | zero => exact h
  | succ n ih =>
      unfold trim at h
      split at h
      · exact h
      · split at h
        · exact h
        · exact held_of_drop (ih h)

end Ledger

/-! ## Bounded caches -/

/-- A ledger within its limits. -/
structure Bounded (κ : Type u) (ν : Type v) [DecidableEq κ] where
  maxEntries : ℕ
  maxBytes : ℕ
  ledger : Ledger κ ν
  within : ledger.Within maxEntries maxBytes

namespace Bounded

/-- The cache that holds nothing. -/
def empty (maxEntries maxBytes : ℕ) : Bounded κ ν :=
  ⟨maxEntries, maxBytes, Ledger.empty, Ledger.within_of_size_eq_zero rfl⟩

/-- What is held under a key. -/
def get? (b : Bounded κ ν) (k : κ) : Option ν := b.ledger.entries.get? k

/-- Mark an entry as the one used last. -/
def touch (b : Bounded κ ν) (k : κ) : Bounded κ ν :=
  { b with
    ledger := b.ledger.touch k
    within := ⟨(Dict.size_touch _ _).trans_le b.within.1, b.within.2⟩ }

/-- Drop several entries. -/
def dropAll (b : Bounded κ ν) (ks : List κ) : Bounded κ ν :=
  { b with
    ledger := b.ledger.dropAll ks
    within := ⟨(Ledger.dropAll_le _ ks).1.trans b.within.1,
      (Ledger.dropAll_le _ ks).2.trans b.within.2⟩ }

/-- Put an entry in: what was held under its key goes, an entry that is too large is
refused, and what overflows is dropped. -/
def put (b : Bounded κ ν) (k : κ) (v : ν) (cost : ℕ) : Bounded κ ν :=
  if b.maxBytes < cost then b.dropAll [k]
  else
    let entered := (b.ledger.drop k).enter k v cost
      (by rw [Ledger.get?_drop, if_pos rfl])
    { b with
      ledger := Ledger.trim b.maxEntries b.maxBytes entered.entries.size entered
      within := Ledger.trim_within le_rfl }

variable {b : Bounded κ ν} {k k' : κ} {v w : ν} {cost : ℕ}

@[simp] theorem get?_touch (b : Bounded κ ν) (k k' : κ) : (b.touch k).get? k' = b.get? k' :=
  Dict.get?_touch _ _ _

theorem held_of_dropAll {ks : List κ} (h : (b.dropAll ks).get? k = some v) : b.get? k = some v :=
  Ledger.held_of_dropAll h

/-- **A cache forgets; it never makes up an entry.** -/
theorem held_of_put (h : (b.put k v cost).get? k' = some w) :
    k' = k ∧ w = v ∨ b.get? k' = some w := by
  unfold put at h
  split at h
  · exact Or.inr (held_of_dropAll h)
  · have hentered := Ledger.held_of_trim h
    by_cases hk : k' = k
    · left
      rw [hk] at hentered
      exact ⟨hk, (Option.some.inj ((Dict.get?_set_self _ _ _).symm.trans hentered)).symm⟩
    · right
      exact Ledger.held_of_drop ((Dict.get?_set_of_ne _ _ hk).symm.trans hentered)

theorem limits_put (b : Bounded κ ν) (k : κ) (v : ν) (cost : ℕ) :
    (b.put k v cost).maxEntries = b.maxEntries ∧ (b.put k v cost).maxBytes = b.maxBytes := by
  unfold put
  split <;> exact ⟨rfl, rfl⟩

/-- The total is the sum of what the held entries cost. -/
theorem retained_eq (b : Bounded κ ν) :
    b.ledger.retained = ((b.ledger.costs.values.sum : ℕ) : ℤ) := by
  rw [b.ledger.accounted, Dict.total_values, List.map_id']

/-- As many costs are kept as entries. -/
theorem mem_costs_iff (b : Bounded κ ν) (k : κ) :
    k ∈ b.ledger.costs.keys ↔ k ∈ b.ledger.entries.keys := by
  rw [Dict.mem_keys, Dict.mem_keys, b.ledger.keyed]

end Bounded

end Lib

import Mathlib

/-!
# Pages cut by count and continued by a key

A listing is shown in pages of `limit` rows, the ones with the greatest keys first, and the key of
the last row of a page is the cursor of the next one, which shows only rows with smaller keys.  The
rows that share the key of the last row of a page are shown in that page or in none.

* `pages`: the pages of some rows.
* `pages_subperm`, `pages_descending`: they show rows at most once, in order.
* `pages_perm_iff`: **they show every row** if and only if no cut falls between equal keys
  (`Apart`).
-/

namespace Lib.Paging

open List

variable {α κ : Type*} [LinearOrder κ] (key : α → κ) (order : List α → List α) (limit : ℕ)

/-- The pages of some rows: at most `n` of them. -/
def pages : ℕ → List α → List (List α)
  | 0, _ => []
  | n + 1, rows =>
      let shown := (order rows).take limit
      if limit < (order rows).length then
        match shown.getLast? with
        | none => [shown]
        | some last => shown :: pages n (rows.filter fun r => key r < key last)
      else [shown]

/-- Some rows with the greatest keys first. -/
def Descending (rows : List α) : Prop := rows.Pairwise fun a b => key b ≤ key a

/-- A way to put rows in the order of a listing. -/
structure Arranges : Prop where
  perm : ∀ rows, (order rows).Perm rows
  descending : ∀ rows, Descending key (order rows)

/-- The keys of some rows, the greatest first. -/
def keys (rows : List α) : List κ := (rows.map key).mergeSort fun a b => b ≤ a

/-- No cut after every `limit` keys falls between equal keys. -/
def Apart (ks : List κ) : Prop :=
  ∀ k, 0 < k → k * limit < ks.length → ks[k * limit - 1]? ≠ ks[k * limit]?

instance (ks : List κ) : Decidable (Apart limit ks) :=
  if hlimit : limit = 0 then
    decidable_of_iff (ks = []) (by
      subst hlimit
      constructor
      · rintro rfl k _ hlt
        exact absurd hlt (Nat.not_lt_zero _)
      · intro h
        by_contra hne
        exact h 1 Nat.one_pos (by simpa using List.length_pos_iff.2 hne) rfl)
  else
    decidable_of_iff (∀ k < ks.length, 0 < k → k * limit < ks.length →
        ks[k * limit - 1]? ≠ ks[k * limit]?) (by
      constructor
      · intro h k hk hlt
        exact h k (lt_of_le_of_lt (Nat.le_mul_of_pos_right k (Nat.pos_of_ne_zero hlimit)) hlt) hk hlt
      · exact fun h k _ hk hlt => h k hk hlt)

variable {key order limit} {rows : List α} {ks : List κ} {listed : List α} {n : ℕ}

/-! ## Keys in order -/

/-- Rows that are sorted by a key. -/
theorem mergeSort_descending (f : α → κ) (rows : List α) :
    (rows.mergeSort fun a b => decide (f b ≤ f a)).Pairwise fun a b => f b ≤ f a := by
  have htrans : ∀ a b c : α, decide (f b ≤ f a) = true → decide (f c ≤ f b) = true →
      decide (f c ≤ f a) = true := by
    intro a b c hab hbc
    rw [decide_eq_true_iff] at hab hbc ⊢
    exact hbc.trans hab
  have htotal : ∀ a b : α, (decide (f b ≤ f a) || decide (f a ≤ f b)) = true := by
    intro a b
    rw [Bool.or_eq_true, decide_eq_true_iff, decide_eq_true_iff]
    exact le_total (f b) (f a)
  exact (pairwise_mergeSort htrans htotal rows).imp of_decide_eq_true

/-- The keys of some rows in the order of the listing. -/
theorem map_order (h : Arranges key order) (rows : List α) :
    (order rows).map key = keys key rows := by
  have hsorted : ((order rows).map key).Pairwise fun a b => b ≤ a :=
    List.pairwise_map.2 (h.descending rows)
  have hkeys : (keys key rows).Pairwise fun a b => b ≤ a :=
    mergeSort_descending id (rows.map key)
  exact (((h.perm rows).map key).trans (mergeSort_perm _ _).symm).eq_of_pairwise' hsorted hkeys

theorem length_keys (rows : List α) : (keys key rows).length = rows.length := by
  unfold keys
  rw [length_mergeSort, length_map]

/-- The keys of the rows below a key are the last ones of the keys. -/
theorem keys_filter (h : Arranges key order) (rows : List α) (c : κ) :
    keys key (rows.filter fun r => key r < c) = (keys key rows).filter (· < c) := by
  rw [← map_order h, ← map_order h, filter_map]
  have hperm : (order (rows.filter fun r => key r < c)).Perm
      ((order rows).filter fun r => key r < c) :=
    (h.perm _).trans ((h.perm rows).symm.filter _)
  have hleft : ((order (rows.filter fun r => key r < c)).map key).Pairwise fun a b => b ≤ a :=
    List.pairwise_map.2 (h.descending _)
  have hright : (((order rows).filter fun r => key r < c).map key).Pairwise fun a b => b ≤ a :=
    List.pairwise_map.2 ((h.descending rows).sublist filter_sublist)
  exact (hperm.map key).eq_of_pairwise' hleft hright

/-! ## Cuts -/

omit [LinearOrder κ] in
/-- A cut after the first page, and the cuts after it. -/
theorem apart_iff (hlimit : 0 < limit) (hlt : limit < ks.length) :
    Apart limit ks ↔ ks[limit - 1]? ≠ ks[limit]? ∧ Apart limit (ks.drop limit) := by
  constructor
  · intro h
    refine ⟨by simpa using h 1 Nat.one_pos (by simpa using hlt), fun k hk hkn => ?_⟩
    rw [length_drop] at hkn
    have hpos : 1 ≤ k * limit := Nat.mul_pos hk hlimit
    have hcut := h (k + 1) (Nat.succ_pos k) (by rw [Nat.succ_mul]; omega)
    rw [Nat.succ_mul] at hcut
    rwa [List.getElem?_drop, List.getElem?_drop,
      show limit + (k * limit - 1) = k * limit + limit - 1 by omega, Nat.add_comm limit]
  · rintro ⟨hfirst, hrest⟩ k hk hkn
    rcases Nat.eq_or_lt_of_le hk with rfl | hk
    · simpa using hfirst
    · obtain ⟨j, rfl⟩ : ∃ j, k = j + 1 := ⟨k - 1, by omega⟩
      rw [Nat.succ_mul] at hkn ⊢
      have hpos : 1 ≤ j * limit := Nat.mul_pos (by omega) hlimit
      have hcut := hrest j (by omega) (by rw [length_drop]; omega)
      rwa [List.getElem?_drop, List.getElem?_drop,
        show limit + (j * limit - 1) = j * limit + limit - 1 by omega, Nat.add_comm limit] at hcut

/-- The keys below the last one of a page: all that are left where the cut is between different
keys, and fewer otherwise. -/
theorem filter_keys (hks : ks.Pairwise fun a b => b ≤ a) (hlimit : 0 < limit) {c : κ}
    (hc : ks[limit - 1]? = some c) :
    (ks[limit]? ≠ some c → ks.filter (· < c) = ks.drop limit) ∧
      (ks[limit]? = some c → (ks.filter (· < c)).length < (ks.drop limit).length) := by
  obtain ⟨hlast, hget⟩ := List.getElem?_eq_some_iff.1 hc
  have hfront : (ks.take limit).filter (· < c) = [] := by
    rw [filter_eq_nil_iff]
    intro x hx
    obtain ⟨i, hi, rfl⟩ := List.mem_iff_getElem.1 hx
    rw [length_take] at hi
    rw [getElem_take, decide_eq_true_iff, not_lt, ← hget]
    rcases Nat.eq_or_lt_of_le (show i ≤ limit - 1 by omega) with rfl | hlt
    · exact le_refl _
    · exact List.pairwise_iff_getElem.1 hks _ _ _ _ hlt
  have hsplit : ks.filter (· < c) = (ks.drop limit).filter (· < c) := by
    conv_lhs => rw [← take_append_drop limit ks]
    rw [filter_append, hfront, nil_append]
  constructor
  · intro hne
    rw [hsplit, filter_eq_self]
    intro x hx
    obtain ⟨i, hi, rfl⟩ := List.mem_iff_getElem.1 hx
    rw [length_drop] at hi
    rw [getElem_drop, decide_eq_true_iff]
    have hle : ks[limit + i] ≤ ks[limit] := by
      rcases Nat.eq_zero_or_pos i with rfl | hpos
      · exact le_refl _
      · exact List.pairwise_iff_getElem.1 hks _ _ _ _ (by omega)
    refine lt_of_le_of_lt hle (lt_of_le_of_ne ?_ fun heq => hne ?_)
    · rw [← hget]
      exact List.pairwise_iff_getElem.1 hks _ _ _ _ (by omega)
    · rw [List.getElem?_eq_getElem (by omega), heq]
  · intro heq
    obtain ⟨hlt, hgetc⟩ := List.getElem?_eq_some_iff.1 heq
    rw [hsplit]
    refine List.length_filter_lt_length_iff_exists.2 ⟨c, ?_, by simp⟩
    rw [← hgetc]
    exact List.mem_iff_getElem.2 ⟨0, by rw [length_drop]; omega, by simp⟩

/-! ## What is shown -/

theorem pages_succ (n : ℕ) (rows : List α) : pages key order limit (n + 1) rows =
    if limit < (order rows).length then
      match ((order rows).take limit).getLast? with
      | none => [(order rows).take limit]
      | some last => (order rows).take limit ::
          pages key order limit n (rows.filter fun r => key r < key last)
    else [(order rows).take limit] := rfl

/-- The last row of a full page. -/
theorem exists_last (hlimit : 0 < limit) (hlt : limit < listed.length) :
    ∃ last, (listed.take limit).getLast? = some last ∧ listed[limit - 1]? = some last := by
  have hget : (listed.take limit)[limit - 1]? = listed[limit - 1]? :=
    List.getElem?_take_of_lt (by omega)
  refine ⟨listed[limit - 1], ?_, List.getElem?_eq_getElem _⟩
  rw [List.getLast?_eq_getElem?, length_take, Nat.min_eq_left hlt.le, hget,
    List.getElem?_eq_getElem]

/-- The rows of a page have no smaller key than its last row. -/
theorem le_of_mem_page (hlisted : Descending key listed) (hlimit : 0 < limit) {last r : α}
    (hlast : listed[limit - 1]? = some last) (hr : r ∈ listed.take limit) : key last ≤ key r := by
  obtain ⟨hlt, rfl⟩ := List.getElem?_eq_some_iff.1 hlast
  obtain ⟨i, hi, rfl⟩ := List.mem_iff_getElem.1 hr
  rw [length_take] at hi
  rw [getElem_take]
  rcases Nat.eq_or_lt_of_le (show i ≤ limit - 1 by omega) with rfl | hlt
  · exact le_refl _
  · exact List.pairwise_iff_getElem.1 hlisted _ _ _ _ hlt

section

variable (h : Arranges key order) (hlimit : 0 < limit)

include h hlimit

/-- **No row is shown twice**, and none that is not there. -/
theorem pages_subperm (n : ℕ) (rows : List α) : (pages key order limit n rows).flatten.Subperm rows := by
  induction n generalizing rows with
  | zero => exact nil_subperm
  | succ n ih =>
    have hpage : ((order rows).take limit).Subperm rows :=
      (take_sublist _ _).subperm.trans (h.perm rows).subperm
    rw [pages_succ]
    split
    next hlt =>
      obtain ⟨last, hlast, hget⟩ := exists_last hlimit hlt
      rw [hlast]
      -- the page has rows at or above the last key, the pages after it have rows below
      have hfront : ((order rows).take limit).Subperm (rows.filter fun r => !decide (key r < key last)) := by
        have hself : ((order rows).take limit).filter (fun r => !decide (key r < key last)) =
            (order rows).take limit :=
          List.filter_eq_self.2 fun r hr => by
            simpa using le_of_mem_page (h.descending rows) hlimit hget hr
        rw [← hself]
        exact hpage.filter _
      have happend := hfront.append (ih (rows.filter fun r => key r < key last))
      refine happend.trans (List.Perm.subperm ?_)
      exact List.perm_append_comm.trans (filter_append_perm _ rows)
    next =>
      rw [flatten_singleton]
      exact hpage

/-- **The rows are shown in order**: the greatest keys first. -/
theorem pages_descending (n : ℕ) (rows : List α) :
    Descending key (pages key order limit n rows).flatten := by
  induction n generalizing rows with
  | zero => exact .nil
  | succ n ih =>
    have hpage : Descending key ((order rows).take limit) :=
      (h.descending rows).sublist (take_sublist _ _)
    rw [pages_succ]
    split
    next hlt =>
      obtain ⟨last, hlast, hget⟩ := exists_last hlimit hlt
      rw [hlast]
      refine List.pairwise_append.2 ⟨hpage, ih _, fun a ha b hb => ?_⟩
      have hmem := (pages_subperm h hlimit n _).subset hb
      have hbelow : key b < key last := of_decide_eq_true (List.mem_filter.1 hmem).2
      exact hbelow.le.trans (le_of_mem_page (h.descending rows) hlimit hget ha)
    next =>
      rw [flatten_singleton]
      exact hpage

/-- How many rows are shown. -/
theorem length_pages_iff (hn : rows.length < n) :
    (pages key order limit n rows).flatten.length = rows.length ↔ Apart limit (keys key rows) := by
  induction n generalizing rows with
  | zero => exact absurd hn (Nat.not_lt_zero _)
  | succ n ih =>
    have hlength : (order rows).length = rows.length := (h.perm rows).length_eq
    have hkeys : (keys key rows).Pairwise fun a b => b ≤ a := by
      rw [← map_order h]
      exact List.pairwise_map.2 (h.descending rows)
    rw [pages_succ]
    split
    next hlt =>
      obtain ⟨last, hlast, hget⟩ := exists_last hlimit hlt
      have hc : (keys key rows)[limit - 1]? = some (key last) := by
        rw [← map_order h, List.getElem?_map, hget]
        rfl
      rw [hlength] at hlt
      have hltk : limit < (keys key rows).length := by rwa [length_keys]
      have hbelow : (rows.filter fun r => key r < key last).length =
          ((keys key rows).filter (· < key last)).length := by
        rw [← keys_filter h, length_keys]
      obtain ⟨hnext, hlost⟩ := filter_keys hkeys hlimit hc
      rw [hlast, flatten_cons, length_append, length_take, hlength,
        Nat.min_eq_left hlt.le, apart_iff hlimit hltk, hc]
      by_cases hcut : (keys key rows)[limit]? = some (key last)
      · -- rows with the key of the cut are lost
        have hless := hlost hcut
        have hsub := (pages_subperm h hlimit n (rows.filter fun r => key r < key last)).length_le
        rw [length_drop, length_keys] at hless
        refine iff_of_false ?_ fun hboth => hboth.1 hcut.symm
        omega
      · have hdrop := hnext hcut
        rw [hdrop, length_drop, length_keys] at hbelow
        have hrec := ih (show (rows.filter fun r => key r < key last).length < n by omega)
        rw [keys_filter h, hdrop, hbelow] at hrec
        rw [and_iff_right fun heq => hcut heq.symm, ← hrec]
        omega
    next hle =>
      rw [flatten_singleton, length_take, hlength]
      rw [hlength] at hle
      refine iff_of_true (by omega) fun k hk hkn => ?_
      rw [length_keys] at hkn
      have : limit ≤ k * limit := Nat.le_mul_of_pos_left limit hk
      omega

/-- **Every row is shown just once** if and only if no cut falls between equal keys. -/
theorem pages_perm_iff (hn : rows.length < n) :
    (pages key order limit n rows).flatten.Perm rows ↔ Apart limit (keys key rows) := by
  rw [← length_pages_iff h hlimit hn]
  exact ⟨fun hperm => hperm.length_eq, fun hlength =>
    (pages_subperm h hlimit n rows).perm_of_length_le hlength.ge⟩

end

end Lib.Paging

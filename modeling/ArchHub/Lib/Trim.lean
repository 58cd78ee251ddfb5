import ArchHub.Lib.Rows

/-!
# Tables of bounded length

A table that is trimmed after each row that enters it: while it has more than `n` rows, those
that come first in an order are deleted by their keys.

* `trim`: at most `n` rows.
* `enter`: `INSERT OR REPLACE`, and then `trim`.
* `enter_keeps`: what is in the table stays in it, or the table is full.
-/

namespace Lib.Rows

open List

universe u v w

variable {ρ : Type u} {κ : Type v} [DecidableEq κ] {key : ρ → κ} {β : Type w} [LinearOrder β]
  {f : ρ → β} {n : ℕ} {rows : List ρ} {r e : ρ}

/-- `DELETE WHERE key IN (SELECT key ORDER BY f LIMIT COUNT(*) - n)`. -/
def trim (key : ρ → κ) (f : ρ → β) (n : ℕ) (rows : List ρ) : List ρ :=
  let surplus := (orderBy f rows).take (rows.length - n)
  rows.filter fun r => key r ∉ surplus.map key

theorem trim_sublist : (trim key f n rows).Sublist rows := filter_sublist

/-- A table that is short enough stays. -/
theorem trim_of_le (h : rows.length ≤ n) : trim key f n rows = rows := by
  unfold trim
  rw [Nat.sub_eq_zero_of_le h]
  exact List.filter_eq_self.2 fun r _ => by simp

/-- The rows under the keys of a part of the table are that part. -/
theorem length_filter_keys (hnodup : (rows.map key).Nodup) (part rest : List ρ)
    (hperm : (part ++ rest).Perm rows) :
    (rows.filter fun r => key r ∈ part.map key).length = part.length := by
  have hkeys : ((part ++ rest).map key).Nodup := ((hperm.map key).nodup_iff).2 hnodup
  rw [map_append, nodup_append] at hkeys
  obtain ⟨-, -, hapart⟩ := hkeys
  have hpart : (part.filter fun r => key r ∈ part.map key) = part :=
    List.filter_eq_self.2 fun r hr => decide_eq_true (mem_map_of_mem hr)
  have hrest : (rest.filter fun r => key r ∈ part.map key) = [] :=
    List.filter_eq_nil_iff.2 fun r hr hmem =>
      hapart (key r) (of_decide_eq_true hmem) (key r) (mem_map_of_mem hr) rfl
  rw [← (hperm.filter _).length_eq, filter_append, hpart, hrest, append_nil]

/-- A table that is too long is cut to its length. -/
theorem length_trim (hnodup : (rows.map key).Nodup) :
    (trim key f n rows).length = min rows.length n := by
  have htaken := length_filter_keys hnodup ((orderBy f rows).take (rows.length - n))
    ((orderBy f rows).drop (rows.length - n))
    (by rw [take_append_drop]; exact perm_orderBy f rows)
  have hlength : ((orderBy f rows).take (rows.length - n)).length = rows.length - n := by
    rw [length_take, (perm_orderBy f rows).length_eq]
    omega
  unfold trim
  dsimp only
  generalize (orderBy f rows).take (rows.length - n) = surplus at htaken hlength ⊢
  have hsplit := length_eq_countP_add_countP (fun r => decide (key r ∈ surplus.map key)) (l := rows)
  rw [← countP_eq_length_filter] at htaken ⊢
  simp only [decide_eq_true_eq, decide_not] at hsplit htaken ⊢
  omega

/-- `INSERT OR REPLACE`, and then at most `n` rows. -/
def enter (key : ρ → κ) (f : ρ → β) (n : ℕ) (r : ρ) (rows : List ρ) : List ρ :=
  trim key f n (delete key (key r) rows ++ [r])

section

variable (hnodup : (rows.map key).Nodup)

include hnodup

/-- A row replaces the one under its key. -/
theorem nodup_replace : ((delete key (key r) rows ++ [r]).map key).Nodup := by
  rw [map_append, nodup_append]
  refine ⟨hnodup.sublist (List.filter_sublist.map _), nodup_singleton _, ?_⟩
  intro a ha b hb hab
  obtain ⟨x, hx, rfl⟩ := List.mem_map.1 ha
  have hne : key x ≠ key r := of_decide_eq_true (List.mem_filter.1 hx).2
  exact hne (hab.trans (List.mem_singleton.1 hb))

theorem nodup_enter : ((enter key f n r rows).map key).Nodup :=
  (nodup_replace hnodup).sublist (trim_sublist.map _)

/-- What is trimmed was there, or the table is full. -/
theorem trim_keeps (he : e ∈ rows) : e ∈ trim key f n rows ∨ n ≤ (trim key f n rows).length := by
  by_cases hlength : rows.length ≤ n
  · rw [trim_of_le hlength]
    exact Or.inl he
  · rw [length_trim hnodup]
    exact Or.inr (le_min (by omega) le_rfl)

/-- The row that enters is in the table, or the table is full. -/
theorem enter_enters : r ∈ enter key f n r rows ∨ n ≤ (enter key f n r rows).length :=
  trim_keeps (nodup_replace hnodup) (mem_append_right _ (mem_singleton_self r))

/-- **What is in the table stays in it, or the table is full**, when another row enters. -/
theorem enter_keeps (he : e ∈ rows) (hne : key e ≠ key r) :
    e ∈ enter key f n r rows ∨ n ≤ (enter key f n r rows).length :=
  trim_keeps (nodup_replace hnodup) (mem_append_left _ (List.mem_filter.2 ⟨he, decide_eq_true hne⟩))

/-- A full table stays full. -/
theorem length_enter (h : n ≤ rows.length) : n ≤ (enter key f n r rows).length := by
  have hdelete : rows.length ≤ (delete key (key r) rows).length + 1 := by
    have hsplit := length_eq_countP_add_countP (fun x => decide (key x = key r)) (l := rows)
    have hone : rows.countP (fun x => decide (key x = key r)) ≤ 1 := by
      have hcount := List.nodup_iff_count_le_one.1 hnodup (key r)
      rw [List.count, countP_map] at hcount
      refine le_trans (le_of_eq ?_) hcount
      exact countP_congr fun x _ => by simp
    unfold delete
    rw [← countP_eq_length_filter]
    simp only [decide_eq_true_eq, decide_not, ne_eq] at hsplit ⊢
    omega
  unfold enter
  rw [length_trim (nodup_replace hnodup), length_append, length_singleton]
  exact le_min (by omega) le_rfl

end

end Lib.Rows

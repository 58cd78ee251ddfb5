import Mathlib

/-!
# Versions

What was written for a key at each of a run of revisions, and what the key holds at a
revision: the version written last.  Nothing written later is seen, and one version that
is put in is seen from its revision on, up to the next version of its key.
-/

namespace Lib

universe u v

/-- What was written for a key at a revision. -/
abbrev Versions (κ : Type u) (ν : Type v) := ℕ → κ → Option ν

namespace Versions

variable {κ : Type u} {ν : Type v} {V W : Versions κ ν} {k : κ} {r s : ℕ} {v : ν}

/-- What a key holds at a revision. -/
def latest (V : Versions κ ν) : ℕ → κ → Option ν
  | 0, k => V 0 k
  | r + 1, k => (V (r + 1) k).or (latest V r k)

theorem latest_succ (V : Versions κ ν) (r : ℕ) (k : κ) :
    latest V (r + 1) k = (V (r + 1) k).or (latest V r k) := rfl

/-- Nothing that is written later is seen. -/
theorem latest_congr (h : ∀ s ≤ r, V s k = W s k) : latest V r k = latest W r k := by
  induction r with
  | zero => exact h 0 le_rfl
  | succ r ih =>
      rw [latest_succ, latest_succ, h (r + 1) le_rfl, ih fun s hs => h s (Nat.le_succ_of_le hs)]

/-- What a key holds is seen until it is written again. -/
theorem latest_eq_of_none (hle : s ≤ r) (h : ∀ t, s < t → t ≤ r → V t k = none) :
    latest V r k = latest V s k := by
  induction r with
  | zero => rw [Nat.le_zero.1 hle]
  | succ r ih =>
      rcases Nat.lt_or_eq_of_le hle with hlt | rfl
      · rw [latest_succ, h (r + 1) hlt le_rfl, Option.none_or]
        exact ih (Nat.le_of_lt_succ hlt) fun t hst htr => h t hst (Nat.le_succ_of_le htr)
      · rfl

theorem latest_of_some (h : V r k = some v) : latest V r k = some v := by
  cases r with
  | zero => exact h
  | succ r => rw [latest_succ, h, Option.some_or]

/-- What a key holds was written for it. -/
theorem exists_of_latest (h : latest V r k = some v) : ∃ s ≤ r, V s k = some v := by
  induction r with
  | zero => exact ⟨0, le_rfl, h⟩
  | succ r ih =>
      rw [latest_succ, Option.or_eq_some_iff] at h
      rcases h with h | ⟨-, h⟩
      · exact ⟨r + 1, le_rfl, h⟩
      · obtain ⟨s, hs, hv⟩ := ih h
        exact ⟨s, Nat.le_succ_of_le hs, hv⟩

theorem latest_eq_none (h : ∀ s ≤ r, V s k = none) : latest V r k = none := by
  by_contra hsome
  obtain ⟨v, hv⟩ := Option.ne_none_iff_exists'.1 hsome
  obtain ⟨s, hs, hwritten⟩ := exists_of_latest hv
  rw [h s hs] at hwritten
  cases hwritten

/-- The versions without those of some keys. -/
theorem latest_dropped [DecidableEq κ] {ks : List κ}
    (h : ∀ s x, W s x = if x ∈ ks then none else V s x) (r : ℕ) (x : κ) :
    latest W r x = if x ∈ ks then none else latest V r x := by
  split
  · next hx => exact latest_eq_none fun s _ => (h s x).trans (if_pos hx)
  · next hx => exact latest_congr fun s _ => (h s x).trans (if_neg hx)

/-! ## One version put in -/

section Put

variable [DecidableEq κ] {x : κ}

/-- The versions with one put in. -/
def put (V : Versions κ ν) (s : ℕ) (k : κ) (v : ν) : Versions κ ν := fun t x =>
  if t = s ∧ x = k then some v else V t x

theorem latest_put_other (h : x ≠ k ∨ r < s) : latest (put V s k v) r x = latest V r x := by
  refine latest_congr fun t ht => if_neg ?_
  rintro ⟨rfl, rfl⟩
  rcases h with h | h
  · exact h rfl
  · omega

/-- A version that is put in is seen up to the next one. -/
theorem latest_put_seen (hle : s ≤ r) (h : ∀ t, s < t → t ≤ r → V t k = none) :
    latest (put V s k v) r k = some v := by
  have hnone : ∀ t, s < t → t ≤ r → put V s k v t k = none := fun t hst htr =>
    (if_neg (by omega)).trans (h t hst htr)
  rw [latest_eq_of_none hle hnone]
  exact latest_of_some (if_pos ⟨rfl, rfl⟩)

/-- The next version hides it. -/
theorem latest_put_hidden {t : ℕ} (hst : s < t) (htr : t ≤ r) (h : (V t k).isSome) :
    latest (put V s k v) r k = latest V r k := by
  induction r with
  | zero => omega
  | succ r ih =>
      have hother : put V s k v (r + 1) k = V (r + 1) k := if_neg (by omega)
      rw [latest_succ, latest_succ, hother]
      rcases Nat.lt_or_eq_of_le htr with hlt | heq
      · rw [ih (Nat.le_of_lt_succ hlt)]
      · rw [heq] at h
        obtain ⟨w, hw⟩ := Option.isSome_iff_exists.1 h
        rw [hw, Option.some_or, Option.some_or]

end Put

/-! ## What a key held before a revision -/

/-- What a key holds just before a revision. -/
def before (V : Versions κ ν) : ℕ → κ → Option ν
  | 0, _ => none
  | r + 1, k => latest V r k

theorem before_succ (V : Versions κ ν) (r : ℕ) (k : κ) :
    before V (r + 1) k = (V r k).or (before V r k) := by
  cases r with
  | zero => exact (Option.or_none).symm
  | succ r => rfl

theorem latest_eq_before (V : Versions κ ν) (r : ℕ) (k : κ) :
    latest V r k = (V r k).or (before V r k) := before_succ V r k

end Versions

end Lib

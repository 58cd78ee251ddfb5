import Mathlib
import ArchHub.Lib.Dict

/-!
# Sums over a dictionary

The total of a dictionary is the sum of what its entries weigh.  It does not look at the
order of the entries, and one assignment or deletion moves it by what the one key gains
and loses: this is what lets a total be kept up to date instead of being summed up anew.

* `total_congr`: dictionaries that denote the same function have the same total.
* `total_erase`, `total_set`, `total_update`: what an operation does to the total.
-/

namespace Lib

open List

universe u v w

variable {κ : Type u} {ν : Type v} {A : Type w} [DecidableEq κ] {es : List (κ × ν)}

theorem Assoc.sum_drop [AddCommMonoid A] (f : κ → ν → A) (hnodup : (es.map Prod.fst).Nodup) {k : κ}
    {v : ν} (h : Assoc.find es k = some v) :
    (es.map fun e => f e.1 e.2).sum = f k v + ((Assoc.drop es k).map fun e => f e.1 e.2).sum := by
  induction es with
  | nil => cases h
  | cons e es ih =>
      rw [map_cons, nodup_cons] at hnodup
      rw [Assoc.find_cons] at h
      rw [map_cons, sum_cons]
      unfold Assoc.drop
      by_cases hk : e.1 = k
      · rw [if_pos hk, Option.some.injEq] at h
        have hrest : es.filter (fun e => e.1 ≠ k) = es := by
          rw [filter_eq_self]
          intro e' he'
          have hne : e'.1 ≠ k := fun heq => hnodup.1 (List.mem_map.2 ⟨e', he', heq.trans hk.symm⟩)
          simpa using hne
        rw [filter_cons_of_neg (by simp [hk]), hrest, h, hk]
      · rw [if_neg hk] at h
        rw [filter_cons_of_pos (by simp [hk]), map_cons, sum_cons, ih hnodup.2 h,
          add_left_comm]
        rfl

/-- What there may be weighs. -/
def weigh [Zero A] (f : ν → A) (o : Option ν) : A := o.elim 0 f

@[simp] theorem weigh_none [Zero A] (f : ν → A) : weigh f none = 0 := rfl

@[simp] theorem weigh_some [Zero A] (f : ν → A) (v : ν) : weigh f (some v) = f v := rfl

namespace Dict

/-- The sum of what the entries weigh. -/
def total [AddCommMonoid A] (f : κ → ν → A) (d : Dict κ ν) : A :=
  (d.entries.map fun e => f e.1 e.2).sum

section Monoid

variable [AddCommMonoid A] (f : κ → ν → A) {d e : Dict κ ν} {k : κ} {v : ν}

omit [DecidableEq κ] in
/-- Where the keys weigh nothing. -/
theorem total_values (g : ν → A) (d : Dict κ ν) : d.total (fun _ => g) = (d.values.map g).sum := by
  unfold total values
  rw [map_map]
  rfl

/-- **The total does not look at the order.** -/
theorem total_congr (h : ∀ k, d.get? k = e.get? k) : d.total f = e.total f := by
  unfold total
  exact ((perm_of_get?_eq h).map _).sum_eq

theorem total_erase_add (h : d.get? k = some v) : d.total f = f k v + (d.erase k).total f := by
  unfold total
  exact Assoc.sum_drop f d.nodup h

theorem total_set_of_new (h : d.get? k = none) (v : ν) :
    (d.set k v).total f = d.total f + f k v := by
  have hentries := entries_set_of_new h v
  unfold total
  rw [hentries, map_append, sum_append]
  simp

end Monoid

section Group

variable [AddCommGroup A] (f : κ → ν → A)

/-- What a deletion takes from the total. -/
theorem total_erase (d : Dict κ ν) (k : κ) :
    (d.erase k).total f = d.total f - weigh (f k) (d.get? k) := by
  cases h : d.get? k with
  | none =>
      have hsame : ∀ k', (d.erase k).get? k' = d.get? k' := by
        intro k'
        rw [get?_erase]
        split
        · next hk => rw [hk, h]
        · rfl
      rw [total_congr f hsame, weigh_none, sub_zero]
  | some v =>
      rw [total_erase_add f h, weigh_some, add_sub_cancel_left]

/-- What an assignment does to the total. -/
theorem total_set (d : Dict κ ν) (k : κ) (v : ν) :
    (d.set k v).total f = d.total f - weigh (f k) (d.get? k) + f k v := by
  have hsame : ∀ k', (d.set k v).get? k' = ((d.erase k).set k v).get? k' := by
    intro k'
    rw [get?_set, get?_set, get?_erase]
    split <;> rfl
  have hnone : (d.erase k).get? k = none := by rw [get?_erase, if_pos rfl]
  rw [total_congr f hsame, total_set_of_new f hnone, total_erase]

/-- **What an update does to the total**: it takes what was there and adds what is. -/
theorem total_update (d : Dict κ ν) (h : (es.map Prod.fst).Nodup) :
    (d.update es).total f =
      d.total f - (es.map fun e => weigh (f e.1) (d.get? e.1)).sum
        + (es.map fun e => f e.1 e.2).sum := by
  induction es generalizing d with
  | nil => simp
  | cons e es ih =>
      rw [map_cons, nodup_cons] at h
      have hother : (es.map fun e' => weigh (f e'.1) ((d.set e.1 e.2).get? e'.1)) =
          es.map fun e' => weigh (f e'.1) (d.get? e'.1) := by
        refine map_congr_left fun e' he' => ?_
        have hne : e'.1 ≠ e.1 := fun heq => h.1 (List.mem_map.2 ⟨e', he', heq⟩)
        rw [get?_set_of_ne _ _ hne]
      rw [update_cons, ih _ h.2, hother, total_set]
      simp only [map_cons, sum_cons]
      abel

/-- What the deletion of some keys takes from the total. -/
theorem total_of_dropped {d e : Dict κ ν} {ks : List κ} (hnodup : ks.Nodup)
    (h : ∀ k, e.get? k = if k ∈ ks then none else d.get? k) :
    e.total f = d.total f - (ks.map fun k => weigh (f k) (d.get? k)).sum := by
  induction ks generalizing d with
  | nil =>
      rw [map_nil, sum_nil, sub_zero]
      exact total_congr f fun k => by rw [h k, if_neg (not_mem_nil)]
  | cons k ks ih =>
      obtain ⟨hk, hks⟩ := List.nodup_cons.1 hnodup
      have hrest : ∀ k', e.get? k' = if k' ∈ ks then none else (d.erase k).get? k' := by
        intro k'
        rw [h k', get?_erase]
        by_cases heq : k' = k
        · rw [if_pos (heq ▸ mem_cons_self), if_pos heq, ite_self]
        · rw [if_neg heq]
          simp [heq]
      have hsame : (ks.map fun k' => weigh (f k') ((d.erase k).get? k')) =
          ks.map fun k' => weigh (f k') (d.get? k') := by
        refine map_congr_left fun k' hk' => ?_
        have hne : k' ≠ k := by
          rintro rfl
          exact hk hk'
        rw [get?_erase, if_neg hne]
      rw [ih hks hrest, hsame, total_erase, map_cons, sum_cons, sub_sub]

end Group

end Dict

end Lib

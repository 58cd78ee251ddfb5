import Mathlib

/-!
# The newest of a list

`newest f k xs` is what `ORDER BY f DESC LIMIT k` answers: the list from the
greatest key down, cut behind `k` elements.  Keys are without repetition, so
the order is the only one (`eq_newestFirst`).

A bounded answer may be put together from bounded answers.  The `k` newest of a
union are found among the `k` newest of each branch (`newest_union`), however
the branches overlap.
-/

namespace Lib

open List

namespace Newest

universe u v

variable {α : Type u} {β : Type v} [LinearOrder β] {f : α → β} {xs ys : List α} {k : ℕ}

/-- A list from the greatest key down. -/
def newestFirst (f : α → β) (xs : List α) : List α := xs.insertionSort fun a b => f b ≤ f a

/-- The `k` elements of greatest key. -/
def newest (f : α → β) (k : ℕ) (xs : List α) : List α := (newestFirst f xs).take k

theorem perm_newestFirst (f : α → β) (xs : List α) : (newestFirst f xs).Perm xs :=
  perm_insertionSort _ xs

@[simp] theorem mem_newestFirst {a : α} : a ∈ newestFirst f xs ↔ a ∈ xs :=
  (perm_newestFirst f xs).mem_iff

theorem mem_of_mem_newest {a : α} (h : a ∈ newest f k xs) : a ∈ xs :=
  mem_newestFirst.1 (mem_of_mem_take h)

/-- The keys fall. -/
theorem pairwise_newestFirst (f : α → β) (xs : List α) :
    (newestFirst f xs).Pairwise fun a b => f b ≤ f a := by
  have htotal : Std.Total fun a b : α => f b ≤ f a := ⟨fun a b => le_total (f b) (f a)⟩
  have htrans : IsTrans α fun a b : α => f b ≤ f a := ⟨fun _ _ _ hab hbc => hbc.trans hab⟩
  exact pairwise_insertionSort _ xs

/-- Keys without repetition fall strictly. -/
theorem strict_newestFirst (h : (xs.map f).Nodup) :
    (newestFirst f xs).Pairwise fun a b => f b < f a := by
  have hkeys : ((newestFirst f xs).map f).Nodup := ((perm_newestFirst f xs).map f).nodup_iff.2 h
  have hne : (newestFirst f xs).Pairwise fun a b => f a ≠ f b := List.pairwise_map.1 hkeys
  exact ((pairwise_newestFirst f xs).and hne).imp fun hab => lt_of_le_of_ne hab.1 (Ne.symm hab.2)

/-- A list whose keys fall is the only such one of its elements. -/
theorem eq_newestFirst (hys : ys.Pairwise fun a b => f b < f a) (hperm : ys.Perm xs) :
    ys = newestFirst f xs := by
  have hkeys : (xs.map f).Nodup := by
    have hne : ys.Pairwise fun a b => f a ≠ f b := hys.imp fun hab => ne_of_gt hab
    exact (hperm.map f).nodup_iff.1 (List.pairwise_map.2 hne)
  have hanti : ∀ a b, a ∈ ys → b ∈ newestFirst f xs → f b < f a → f a < f b → a = b :=
    fun _ _ _ _ hab hba => absurd hab (lt_asymm hba)
  exact List.Perm.eq_of_pairwise hanti hys (strict_newestFirst hkeys)
    (hperm.trans (perm_newestFirst f xs).symm)

/-- The order does not look at the order before. -/
theorem newestFirst_perm (h : (xs.map f).Nodup) (hperm : xs.Perm ys) :
    newestFirst f xs = newestFirst f ys :=
  eq_newestFirst (strict_newestFirst h) ((perm_newestFirst f xs).trans hperm)

/-- A selection keeps the order. -/
theorem newestFirst_filter (h : (xs.map f).Nodup) (p : α → Bool) :
    newestFirst f (xs.filter p) = (newestFirst f xs).filter p := by
  have hsorted := (strict_newestFirst h).sublist
    (filter_sublist : ((newestFirst f xs).filter p).Sublist _)
  exact (eq_newestFirst hsorted ((perm_newestFirst f xs).filter p)).symm

/-- The keys of a list are in the order of the list. -/
theorem newestFirst_map (h : (xs.map f).Nodup) :
    newestFirst id (xs.map f) = (newestFirst f xs).map f := by
  have hsorted : ((newestFirst f xs).map f).Pairwise fun a b => id b < id a :=
    List.pairwise_map.2 (strict_newestFirst h)
  exact (eq_newestFirst hsorted ((perm_newestFirst f xs).map f)).symm

/-! ## Unions -/

variable {S T : List β}

omit [LinearOrder β] in
/-- A selection of a list that loses none of its first elements has the same
first elements. -/
theorem take_filter (p : β → Bool) (L : List β) (h : ∀ x ∈ L.take k, p x = true) :
    (L.filter p).take k = L.take k := by
  have hsplit : L.filter p = L.take k ++ (L.drop k).filter p := by
    calc L.filter p = (L.take k ++ L.drop k).filter p := by rw [take_append_drop]
      _ = (L.take k).filter p ++ (L.drop k).filter p := filter_append ..
      _ = L.take k ++ (L.drop k).filter p := by rw [List.filter_eq_self.2 h]
  rw [hsplit]
  by_cases hk : k ≤ L.length
  · have hlength : (L.take k).length = k := by rw [length_take, Nat.min_eq_left hk]
    exact take_left' hlength
  · have hnone : L.drop k = [] := drop_eq_nil_of_le (by omega)
    rw [hnone, filter_nil, append_nil, take_take, Nat.min_self]

/-- The order of a part of a list is that of the list. -/
theorem newestFirst_of_subset (hT : T.Nodup) (hS : S.Nodup) (hsub : ∀ x ∈ T, x ∈ S) :
    newestFirst id T = (newestFirst id S).filter fun x => decide (x ∈ T) := by
  have hperm : T.Perm (S.filter fun x => decide (x ∈ T)) := by
    rw [perm_ext_iff_of_nodup hT (hS.filter _)]
    intro x
    simp only [mem_filter, decide_eq_true_eq]
    exact ⟨fun hx => ⟨hsub x hx, hx⟩, fun hx => hx.2⟩
  rw [← newestFirst_filter (by simpa using hS)]
  have hsorted := @strict_newestFirst _ _ _ id T (by simpa using hT)
  exact eq_newestFirst hsorted ((perm_newestFirst id T).trans hperm)

/-- **A part of a list that has the newest of it has the same newest.** -/
theorem newest_of_subset (hT : T.Nodup) (hS : S.Nodup) (hsub : ∀ x ∈ T, x ∈ S)
    (hnewest : ∀ x ∈ newest id k S, x ∈ T) : newest id k T = newest id k S := by
  unfold newest
  rw [newestFirst_of_subset hT hS hsub]
  exact take_filter _ _ fun x hx => decide_eq_true (hnewest x hx)

/-- What is among the newest of a list is among the newest of every part of it
that has it. -/
theorem mem_newest_of_subset (hT : T.Nodup) (hS : S.Nodup) (hsub : ∀ x ∈ T, x ∈ S) {x : β}
    (hx : x ∈ newest id k S) (hxT : x ∈ T) : x ∈ newest id k T := by
  have hkept : x ∈ ((newestFirst id S).take k).filter fun x => decide (x ∈ T) :=
    List.mem_filter.2 ⟨hx, decide_eq_true hxT⟩
  have hfront : ((newestFirst id S).take k).filter (fun x => decide (x ∈ T)) <+:
      newestFirst id T := by
    rw [newestFirst_of_subset hT hS hsub]
    exact ( take_prefix k _).filter _
  obtain ⟨rest, hrest⟩ := hfront
  have hlength : (((newestFirst id S).take k).filter fun x => decide (x ∈ T)).length ≤ k :=
    (length_filter_le _ _).trans (length_take_le k _)
  unfold newest
  rw [← hrest, take_append]
  exact mem_append_left _ (by rwa [take_of_length_le hlength])

/-- **The newest of a union are among the newest of its branches.** -/
theorem newest_union (branches : List (List β)) (hnodup : ∀ b ∈ branches, b.Nodup) (k : ℕ) :
    newest id k (branches.flatMap (newest id k)).dedup = newest id k branches.flatten.dedup := by
  refine newest_of_subset (nodup_dedup _) (nodup_dedup _) ?_ ?_
  · intro x hx
    obtain ⟨b, hb, hxb⟩ := List.mem_flatMap.1 (List.mem_dedup.1 hx)
    exact List.mem_dedup.2 (List.mem_flatten.2 ⟨b, hb, mem_of_mem_newest hxb⟩)
  · intro x hx
    obtain ⟨b, hb, hxb⟩ := List.mem_flatten.1 (List.mem_dedup.1 (mem_of_mem_newest hx))
    have hbsub : ∀ y ∈ b, y ∈ branches.flatten.dedup := fun y hy =>
      List.mem_dedup.2 (List.mem_flatten.2 ⟨b, hb, hy⟩)
    exact List.mem_dedup.2 (List.mem_flatMap.2
      ⟨b, hb, mem_newest_of_subset (hnodup b hb) (nodup_dedup _) hbsub hx hxb⟩)

end Newest

end Lib

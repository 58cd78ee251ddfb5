import Mathlib

/-!
# Insertion-ordered dictionaries

A `Dict κ ν` is a finite map that remembers the order in which its keys were
first inserted: assigning to a present key keeps the key's place, assigning to
a new key appends it, and deleting a key forgets its place.  It is the mapping
of languages whose dictionaries iterate in insertion order, so both readings of
such a mapping — the function it denotes (`get?`) and the list it iterates
(`entries`, `keys`, `values`) — are available.

The underlying association lists are `Assoc`; they are used on their own where
a mapping sits inside an inductive type and cannot carry a proof.  `Dict` adds
the field `nodup`, so a dictionary with a repeated key cannot be built.

* `get?_set`, `get?_erase`, `get?_update`, `get?_ofList` say what each operation
  denotes; every later proof goes through them.
* `mem_entries_iff` links the two readings.
* `perm_of_get?_eq` says that two dictionaries denoting the same function
  iterate the same entries up to order, hence have the same size.
-/

namespace Lib

open List

universe u v w

/-! ## Association lists -/

namespace Assoc

variable {κ : Type u} {ν : Type v} [DecidableEq κ] {es : List (κ × ν)} {k : κ} {v : ν}

/-- The value of the first entry under `k`. -/
def find : List (κ × ν) → κ → Option ν
  | [], _ => none
  | e :: es, k => if e.1 = k then some e.2 else find es k

/-- Assign `v` to `k`: in place when `k` is present, at the end otherwise. -/
def put : List (κ × ν) → κ → ν → List (κ × ν)
  | [], k, v => [(k, v)]
  | e :: es, k, v => if e.1 = k then (k, v) :: es else e :: put es k v

/-- Remove every entry under `k`. -/
def drop (es : List (κ × ν)) (k : κ) : List (κ × ν) := es.filter (fun e => e.1 ≠ k)

@[simp] theorem find_nil (k : κ) : find ([] : List (κ × ν)) k = none := rfl

@[simp] theorem find_cons (e : κ × ν) (es : List (κ × ν)) (k : κ) :
    find (e :: es) k = if e.1 = k then some e.2 else find es k := rfl

theorem find_put (es : List (κ × ν)) (k k' : κ) (v : ν) :
    find (put es k v) k' = if k' = k then some v else find es k' := by
  induction es with
  | nil => simp [put, eq_comm]
  | cons e es ih =>
      by_cases hk : e.1 = k
      · simp only [put, hk, if_true, find_cons]
        by_cases hk' : k = k'
        · simp [hk']
        · simp [hk', Ne.symm hk']
      · simp only [put, hk, if_false, find_cons, ih]
        by_cases he : e.1 = k'
        · have hne : k' ≠ k := fun h => hk (he.trans h)
          simp [he, hne]
        · simp [he]

theorem mem_put {e : κ × ν} (h : e ∈ put es k v) : e ∈ es ∨ e = (k, v) := by
  induction es with
  | nil => simpa [put] using h
  | cons e' es ih =>
      unfold put at h
      split at h
      · rcases List.mem_cons.mp h with rfl | h
        · exact Or.inr rfl
        · exact Or.inl (mem_cons_of_mem _ h)
      · rcases List.mem_cons.mp h with rfl | h
        · exact Or.inl mem_cons_self
        · exact (ih h).imp (mem_cons_of_mem _) id

theorem put_put (es : List (κ × ν)) (k : κ) (v w : ν) : put (put es k v) k w = put es k w := by
  induction es with
  | nil => simp [put]
  | cons e es ih =>
      by_cases hk : e.1 = k
      · simp [put, hk]
      · simp [put, hk, ih]

/-- Assigning what is there changes nothing. -/
theorem put_of_find (h : find es k = some v) : put es k v = es := by
  induction es with
  | nil => cases h
  | cons e es ih =>
      by_cases hk : e.1 = k
      · rw [find_cons, if_pos hk] at h
        rw [put, if_pos hk, ← hk, ← Option.some.inj h]
      · rw [find_cons, if_neg hk] at h
        rw [put, if_neg hk, ih h]

theorem find_drop (es : List (κ × ν)) (k k' : κ) :
    find (drop es k) k' = if k' = k then none else find es k' := by
  induction es with
  | nil => simp [drop]
  | cons e es ih =>
      unfold drop at ih
      by_cases hk : e.1 = k
      · simp only [drop, filter_cons, hk, ne_eq, not_true_eq_false, decide_false,
          Bool.false_eq_true, if_false, ih, find_cons]
        by_cases hk' : k' = k
        · simp [hk']
        · simp [hk', Ne.symm hk']
      · simp only [drop, filter_cons, hk, ne_eq, not_false_eq_true, decide_true, if_true,
          find_cons, ih]
        by_cases he : e.1 = k'
        · have hne : k' ≠ k := fun h => hk (he.trans h)
          simp [he, hne]
        · simp [he]

theorem find_eq_none_iff : find es k = none ↔ k ∉ es.map Prod.fst := by
  induction es with
  | nil => simp
  | cons e es ih =>
      by_cases hk : e.1 = k
      · simp [hk]
      · simp only [find_cons, hk, if_false, ih, map_cons, mem_cons, not_or]
        exact ⟨fun h => ⟨Ne.symm hk, h⟩, fun h => h.2⟩

theorem mem_of_find (h : find es k = some v) : (k, v) ∈ es := by
  induction es with
  | nil => simp at h
  | cons e es ih =>
      by_cases hk : e.1 = k
      · simp only [find_cons, hk, if_true, Option.some.injEq] at h
        subst hk h
        exact mem_cons_self
      · simp only [find_cons, hk, if_false] at h
        exact mem_cons_of_mem _ (ih h)

theorem find_of_mem (hnodup : (es.map Prod.fst).Nodup) (h : (k, v) ∈ es) : find es k = some v := by
  induction es with
  | nil => simp at h
  | cons e es ih =>
      rw [map_cons, nodup_cons] at hnodup
      rcases List.mem_cons.mp h with rfl | h
      · simp
      · have hne : e.1 ≠ k := by
          rintro rfl
          exact hnodup.1 (List.mem_map.mpr ⟨_, h, rfl⟩)
        simp [hne, ih hnodup.2 h]

theorem keys_put (es : List (κ × ν)) (k : κ) (v : ν) :
    (put es k v).map Prod.fst =
      if k ∈ es.map Prod.fst then es.map Prod.fst else es.map Prod.fst ++ [k] := by
  induction es with
  | nil => simp [put]
  | cons e es ih =>
      by_cases hk : e.1 = k
      · simp [put, hk]
      · simp only [put, hk, if_false, map_cons, ih, mem_cons, Ne.symm hk, false_or]
        split <;> simp

theorem nodup_put (hnodup : (es.map Prod.fst).Nodup) (k : κ) (v : ν) :
    ((put es k v).map Prod.fst).Nodup := by
  rw [keys_put]
  split
  · exact hnodup
  · rename_i hk
    refine List.nodup_append.mpr ⟨hnodup, by simp, ?_⟩
    intro a ha b hb hab
    rw [List.mem_singleton.mp hb] at hab
    exact hk (hab ▸ ha)

theorem nodup_drop (hnodup : (es.map Prod.fst).Nodup) (k : κ) : ((drop es k).map Prod.fst).Nodup :=
  hnodup.sublist (List.filter_sublist.map _)

theorem put_of_find_eq_none (h : find es k = none) (v : ν) : put es k v = es ++ [(k, v)] := by
  induction es with
  | nil => rfl
  | cons e es ih =>
      rw [find_cons] at h
      split at h
      · cases h
      · next hk => rw [put, if_neg hk, ih h, cons_append]

end Assoc

/-! ## Dictionaries -/

/-- A finite map that remembers the order in which its keys were inserted. -/
@[ext]
structure Dict (κ : Type u) (ν : Type v) where
  /-- The entries, oldest key first. -/
  entries : List (κ × ν)
  /-- No key is entered twice. -/
  nodup : (entries.map Prod.fst).Nodup

namespace Dict

variable {κ : Type u} {ν : Type v} {μ : Type w}

instance [DecidableEq κ] [DecidableEq ν] : DecidableEq (Dict κ ν) := fun d e =>
  decidable_of_iff (d.entries = e.entries) Dict.ext_iff.symm

/-- The dictionary with no entry. -/
def empty : Dict κ ν := ⟨[], List.nodup_nil⟩

instance : Inhabited (Dict κ ν) := ⟨empty⟩

/-- The keys, in insertion order. -/
def keys (d : Dict κ ν) : List κ := d.entries.map Prod.fst

/-- The values, in the insertion order of their keys. -/
def values (d : Dict κ ν) : List ν := d.entries.map Prod.snd

/-- The number of entries. -/
def size (d : Dict κ ν) : ℕ := d.entries.length

theorem nodup_keys (d : Dict κ ν) : d.keys.Nodup := d.nodup

@[simp] theorem length_keys (d : Dict κ ν) : d.keys.length = d.size := by
  simp [keys, size]

/-- Keep the entries that satisfy `p`. -/
def filter (d : Dict κ ν) (p : κ × ν → Bool) : Dict κ ν :=
  ⟨d.entries.filter p, d.nodup.sublist (List.filter_sublist.map _)⟩

/-- Apply `f` to every value. -/
def map (d : Dict κ ν) (f : κ → ν → μ) : Dict κ μ :=
  ⟨d.entries.map (fun e => (e.1, f e.1 e.2)), by simpa [Function.comp_def] using d.nodup⟩

variable [DecidableEq κ] {k : κ} {v : ν} {d : Dict κ ν} {k' : κ} {e : Dict κ ν}

/-- The value under `k`, if there is one. -/
def get? (d : Dict κ ν) (k : κ) : Option ν := Assoc.find d.entries k

/-- Whether `k` is a key. -/
def contains (d : Dict κ ν) (k : κ) : Bool := (d.get? k).isSome

/-- `d[k] = v`. -/
def set (d : Dict κ ν) (k : κ) (v : ν) : Dict κ ν :=
  ⟨Assoc.put d.entries k v, Assoc.nodup_put d.nodup k v⟩

/-- `d.pop(k, None)`. -/
def erase (d : Dict κ ν) (k : κ) : Dict κ ν :=
  ⟨Assoc.drop d.entries k, Assoc.nodup_drop d.nodup k⟩

/-- Assign the entries of a list one after another. -/
def update (d : Dict κ ν) (es : List (κ × ν)) : Dict κ ν :=
  es.foldl (fun d e => d.set e.1 e.2) d

/-- The dictionary of a list of entries: a later entry under a key wins. -/
def ofList (es : List (κ × ν)) : Dict κ ν := empty.update es

@[simp] theorem get?_empty (k : κ) : (empty : Dict κ ν).get? k = none := rfl

@[simp, grind =] theorem get?_set (d : Dict κ ν) (k k' : κ) (v : ν) :
    (d.set k v).get? k' = if k' = k then some v else d.get? k' :=
  Assoc.find_put d.entries k k' v

@[simp, grind =] theorem get?_erase (d : Dict κ ν) (k k' : κ) :
    (d.erase k).get? k' = if k' = k then none else d.get? k' :=
  Assoc.find_drop d.entries k k'

theorem get?_set_self (d : Dict κ ν) (k : κ) (v : ν) : (d.set k v).get? k = some v := by
  simp

/-- Assigning what is there changes nothing. -/
theorem set_of_get? (h : d.get? k = some v) : d.set k v = d :=
  Dict.ext (Assoc.put_of_find h)

theorem get?_set_of_ne (d : Dict κ ν) (v : ν) (h : k' ≠ k) : (d.set k v).get? k' = d.get? k' := by
  simp [h]

theorem mem_keys : k ∈ d.keys ↔ (d.get? k).isSome := by
  rw [← not_iff_not, Bool.not_eq_true, Option.isSome_eq_false_iff, Option.isNone_iff_eq_none]
  exact Assoc.find_eq_none_iff.symm

theorem mem_keys_of_get? (h : d.get? k = some v) : k ∈ d.keys :=
  mem_keys.mpr (by simp [h])

theorem get?_eq_none_iff : d.get? k = none ↔ k ∉ d.keys :=
  Assoc.find_eq_none_iff

theorem exists_get?_of_mem_keys (h : k ∈ d.keys) : ∃ v, d.get? k = some v :=
  Option.isSome_iff_exists.mp (mem_keys.mp h)

@[simp] theorem contains_iff : d.contains k = true ↔ k ∈ d.keys :=
  mem_keys.symm

/-- The two readings of a dictionary agree. -/
theorem mem_entries_iff : (k, v) ∈ d.entries ↔ d.get? k = some v :=
  ⟨Assoc.find_of_mem d.nodup, Assoc.mem_of_find⟩

theorem mem_values_of_get? (h : d.get? k = some v) : v ∈ d.values :=
  List.mem_map.mpr ⟨(k, v), mem_entries_iff.mpr h, rfl⟩

theorem mem_values : v ∈ d.values ↔ ∃ k, d.get? k = some v := by
  constructor
  · intro h
    obtain ⟨⟨k, v'⟩, hmem, rfl⟩ := List.mem_map.mp h
    exact ⟨k, mem_entries_iff.mp hmem⟩
  · rintro ⟨k, hk⟩
    exact mem_values_of_get? hk

@[simp] theorem mem_keys_set : k' ∈ (d.set k v).keys ↔ k' = k ∨ k' ∈ d.keys := by
  by_cases h : k' = k <;> simp [mem_keys, h]

@[simp] theorem update_nil (d : Dict κ ν) : d.update [] = d := rfl

@[simp] theorem update_cons (d : Dict κ ν) (e : κ × ν) (es : List (κ × ν)) :
    d.update (e :: es) = (d.set e.1 e.2).update es := rfl

/-- An update by entries with distinct keys reads those entries first. -/
theorem get?_update (d : Dict κ ν) (es : List (κ × ν)) (h : (es.map Prod.fst).Nodup) (k : κ) :
    (d.update es).get? k = (Assoc.find es k).or (d.get? k) := by
  induction es generalizing d with
  | nil => simp
  | cons e es ih =>
      rw [map_cons, nodup_cons] at h
      rw [update_cons, ih _ h.2, get?_set, Assoc.find_cons]
      by_cases hk : e.1 = k
      · have hnone : Assoc.find es k = none := Assoc.find_eq_none_iff.mpr (hk ▸ h.1)
        simp [hk, hnone]
      · simp [hk, Ne.symm hk]

theorem get?_ofList (es : List (κ × ν)) (h : (es.map Prod.fst).Nodup) (k : κ) :
    (ofList es).get? k = Assoc.find es k := by
  simp [ofList, get?_update _ _ h]

/-- A new key goes to the end. -/
theorem entries_set_of_new (h : d.get? k = none) (v : ν) :
    (d.set k v).entries = d.entries ++ [(k, v)] := Assoc.put_of_find_eq_none h v

/-- New entries go to the end. -/
theorem entries_update_of_new {es : List (κ × ν)} (hnodup : (es.map Prod.fst).Nodup)
    (hnew : ∀ e ∈ es, d.get? e.1 = none) : (d.update es).entries = d.entries ++ es := by
  induction es generalizing d with
  | nil => exact (append_nil _).symm
  | cons e es ih =>
      obtain ⟨he, hes⟩ := List.nodup_cons.1 hnodup
      have hentries : (d.set e.1 e.2).entries = d.entries ++ [e] :=
        entries_set_of_new (hnew e mem_cons_self) e.2
      have hrest : ∀ e' ∈ es, (d.set e.1 e.2).get? e'.1 = none := by
        intro e' he'
        have hne : e'.1 ≠ e.1 := fun heq => he (List.mem_map.2 ⟨e', he', heq⟩)
        rw [get?_set_of_ne _ _ hne]
        exact hnew e' (mem_cons_of_mem _ he')
      rw [update_cons, ih hes hrest, hentries, append_assoc, singleton_append]

/-- Dictionaries that denote the same function iterate the same entries, up to
order. -/
theorem perm_of_get?_eq (h : ∀ k, d.get? k = e.get? k) : d.entries.Perm e.entries := by
  have hd : d.entries.Nodup := List.Nodup.of_map _ d.nodup
  have he : e.entries.Nodup := List.Nodup.of_map _ e.nodup
  rw [perm_ext_iff_of_nodup hd he]
  rintro ⟨k, v⟩
  rw [mem_entries_iff, mem_entries_iff, h k]

theorem size_eq_of_get?_eq (h : ∀ k, d.get? k = e.get? k) : d.size = e.size :=
  (perm_of_get?_eq h).length_eq

@[simp] theorem get?_map (d : Dict κ ν) (f : κ → ν → μ) (k : κ) :
    (d.map f).get? k = (d.get? k).map (f k) := by
  unfold get? map
  simp only
  induction d.entries with
  | nil => rfl
  | cons e es ih =>
      by_cases hk : e.1 = k
      · subst hk; simp
      · simp [hk, ih]

/-- An assignment to a mapped dictionary. -/
theorem map_set (f : κ → ν → μ) (d : Dict κ ν) (k : κ) (v : ν) :
    (d.set k v).map f = (d.map f).set k (f k v) := by
  refine Dict.ext ?_
  show (Assoc.put d.entries k v).map (fun e => (e.1, f e.1 e.2)) =
    Assoc.put (d.entries.map fun e => (e.1, f e.1 e.2)) k (f k v)
  induction d.entries with
  | nil => rfl
  | cons e es ih =>
      by_cases hk : e.1 = k
      · simp [Assoc.put, hk]
      · simp [Assoc.put, hk, ih]

/-- The entries that are kept are read as before. -/
theorem get?_filter (p : κ × ν → Bool) (d : Dict κ ν) (k : κ) :
    (d.filter p).get? k = (d.get? k).filter fun v => p (k, v) := by
  have hmem : ∀ v, (d.filter p).get? k = some v ↔ d.get? k = some v ∧ p (k, v) := by
    intro v
    rw [← mem_entries_iff, ← mem_entries_iff]
    exact mem_filter
  ext v
  rw [hmem, Option.filter_eq_some_iff]

/-- The keys that are kept are read as before. -/
theorem get?_filter_key (p : κ → Bool) (d : Dict κ ν) (k : κ) :
    (d.filter fun e => p e.1).get? k = if p k then d.get? k else none := by
  rw [get?_filter]
  cases d.get? k with
  | none => simp
  | some v => cases hp : p k <;> simp [hp]

end Dict

end Lib

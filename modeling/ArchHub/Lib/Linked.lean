import Mathlib

/-!
# Linked lists in a heap

A heap maps a key to what stands there and to the key of what comes next.  A list of
entries is *linked* in a heap when each entry leads to the one after it, and the last
one to an end key.

* `linked_append`: two lists in a row.
* `Linked.frame`: a list is linked as long as the heap keeps its keys.
* `Linked.graft`: from one entry on, a list goes on as another.
* `Linked.relabel`: other values under the same keys.

Inserting, removing and permuting are these, with what has been written.
-/

namespace Lib

universe u v

variable {κ : Type u} {ν : Type v}

/-- What stands at a key, and the key of what comes next. -/
abbrev Heap (κ : Type u) (ν : Type v) := κ → Option (ν × κ)

namespace Heap

/-- The key of the first entry, or the end. -/
def first (z : κ) : List (κ × ν) → κ
  | [] => z
  | e :: _ => e.1

/-- Each entry leads to the next one, the last one to the end. -/
def Linked (h : Heap κ ν) (z : κ) : List (κ × ν) → Prop
  | [] => True
  | e :: es => h e.1 = some (e.2, first z es) ∧ Linked h z es

variable {h h' : Heap κ ν} {z : κ} {xs ys : List (κ × ν)} {e : κ × ν} {es : List (κ × ν)}

@[simp] theorem first_nil : first z ([] : List (κ × ν)) = z := rfl

@[simp] theorem first_cons (e : κ × ν) (es : List (κ × ν)) : first z (e :: es) = e.1 := rfl

theorem first_append (xs ys : List (κ × ν)) : first z (xs ++ ys) = first (first z ys) xs := by
  cases xs with
  | nil => rfl
  | cons e es => rfl

@[simp] theorem linked_nil : Linked h z [] := trivial

@[simp] theorem linked_cons :
    Linked h z (e :: es) ↔ h e.1 = some (e.2, first z es) ∧ Linked h z es := Iff.rfl

/-- **Two lists in a row**: the first one leads to the second. -/
theorem linked_append : Linked h z (xs ++ ys) ↔ Linked h (first z ys) xs ∧ Linked h z ys := by
  induction xs with
  | nil => simp
  | cons e es ih =>
      rw [List.cons_append, linked_cons, linked_cons, ih, first_append, and_assoc]

/-- A heap that keeps the keys of a list keeps the list. -/
theorem Linked.frame (hlinked : Linked h z es) (hkeep : ∀ e ∈ es, h' e.1 = h e.1) :
    Linked h' z es := by
  induction es with
  | nil => trivial
  | cons e es ih =>
      obtain ⟨he, hes⟩ := hlinked
      refine ⟨(hkeep e List.mem_cons_self).trans he, ih hes fun e' he' => ?_⟩
      exact hkeep e' (List.mem_cons_of_mem e he')

/-- What an entry of a list says stands in the heap. -/
theorem Linked.get (hlinked : Linked h z (xs ++ e :: ys)) :
    h e.1 = some (e.2, first z ys) := (linked_append.1 hlinked).2.1

/-- **From one entry on, a list goes on as another**; what comes before is kept. -/
theorem Linked.graft {ys' : List (κ × ν)} {k : κ} {v v' : ν}
    (hlinked : Linked h z (xs ++ (k, v) :: ys)) (hkeep : ∀ e ∈ xs, h' e.1 = h e.1)
    (hk : h' k = some (v', first z ys')) (hys : Linked h' z ys') :
    Linked h' z (xs ++ (k, v') :: ys') := by
  rw [linked_append] at hlinked ⊢
  exact ⟨hlinked.1.frame hkeep, hk, hys⟩

/-- **Other values under the same keys.** -/
theorem Linked.relabel {ks : List κ} {vs vs' : List ν} (hlength : vs'.length = vs.length)
    (hlinked : Linked h z (ks.zip vs))
    (hnew : ∀ k v', (k, v') ∈ ks.zip vs' → ∀ v next, h k = some (v, next) →
      h' k = some (v', next)) :
    Linked h' z (ks.zip vs') := by
  induction ks generalizing vs vs' with
  | nil => exact trivial
  | cons k ks ih =>
      cases vs with
      | nil =>
          obtain rfl := List.length_eq_zero_iff.1 hlength
          exact trivial
      | cons v vs =>
          obtain ⟨v', vs', rfl⟩ := List.exists_cons_of_length_eq_add_one hlength
          have hrest : vs'.length = vs.length := by simpa using hlength
          have hfirst : first z (ks.zip vs') = first z (ks.zip vs) := by
            cases ks with
            | nil => rfl
            | cons k' ks =>
                cases vs with
                | nil => rw [List.length_eq_zero_iff.1 hrest]
                | cons w vs =>
                    obtain ⟨w', vs', rfl⟩ := List.exists_cons_of_length_eq_add_one hrest
                    rfl
          refine ⟨?_, ih hrest hlinked.2 fun k' w' hmem => ?_⟩
          · show h' k = some (v', first z (ks.zip vs'))
            rw [hfirst]
            exact hnew k v' List.mem_cons_self v _ hlinked.1
          · exact hnew k' w' (List.mem_cons_of_mem _ hmem)

end Heap

end Lib

import Mathlib

/-!
# Names made of parts

A name is made of another one and of parts, each behind a colon.  Parts without a colon can be
told from the name, so that names below different parts differ.

* `nested`: the name with some parts.
* `nested_inj`: its parts.
* `Below`: the names that have a name before them.
-/

namespace Lib

namespace Paths

/-- A name with some parts behind it. -/
def nested (name : String) : List String → String
  | [] => name
  | part :: parts => nested (name ++ ":" ++ part) parts

/-- Parts without a colon. -/
def Plain (parts : List String) : Prop := ∀ part ∈ parts, ':' ∉ part.toList

instance (parts : List String) : Decidable (Plain parts) :=
  inferInstanceAs (Decidable (∀ part ∈ parts, ':' ∉ part.toList))

/-- A name that has another one before it. -/
def Below (name x : String) : Prop := ∃ parts, Plain parts ∧ x = nested name parts

variable {name x : String} {parts others : List String}

theorem nested_append (name : String) (parts others : List String) :
    nested name (parts ++ others) = nested (nested name parts) others := by
  induction parts generalizing name with
  | nil => rfl
  | cons part parts ih => exact ih _

theorem toList_nested (name : String) (parts : List String) :
    (nested name parts).toList = name.toList ++ parts.flatMap fun part => ':' :: part.toList := by
  induction parts generalizing name with
  | nil => simp [nested]
  | cons part parts ih => simp [nested, ih]

theorem nested_ne (h : name ≠ "") : nested name parts ≠ "" := by
  intro heq
  have hchars := congrArg String.toList heq
  rw [toList_nested, String.toList_empty, List.append_eq_nil_iff] at hchars
  exact h (String.toList_inj.1 hchars.1)

theorem takeWhile_part {part : String} (h : ':' ∉ part.toList) (parts : List String) :
    (part.toList ++ parts.flatMap fun part => ':' :: part.toList).takeWhile (· ≠ ':') =
      part.toList := by
  have hchars : ∀ c ∈ part.toList, decide (c ≠ ':') = true := fun c hc =>
    decide_eq_true fun heq => h (heq ▸ hc)
  rw [List.takeWhile_append_of_pos hchars]
  cases parts <;> simp

theorem parts_inj (hparts : Plain parts) (hothers : Plain others)
    (h : (parts.flatMap fun part => ':' :: part.toList) =
      others.flatMap fun part => ':' :: part.toList) : parts = others := by
  induction parts generalizing others with
  | nil => cases others <;> simp_all
  | cons part parts ih =>
      rcases others with _ | ⟨other, others⟩
      · cases h
      · obtain ⟨hpart, hrest⟩ := List.forall_mem_cons.1 hparts
        obtain ⟨hother, hrest'⟩ := List.forall_mem_cons.1 hothers
        rw [List.flatMap_cons, List.flatMap_cons, List.cons_append, List.cons_append,
          List.cons.injEq] at h
        have hsame := congrArg (List.takeWhile fun c => decide (c ≠ ':')) h.2
        rw [takeWhile_part hpart, takeWhile_part hother] at hsame
        obtain rfl := String.toList_inj.1 hsame
        rw [ih hrest hrest' (List.append_cancel_left h.2)]

/-- **Parts are told from the name.** -/
theorem nested_inj (hparts : Plain parts) (hothers : Plain others)
    (h : nested name parts = nested name others) : parts = others := by
  have hchars := congrArg String.toList h
  rw [toList_nested, toList_nested] at hchars
  exact parts_inj hparts hothers (List.append_cancel_left hchars)

theorem Plain.append (hparts : Plain parts) (hothers : Plain others) : Plain (parts ++ others) :=
  fun part hpart => (List.mem_append.1 hpart).elim (hparts part) (hothers part)

theorem below_self (name : String) : Below name name := ⟨[], nofun, rfl⟩

theorem Below.trans (hparts : Plain parts) (h : Below (nested name parts) x) : Below name x := by
  obtain ⟨more, hmore, rfl⟩ := h
  exact ⟨parts ++ more, hparts.append hmore, (nested_append _ _ _).symm⟩

/-- A name below some parts has these parts. -/
theorem start_of_below (hparts : Plain parts) (hothers : Plain others)
    (h : Below (nested name parts) (nested name others)) : parts <+: others := by
  obtain ⟨more, hmore, heq⟩ := h
  rw [← nested_append] at heq
  exact ⟨more, (nested_inj hothers (hparts.append hmore) heq).symm⟩

/-- **Names below different parts differ.** -/
theorem Below.disjoint (hparts : Plain parts) (hothers : Plain others)
    (hlength : parts.length = others.length) (hne : parts ≠ others)
    (h : Below (nested name parts) x) : ¬Below (nested name others) x := by
  rintro ⟨more, hmore, rfl⟩
  rw [← nested_append] at h
  have hstart := start_of_below hparts (hothers.append hmore) h
  exact hne (List.prefix_of_prefix_length_le hstart (List.prefix_append others more)
    hlength.le |>.eq_of_length hlength)

end Paths

end Lib

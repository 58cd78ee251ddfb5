import Mathlib

/-!
# What followed what

A history is the list of what happened, oldest first.

* `Followed`: whatever is of the one kind has something of the other kind after it.
* `latest`: what the last entry that speaks of a matter said of it.
-/

namespace Lib

universe u v

variable {α : Type u} {β : Type v} {p q : α → Prop} {f : α → Option β} {log : List α} {m : α}

/-- Each entry of the one kind has one of the other kind after it. -/
def Followed (p q : α → Prop) (log : List α) : Prop :=
  ∀ before m later, log = before ++ m :: later → p m → ∃ x ∈ later, q x

theorem followed_of_none (h : ∀ x ∈ log, ¬p x) : Followed p q log := by
  intro before m later heq hm
  have hmem : m ∈ log := by
    rw [heq]
    exact List.mem_append_right before List.mem_cons_self
  exact absurd hm (h m hmem)

/-- A split of a longer history is at its last entry, or one of the history before. -/
theorem split_concat {before later : List α} {x : α} (h : log ++ [m] = before ++ x :: later) :
    (log = before ∧ m = x ∧ later = []) ∨
      ∃ later', later = later' ++ [m] ∧ log = before ++ x :: later' := by
  rcases List.eq_nil_or_concat later with rfl | ⟨later', y, rfl⟩
  · obtain ⟨hbefore, hlast⟩ := List.append_inj' h rfl
    cases hlast
    exact .inl ⟨hbefore, rfl, rfl⟩
  · have hsplit : log ++ [m] = (before ++ x :: later') ++ [y] := by
      rw [h, List.concat_eq_append]
      simp
    obtain ⟨hbefore, hlast⟩ := List.append_inj' hsplit rfl
    cases hlast
    exact .inr ⟨later', List.concat_eq_append, hbefore⟩

/-- One entry more, of neither kind or of the second. -/
theorem Followed.concat (h : Followed p q log) (hm : ¬p m) : Followed p q (log ++ [m]) := by
  intro before x later heq hx
  rcases split_concat heq with ⟨-, rfl, -⟩ | ⟨later', rfl, hlog⟩
  · exact absurd hx hm
  · obtain ⟨y, hy, hq⟩ := h before x later' hlog hx
    exact ⟨y, List.mem_append_left [m] hy, hq⟩

/-- An entry of the second kind follows all that came before it. -/
theorem followed_concat (hm : ¬p m) (hq : q m) : Followed p q (log ++ [m]) := by
  intro before x later heq hx
  rcases split_concat heq with ⟨-, rfl, -⟩ | ⟨later', rfl, -⟩
  · exact absurd hx hm
  · exact ⟨m, List.mem_append_right later' List.mem_cons_self, hq⟩

/-- What the last entry that speaks of a matter said of it. -/
def latest (f : α → Option β) (log : List α) : Option β := (log.filterMap f).getLast?

@[simp] theorem latest_nil : latest f [] = none := rfl

theorem latest_concat (f : α → Option β) (log : List α) (m : α) :
    latest f (log ++ [m]) = (f m).or (latest f log) := by
  unfold latest
  rw [List.filterMap_append]
  cases hm : f m with
  | none => simp [hm]
  | some b => simp [hm]

theorem latest_concat_none (hm : f m = none) : latest f (log ++ [m]) = latest f log := by
  rw [latest_concat, hm, Option.none_or]

theorem latest_concat_some {b : β} (hm : f m = some b) : latest f (log ++ [m]) = some b := by
  rw [latest_concat, hm, Option.some_or]

end Lib

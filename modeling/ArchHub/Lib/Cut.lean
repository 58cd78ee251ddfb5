import Mathlib

/-!
# Plans that can be cut

An operation that changes what is durable does it by a list of writes, one
after the other.  A crash, or a write that fails, leaves a prefix of them.

* `cut`: the state after a prefix of the writes.
* `Along`: what holds of the state before each write and after the last.

A property that holds along a plan holds wherever the plan is cut
(`Along.cut`).  A development proves `Along` write by write and has no case
of its own for a crash.
-/

namespace Lib

universe u v

variable {State : Type u} {Write : Type v} (write : State → Write → State)

/-- The state after the first `n` writes, or after all of them. -/
def cut : Option ℕ → List Write → State → State
  | _, [], s => s
  | some 0, _ :: _, s => s
  | some (n + 1), w :: ws, s => cut (some n) ws (write s w)
  | none, w :: ws, s => cut none ws (write s w)

/-- A property holds before each write of a plan and after the last. -/
def Along (P : State → Prop) : List Write → State → Prop
  | [], s => P s
  | w :: ws, s => P s ∧ Along P ws (write s w)

variable {write} {P Q : State → Prop} {ws : List Write} {s : State}

@[simp] theorem cut_nil (n : Option ℕ) (s : State) : cut write n [] s = s := by
  cases n with
  | none => rfl
  | some n => cases n <;> rfl

namespace Along

/-- **Where a plan is cut.**  What holds along a plan holds wherever it is cut. -/
theorem cut (h : Along write P ws s) (n : Option ℕ) : P (cut write n ws s) := by
  induction ws generalizing s n with
  | nil =>
      rw [cut_nil]
      exact h
  | cons w ws ih =>
      cases n with
      | none => exact ih h.2 none
      | some n =>
          cases n with
          | zero => exact h.1
          | succ n => exact ih h.2 (some n)

end Along

end Lib

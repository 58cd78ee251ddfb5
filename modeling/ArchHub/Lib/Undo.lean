import Mathlib

/-!
# Undoing writes one by one

A map is written at one place after another.  A frame says what a place held before it was
written, and putting the frames back, the newest first, gives the map before the first write.

* `Frame`, `restore`, `unwind`.
* `unwind_write`: a write and its frame cancel.
* `Event`, `outstanding`: a log of writes and of undos, and the frames that it leaves.
* `newestLast`: whether the last event is the write that is to be undone next.
-/

namespace Lib

namespace Undo

universe u v

variable {κ : Type u} {ν : Type v}

/-- What a place held before a write. -/
structure Frame (κ : Type u) (ν : Type v) where
  place : κ
  before : Option ν

/-- What happens to a map. -/
inductive Event (κ : Type u) (ν : Type v)
  /-- A place is written. -/
  | fired (frame : Frame κ ν)
  /-- A write that finds what it would write. -/
  | satisfied
  /-- A write is undone. -/
  | reverted

/-- The frames that an event leaves, the newest first. -/
def leave (frames : List (Frame κ ν)) : Event κ ν → List (Frame κ ν)
  | .fired frame => frame :: frames
  | .satisfied => frames
  | .reverted => frames.tail

/-- The writes of a log that were not undone, the newest first. -/
def outstanding (log : List (Event κ ν)) : List (Frame κ ν) := log.foldl leave []

@[simp] theorem outstanding_nil : outstanding ([] : List (Event κ ν)) = [] := rfl

@[simp] theorem outstanding_concat (log : List (Event κ ν)) (e : Event κ ν) :
    outstanding (log ++ [e]) = leave (outstanding log) e := by
  rw [outstanding, List.foldl_append]
  rfl

/-- Whether a write happens in an event. -/
def Event.isFired : Event κ ν → Bool
  | .fired _ => true
  | _ => false

/-- Whether a write is undone in an event. -/
def Event.isReverted : Event κ ν → Bool
  | .reverted => true
  | _ => false

/-- Whether the newest write that was not undone is the last event, or there is none and
the last event is not a write that found what it would write. -/
def newestLast (log : List (Event κ ν)) : Bool :=
  match log.getLast? with
  | none => true
  | some (.fired _) => true
  | some .satisfied => false
  | some .reverted => (outstanding log).isEmpty

@[simp] theorem newestLast_satisfied (log : List (Event κ ν)) :
    newestLast (log ++ [.satisfied]) = false := by
  rw [newestLast, List.getLast?_concat]

theorem newestLast_reverted {log : List (Event κ ν)} (h : newestLast (log ++ [.reverted]) = true) :
    outstanding (log ++ [.reverted]) = [] := by
  rw [newestLast, List.getLast?_concat] at h
  exact List.isEmpty_iff.1 h

variable [DecidableEq κ]

/-- A place gets back what it held. -/
def restore (m : κ → Option ν) (frame : Frame κ ν) : κ → Option ν :=
  Function.update m frame.place frame.before

/-- Every place gets back what it held, the newest frame first. -/
def unwind (m : κ → Option ν) (frames : List (Frame κ ν)) : κ → Option ν :=
  frames.foldl restore m

@[simp] theorem unwind_nil (m : κ → Option ν) : unwind m [] = m := rfl

@[simp] theorem unwind_cons (m : κ → Option ν) (frame : Frame κ ν) (frames : List (Frame κ ν)) :
    unwind m (frame :: frames) = unwind (restore m frame) frames := rfl

/-- A write is undone by its frame. -/
theorem restore_write (m : κ → Option ν) (k : κ) (v : Option ν) :
    restore (Function.update m k v) ⟨k, m k⟩ = m := by
  rw [restore, Function.update_idem, Function.update_eq_self]

/-- **A write and its frame** cancel. -/
theorem unwind_write (m : κ → Option ν) (k : κ) (v : Option ν) (frames : List (Frame κ ν)) :
    unwind (Function.update m k v) (⟨k, m k⟩ :: frames) = unwind m frames := by
  rw [unwind_cons, restore_write]

end Undo

end Lib

import Mathlib

/-!
# Guarded runs of a labelled transition system

A `Machine` steps deterministically under a label: an action of one party, with
everything that action brings with it.  An *interleaving* of several parties is
then nothing but a list of labels in some order, and a run is a walk along it.

A statement about runs is often true only of the runs whose every step meets a
condition on the state before it and the label.  `Run m ok s t` is reachability
by such steps, so a condition is part of the run rather than a hypothesis
repeated along it; `Run m Any` is plain reachability.

The induction over a run is done here once (`Run.invariant`,
`Run.invariant_of`); a development proves what one step
preserves and cites these.  Where a step keeps a property exactly when it meets
a condition, so does a list of them (`along_iff_walk`).
-/

namespace Lib

open List

universe u v w

/-- A deterministic labelled transition system. -/
structure Machine (State : Type u) (Action : Type v) where
  /-- The state after an action. -/
  step : State → Action → State

namespace Machine

variable {State : Type u} {Action : Type v} (m : Machine State Action)

/-- The condition every step meets. -/
def Any : State → Action → Prop := fun _ _ => True

/-- One step whose label meets the condition `ok` in the state it starts from. -/
def Guarded (ok : State → Action → Prop) (s t : State) : Prop :=
  ∃ a, ok s a ∧ m.step s a = t

/-- `t` is reached from `s` by steps that each meet `ok`. -/
def Run (ok : State → Action → Prop) : State → State → Prop :=
  Relation.ReflTransGen (m.Guarded ok)

/-- Whether every action of a list meets a check in the state it starts from. -/
def walk (check : State → Action → Bool) : State → List Action → Bool
  | _, [] => true
  | s, a :: as => check s a && walk check (m.step s a) as

variable {m} {ok ok' : State → Action → Prop} {s t r : State}

namespace Run

theorem refl (s : State) : m.Run ok s s := Relation.ReflTransGen.refl

theorem step (a : Action) (h : ok s a) : m.Run ok s (m.step s a) :=
  Relation.ReflTransGen.single ⟨a, h, rfl⟩

theorem trans (h₁ : m.Run ok s t) (h₂ : m.Run ok t r) : m.Run ok s r :=
  Relation.ReflTransGen.trans h₁ h₂

theorem snoc (h : m.Run ok s t) (a : Action) (ha : ok t a) : m.Run ok s (m.step t a) :=
  h.trans (step a ha)

/-- Any order of actions is a run. -/
theorem ofActions (s : State) (as : List Action) : m.Run Any s (as.foldl m.step s) := by
  induction as generalizing s with
  | nil => exact refl s
  | cons a as ih => exact (step a trivial).trans (ih (m.step s a))

/-- A list of actions of which each meets a check is a run. -/
theorem ofWalk {check : State → Action → Bool} (hcheck : ∀ s a, check s a = true → ok s a)
    {as : List Action} (h : m.walk check s as = true) : m.Run ok s (as.foldl m.step s) := by
  induction as generalizing s with
  | nil => exact refl s
  | cons a as ih =>
      rw [walk, Bool.and_eq_true] at h
      exact (step a (hcheck s a h.1)).trans (ih h.2)

/-- A weaker condition admits every run the stronger one admits. -/
theorem mono (himp : ∀ s a, ok s a → ok' s a) (h : m.Run ok s t) : m.Run ok' s t := by
  induction h with
  | refl => exact refl s
  | tail _ hlast ih =>
      obtain ⟨a, ha, rfl⟩ := hlast
      exact ih.snoc a (himp _ a ha)

/-- **The invariant rule.**  What one admitted step preserves, a run preserves. -/
theorem invariant {Inv : State → Prop} (hstep : ∀ s a, ok s a → Inv s → Inv (m.step s a))
    (h : m.Run ok s t) (hs : Inv s) : Inv t := by
  induction h with
  | refl => exact hs
  | tail _ hlast ih =>
      obtain ⟨a, ha, rfl⟩ := hlast
      exact hstep _ a ha ih

/-- The invariant rule, for an invariant whose step uses another one. -/
theorem invariant_of {Base Inv : State → Prop} (hbase : ∀ s a, ok s a → Base s → Base (m.step s a))
    (hstep : ∀ s a, ok s a → Base s → Inv s → Inv (m.step s a))
    (h : m.Run ok s t) (hB : Base s) (hs : Inv s) : Inv t := by
  let Both : State → Prop := fun s => Base s ∧ Inv s
  have hboth : ∀ s a, ok s a → Both s → Both (m.step s a) :=
    fun s a ha hi => ⟨hbase s a ha hi.1, hstep s a ha hi.1 hi.2⟩
  have ht : Both t := invariant hboth h ⟨hB, hs⟩
  exact ht.2

end Run

/-- **What a step keeps exactly when it meets a check, holds all along a list of actions exactly
when each of them meets it.** -/
theorem along_iff_walk {Base Good : State → Prop} {check : State → Action → Bool}
    (hbase : ∀ s a, Base s → Base (m.step s a))
    (hstep : ∀ s a, Base s → Good s → (Good (m.step s a) ↔ check s a = true))
    (hB : Base s) (hs : Good s) (as : List Action) :
    (∀ bs, bs <+: as → Good (bs.foldl m.step s)) ↔ m.walk check s as = true := by
  induction as generalizing s with
  | nil =>
      refine ⟨fun _ => rfl, fun _ bs hbs => ?_⟩
      rw [List.prefix_nil.1 hbs]
      exact hs
  | cons a as ih =>
      rw [walk, Bool.and_eq_true, ← hstep s a hB hs]
      constructor
      · intro hall
        have hnext : Good (m.step s a) := hall [a] ((prefix_cons_inj a).2 nil_prefix)
        refine ⟨hnext, (ih (hbase s a hB) hnext).1 fun bs hbs => ?_⟩
        exact hall (a :: bs) ((prefix_cons_inj a).2 hbs)
      · rintro ⟨hnext, hrest⟩ bs hbs
        cases bs with
        | nil => exact hs
        | cons b bs =>
            obtain ⟨rfl, htail⟩ := List.cons_prefix_cons.1 hbs
            exact (ih (hbase s b hB) hnext).2 hrest bs htail

end Machine

/-! ## Lists of actions -/

variable {σ : Type u} {ι : Type v} {f : σ → ι → σ}

/-- What every action of a list keeps, the list keeps. -/
theorem foldl_keeps {Inv : σ → Prop} {xs : List ι} (hstep : ∀ x ∈ xs, ∀ s, Inv s → Inv (f s x))
    {s : σ} (hs : Inv s) : Inv (xs.foldl f s) := by
  induction xs generalizing s with
  | nil => exact hs
  | cons x xs ih =>
      exact ih (fun y hy => hstep y (mem_cons_of_mem x hy)) (hstep x mem_cons_self s hs)

/-- What one action of a list establishes and the others keep, the list
establishes. -/
theorem foldl_establishes {Inv : σ → Prop} {xs : List ι}
    (hkeep : ∀ x ∈ xs, ∀ s, Inv s → Inv (f s x)) {x : ι} (hx : x ∈ xs)
    (hest : ∀ s, Inv (f s x)) (s : σ) : Inv (xs.foldl f s) := by
  induction xs generalizing s with
  | nil => cases hx
  | cons y xs ih =>
      rw [foldl_cons]
      rcases List.mem_cons.1 hx with rfl | hmem
      · exact foldl_keeps (fun z hz => hkeep z (mem_cons_of_mem x hz)) (hest s)
      · exact ih (fun z hz => hkeep z (mem_cons_of_mem y hz)) hmem (f s y)

/-- A list of which only the last are kept, with one more. -/
theorem rtake_concat_of_rtake (xs : List ι) (x : ι) (n : ℕ) :
    (xs.rtake n ++ [x]).rtake n = (xs ++ [x]).rtake n := by
  cases n with
  | zero => rw [rtake_zero, rtake_zero]
  | succ n =>
      have htail : (xs.rtake (n + 1)).rtake n = xs.rtake n := by
        simp only [rtake_eq_reverse_take_reverse, reverse_reverse, take_take]
        rw [Nat.min_eq_left (Nat.le_succ n)]
      rw [rtake_concat_succ, rtake_concat_succ, htail]

end Lib

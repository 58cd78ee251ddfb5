import Mathlib
import ArchHub.Lib.Transition

/-!
# Requests in flight

A service answers requests in a number of atomic steps, one database statement or
transaction each, and keeps between two of them only what the request has in its
local variables: its *phase*.  Any number of workers each have one request under
way, and their steps come in any order.  A worker that never steps again is a
request that was given up, so there is no action for it.

* `Service`: the phase a request starts in, and what its next step does to the
  shared state.
* `Service.Keeps`: what one step keeps of the shared state and of the answers given
  so far, of its own request, of the requests of all others, and between any two.
* `Service.kept_of_run`: so does every run.
* `Service.Keeps.along_iff_walk`: a property that a step keeps exactly when it meets a check.
* `Service.audited`: the service with a record of the steps that were made; `Service.Warranted`
  says of each of them what must have come before it.
-/

namespace Lib

variable {σ Req Phase Ans In W : Type}

/-- Requests that are answered in atomic steps.  `In` is what a step is given from
outside: a reading of the clock, a random value. -/
structure Service (σ Req Phase Ans In : Type) where
  /-- The phase a request starts in. -/
  first : Req → Phase
  /-- The next step of a request: the state it leaves, and its next phase or its answer. -/
  step : Req → Phase → In → σ → σ × (Phase ⊕ Ans)

namespace Service

/-- The shared state, the request each worker has under way, and the answers given. -/
structure State (σ Req Phase Ans W : Type) where
  shared : σ
  flying : W → Option (Req × Phase)
  answered : List (Req × Ans)

/-- What happens next: a request reaches a worker, or a worker makes the next step
of the request it has. -/
inductive Action (Req In W : Type) where
  | accept (w : W) (r : Req)
  | advance (w : W) (i : In)

/-- The request after a step, if it goes on. -/
def pending (r : Req) : Phase ⊕ Ans → Option (Req × Phase)
  | .inl p => some (r, p)
  | .inr _ => none

/-- The answer of a step, if it ends the request. -/
def answers (r : Req) : Phase ⊕ Ans → List (Req × Ans)
  | .inl _ => []
  | .inr a => [(r, a)]

@[simp] theorem answers_inl (r : Req) (p : Phase) :
    answers r (.inl p : Phase ⊕ Ans) = [] := rfl

@[simp] theorem answers_inr (r : Req) (a : Ans) :
    answers r (.inr a : Phase ⊕ Ans) = [(r, a)] := rfl

theorem pending_eq_some {r r' : Req} {out : Phase ⊕ Ans} {p : Phase} :
    pending r out = some (r', p) ↔ r' = r ∧ out = .inl p := by
  cases out with
  | inl q => simp [pending, eq_comm]
  | inr a => simp [pending]

variable [DecidableEq W] (svc : Service σ Req Phase Ans In)

/-- The service under an order of its workers' steps. -/
def machine : Machine (State σ Req Phase Ans W) (Action Req In W) where
  step s
    | .accept w r => { s with flying := Function.update s.flying w (some (r, svc.first r)) }
    | .advance w i => match s.flying w with
        | none => s
        | some (r, p) =>
            ⟨(svc.step r p i s.shared).1,
              Function.update s.flying w (pending r (svc.step r p i s.shared).2),
              s.answered ++ answers r (svc.step r p i s.shared).2⟩

/-- No request has come yet. -/
def idle (s : σ) : State σ Req Phase Ans W := ⟨s, fun _ => none, []⟩

variable {svc} {s t : State σ Req Phase Ans W} {w : W} {check : σ → Req → Phase → In → Bool}

@[simp] theorem machine_accept (w : W) (r : Req) : svc.machine.step s (.accept w r)
    = { s with flying := Function.update s.flying w (some (r, svc.first r)) } := rfl

/-- A step of a worker that has a request under way. -/
theorem machine_advance {i : In} {r : Req} {p : Phase} (h : s.flying w = some (r, p)) :
    svc.machine.step s (.advance w i)
      = ⟨(svc.step r p i s.shared).1,
          Function.update s.flying w (pending r (svc.step r p i s.shared).2),
          s.answered ++ answers r (svc.step r p i s.shared).2⟩ := by
  show (match s.flying w with | none => s | some (r, p) => _ : State σ Req Phase Ans W) = _
  rw [h]

theorem machine_advance_none {i : In} (h : s.flying w = none) :
    svc.machine.step s (.advance w i) = s := by
  show (match s.flying w with | none => s | some (r, p) => _ : State σ Req Phase Ans W) = _
  rw [h]

/-! ## What steps keep -/

/-- The step of a request, if the action is one, meets a condition. -/
def Admits (ok : σ → Req → Phase → In → Prop) (s : State σ Req Phase Ans W) :
    Action Req In W → Prop
  | .accept _ _ => True
  | .advance w i => ∀ r p, s.flying w = some (r, p) → ok s.shared r p i

/-- The same as a check. -/
def admitted (check : σ → Req → Phase → In → Bool) (s : State σ Req Phase Ans W) :
    Action Req In W → Bool
  | .accept _ _ => true
  | .advance w i => (s.flying w).all fun call => check s.shared call.1 call.2 i

omit [DecidableEq W] in
theorem admits_of_admitted (a : Action Req In W) (h : admitted check s a = true) :
    Admits (fun s r p i => check s r p i = true) s a := by
  cases a with
  | accept w r => trivial
  | advance w i =>
      intro r p hw
      have hall : (s.flying w).all (fun call => check s.shared call.1 call.2 i) = true := h
      rw [hw] at hall
      exact hall

variable (svc) in
/-- A step that is admitted keeps `Inv` of the shared state and the answers given so far.
`Loc` holds of a request in its first phase and after its own steps, and survives the
steps of all others.  `Apart` holds of any two requests under way. -/
structure Keeps (ok : σ → Req → Phase → In → Prop) (Inv : σ → List (Req × Ans) → Prop)
    (Loc : σ → List (Req × Ans) → Req → Phase → Prop)
    (Apart : Req × Phase → Req × Phase → Prop) : Prop where
  first : ∀ {s as} r, Inv s as → Loc s as r (svc.first r)
  symm : ∀ {x y}, Apart x y → Apart y x
  apart_first : ∀ r y, Apart (r, svc.first r) y
  inv : ∀ {s as r p i}, ok s r p i → Inv s as → Loc s as r p →
    Inv (svc.step r p i s).1 (as ++ answers r (svc.step r p i s).2)
  next : ∀ {s as r p i q}, ok s r p i → Inv s as → Loc s as r p →
    (svc.step r p i s).2 = .inl q →
    Loc (svc.step r p i s).1 (as ++ answers r (svc.step r p i s).2) r q
  stable : ∀ {s as r p i r' p'}, ok s r p i → Inv s as → Loc s as r p → Loc s as r' p' →
    Apart (r, p) (r', p') →
    Loc (svc.step r p i s).1 (as ++ answers r (svc.step r p i s).2) r' p'
  apart_next : ∀ {s as r p i q r' p'}, ok s r p i → Inv s as → Loc s as r p → Loc s as r' p' →
    Apart (r, p) (r', p') → (svc.step r p i s).2 = .inl q → Apart (r, q) (r', p')

/-- The shared state is as it must be, and so is every request under way. -/
structure Kept (Inv : σ → List (Req × Ans) → Prop)
    (Loc : σ → List (Req × Ans) → Req → Phase → Prop) (Apart : Req × Phase → Req × Phase → Prop)
    (s : State σ Req Phase Ans W) : Prop where
  inv : Inv s.shared s.answered
  owed : ∀ w r p, s.flying w = some (r, p) → Loc s.shared s.answered r p
  apart : ∀ w w', w ≠ w' → ∀ x y, s.flying w = some x → s.flying w' = some y → Apart x y

variable {ok : σ → Req → Phase → In → Prop} {Inv : σ → List (Req × Ans) → Prop}
  {Loc : σ → List (Req × Ans) → Req → Phase → Prop} {Apart : Req × Phase → Req × Phase → Prop}

omit [DecidableEq W] in
theorem Kept.idle {s : σ} (h : Inv s []) : Kept Inv Loc Apart (idle s : State σ Req Phase Ans W) :=
  ⟨h, (fun _ _ _ hp => by cases hp), fun _ _ _ _ _ hx => by cases hx⟩

/-- Requests are apart when the one that changed is apart from the others. -/
theorem apart_update {flying : W → Option (Req × Phase)} (hsymm : ∀ {x y}, Apart x y → Apart y x)
    (hold : ∀ w w', w ≠ w' → ∀ x y, flying w = some x → flying w' = some y → Apart x y)
    {new : Option (Req × Phase)}
    (hnew : ∀ w', w ≠ w' → ∀ x y, new = some x → flying w' = some y → Apart x y) :
    ∀ v v', v ≠ v' → ∀ x y, Function.update flying w new v = some x →
      Function.update flying w new v' = some y → Apart x y := by
  intro v v' hne x y hx hy
  rw [Function.update_apply] at hx hy
  by_cases hv : v = w
  · have hv' : v' ≠ w := fun heq => hne (hv.trans heq.symm)
    rw [if_pos hv] at hx
    rw [if_neg hv'] at hy
    exact hnew v' (Ne.symm hv') x y hx hy
  · rw [if_neg hv] at hx
    by_cases hv' : v' = w
    · rw [if_pos hv'] at hy
      exact hsymm (hnew v (Ne.symm hv) y x hy hx)
    · rw [if_neg hv'] at hy
      exact hold v v' hne x y hx hy

theorem Keeps.kept_step (hk : svc.Keeps ok Inv Loc Apart) (hs : Kept Inv Loc Apart s)
    (a : Action Req In W) (ha : Admits ok s a) : Kept Inv Loc Apart (svc.machine.step s a) := by
  cases a with
  | accept w r =>
      refine ⟨hs.inv, fun w' r' p' hp' => ?_, apart_update hk.symm hs.apart ?_⟩
      · change Function.update s.flying w _ w' = _ at hp'
        rw [Function.update_apply] at hp'
        split at hp'
        · cases hp'
          exact hk.first r hs.inv
        · exact hs.owed w' r' p' hp'
      · rintro w' - x y ⟨rfl⟩ -
        exact hk.apart_first r y
  | advance w i =>
      cases hw : s.flying w with
      | none =>
          rw [machine_advance_none hw]
          exact hs
      | some call =>
          obtain ⟨r, p⟩ := call
          have hok := ha r p hw
          have hown := hs.owed w r p hw
          rw [machine_advance hw]
          refine ⟨hk.inv hok hs.inv hown, fun w' r' p' hp' => ?_, apart_update hk.symm hs.apart ?_⟩
          · change Function.update s.flying w _ w' = _ at hp'
            rw [Function.update_apply] at hp'
            split at hp'
            · obtain ⟨rfl, hout⟩ := pending_eq_some.1 hp'
              exact hk.next hok hs.inv hown hout
            · rename_i hne
              have hapart := hs.apart w w' (Ne.symm hne) _ _ hw hp'
              exact hk.stable hok hs.inv hown (hs.owed w' r' p' hp') hapart
          · rintro w' hne ⟨r₁, p₁⟩ ⟨r', p'⟩ hx hy
            obtain ⟨rfl, hout⟩ := pending_eq_some.1 hx
            exact hk.apart_next hok hs.inv hown (hs.owed w' r' p' hy) (hs.apart w w' hne _ _ hw hy)
              hout

/-- **Every run keeps what one admitted step keeps.** -/
theorem kept_of_run (hk : svc.Keeps ok Inv Loc Apart) (h : svc.machine.Run (Admits ok) s t)
    (hs : Kept Inv Loc Apart s) : Kept Inv Loc Apart t :=
  h.invariant (fun _ a ha hi => hk.kept_step hi a ha) hs

/-- A property of the shared state that the next step of a request keeps exactly when the step
meets a check. -/
theorem good_step {Good : σ → Prop} (hgood : ∀ {s as r p i}, Inv s as → Loc s as r p → Good s →
      (Good (svc.step r p i s).1 ↔ check s r p i = true)) (hs : Kept Inv Loc Apart s)
    (hshared : Good s.shared) (a : Action Req In W) :
    Good (svc.machine.step s a).shared ↔ admitted check s a = true := by
  cases a with
  | accept w r => exact ⟨fun _ => rfl, fun _ => hshared⟩
  | advance w i =>
      have hadmitted : admitted check s (.advance w i)
          = (s.flying w).all fun call => check s.shared call.1 call.2 i := rfl
      rw [hadmitted]
      cases hw : s.flying w with
      | none =>
          rw [machine_advance_none hw]
          exact ⟨fun _ => rfl, fun _ => hshared⟩
      | some call =>
          rw [machine_advance hw, Option.all_some]
          exact hgood hs.inv (hs.owed w _ _ hw) hshared

/-- **Such a property holds all along a list of actions exactly when each of their steps meets
the check.** -/
theorem Keeps.along_iff_walk {Good : σ → Prop} (hk : svc.Keeps (fun _ _ _ _ => True) Inv Loc Apart)
    (hgood : ∀ {s as r p i}, Inv s as → Loc s as r p → Good s →
      (Good (svc.step r p i s).1 ↔ check s r p i = true)) (hs : Kept Inv Loc Apart s)
    (hshared : Good s.shared) (as : List (Action Req In W)) :
    (∀ bs, bs <+: as → Good (bs.foldl svc.machine.step s).shared) ↔
      svc.machine.walk (admitted check) s as = true := by
  let Base : State σ Req Phase Ans W → Prop := Kept Inv Loc Apart
  have hbase : ∀ s (a : Action Req In W), Base s → Base (svc.machine.step s a) := by
    intro s a hi
    apply hk.kept_step hi a
    cases a with
    | accept w r => trivial
    | advance w i => exact fun _ _ _ => trivial
  let All : State σ Req Phase Ans W → Prop := fun s => Good s.shared
  have hstep : ∀ s (a : Action Req In W), Base s → All s →
      (All (svc.machine.step s a) ↔ admitted check s a = true) :=
    fun s a hi hg => good_step hgood hi hg a
  have hall : All s := hshared
  exact Machine.along_iff_walk hbase hstep hs hall as

/-! ## Audits -/

/-- A step that was made, with what it was given and what came of it. -/
structure Made (Req Phase Ans In : Type) where
  request : Req
  phase : Phase
  input : In
  outcome : Phase ⊕ Ans

/-- The service with a record of every step that was made. -/
def audited (svc : Service σ Req Phase Ans In) :
    Service (σ × List (Made Req Phase Ans In)) Req Phase Ans In where
  first := svc.first
  step r p i s := (((svc.step r p i s.1).1, s.2 ++ [⟨r, p, i, (svc.step r p i s.1).2⟩]),
    (svc.step r p i s.1).2)

/-- Each entry of a record is warranted by those before it. -/
def Warranted {α : Type} (ok : List α → α → Prop) (log : List α) : Prop :=
  ∀ before m later, log = before ++ m :: later → ok before m

theorem warranted_nil {α : Type} {ok : List α → α → Prop} : Warranted ok [] := by
  intro before m later h
  exact absurd h.symm (List.append_ne_nil_of_right_ne_nil before (List.cons_ne_nil m later))

/-- One entry more. -/
theorem Warranted.concat {α : Type} {ok : List α → α → Prop} {log : List α}
    (h : Warranted ok log) {m : α} (hm : ok log m) : Warranted ok (log ++ [m]) := by
  intro before m' later heq
  rcases List.eq_nil_or_concat later with rfl | ⟨later', x, rfl⟩
  · obtain ⟨rfl, hlast⟩ := List.append_inj' heq rfl
    cases hlast
    exact hm
  · have hsplit : log ++ [m] = (before ++ m' :: later') ++ [x] := by
      rw [heq]
      simp
    exact h before m' later' (List.append_inj_left' hsplit rfl)

end Service

end Lib

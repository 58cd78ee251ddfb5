import Mathlib
import ArchHub.Lib.Concurrent

/-!
# Rely and guarantee

`Prog.Always` speaks of workers that are alike: what one may do, the others may.
Here each worker has its own side of it.  It *relies* on the others to move the
state along `R w` only, and *guarantees* that its own steps, where they are made
under the condition `C w`, are as `G w` says.

* `Prog.Relies`: a call keeps its guarantee from a state on, and what it returns
  meets a postcondition; `Relies.bind` puts calls one after the other.
* `RelyGuarantee`: what is to be shown of the workers — each keeps its guarantee,
  a guarantee is what the others rely on, and steps that are as guaranteed keep an
  invariant.
* `RelyGuarantee.invariant_of_run`: then every run whose steps meet the condition
  keeps the invariant.

The condition is a guard on the run's steps: what the workers do not check
themselves.
-/

namespace Lib

namespace Prog

variable {σ Λ ε α β : Type}

/-- From `s` on, while the others move the state along `R`, every step made under
`C` is as `G` says; and what the call returns meets `Q`. -/
def Relies (R : σ → σ → Prop) (C : Λ → σ → Prop) (G : Λ → σ → σ → Prop) (Q : α → σ → Prop) :
    σ → Prog σ Λ ε α → Prop
  | s, ret a => Q a s
  | _, raise _ => True
  | s, step l f k => ∀ t, R s t → C l t → ∀ r, f t = .ok r → G l t r ∧ Relies R C G Q r (k t)

namespace Relies

variable {R : σ → σ → Prop} {C : Λ → σ → Prop} {G : Λ → σ → σ → Prop} {Q : α → σ → Prop} {s : σ}
  {p : Prog σ Λ ε α}

/-- One call after another. -/
theorem bind {Q' : β → σ → Prop} {g : α → Prog σ Λ ε β} (hp : p.Relies R C G Q s)
    (hg : ∀ a t, Q a t → (g a).Relies R C G Q' t) : (p >>= g).Relies R C G Q' s := by
  induction p generalizing s with
  | ret a => exact hg a s hp
  | raise e => trivial
  | step l f k ih =>
      intro t ht hC r hr
      obtain ⟨hG, hrest⟩ := hp t ht hC r hr
      exact ⟨hG, ih t hrest⟩

/-- A reading of the state. -/
theorem observe {l : Λ} {f : σ → α} (hG : ∀ t, R s t → G l t t)
    (hQ : ∀ t, R s t → C l t → Q (f t) t) : (Prog.observe l f : Prog σ Λ ε α).Relies R C G Q s := by
  intro t ht hC r hr
  cases hr
  exact ⟨hG t ht, hQ t ht hC⟩

/-- What a call keeps from a state, it keeps from what the others make of it. -/
theorem later [IsPreorder σ R] {t : σ} (h : p.Relies R C G (fun _ _ => True) s) (hst : R s t) :
    p.Relies R C G (fun _ _ => True) t := by
  cases p with
  | ret a => trivial
  | raise e => trivial
  | step l f k => exact fun r hr => h r (trans_of R hst hr)

end Relies

end Prog

namespace System

variable {σ Λ ε α Op Env W : Type} [DecidableEq W]

/-- An action meets a condition on the steps of workers. -/
def Meets (C : W → Λ → σ → Prop) (s : State σ Λ ε α Op W) : Action Op Env W → Prop
  | .advance w => ∀ op l f k, s.calls w = some (op, .step l f k) → C w l s.shared
  | _ => True

/-- Workers that rely on each other, under an invariant. -/
structure RelyGuarantee (sys : System σ Λ ε α Op Env) (Starts : W → Op → Prop) (J : σ → Prop)
    (R : W → σ → σ → Prop) (C : W → Λ → σ → Prop) (G : W → Λ → σ → σ → Prop) : Prop where
  preorder : ∀ w, IsPreorder σ (R w)
  program : ∀ w op s, Starts w op →
    (sys.program op).Relies (R w) (fun l t => J t ∧ C w l t) (G w) (fun _ _ => True) s
  others : ∀ w w' l s t, w' ≠ w → G w l s t → R w' s t
  keeps : ∀ w l s t, J s → C w l s → G w l s t → J t
  env : ∀ e s, J s → J (sys.env e s) ∧ ∀ w, R w s (sys.env e s)

namespace RelyGuarantee

variable {sys : System σ Λ ε α Op Env} {Starts : W → Op → Prop} {J : σ → Prop}
  {R : W → σ → σ → Prop} {C : W → Λ → σ → Prop} {G : W → Λ → σ → σ → Prop}

/-- Every call under way keeps its guarantee. -/
def AllRely (J : σ → Prop) (R : W → σ → σ → Prop) (C : W → Λ → σ → Prop)
    (G : W → Λ → σ → σ → Prop) (s : State σ Λ ε α Op W) : Prop :=
  ∀ w op p, s.calls w = some (op, p) →
    p.Relies (R w) (fun l t => J t ∧ C w l t) (G w) (fun _ _ => True) s.shared

/-- One action that meets the condition keeps the invariant, and the calls as they
must be. -/
theorem step (h : RelyGuarantee sys Starts J R C G) {s : State σ Λ ε α Op W}
    (hs : AllRely J R C G s) (hJ : J s.shared) {a : Action Op Env W}
    (hstart : ∀ w op, a = .start w op → Starts w op) (hmeets : Meets C s a) :
    AllRely J R C G (sys.machine.step s a) ∧ J (sys.machine.step s a).shared := by
  cases a with
  | start w op =>
      refine ⟨fun w' op' p hp => ?_, hJ⟩
      change Function.update s.calls w _ w' = _ at hp
      rw [Function.update_apply] at hp
      split at hp
      · next hw =>
        cases hp
        exact hw ▸ h.program w op s.shared (hstart w op rfl)
      · exact hs w' op' p hp
  | env e =>
      obtain ⟨hJ', hmove⟩ := h.env e s.shared hJ
      refine ⟨fun w op p hp => ?_, hJ'⟩
      have := h.preorder w
      exact (hs w op p hp).later (hmove w)
  | advance w =>
      cases hcall : s.calls w with
      | none =>
          rw [machine_advance_none hcall]
          exact ⟨hs, hJ⟩
      | some call =>
          obtain ⟨op, p⟩ := call
          rw [machine_advance hcall]
          -- what is to be shown, where the worker's own rest and the move are known
          have hwhole : ∀ t rest, (∀ w', w' ≠ w → R w' s.shared t) → J t →
              Prog.Relies (R w) (fun l t => J t ∧ C w l t) (G w) (fun _ _ => True) t rest →
              AllRely J R C G (⟨t, Function.update s.calls w (some (op, rest))⟩ :
                State σ Λ ε α Op W) ∧ J t := by
            intro t rest hothers hJt hrest
            refine ⟨fun w' op' p' hp' => ?_, hJt⟩
            change Function.update s.calls w _ w' = _ at hp'
            rw [Function.update_apply] at hp'
            split at hp'
            · next hw =>
              cases hp'
              exact hw ▸ hrest
            · next hw =>
              have := h.preorder w'
              exact (hs w' op' p' hp').later (hothers w' hw)
          have hself : ∀ w', w' ≠ w → R w' s.shared s.shared := by
            intro w' _
            have := h.preorder w'
            exact refl_of (R w') s.shared
          have hp := hs w op p hcall
          cases p with
          | ret a => exact hwhole _ _ hself hJ trivial
          | raise e => exact hwhole _ _ hself hJ trivial
          | step l f k =>
              have hC : C w l s.shared := hmeets op l f k hcall
              have := h.preorder w
              unfold advanced
              dsimp only
              cases hf : f s.shared with
              | error e => exact hwhole _ _ hself hJ trivial
              | ok t =>
                  obtain ⟨hG, hrest⟩ := hp s.shared (refl_of (R w) s.shared) ⟨hJ, hC⟩ t hf
                  exact hwhole _ _ (fun w' hw' => h.others w w' l _ _ hw' hG)
                    (h.keeps w l _ _ hJ hC hG) hrest

/-- **The rule of rely and guarantee.**  A run whose steps meet the condition keeps
the invariant. -/
theorem invariant_of_run (h : RelyGuarantee sys Starts J R C G)
    {ok : State σ Λ ε α Op W → Action Op Env W → Prop}
    (hstart : ∀ s w op, ok s (.start w op) → Starts w op) (hmeets : ∀ s a, ok s a → Meets C s a)
    {s₀ : σ} {s : State σ Λ ε α Op W} (hrun : sys.machine.Run ok (idle s₀) s) (hJ : J s₀) :
    J s.shared := by
  have hall : AllRely J R C G s ∧ J s.shared := by
    let Inv : State σ Λ ε α Op W → Prop := fun s => AllRely J R C G s ∧ J s.shared
    have hstep : ∀ s a, ok s a → Inv s → Inv (sys.machine.step s a) := by
      intro s a ha hs
      exact h.step hs.1 hs.2 (fun w op hop => hstart s w op (hop ▸ ha)) (hmeets s a ha)
    have hnone : AllRely J R C G (idle s₀ : State σ Λ ε α Op W) := by
      intro w op p hcall
      cases hcall
    have hidle : Inv (idle s₀) := ⟨hnone, hJ⟩
    have hend : Inv s := Machine.Run.invariant hstep hrun hidle
    exact hend
  exact hall.2

end RelyGuarantee

end System

end Lib

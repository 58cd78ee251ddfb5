import Mathlib
import ArchHub.Lib.Transition

/-!
# Programs of atomic steps, and systems of them

Workers share a state and reach it only in atomic steps: a transaction that
commits or is rolled back, a reading of a clock, a locked section.  Between two
steps of one worker any number of steps of others may come.  A `Prog` is the rest
of one worker's call: its next step, and how it goes on from what that step saw.
A `System` runs any number of workers over one shared state, in any order.

* `Prog.Always R I s p`: from the state `s` on, whatever the others do along the
  relation `R`, every step of `p` meets `I` in the state it is made in;
  `Prog.Within R P s p` is the same for a condition on the step alone.
* `System.always_of_run`: in a run of the system every call under way is as its
  program is from the start.
* `System.shared_step`: what one action can do to the shared state.

A step carries a label that says what it is, so that a statement can speak of
one kind of step.
-/

namespace Lib

/-- The rest of a call: what it returns or raises, or its next atomic step, with
how it goes on from the state that step was made in.  A step that raises writes
nothing. -/
inductive Prog (σ Λ ε α : Type) where
  | ret (a : α)
  | raise (e : ε)
  | step (l : Λ) (f : σ → Except ε σ) (k : σ → Prog σ Λ ε α)

namespace Prog

variable {σ Λ ε α β : Type} {s : σ} {p : Prog σ Λ ε α}

/-- Go on with `g` where the first call returns. -/
def bind : Prog σ Λ ε α → (α → Prog σ Λ ε β) → Prog σ Λ ε β
  | ret a, g => g a
  | raise e, _ => raise e
  | step l f k, g => step l f (fun s => (k s).bind g)

instance : Monad (Prog σ Λ ε) where
  pure := ret
  bind := bind

/-- The state a transaction leaves, when it commits. -/
def committed (m : σ → Except ε (α × σ)) (s : σ) : Except ε σ := (m s).map Prod.snd

/-- What a transaction returns. -/
def answered (m : σ → Except ε (α × σ)) (s : σ) : Prog σ Λ ε α :=
  match m s with
  | .ok (a, _) => ret a
  | .error e => raise e

/-- One transaction. -/
def atomic (l : Λ) (m : σ → Except ε (α × σ)) : Prog σ Λ ε α := step l (committed m) (answered m)

/-- A reading of the state. -/
def observe (l : Λ) (f : σ → α) : Prog σ Λ ε α := step l .ok (fun s => ret (f s))

/-- Raise `e` if `c`. -/
def refuse (c : Bool) (e : ε) : Prog σ Λ ε Unit := if c then raise e else ret ()

/-- `for x in xs: f x`. -/
def each {ι : Type} (f : ι → Prog σ Λ ε Unit) : List ι → Prog σ Λ ε Unit
  | [] => ret ()
  | x :: xs => bind (f x) fun _ => each f xs

@[simp] theorem ret_bind (a : α) (g : α → Prog σ Λ ε β) : (ret a >>= g) = g a := rfl

@[simp] theorem raise_bind (e : ε) (g : α → Prog σ Λ ε β) : (raise e >>= g) = raise e := rfl

@[simp] theorem step_bind (l : Λ) (f : σ → Except ε σ) (k : σ → Prog σ Λ ε α)
    (g : α → Prog σ Λ ε β) : (step l f k >>= g) = step l f (fun s => k s >>= g) := rfl

/-! ## What every step of a call meets -/

/-- From `s` on, while the state moves along `R`, every step meets `I` in the
state it is made in.  `I` sees how the call goes on from the step. -/
def Always (R : σ → σ → Prop) (I : Λ → (σ → Except ε σ) → (σ → Prog σ Λ ε α) → σ → Prop) :
    σ → Prog σ Λ ε α → Prop
  | _, ret _ => True
  | _, raise _ => True
  | s, step l f k => ∀ t, R s t → I l f k t ∧ Always R I t (k t)

/-- From `s` on, while the state moves along `R`, every step meets `P` in the
state it is made in. -/
def Within (R : σ → σ → Prop) (P : Λ → (σ → Except ε σ) → σ → Prop) (s : σ)
    (p : Prog σ Λ ε α) : Prop := Always R (fun l f _ t => P l f t) s p

/-- What is always so from a state is always so from every later one. -/
theorem Always.later {R : σ → σ → Prop} [IsPreorder σ R]
    {I : Λ → (σ → Except ε σ) → (σ → Prog σ Λ ε α) → σ → Prop} {t : σ} (h : p.Always R I s)
    (hst : R s t) : p.Always R I t := by
  cases p with
  | ret a => trivial
  | raise e => trivial
  | step l f k => exact fun r hr => h r (trans_of R hst hr)

/-- A condition that holds of everything. -/
theorem Always.of_forall {R : σ → σ → Prop}
    {I : Λ → (σ → Except ε σ) → (σ → Prog σ Λ ε α) → σ → Prop} (hI : ∀ l f k t, I l f k t) :
    p.Always R I s := by
  induction p generalizing s with
  | ret a => trivial
  | raise e => trivial
  | step l f k ih => exact fun t _ => ⟨hI l f k t, ih t⟩

/-- A condition that follows from one that holds. -/
theorem Always.of_imp {R : σ → σ → Prop}
    {I J : Λ → (σ → Except ε σ) → (σ → Prog σ Λ ε α) → σ → Prop} (h : p.Always R I s)
    (himp : ∀ l f k t, I l f k t → J l f k t) : p.Always R J s := by
  induction p generalizing s with
  | ret a => trivial
  | raise e => trivial
  | step l f k ih => exact fun t ht => ⟨himp l f k t (h t ht).1, ih t (h t ht).2⟩

/-- Every step after which the call has returned leaves a state in which `Q` holds
of what it returned. -/
def Ends (Q : α → σ → Prop) (s : σ) (p : Prog σ Λ ε α) : Prop :=
  Always (fun _ _ => True) (fun _ f k t => ∀ r a, f t = .ok r → k t = ret a → Q a r) s p

namespace Ends

variable {Q : α → σ → Prop} {s : σ} {g : β → Prog σ Λ ε α} {l : Λ}

theorem atomic {m : σ → Except ε (α × σ)} (h : ∀ t a r, m t = .ok (a, r) → Q a r) :
    (Prog.atomic l m).Ends Q s := by
  intro t _
  refine ⟨fun r a hr ha => ?_, ?_⟩
  · unfold committed at hr
    unfold answered at ha
    cases hm : m t with
    | error e => simp [hm] at ha
    | ok x =>
        simp only [hm, Except.map] at hr ha
        cases hr
        cases ha
        exact h t x.1 x.2 hm
  · unfold answered
    split <;> trivial

/-- A transaction last, with what the call makes of its answer. -/
theorem atomic_bind {m : σ → Except ε (β × σ)}
    (h : ∀ t b r a, m t = .ok (b, r) → g b = ret a → Q a r) (hg : ∀ b t, (g b).Ends Q t) :
    (Prog.atomic l m >>= g).Ends Q s := by
  intro t _
  refine ⟨fun r a hr ha => ?_, ?_⟩
  · unfold committed at hr
    dsimp only at ha
    unfold answered at ha
    cases hm : m t with
    | error e => simp [hm, Except.map] at hr
    | ok x =>
        simp only [hm, Except.map] at hr ha
        cases hr
        exact h t x.1 x.2 a hm ha
  · dsimp only
    unfold answered
    cases m t with
    | error e => trivial
    | ok x => exact hg x.1 t

/-- The steps before the last ones do not return. -/
theorem bind {p : Prog σ Λ ε β} (hg : ∀ b t, (g b).Ends Q t) (hret : ∀ b a, g b ≠ ret a) :
    (p >>= g).Ends Q s := by
  induction p generalizing s with
  | ret b => exact hg b s
  | raise e => trivial
  | step l f k ih =>
      intro t _
      refine ⟨fun r a _ ha => ?_, ih t⟩
      have hka : (k t >>= g) = ret a := ha
      cases hk : k t with
      | ret b =>
          rw [hk, ret_bind] at hka
          exact absurd hka (hret b a)
      | raise e =>
          rw [hk, raise_bind] at hka
          cases hka
      | step l' f' k' =>
          rw [hk, step_bind] at hka
          cases hka

theorem refuse_bind {c : Bool} {e : ε} {g : Unit → Prog σ Λ ε α} (hg : (g ()).Ends Q s) :
    (Prog.refuse c e >>= g).Ends Q s := by
  cases c with
  | true => trivial
  | false => exact hg

end Ends

variable {R : σ → σ → Prop} {P Q : Λ → (σ → Except ε σ) → σ → Prop}

namespace Within

variable {g : α → Prog σ Λ ε β}

theorem bind [IsPreorder σ R] (hp : p.Within R P s) (hg : ∀ a t, R s t → (g a).Within R P t) :
    (p >>= g).Within R P s := by
  induction p generalizing s with
  | ret a => exact hg a s (refl_of R s)
  | raise e => trivial
  | step _ _ _ ih =>
      intro t ht
      obtain ⟨hP, hk⟩ := hp t ht
      exact ⟨hP, ih t hk fun a r hr => hg a r (trans_of R ht hr)⟩

variable {m : σ → Except ε (α × σ)} {l : Λ}

theorem atomic (h : ∀ t, R s t → P l (committed m) t) : (Prog.atomic l m).Within R P s := by
  intro t ht
  refine ⟨h t ht, ?_⟩
  unfold answered
  split <;> trivial

/-- A transaction first: the rest runs on what it returned, from then on. -/
theorem atomic_bind (h : ∀ t, R s t → P l (committed m) t)
    (hg : ∀ t a r, R s t → m t = .ok (a, r) → (g a).Within R P t) :
    (Prog.atomic l m >>= g).Within R P s := by
  intro t ht
  refine ⟨h t ht, ?_⟩
  dsimp only
  unfold answered
  cases hm : m t with
  | error e => trivial
  | ok x => exact hg t x.1 x.2 ht hm

theorem refuse (c : Bool) (e : ε) : (Prog.refuse c e : Prog σ Λ ε Unit).Within R P s := by
  unfold Prog.refuse
  split <;> trivial

/-- A refusal first: the rest runs when there is none. -/
theorem refuse_bind {c : Bool} {e : ε} {g : Unit → Prog σ Λ ε β}
    (hg : c = false → (g ()).Within R P s) : (Prog.refuse c e >>= g).Within R P s := by
  cases c with
  | true => trivial
  | false => exact hg rfl

theorem each [IsPreorder σ R] {ι : Type} {f : ι → Prog σ Λ ε Unit} {xs : List ι}
    (h : ∀ x ∈ xs, ∀ t, R s t → (f x).Within R P t) : (Prog.each f xs).Within R P s := by
  induction xs generalizing s with
  | nil => trivial
  | cons x xs ih =>
      refine bind (h x List.mem_cons_self s (refl_of R s)) fun _ t ht => ih fun y hy r hr => ?_
      exact h y (List.mem_cons_of_mem _ hy) r (trans_of R ht hr)

end Within

end Prog

/-! ## Systems -/

/-- Calls as programs over a shared state, and what the environment does to it. -/
structure System (σ Λ ε α Op Env : Type) where
  /-- The program of a call. -/
  program : Op → Prog σ Λ ε α
  /-- What the environment does to the shared state. -/
  env : Env → σ → σ

namespace System

variable {σ Λ ε α Op Env W : Type}

/-- The shared state, and the call each worker has under way. -/
structure State (σ Λ ε α Op W : Type) where
  shared : σ
  calls : W → Option (Op × Prog σ Λ ε α)

/-- What happens next: a worker starts a call (giving up the one it had under
way), a worker makes the next step of its call, or the environment acts. -/
inductive Action (Op Env W : Type) where
  | start (w : W) (op : Op)
  | advance (w : W)
  | env (e : Env)

/-- The call after its next step. -/
def advanced (op : Op) : Prog σ Λ ε α → σ → σ × (Op × Prog σ Λ ε α)
  | .step _ f k, s => match f s with
      | .ok t => (t, (op, k s))
      | .error e => (s, (op, .raise e))
  | p, s => (s, (op, p))

variable [DecidableEq W] (sys : System σ Λ ε α Op Env)

/-- The system under an order of its workers. -/
def machine : Machine (State σ Λ ε α Op W) (Action Op Env W) where
  step s
    | .start w op => { s with calls := Function.update s.calls w (some (op, sys.program op)) }
    | .advance w => match s.calls w with
        | none => s
        | some (op, p) =>
            ⟨(advanced op p s.shared).1,
              Function.update s.calls w (some (advanced op p s.shared).2)⟩
    | .env e => { s with shared := sys.env e s.shared }

/-- No call is under way. -/
def idle (s : σ) : State σ Λ ε α Op W := ⟨s, fun _ => none⟩

/-- Worker `w` makes a step labelled `l` of its call `op` in `s`; it commits,
leaves the shared state `t`, and the call goes on with `rest`. -/
def Commits (s : State σ Λ ε α Op W) (w : W) (op : Op) (l : Λ) (t : σ)
    (rest : Prog σ Λ ε α) : Prop :=
  ∃ f k, s.calls w = some (op, .step l f k) ∧ f s.shared = .ok t ∧ k s.shared = rest

variable {sys} {R : σ → σ → Prop}
  {I : Op → Λ → (σ → Except ε σ) → (σ → Prog σ Λ ε α) → σ → Prop} {s : State σ Λ ε α Op W} {w : W}
  {op : Op} {p : Prog σ Λ ε α} {l : Λ}

/-- Every call under way always meets its condition. -/
def AllAlways (R : σ → σ → Prop)
    (I : Op → Λ → (σ → Except ε σ) → (σ → Prog σ Λ ε α) → σ → Prop)
    (s : State σ Λ ε α Op W) : Prop :=
  ∀ w op p, s.calls w = some (op, p) → p.Always R (I op) s.shared

/-- A step of a worker that has a call under way. -/
theorem machine_advance (h : s.calls w = some (op, p)) : sys.machine.step s (.advance w)
      = ⟨(advanced op p s.shared).1,
          Function.update s.calls w (some (advanced op p s.shared).2)⟩ := by
  show (match s.calls w with | none => s | some (op, p) => _ : State σ Λ ε α Op W) = _
  rw [h]

theorem machine_advance_none (h : s.calls w = none) : sys.machine.step s (.advance w) = s := by
  show (match s.calls w with | none => s | some (op, p) => _ : State σ Λ ε α Op W) = _
  rw [h]

/-- The next step of a call moves the shared state along `R` and keeps the call
as it must be. -/
theorem advanced_always [IsPreorder σ R] {s : σ}
    (hI : ∀ l f k t r, I op l f k t → f t = .ok r → R t r) (h : p.Always R (I op) s) :
    R s (advanced op p s).1 ∧ (advanced op p s).2.1 = op ∧
      (advanced op p s).2.2.Always R (I op) (advanced op p s).1 := by
  cases p with
  | ret a => exact ⟨refl_of R _, rfl, trivial⟩
  | raise e => exact ⟨refl_of R _, rfl, trivial⟩
  | step l f k =>
      obtain ⟨hIs, hk⟩ := h s (refl_of R _)
      unfold advanced
      dsimp only
      cases hf : f s with
      | error e => exact ⟨refl_of R _, rfl, trivial⟩
      | ok t => exact ⟨hI l f k s t hIs hf, rfl, hk.later (hI l f k s t hIs hf)⟩

/-- One action keeps every call as it must be, and moves the shared state along
`R`. -/
theorem allAlways_step [IsPreorder σ R] (hprogram : ∀ op s, (sys.program op).Always R (I op) s)
    (hI : ∀ op l f k s t, I op l f k s → f s = .ok t → R s t) (henv : ∀ e s, R s (sys.env e s))
    (hs : AllAlways R I s) (a : Action Op Env W) :
    AllAlways R I (sys.machine.step s a) ∧ R s.shared (sys.machine.step s a).shared := by
  cases a with
  | start w op =>
      refine ⟨fun w' op' p hp => ?_, refl_of R _⟩
      change Function.update s.calls w _ w' = _ at hp
      rw [Function.update_apply] at hp
      split at hp
      · cases hp
        exact hprogram op _
      · exact hs w' op' p hp
  | env e => exact ⟨fun w op p hp => (hs w op p hp).later (henv e _), henv e _⟩
  | advance w =>
      cases hcall : s.calls w with
      | none =>
          rw [machine_advance_none hcall]
          exact ⟨hs, refl_of R _⟩
      | some call =>
          obtain ⟨op, p⟩ := call
          obtain ⟨hmove, hop, hrest⟩ := advanced_always (hI op) (hs w op p hcall)
          rw [machine_advance hcall]
          refine ⟨fun w' op' p' hp' => ?_, hmove⟩
          change Function.update s.calls w _ w' = _ at hp'
          rw [Function.update_apply] at hp'
          split at hp'
          · rw [Option.some.injEq] at hp'
            have hop' : op' = op := by rw [← hop, hp']
            have hrest' : p' = (advanced op p s.shared).2.2 := by rw [hp']
            rw [hop', hrest']
            exact hrest
          · exact (hs w' op' p' hp').later hmove

/-- **In every run every call under way is as it must be**, and the shared state
moves along `R`. -/
theorem always_of_run [IsPreorder σ R] {ok : State σ Λ ε α Op W → Action Op Env W → Prop}
    (hprogram : ∀ op s, (sys.program op).Always R (I op) s)
    (hI : ∀ op l f k s t, I op l f k s → f s = .ok t → R s t) (henv : ∀ e s, R s (sys.env e s))
    {t : State σ Λ ε α Op W} (h : sys.machine.Run ok s t) (hs : AllAlways R I s) :
    AllAlways R I t ∧ R s.shared t.shared := by
  induction h with
  | refl => exact ⟨hs, refl_of R _⟩
  | tail _ hlast ih =>
      obtain ⟨a, -, rfl⟩ := hlast
      obtain ⟨hin, hmove⟩ := allAlways_step hprogram hI henv ih.1 a
      exact ⟨hin, trans_of R ih.2 hmove⟩

/-- What one action does to the shared state: nothing, what the environment does,
or a committed step of a call under way. -/
theorem shared_step (s : State σ Λ ε α Op W) (a : Action Op Env W) :
    (sys.machine.step s a).shared = s.shared ∨
      (∃ e, a = .env e ∧ (sys.machine.step s a).shared = sys.env e s.shared) ∨
      ∃ w op l rest, a = .advance w ∧ Commits s w op l (sys.machine.step s a).shared rest := by
  cases a with
  | start w op => exact Or.inl rfl
  | env e => exact Or.inr (Or.inl ⟨e, rfl, rfl⟩)
  | advance w =>
      cases hcall : s.calls w with
      | none =>
          rw [machine_advance_none hcall]
          exact Or.inl rfl
      | some call =>
          obtain ⟨op, p⟩ := call
          rw [machine_advance hcall]
          cases p with
          | ret a => exact Or.inl rfl
          | raise e => exact Or.inl rfl
          | step l f k =>
              unfold advanced
              dsimp only
              cases hf : f s.shared with
              | error e => exact Or.inl rfl
              | ok t => exact Or.inr (Or.inr ⟨w, op, l, k s.shared, rfl, f, k, hcall, hf, rfl⟩)

instance anyPreorder : IsPreorder σ (fun _ _ => True) where
  refl _ := trivial
  trans _ _ _ _ _ := trivial

omit [DecidableEq W] in
theorem allAlways_idle (s : σ) :
    AllAlways R I (idle s : State σ Λ ε α Op W) := fun _ _ _ h => by cases h

omit [DecidableEq W] in
/-- A step of a call meets its condition. -/
theorem AllAlways.meets [IsPreorder σ R] (hs : AllAlways R I s) {f : σ → Except ε σ}
    {k : σ → Prog σ Λ ε α} (h : s.calls w = some (op, .step l f k)) : I op l f k s.shared :=
  (hs w op _ h s.shared (refl_of R _)).1

/-- **What a call returns holds of the state its last step leaves.** -/
theorem ends_of_run {ok : State σ Λ ε α Op W → Action Op Env W → Prop} {Q : Op → α → σ → Prop}
    (hprogram : ∀ op s, (sys.program op).Ends (Q op) s) {s₀ : σ}
    (h : sys.machine.Run ok (idle s₀) s) {t : σ} {a : α} (hc : Commits s w op l t (.ret a)) :
    Q op a t := by
  obtain ⟨f, k, hcall, hf, hk⟩ := hc
  have hall := (always_of_run hprogram (fun _ _ _ _ _ _ _ _ => trivial) (fun _ _ => trivial) h
    (allAlways_idle s₀)).1
  exact hall.meets hcall t a hf hk

end System

end Lib

import Mathlib

/-!
# Stateful computations that can raise

`Exec σ ε α` is a computation over a state `σ` that returns a value or raises
an error.  Raising does not undo anything: the state after an error is whatever
had been written by then, as it is for a program that mutates shared objects
and raises in the middle.  This is what makes questions about partially applied
updates expressible.

`Keeps R m` says that the states before and after `m` are related by `R`, whether it
returns or raises.  For a preorder `R` this composes along every construct, so it is
the form of frame conditions.
-/

namespace Lib

universe u v w

/-- A computation over the state `σ` that may raise an `ε`. -/
def Exec (σ : Type u) (ε : Type v) (α : Type w) := σ → Except ε α × σ

namespace Exec

variable {σ : Type u} {ε : Type v} {α β : Type w} {m : Exec σ ε α} {s t : σ} {a : α} {e : ε}
  {r : Except ε α} {g : σ → Except ε α} {c : Bool} {f : α → Exec σ ε β} {b : β}

/-- Return a value and leave the state alone. -/
def ret (a : α) : Exec σ ε α := fun s => (.ok a, s)

/-- Raise, keeping what has been written. -/
def raise (e : ε) : Exec σ ε α := fun s => (.error e, s)

/-- Run `m`, then `f` on its value, unless `m` raised. -/
def seq (m : Exec σ ε α) (f : α → Exec σ ε β) : Exec σ ε β := fun s =>
  match m s with
  | (.ok a, t) => f a t
  | (.error e, t) => (.error e, t)

instance : Monad (Exec σ ε) where
  pure := ret
  bind := seq

/-- A pure computation, which cannot touch the state. -/
def lift (r : Except ε α) : Exec σ ε α := fun s => (r, s)

instance : MonadLift (Except ε) (Exec σ ε) := ⟨lift⟩

/-- Read the state. -/
def read (f : σ → α) : Exec σ ε α := fun s => (.ok (f s), s)

/-- A pure computation on the current state. -/
def look (f : σ → Except ε α) : Exec σ ε α := fun s => (f s, s)

/-- Write the state. -/
def write (f : σ → σ) : Exec σ ε PUnit := fun s => (.ok ⟨⟩, f s)

/-- Raise `e` if `c`. -/
def refuse (c : Bool) (e : ε) : Exec σ ε PUnit := if c then raise e else ret ⟨⟩

/-- Run `m` if `c`. -/
def onlyIf (c : Bool) (m : Exec σ ε PUnit) : Exec σ ε PUnit := if c then m else ret ⟨⟩

/-- `for x in xs: f x`. -/
def each {ι : Type*} (f : ι → Exec σ ε PUnit) : List ι → Exec σ ε PUnit
  | [] => ret ⟨⟩
  | x :: xs => seq (f x) (fun _ => each f xs)

/-- `[f(x) for x in xs]`. -/
def collect {ι : Type*} (f : ι → Exec σ ε α) : List ι → Exec σ ε (List α)
  | [] => ret []
  | x :: xs => seq (f x) (fun a => seq (collect f xs) (fun as => ret (a :: as)))

@[simp] theorem pure_apply (a : α) (s : σ) : (pure a : Exec σ ε α) s = (.ok a, s) := rfl
@[simp] theorem ret_apply (a : α) (s : σ) : (ret a : Exec σ ε α) s = (.ok a, s) := rfl
@[simp] theorem raise_apply (e : ε) (s : σ) : (raise e : Exec σ ε α) s = (.error e, s) := rfl
@[simp] theorem lift_apply (r : Except ε α) (s : σ) : (lift r : Exec σ ε α) s = (r, s) := rfl
@[simp] theorem monadLift_apply (r : Except ε α) (s : σ) :
    (MonadLift.monadLift r : Exec σ ε α) s = (r, s) := rfl
@[simp] theorem liftM_eq (r : Except ε α) : (liftM r : Exec σ ε α) = lift r := rfl
@[simp] theorem read_apply (f : σ → α) (s : σ) : (read f : Exec σ ε α) s = (.ok (f s), s) := rfl
@[simp] theorem look_apply (f : σ → Except ε α) (s : σ) : look f s = (f s, s) := rfl
@[simp] theorem write_apply (f : σ → σ) (s : σ) :
    (write f : Exec σ ε PUnit) s = (.ok ⟨⟩, f s) := rfl

theorem bind_apply (m : Exec σ ε α) (f : α → Exec σ ε β) (s : σ) :
    (m >>= f) s = match m s with
      | (.ok a, t) => f a t
      | (.error e, t) => (.error e, t) := rfl

theorem bind_ok (h : m s = (.ok a, t)) (f : α → Exec σ ε β) : (m >>= f) s = f a t := by
  rw [bind_apply, h]

theorem bind_error (h : m s = (.error e, t)) (f : α → Exec σ ε β) :
    (m >>= f) s = (.error e, t) := by
  rw [bind_apply, h]

@[simp] theorem read_bind (f : σ → α) (g : α → Exec σ ε β) (s : σ) :
    (read f >>= g) s = g (f s) s := rfl

@[simp] theorem write_bind (f : σ → σ) (g : PUnit → Exec σ ε β) (s : σ) :
    (write f >>= g) s = g ⟨⟩ (f s) := rfl

@[simp] theorem pure_bind_apply (a : α) (g : α → Exec σ ε β) (s : σ) :
    (pure a >>= g) s = g a s := rfl

@[simp] theorem raise_bind (e : ε) (g : α → Exec σ ε β) (s : σ) :
    ((raise e : Exec σ ε α) >>= g) s = (.error e, s) := rfl

theorem liftM_bind_of_ok (h : r = .ok a) (f : α → Exec σ ε β) (s : σ) :
    ((MonadLiftT.monadLift r : Exec σ ε α) >>= f) s = f a s := by
  rw [h]
  rfl

theorem liftM_bind_of_error (h : r = .error e) (f : α → Exec σ ε β) (s : σ) :
    ((MonadLiftT.monadLift r : Exec σ ε α) >>= f) s = (.error e, s) := by
  rw [h]
  rfl

theorem look_bind_of_ok (h : g s = .ok a) (f : α → Exec σ ε β) : (look g >>= f) s = f a s :=
  bind_ok (congrArg (fun r => (r, s)) h) f

theorem refuse_bind_of_false (h : c = false) (e : ε) (f : PUnit → Exec σ ε β) (s : σ) :
    (refuse c e >>= f) s = f ⟨⟩ s := by
  rw [h]
  rfl

/-- From a returned sequence, the two returns it is made of. -/
theorem bind_eq_ok (h : (m >>= f) s = (.ok b, t)) :
    ∃ a r, m s = (.ok a, r) ∧ f a r = (.ok b, t) := by
  rw [bind_apply] at h
  rcases hm : m s with ⟨_ | a, r⟩
  · rw [hm] at h
    simp at h
  · rw [hm] at h
    exact ⟨a, r, rfl, h⟩

theorem liftM_bind_ok (h : ((MonadLiftT.monadLift r : Exec σ ε α) >>= f) s = (.ok b, t)) :
    ∃ a, r = .ok a ∧ f a s = (.ok b, t) := by
  cases r with
  | error e => cases h
  | ok a => exact ⟨a, rfl, h⟩

theorem look_bind_ok (h : (look g >>= f) s = (.ok b, t)) :
    ∃ a, g s = .ok a ∧ f a s = (.ok b, t) := by
  obtain ⟨a, r, ha, hb⟩ := bind_eq_ok h
  obtain ⟨hg, rfl⟩ := Prod.mk.inj ha
  exact ⟨a, hg, hb⟩

theorem refuse_bind_ok {f : PUnit → Exec σ ε β} (h : (refuse c e >>= f) s = (.ok b, t)) :
    c = false ∧ f ⟨⟩ s = (.ok b, t) := by
  cases c with
  | true => cases h
  | false => exact ⟨rfl, h⟩

/-! ## Frame conditions -/

/-- The states before and after are related, whatever the outcome. -/
def Keeps (R : σ → σ → Prop) (m : Exec σ ε α) : Prop := ∀ s, R s (m s).2

namespace Keeps

variable {R : σ → σ → Prop} [IsPreorder σ R]

theorem of_eq {m : Exec σ ε α} (h : ∀ s, (m s).2 = s) : Keeps R m :=
  fun s => by rw [h s]; exact refl_of R s

@[simp] theorem pure (a : α) : Keeps R (Pure.pure a : Exec σ ε α) := of_eq fun _ => rfl
@[simp] theorem ret (a : α) : Keeps R (Exec.ret a : Exec σ ε α) := of_eq fun _ => rfl
@[simp] theorem raise (e : ε) : Keeps R (Exec.raise e : Exec σ ε α) := of_eq fun _ => rfl
@[simp] theorem lift (r : Except ε α) : Keeps R (Exec.lift r : Exec σ ε α) := of_eq fun _ => rfl
@[simp] theorem read (f : σ → α) : Keeps R (Exec.read f : Exec σ ε α) := of_eq fun _ => rfl
@[simp] theorem look (f : σ → Except ε α) : Keeps R (Exec.look f) := of_eq fun _ => rfl

@[simp] theorem liftM (r : Except ε α) : Keeps R (MonadLiftT.monadLift r : Exec σ ε α) :=
  of_eq fun _ => rfl

@[simp] theorem refuse (c : Bool) (e : ε) : Keeps R (Exec.refuse c e : Exec σ ε PUnit) :=
  of_eq fun _ => by unfold Exec.refuse; split <;> rfl

theorem onlyIf {m : Exec σ ε PUnit} (hm : c = true → Keeps R m) : Keeps R (Exec.onlyIf c m) := by
  unfold Exec.onlyIf
  split
  · exact hm ‹_›
  · exact ret _

/-- A pure computation first: what follows runs on its value only. -/
theorem liftM_bind {f : α → Exec σ ε β} (hf : ∀ a, r = .ok a → Keeps R (f a)) :
    Keeps R ((MonadLiftT.monadLift r : Exec σ ε α) >>= f) := by
  cases r with
  | error e => exact of_eq fun _ => rfl
  | ok a => exact hf a rfl

omit [IsPreorder σ R] in
theorem write {f : σ → σ} (h : ∀ s, R s (f s)) : Keeps R (Exec.write f : Exec σ ε PUnit) := h

theorem bind {m : Exec σ ε α} {f : α → Exec σ ε β} (hm : Keeps R m)
    (hf : ∀ a, Keeps R (f a)) : Keeps R (m >>= f) := by
  intro s
  have hms := hm s
  rw [bind_apply]
  rcases h : m s with ⟨_ | a, t⟩
  · rw [h] at hms
    exact hms
  · rw [h] at hms
    exact trans_of R hms (hf a t)

theorem each {ι : Type*} {f : ι → Exec σ ε PUnit} {xs : List ι} (hf : ∀ x ∈ xs, Keeps R (f x)) :
    Keeps R (Exec.each f xs) := by
  induction xs with
  | nil => exact ret _
  | cons x xs ih =>
      exact bind (hf x List.mem_cons_self) fun _ => ih fun y hy => hf y (List.mem_cons_of_mem _ hy)

theorem collect {ι : Type*} {f : ι → Exec σ ε α} (hf : ∀ x, Keeps R (f x)) (xs : List ι) :
    Keeps R (Exec.collect f xs) := by
  induction xs with
  | nil => exact ret _
  | cons x xs ih => exact bind (hf x) (fun _ => bind ih (fun _ => ret _))

end Keeps

/-- The states before and after are related when `m` starts from `s`. -/
def KeepsAt (R : σ → σ → Prop) (m : Exec σ ε α) (s : σ) : Prop := R s (m s).2

namespace KeepsAt

variable {R : σ → σ → Prop} [IsPreorder σ R] {s : σ}

omit [IsPreorder σ R] in
theorem of_keeps {m : Exec σ ε α} (h : Keeps R m) : KeepsAt R m s := h s

theorem pure (a : α) : KeepsAt R (Pure.pure a : Exec σ ε α) s := refl_of R s

theorem raise (e : ε) : KeepsAt R (Exec.raise e : Exec σ ε α) s := refl_of R s

theorem bind {m : Exec σ ε α} {f : α → Exec σ ε β} (hm : KeepsAt R m s)
    (hf : ∀ a t, m s = (.ok a, t) → R s t → KeepsAt R (f a) t) : KeepsAt R (m >>= f) s := by
  unfold KeepsAt at hm ⊢
  rw [bind_apply]
  rcases h : m s with ⟨_ | a, t⟩
  · rw [h] at hm
    exact hm
  · rw [h] at hm
    exact trans_of R hm (hf a t h hm)

/-- A pure computation first: what follows runs on its value only. -/
theorem liftM_bind {f : α → Exec σ ε β} (hf : ∀ a, r = .ok a → KeepsAt R (f a) s) :
    KeepsAt R ((MonadLiftT.monadLift r : Exec σ ε α) >>= f) s := by
  cases r with
  | error e => exact refl_of R s
  | ok a => exact hf a rfl

/-- A reading of the state first. -/
theorem look_bind {g : σ → Except ε α} {f : α → Exec σ ε β}
    (hf : ∀ a, g s = .ok a → KeepsAt R (f a) s) : KeepsAt R (look g >>= f) s := by
  refine bind (refl_of R s) fun a t h _ => ?_
  obtain ⟨hg, rfl⟩ := Prod.mk.inj h
  exact hf a hg

theorem refuse_bind {f : PUnit → Exec σ ε β} (hf : c = false → KeepsAt R (f ⟨⟩) s) :
    KeepsAt R (refuse c e >>= f) s := by
  cases c with
  | true => exact refl_of R s
  | false => exact hf rfl

omit [IsPreorder σ R] in
theorem read_bind {g : σ → α} {f : α → Exec σ ε β} (hf : KeepsAt R (f (g s)) s) :
    KeepsAt R (read g >>= f) s := hf

theorem onlyIf {m : Exec σ ε PUnit} (hm : c = true → KeepsAt R m s) :
    KeepsAt R (Exec.onlyIf c m) s := by
  cases c with
  | true => exact hm rfl
  | false => exact refl_of R s

/-- A write first. -/
theorem write_bind {g : σ → σ} {f : PUnit → Exec σ ε β} (hg : R s (g s))
    (hf : KeepsAt R (f ⟨⟩) (g s)) : KeepsAt R (write g >>= f) s :=
  bind hg fun _ t h _ => by
    obtain ⟨-, rfl⟩ := Prod.mk.inj h
    exact hf

end KeepsAt

/-- Related, and the condition kept, if the condition held before. -/
def under (P : σ → Prop) (R : σ → σ → Prop) (s t : σ) : Prop := P s → R s t ∧ P t

instance (P : σ → Prop) (R : σ → σ → Prop) [IsPreorder σ R] : IsPreorder σ (under P R) where
  refl s hs := ⟨refl_of R s, hs⟩
  trans _ _ _ h₁ h₂ hs :=
    ⟨trans_of R (h₁ hs).1 (h₂ (h₁ hs).2).1, (h₂ (h₁ hs).2).2⟩

/-! ## Returned values -/

namespace Returns

variable {Q : β → σ → Prop}

end Returns

/-! ## Two computations in lockstep -/

/-- A relation between the computations over two states that returning, raising
and sequencing respect.  What is written once over an abstract state and run on
both is then related as soon as its parts are: a frame condition (relate a
computation to anything when it keeps the frame) and a simulation (relate a
cached computation to the plain one) are two instances. -/
structure Lockstep (σ τ ε : Type) where
  /-- The relation. -/
  rel : ∀ {α : Type}, Exec σ ε α → Exec τ ε α → Prop
  /-- A pure computation is related to itself. -/
  lift : ∀ {α : Type} (r : Except ε α), rel (Exec.lift r) (Exec.lift r)
  /-- Sequencing respects the relation. -/
  bind : ∀ {α β : Type} {m : Exec σ ε α} {m' : Exec τ ε α} {f : α → Exec σ ε β}
    {f' : α → Exec τ ε β}, rel m m' → (∀ a, rel (f a) (f' a)) → rel (m >>= f) (m' >>= f')

namespace Lockstep

variable {σ τ ε : Type} (L : Lockstep σ τ ε) {α β ι : Type}

theorem pure (a : α) : L.rel (Pure.pure a) (Pure.pure a) := L.lift (.ok a)

theorem raise (e : ε) : L.rel (Exec.raise e : Exec σ ε α) (Exec.raise e) := L.lift (.error e)

theorem liftM (r : Except ε α) :
    L.rel (MonadLiftT.monadLift r : Exec σ ε α) (MonadLiftT.monadLift r) := L.lift r

theorem refuse (c : Bool) (e : ε) : L.rel (Exec.refuse c e) (Exec.refuse c e) := by
  unfold Exec.refuse
  split
  · exact L.raise e
  · exact L.pure _

variable {L}

/-- A pure computation first: what follows runs on its value only. -/
theorem liftM_bind {r : Except ε α} {f : α → Exec σ ε β} {f' : α → Exec τ ε β}
    (hf : ∀ a, r = .ok a → L.rel (f a) (f' a)) :
    L.rel ((MonadLiftT.monadLift r : Exec σ ε α) >>= f)
      ((MonadLiftT.monadLift r : Exec τ ε α) >>= f') := by
  cases r with
  | error e => exact L.raise e
  | ok a => exact hf a rfl

theorem ite {c : Prop} [Decidable c] {m n : Exec σ ε α} {m' n' : Exec τ ε α}
    (hm : c → L.rel m m') (hn : ¬c → L.rel n n') :
    L.rel (if c then m else n) (if c then m' else n') := by
  split
  · exact hm ‹_›
  · exact hn ‹_›

theorem collect {f : ι → Exec σ ε α} {f' : ι → Exec τ ε α} (hf : ∀ x, L.rel (f x) (f' x))
    (xs : List ι) : L.rel (Exec.collect f xs) (Exec.collect f' xs) := by
  induction xs with
  | nil => exact L.pure []
  | cons x xs ih => exact L.bind (hf x) fun a => L.bind ih fun as => L.pure (a :: as)

/-- The frame conditions of a computation, as a lockstep with itself. -/
def keeps (R : σ → σ → Prop) [IsPreorder σ R] : Lockstep σ σ ε where
  rel m _ := Keeps R m
  lift r := Keeps.lift r
  bind hm hf := Keeps.bind hm hf

end Lockstep

end Exec

end Lib

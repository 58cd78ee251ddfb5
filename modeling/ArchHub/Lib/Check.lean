import Mathlib

/-!
# Checks that raise

A validator is a sequence of checks in `Except`: it raises at the first one that
fails.  The lemmas here turn "the validator accepts" into the conjunction of
what the checks say, so that a proof about accepted values never unfolds the
control flow.
-/

namespace Lib

universe u

namespace Check

variable {ε : Type u} {α β : Type} {f : α → Except ε β} {xs : List α} {ys : List β}

/-- Raise `e` unless `b`. -/
def require (b : Bool) (e : ε) : Except ε Unit := if b then .ok () else .error e

/-- `if c: x`. -/
def onlyIf (c : Bool) (x : Except ε Unit) : Except ε Unit := if c then x else .ok ()

/-- `for x in xs: f x`. -/
def each (f : α → Except ε Unit) : List α → Except ε Unit
  | [] => .ok ()
  | x :: xs => do
      f x
      each f xs

/-- `[f(x) for x in xs]`. -/
def collect (f : α → Except ε β) : List α → Except ε (List β)
  | [] => .ok []
  | x :: xs => do
      let y ← f x
      let ys ← collect f xs
      .ok (y :: ys)

/-- `any(f(x) for x in xs)`, which stops at the first hit. -/
def any (f : α → Except ε Bool) : List α → Except ε Bool
  | [] => .ok false
  | x :: xs => do
      let hit ← f x
      if hit then .ok true else any f xs

@[simp] theorem require_true (e : ε) : require true e = .ok () := rfl

@[simp] theorem require_ok_iff {b : Bool} {e : ε} : require b e = .ok () ↔ b = true := by
  unfold require
  split <;> simp_all

@[simp] theorem onlyIf_ok_iff {c : Bool} {x : Except ε Unit} :
    onlyIf c x = .ok () ↔ (c = true → x = .ok ()) := by
  cases c <;> simp [onlyIf]

theorem bind_ok_iff {x : Except ε α} {b : β} :
    (x >>= f) = .ok b ↔ ∃ a, x = .ok a ∧ f a = .ok b := by
  cases x with
  | error e => simp [Bind.bind, Except.bind]
  | ok a => simp [Bind.bind, Except.bind]

@[simp] theorem ok_bind (a : α) (f : α → Except ε β) : (.ok a >>= f) = f a := rfl

@[simp] theorem error_bind (e : ε) (f : α → Except ε β) :
    ((.error e : Except ε α) >>= f) = .error e := rfl

/-- Two continuations that agree on what the first computation returns. -/
theorem bind_congr {x : Except ε α} {g : α → Except ε β} (h : ∀ a, x = .ok a → f a = g a) :
    (x >>= f) = (x >>= g) := by
  cases x with
  | error e => rfl
  | ok a => exact h a rfl

/-- A loop of checks passes exactly when every check does. -/
theorem each_ok_iff {f : α → Except ε Unit} : each f xs = .ok () ↔ ∀ x ∈ xs, f x = .ok () := by
  induction xs with
  | nil => simp [each]
  | cons x xs ih =>
      rw [each, bind_ok_iff]
      simp only [List.forall_mem_cons, ← ih]
      exact ⟨fun ⟨_, hx, hxs⟩ => ⟨hx, hxs⟩, fun ⟨hx, hxs⟩ => ⟨⟨⟩, hx, hxs⟩⟩

/-- Two checks in sequence pass exactly when both do. -/
theorem seq_ok_iff {x y : Except ε Unit} :
    (x >>= fun _ => y) = .ok () ↔ x = .ok () ∧ y = .ok () := by
  rw [bind_ok_iff]
  exact ⟨fun ⟨_, hx, hy⟩ => ⟨hx, hy⟩, fun ⟨hx, hy⟩ => ⟨⟨⟩, hx, hy⟩⟩

theorem collect_ok_iff : collect f xs = .ok ys ↔ List.Forall₂ (fun x y => f x = .ok y) xs ys := by
  induction xs generalizing ys with
  | nil => simp [collect, eq_comm]
  | cons x xs ih =>
      rw [collect, bind_ok_iff]
      constructor
      · rintro ⟨y, hy, h⟩
        obtain ⟨zs, hzs, hok⟩ := bind_ok_iff.mp h
        cases hok
        exact List.Forall₂.cons hy (ih.mp hzs)
      · intro h
        cases h with
        | cons hy hys => exact ⟨_, hy, by rw [ih.mpr hys]; rfl⟩

theorem exists_of_mem_collect (h : collect f xs = .ok ys) {y : β} (hy : y ∈ ys) :
    ∃ x ∈ xs, f x = .ok y := by
  have hall := collect_ok_iff.mp h
  clear h
  induction hall with
  | nil => simp at hy
  | cons hx _ ih =>
      rcases List.mem_cons.mp hy with rfl | hy
      · exact ⟨_, List.mem_cons_self, hx⟩
      · obtain ⟨x, hxs, hfx⟩ := ih hy
        exact ⟨x, List.mem_cons_of_mem _ hxs, hfx⟩

/-- Every part of a collection that returns has returned. -/
theorem ok_of_mem_collect (h : collect f xs = .ok ys) {x : α} (hx : x ∈ xs) :
    ∃ y ∈ ys, f x = .ok y := by
  have hall := collect_ok_iff.mp h
  clear h
  induction hall with
  | nil => cases hx
  | cons hy _ ih =>
      rcases List.mem_cons.mp hx with rfl | hx
      · exact ⟨_, List.mem_cons_self, hy⟩
      · obtain ⟨y, hys, hfy⟩ := ih hx
        exact ⟨y, List.mem_cons_of_mem _ hys, hfy⟩

/-- What each step of a fold keeps, the fold keeps. -/
theorem foldlM_keeps {f : β → α → Except ε β} {Inv : β → Prop}
    (hstep : ∀ b x b', Inv b → f b x = .ok b' → Inv b') {b b' : β} (hb : Inv b)
    (h : xs.foldlM f b = .ok b') : Inv b' := by
  induction xs generalizing b with
  | nil =>
      obtain rfl := Except.ok.inj h
      exact hb
  | cons x xs ih =>
      rw [List.foldlM_cons] at h
      obtain ⟨b₁, hfirst, hrest⟩ := bind_ok_iff.1 h
      exact ih (hstep b x b₁ hb hfirst) hrest

end Check

end Lib

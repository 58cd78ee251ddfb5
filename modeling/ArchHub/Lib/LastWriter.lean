import Mathlib

/-!
# Last-writer-wins registers

A register takes in versions, each with a stamp.  A version is written where there
is none yet, and over the one that is there when its stamp is strictly later.
What the register says after any versions in any order is said by one with the
latest stamp (`Register.isNewest_of_run`); so when versions with equal stamps say
the same, neither their order nor their repetition matters (`Register.run_said`).

What is written may depend on what was there, beside what it says: `update`
sees the cell.
-/

namespace Lib

/-- A register: how a version is written, fresh or over another, and what its
cells and versions say. -/
structure Register (α β κ γ : Type) where
  /-- The stamp of a version. -/
  stamp : α → κ
  /-- The stamp of a cell. -/
  clock : β → κ
  /-- The cell of a first version. -/
  fresh : α → β
  /-- The cell of a version that is written over another. -/
  update : β → α → β
  /-- What a version says. -/
  said : α → γ
  /-- What a cell says. -/
  content : β → γ
  clock_fresh : ∀ a, clock (fresh a) = stamp a
  clock_update : ∀ b a, clock (update b a) = stamp a
  content_fresh : ∀ a, content (fresh a) = said a
  content_update : ∀ b a, content (update b a) = said a

namespace Register

variable {α β κ γ : Type} [LinearOrder κ] (reg : Register α β κ γ) {o : Option β} {xs : List α}

/-- A version comes in. -/
def accept (o : Option β) (a : α) : Option β :=
  match o with
  | none => some (reg.fresh a)
  | some b => if reg.clock b < reg.stamp a then some (reg.update b a) else some b

variable {reg} in
theorem accept_of_lt {b : β} {a : α} (h : reg.clock b < reg.stamp a) :
    reg.accept (some b) a = some (reg.update b a) := if_pos h

variable {reg} in
theorem accept_of_not_lt {b : β} {a : α} (h : ¬ reg.clock b < reg.stamp a) :
    reg.accept (some b) a = some b := if_neg h

/-- Versions come in, one after the other. -/
def run (o : Option β) (xs : List α) : Option β := xs.foldl reg.accept o

@[simp] theorem run_nil (o : Option β) : reg.run o [] = o := rfl

@[simp] theorem run_cons (o : Option β) (a : α) (xs : List α) :
    reg.run o (a :: xs) = reg.run (reg.accept o a) xs := rfl

theorem run_append (o : Option β) (xs ys : List α) :
    reg.run o (xs ++ ys) = reg.run (reg.run o xs) ys := List.foldl_append

theorem accept_isSome (o : Option β) (a : α) : (reg.accept o a).isSome = true := by
  unfold accept
  split
  · rfl
  · split <;> rfl

theorem run_isSome : (reg.run o xs).isSome = true ↔ o.isSome = true ∨ xs ≠ [] := by
  induction xs generalizing o with
  | nil => simp
  | cons a xs ih => simp [ih, accept_isSome]

/-- The cell holds a version with the latest stamp of those that came in, or of
what was there before. -/
structure IsNewest (o : Option β) (xs : List α) (b : β) : Prop where
  above : ∀ a ∈ xs, reg.stamp a ≤ reg.clock b
  above_first : ∀ c, o = some c → reg.clock c ≤ reg.clock b
  source : (∃ a ∈ xs, reg.clock b = reg.stamp a ∧ reg.content b = reg.said a) ∨
    ∃ c, o = some c ∧ reg.clock b = reg.clock c ∧ reg.content b = reg.content c

variable {reg} {b : β} {ys : List α}

/-- One version. -/
theorem isNewest_of_accept {a : α} (h : reg.accept o a = some b) : reg.IsNewest o [a] b := by
  unfold accept at h
  cases o with
  | none =>
      obtain rfl : reg.fresh a = b := Option.some.inj h
      exact ⟨by simp [reg.clock_fresh], by simp,
        Or.inl ⟨a, List.mem_singleton_self a, reg.clock_fresh a, reg.content_fresh a⟩⟩
  | some c =>
      dsimp only at h
      split at h
      · next hlt =>
        obtain rfl : reg.update c a = b := Option.some.inj h
        refine ⟨by simp [reg.clock_update], ?_,
          Or.inl ⟨a, List.mem_singleton_self a, reg.clock_update c a, reg.content_update c a⟩⟩
        rintro d hd
        cases hd
        rw [reg.clock_update]
        exact hlt.le
      · next hnot =>
        obtain rfl : c = b := Option.some.inj h
        refine ⟨?_, ?_, Or.inr ⟨c, rfl, rfl, rfl⟩⟩
        · intro x hx
          rw [List.mem_singleton.1 hx]
          exact not_lt.1 hnot
        · rintro d hd
          cases hd
          exact le_rfl

/-- **After any versions** the cell holds a latest one. -/
theorem isNewest_of_run (h : reg.run o xs = some b) : reg.IsNewest o xs b := by
  induction xs generalizing o with
  | nil =>
      refine ⟨by simp, ?_, Or.inr ⟨b, h, rfl, rfl⟩⟩
      intro c hc
      obtain rfl : b = c := Option.some.inj (h.symm.trans hc)
      exact le_rfl
  | cons a xs ih =>
      rw [run_cons] at h
      obtain ⟨c, hc⟩ := Option.isSome_iff_exists.1 (reg.accept_isSome o a)
      have hfirst : reg.IsNewest o [a] c := isNewest_of_accept hc
      have hrest : reg.IsNewest (some c) xs b := by rw [← hc]; exact ih h
      have hcb : reg.clock c ≤ reg.clock b := hrest.above_first c rfl
      refine ⟨?_, fun d hd => (hfirst.above_first d hd).trans hcb, ?_⟩
      · intro x hx
        rcases List.mem_cons.1 hx with rfl | hx
        · exact (hfirst.above x (List.mem_singleton_self x)).trans hcb
        · exact hrest.above x hx
      · rcases hrest.source with ⟨x, hx, hclock, hsaid⟩ | ⟨d, hd, hclock, hsaid⟩
        · exact Or.inl ⟨x, List.mem_cons_of_mem a hx, hclock, hsaid⟩
        · cases hd
          rcases hfirst.source with ⟨x, hx, hclock', hsaid'⟩ | ⟨d, hd, hclock', hsaid'⟩
          · rw [List.mem_singleton.1 hx] at hclock' hsaid'
            exact Or.inl ⟨a, List.mem_cons_self, hclock.trans hclock', hsaid.trans hsaid'⟩
          · exact Or.inr ⟨d, hd, hclock.trans hclock', hsaid.trans hsaid'⟩

variable (reg) in
/-- Versions with equal stamps say the same, also beside what is there. -/
structure Agree (o : Option β) (xs : List α) : Prop where
  versions : ∀ a ∈ xs, ∀ a' ∈ xs, reg.stamp a = reg.stamp a' → reg.said a = reg.said a'
  first : ∀ c, o = some c → ∀ a ∈ xs, reg.clock c = reg.stamp a → reg.content c = reg.said a

variable (reg) in
/-- Each version has one with its stamp that says the same among the others. -/
def Covers (xs ys : List α) : Prop :=
  ∀ a ∈ xs, ∃ a' ∈ ys, reg.stamp a' = reg.stamp a ∧ reg.said a' = reg.said a

/-- The stamp of a latest cell is no earlier than that of another one. -/
theorem IsNewest.clock_le {b' : β} (hcovers : reg.Covers xs ys) (h : reg.IsNewest o xs b)
    (h' : reg.IsNewest o ys b') : reg.clock b ≤ reg.clock b' := by
  rcases h.source with ⟨a, ha, hb, -⟩ | ⟨c, hc, hb, -⟩
  · obtain ⟨a', ha', hstamp, -⟩ := hcovers a ha
    rw [hb, ← hstamp]
    exact h'.above a' ha'
  · rw [hb]
    exact h'.above_first c hc

/-- Two latest cells say the same. -/
theorem IsNewest.content_eq {b' : β} (hagree : reg.Agree o xs) (hxy : reg.Covers xs ys)
    (hyx : reg.Covers ys xs) (h : reg.IsNewest o xs b) (h' : reg.IsNewest o ys b') :
    reg.content b = reg.content b' := by
  have hclock : reg.clock b = reg.clock b' := le_antisymm (h.clock_le hxy h') (h'.clock_le hyx h)
  rcases h.source with ⟨a, ha, hb, hsaid⟩ | ⟨c, hc, hb, hsaid⟩ <;>
    rcases h'.source with ⟨a', ha', hb', hsaid'⟩ | ⟨c', hc', hb', hsaid'⟩
  · obtain ⟨x, hx, hstamp, hxsaid⟩ := hyx a' ha'
    rw [hsaid, hsaid', ← hxsaid]
    exact hagree.versions a ha x hx (by rw [hstamp, ← hb, ← hb', hclock])
  · rw [hsaid, hsaid']
    exact (hagree.first c' hc' a ha (by rw [← hb, ← hb', hclock])).symm
  · obtain ⟨x, hx, hstamp, hxsaid⟩ := hyx a' ha'
    rw [hsaid, hsaid', ← hxsaid]
    exact hagree.first c hc x hx (by rw [hstamp, ← hb, ← hb', hclock])
  · obtain rfl : c = c' := Option.some.inj (hc.symm.trans hc')
    rw [hsaid, hsaid']

/-- **Neither order nor repetition matters** where equal stamps say the same. -/
theorem run_said (hagree : reg.Agree o xs) (hxy : reg.Covers xs ys) (hyx : reg.Covers ys xs) :
    (reg.run o xs).map reg.content = (reg.run o ys).map reg.content := by
  have hnil : xs = [] ↔ ys = [] := by
    constructor
    · rintro rfl
      refine List.eq_nil_iff_forall_not_mem.2 fun a ha => ?_
      obtain ⟨x, hx, -⟩ := hyx a ha
      exact List.not_mem_nil hx
    · rintro rfl
      refine List.eq_nil_iff_forall_not_mem.2 fun a ha => ?_
      obtain ⟨x, hx, -⟩ := hxy a ha
      exact List.not_mem_nil hx
  have hsome : (reg.run o xs).isSome = true ↔ (reg.run o ys).isSome = true := by
    rw [run_isSome, run_isSome, ne_eq, ne_eq, hnil]
  cases hx : reg.run o xs with
  | none =>
      cases hy : reg.run o ys with
      | none => rfl
      | some b' =>
          rw [hx, hy] at hsome
          cases hsome.2 rfl
  | some b =>
      cases hy : reg.run o ys with
      | none =>
          rw [hx, hy] at hsome
          cases hsome.1 rfl
      | some b' =>
          exact congrArg some ((isNewest_of_run hx).content_eq hagree hxy hyx (isNewest_of_run hy))

/-- A cell is never lost, and written over by later versions only. -/
theorem run_onward (xs : List α) :
    ∃ b', reg.run (some b) xs = some b' ∧ (b' = b ∨ reg.clock b < reg.clock b') := by
  induction xs generalizing b with
  | nil => exact ⟨b, rfl, Or.inl rfl⟩
  | cons a xs ih =>
      rw [run_cons]
      by_cases hlt : reg.clock b < reg.stamp a
      · rw [accept_of_lt hlt]
        obtain ⟨b', hb', h⟩ := ih
        refine ⟨b', hb', Or.inr ?_⟩
        rw [← reg.clock_update b a] at hlt
        rcases h with rfl | h
        · exact hlt
        · exact hlt.trans h
      · rw [accept_of_not_lt hlt]
        exact ih

/-- What every version that is written gives and keeps, the cell has. -/
theorem run_induction {P : β → Prop} (hfirst : ∀ c, o = some c → P c)
    (hfresh : ∀ a ∈ xs, P (reg.fresh a)) (hupdate : ∀ a ∈ xs, ∀ c, P c → P (reg.update c a))
    {b : β} (h : reg.run o xs = some b) : P b := by
  induction xs generalizing o with
  | nil => exact hfirst b h
  | cons a xs ih =>
      rw [run_cons] at h
      refine ih ?_ (fun x hx => hfresh x (List.mem_cons_of_mem a hx))
        (fun x hx => hupdate x (List.mem_cons_of_mem a hx)) h
      intro c hc
      unfold accept at hc
      cases o with
      | none =>
          obtain rfl : reg.fresh a = c := Option.some.inj hc
          exact hfresh a List.mem_cons_self
      | some d =>
          dsimp only at hc
          split at hc
          · obtain rfl : reg.update d a = c := Option.some.inj hc
            exact hupdate a List.mem_cons_self d (hfirst d rfl)
          · exact hfirst c hc

end Register

end Lib

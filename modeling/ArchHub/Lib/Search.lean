import Mathlib

/-!
# A search that uses a rule once on a way

Rules rewrite values.  A search from a seed remembers the values it has found, and of each the
rules that were used on the way on which it was found first; on that way it uses none of them
again.  It gives up at a value that is too long, and after some number of steps.

* `Way`: what rules without repetition lead to; `Derivable`.
* `Search.run`: the search, which ends.
* `Kept`: what is found whatever the first way was.
* `Search.run_spec`: **what is found is derivable, and what is kept is found**.
-/

namespace Lib

open List

variable {V : Type*}

/-! ## Ways -/

section Ways

variable (rules : List (V → Option V)) (seed : V)

/-- A way to a value: the rules that were used and what they gave, the last one first. -/
inductive Way : List (ℕ × V) → V → Prop
  | start : Way [] seed
  | step {way : List (ℕ × V)} {x y : V} {i : ℕ} {r : V → Option V} (hway : Way way x)
      (hnew : i ∉ way.map Prod.fst) (hrule : rules[i]? = some r) (hr : r x = some y) :
      Way ((i, y) :: way) y

/-- There is a way to the value. -/
def Derivable (y : V) : Prop := ∃ way, Way rules seed way y

/-- What a search finds whichever way to a value it goes first: where a way to the value has
used the next rule already, it has passed what the rule gives now. -/
inductive Kept : V → Prop
  | start : Kept seed
  | step {x y : V} {i : ℕ} {r : V → Option V} (hx : Kept x) (hrule : rules[i]? = some r)
      (hr : r x = some y) (hpassed : ∀ way, Way rules seed way x → i ∈ way.map Prod.fst →
        y ∈ seed :: way.map Prod.snd) : Kept y

end Ways

variable {rules : List (V → Option V)} {seed : V} {y : V}

/-- Derivable values stay within what the rules do not leave. -/
theorem Derivable.mem {closed : List V} (hseed : seed ∈ closed)
    (hclosed : ∀ x ∈ closed, ∀ r ∈ rules, ∀ y ∈ r x, y ∈ closed) (h : Derivable rules seed y) :
    y ∈ closed := by
  obtain ⟨way, hway⟩ := h
  induction hway with
  | start => exact hseed
  | step _ _ hrule hr ih => exact hclosed _ ih _ (mem_of_getElem? hrule) _ hr

/-- Where each rule rewrites one derivable value only, nothing is lost. -/
theorem kept_of_single
    (hsingle : ∀ (i : ℕ) (r : V → Option V) (x x' : V), rules[i]? = some r → Derivable rules seed x → Derivable rules seed x' →
      (r x).isSome → (r x').isSome → x = x') (h : Derivable rules seed y) : Kept rules seed y := by
  obtain ⟨way, hway⟩ := h
  -- where the rule was used before, it gave the same
  have hused : ∀ {x way}, Way rules seed way x → ∀ {i r y z}, rules[i]? = some r →
      Derivable rules seed z → r z = some y → i ∈ way.map Prod.fst → y ∈ way.map Prod.snd := by
    intro x way hway
    induction hway with
    | start => exact fun _ _ _ hi => absurd hi not_mem_nil
    | step hway hnew hrule hr ih =>
      intro i r y z hri hz hrz hi
      rcases List.mem_cons.1 hi with heq | hi
      · subst heq
        obtain rfl : _ = r := Option.some.inj (hrule.symm.trans hri)
        obtain rfl := hsingle _ _ _ _ hrule ⟨_, hway⟩ hz (by rw [hr]; rfl) (by rw [hrz]; rfl)
        obtain rfl := Option.some.inj (hr.symm.trans hrz)
        exact mem_cons_self
      · exact mem_cons_of_mem _ (ih hri hz hrz hi)
  induction hway with
  | start => exact .start
  | step hway _ hrule hr ih =>
    exact ih.step hrule hr fun way' hway' hi =>
      mem_cons_of_mem _ (hused hway' hrule ⟨_, hway⟩ hr hi)

/-! ## The search -/

/-- What has been found, what is still to be looked at with the rules used for it, and the
number of steps. -/
structure Search (V : Type*) where
  found : List V
  pending : List (V × List ℕ)
  steps : ℕ
deriving DecidableEq

namespace Search

variable [DecidableEq V] (tooLong : V → Bool) (limit : ℕ)

/-- A rule meets a value. -/
def meet (x : V) (used : List ℕ) (s : Search V) (rule : (V → Option V) × ℕ) :
    Option (Search V) :=
  if rule.2 ∈ used then some s
  else match rule.1 x with
    | none => some s
    | some y =>
        if tooLong y || decide (limit < s.steps + 1) then none
        else if y ∈ s.found then some { s with steps := s.steps + 1 }
        else some ⟨y :: s.found, (y, rule.2 :: used) :: s.pending, s.steps + 1⟩

/-- All rules meet a value. -/
def turn (x : V) (used : List ℕ) (s : Search V) : List ((V → Option V) × ℕ) → Option (Search V)
  | [] => some s
  | rule :: rest => (meet tooLong limit x used s rule).bind fun s' => turn x used s' rest

/-- What is still to be done. -/
def rest (s : Search V) : ℕ := s.pending.length + (limit - s.steps)

variable {tooLong limit} {x : V} {used : List ℕ} {s s' : Search V}
  {list : List ((V → Option V) × ℕ)} {r : V → Option V} {i : ℕ}

/-- The three ways on. -/
theorem meet_cases (h : meet tooLong limit x used s (r, i) = some s') :
    ((i ∈ used ∨ r x = none) ∧ s' = s) ∨
      ∃ y, i ∉ used ∧ r x = some y ∧ s.steps < limit ∧
        (y ∈ s.found ∧ s' = { s with steps := s.steps + 1 } ∨
          y ∉ s.found ∧ s' = ⟨y :: s.found, (y, i :: used) :: s.pending, s.steps + 1⟩) := by
  unfold meet at h
  split at h
  next hi => exact .inl ⟨.inl hi, (Option.some.inj h).symm⟩
  next hi =>
    split at h
    next hr => exact .inl ⟨.inr hr, (Option.some.inj h).symm⟩
    next y hr =>
      split at h
      · cases h
      next hlimit =>
        have hsteps : s.steps < limit := by
          by_contra hnot
          exact hlimit (Bool.or_eq_true_iff.2 (.inr (decide_eq_true (by omega))))
        refine .inr ⟨y, hi, hr, hsteps, ?_⟩
        split at h
        next hy => exact .inl ⟨hy, (Option.some.inj h).symm⟩
        next hy => exact .inr ⟨hy, (Option.some.inj h).symm⟩

theorem rest_meet {rule : (V → Option V) × ℕ} (h : meet tooLong limit x used s rule = some s') :
    s'.rest limit ≤ s.rest limit := by
  obtain ⟨-, rfl⟩ | ⟨y, -, -, hsteps, ⟨-, rfl⟩ | ⟨-, rfl⟩⟩ := meet_cases h
  · rfl
  · unfold rest
    dsimp only
    omega
  · unfold rest
    rw [length_cons]
    dsimp only
    omega

theorem rest_turn (h : turn tooLong limit x used s list = some s') :
    s'.rest limit ≤ s.rest limit := by
  induction list generalizing s with
  | nil => exact (Option.some.inj h ▸ le_refl _)
  | cons rule list ih =>
    obtain ⟨s₁, hmeet, hturn⟩ := Option.bind_eq_some_iff.1 h
    exact (ih hturn).trans (rest_meet hmeet)

variable (tooLong limit rules) in
/-- The search goes on while something is pending. -/
def run (s : Search V) : Option (List V) :=
  match _hpending : s.pending with
  | [] => some s.found
  | (x, used) :: pending =>
      match _hturn : turn tooLong limit x used { s with pending := pending } rules.zipIdx with
      | none => none
      | some s' => run s'
termination_by s.rest limit
decreasing_by
  refine (rest_turn _hturn).trans_lt ?_
  unfold rest
  rw [_hpending, List.length_cons]
  dsimp only
  omega

variable (tooLong limit rules) in
theorem run_nil (h : s.pending = []) : run rules tooLong limit s = some s.found := by
  unfold run
  split
  · rfl
  next heq => cases h.symm.trans heq

variable (tooLong limit rules) in
theorem run_cons {pending : List (V × List ℕ)} (h : s.pending = (x, used) :: pending) :
    run rules tooLong limit s =
      (turn tooLong limit x used { s with pending := pending } rules.zipIdx).bind
        (run rules tooLong limit) := by
  rw [run]
  split
  next heq => cases h.symm.trans heq
  next heq =>
    cases h.symm.trans heq
    split
    next hturn => rw [hturn]; rfl
    next hturn => rw [hturn]; rfl

theorem run_of_turn {pending : List (V × List ℕ)} (h : s.pending = (x, used) :: pending)
    (hturn : turn tooLong limit x used { s with pending := pending } rules.zipIdx = some s') :
    run rules tooLong limit s = run rules tooLong limit s' := by
  rw [run_cons rules tooLong limit h, hturn, Option.bind_some]

/-! ## What a search finds -/

/-- What a turn makes of the search. -/
structure Grown (x : V) (used : List ℕ) (list : List ((V → Option V) × ℕ)) (s s' : Search V) :
    Prop where
  found : s.found ⊆ s'.found
  pending : s.pending ⊆ s'.pending
  new : ∀ y ∈ s'.found, y ∈ s.found ∨
    ∃ r i, (r, i) ∈ list ∧ i ∉ used ∧ r x = some y ∧ (y, i :: used) ∈ s'.pending
  newPending : ∀ e ∈ s'.pending, e ∈ s.pending ∨
    ∃ r i, (r, i) ∈ list ∧ i ∉ used ∧ r x = some e.1 ∧ e.2 = i :: used ∧ e.1 ∈ s'.found
  met : ∀ r i y, (r, i) ∈ list → i ∉ used → r x = some y → y ∈ s'.found

theorem grown_meet (h : meet tooLong limit x used s (r, i) = some s') :
    Grown x used [(r, i)] s s' := by
  obtain ⟨hnot, rfl⟩ | ⟨y, hi, hr, -, ⟨hy, rfl⟩ | ⟨-, rfl⟩⟩ := meet_cases h
  · refine ⟨fun _ => id, fun _ => id, fun _ => .inl, fun _ => .inl, fun r' i' y hmem hi' hr' => ?_⟩
    cases List.mem_singleton.1 hmem
    rcases hnot with hused | hnone
    · exact absurd hused hi'
    · cases hnone.symm.trans hr'
  · refine ⟨fun _ => id, fun _ => id, fun _ => .inl, fun _ => .inl, fun r' i' z hmem _ hr' => ?_⟩
    cases List.mem_singleton.1 hmem
    obtain rfl := Option.some.inj (hr.symm.trans hr')
    exact hy
  · refine ⟨fun _ => mem_cons_of_mem _, fun _ => mem_cons_of_mem _, ?_, ?_, ?_⟩
    · intro z hz
      rcases List.mem_cons.1 hz with rfl | hz
      · exact .inr ⟨r, i, mem_singleton_self _, hi, hr, mem_cons_self⟩
      · exact .inl hz
    · intro e he
      rcases List.mem_cons.1 he with rfl | he
      · exact .inr ⟨r, i, mem_singleton_self _, hi, hr, rfl, mem_cons_self⟩
      · exact .inl he
    · intro r' i' z hmem _ hr'
      cases List.mem_singleton.1 hmem
      obtain rfl := Option.some.inj (hr.symm.trans hr')
      exact mem_cons_self

omit [DecidableEq V] in
theorem Grown.trans {l₁ l₂ : List ((V → Option V) × ℕ)} {s₁ : Search V}
    (h₁ : Grown x used l₁ s s₁) (h₂ : Grown x used l₂ s₁ s') : Grown x used (l₁ ++ l₂) s s' where
  found _ hy := h₂.found (h₁.found hy)
  pending _ he := h₂.pending (h₁.pending he)
  new y hy := by
    rcases h₂.new y hy with hy | ⟨r, i, hmem, hi, hr, he⟩
    · rcases h₁.new y hy with hy | ⟨r, i, hmem, hi, hr, he⟩
      · exact .inl hy
      · exact .inr ⟨r, i, mem_append_left _ hmem, hi, hr, h₂.pending he⟩
    · exact .inr ⟨r, i, mem_append_right _ hmem, hi, hr, he⟩
  newPending e he := by
    rcases h₂.newPending e he with he | ⟨r, i, hmem, hi, hr, heq, hfound⟩
    · rcases h₁.newPending e he with he | ⟨r, i, hmem, hi, hr, heq, hfound⟩
      · exact .inl he
      · exact .inr ⟨r, i, mem_append_left _ hmem, hi, hr, heq, h₂.found hfound⟩
    · exact .inr ⟨r, i, mem_append_right _ hmem, hi, hr, heq, hfound⟩
  met r i y hmem hi hr := by
    rcases List.mem_append.1 hmem with hmem | hmem
    · exact h₂.found (h₁.met r i y hmem hi hr)
    · exact h₂.met r i y hmem hi hr

theorem grown_turn (h : turn tooLong limit x used s list = some s') : Grown x used list s s' := by
  induction list generalizing s with
  | nil =>
    obtain rfl := Option.some.inj h
    exact ⟨fun _ => id, fun _ => id, fun _ => .inl, fun _ => .inl,
      fun _ _ _ hmem => absurd hmem not_mem_nil⟩
  | cons rule list ih =>
    obtain ⟨s₁, hmeet, hturn⟩ := Option.bind_eq_some_iff.1 h
    exact (grown_meet hmeet).trans (ih hturn)

variable (rules seed) in
/-- A way on which only found values lie. -/
def Found (s : Search V) (x : V) (used : List ℕ) : Prop :=
  ∃ way, Way rules seed way x ∧ way.map Prod.fst = used ∧ way.map Prod.snd ⊆ s.found

variable (rules) in
/-- All that the rules not used before make of a value is found. -/
def Done (s : Search V) (x : V) (used : List ℕ) : Prop :=
  ∀ i r y, rules[i]? = some r → i ∉ used → r x = some y → y ∈ s.found

variable (rules seed) in
/-- What holds between two turns. -/
structure Inv (s : Search V) : Prop where
  start : seed ∈ s.found
  found : ∀ x ∈ s.found, ∃ used, Found rules seed s x used ∧
    ((x, used) ∈ s.pending ∨ Done rules s x used)
  pending : ∀ e ∈ s.pending, Found rules seed s e.1 e.2

omit [DecidableEq V] in
theorem inv_start : Inv rules seed ⟨[seed], [(seed, [])], 0⟩ where
  start := mem_singleton_self _
  found x hx := by
    obtain rfl := List.mem_singleton.1 hx
    exact ⟨[], ⟨[], .start, rfl, nil_subset _⟩, .inl (mem_singleton_self _)⟩
  pending e he := by
    obtain rfl := List.mem_singleton.1 he
    exact ⟨[], .start, rfl, nil_subset _⟩

/-- A turn keeps it. -/
theorem Inv.turn {pending : List (V × List ℕ)} (hinv : Inv rules seed s)
    (hpending : s.pending = (x, used) :: pending)
    (hturn : turn tooLong limit x used { s with pending := pending } rules.zipIdx = some s') :
    Inv rules seed s' := by
  have hgrown := grown_turn hturn
  have hkeep : ∀ {y u}, Found rules seed s y u → Found rules seed s' y u :=
    fun ⟨way, hway, heq, hsub⟩ => ⟨way, hway, heq, fun _ hz => hgrown.found (hsub hz)⟩
  -- the value looked at is done now
  have hdone : Done rules s' x used := fun i r y hrule hi hr =>
    hgrown.met r i y (List.mk_mem_zipIdx_iff_getElem?.2 hrule) hi hr
  -- what is new was reached through it
  have hnew : ∀ {y i r}, (r, i) ∈ rules.zipIdx → i ∉ used → r x = some y → y ∈ s'.found →
      Found rules seed s' y (i :: used) := by
    intro y i r hmem hi hr hy
    obtain ⟨way, hway, rfl, hsub⟩ := hkeep (hinv.pending (x, used) (hpending ▸ mem_cons_self))
    exact ⟨(i, y) :: way, hway.step hi (List.mk_mem_zipIdx_iff_getElem?.1 hmem) hr, rfl,
      List.cons_subset.2 ⟨hy, hsub⟩⟩
  refine ⟨hgrown.found hinv.start, fun y hy => ?_, fun e he => ?_⟩
  · rcases hgrown.new y hy with hold | ⟨r, i, hmem, hi, hr, he⟩
    · obtain ⟨u, hfound, hrest⟩ := hinv.found y hold
      refine ⟨u, hkeep hfound, ?_⟩
      rcases hrest with hrest | hrest
      · rcases List.mem_cons.1 (hpending ▸ hrest) with heq | hrest
        · cases heq
          exact .inr hdone
        · exact .inl (hgrown.pending hrest)
      · exact .inr fun i r z hrule hi hr => hgrown.found (hrest i r z hrule hi hr)
    · exact ⟨i :: used, hnew hmem hi hr hy, .inl he⟩
  · rcases hgrown.newPending e he with hold | ⟨r, i, hmem, hi, hr, heq, hfound⟩
    · exact hkeep (hinv.pending e (hpending ▸ mem_cons_of_mem _ hold))
    · exact heq ▸ hnew hmem hi hr hfound

omit [DecidableEq V] in
/-- When nothing is pending, what is kept is found. -/
theorem Inv.mem_of_kept (hinv : Inv rules seed s) (hpending : s.pending = []) {y : V}
    (h : Kept rules seed y) : y ∈ s.found := by
  induction h with
  | start => exact hinv.start
  | @step _ _ i _ _ hrule hr hpassed ih =>
    obtain ⟨used, ⟨way, hway, rfl, hsub⟩, hmem | hdone⟩ := hinv.found _ ih
    · rw [hpending] at hmem
      exact absurd hmem not_mem_nil
    · by_cases hi : i ∈ way.map Prod.fst
      · rcases List.mem_cons.1 (hpassed way hway hi) with rfl | hy
        · exact hinv.start
        · exact hsub hy
      · exact hdone _ _ _ hrule hi hr

theorem Inv.run {found : List V} (hinv : Inv rules seed s)
    (hrun : run rules tooLong limit s = some found) :
    ∃ s', s'.found = found ∧ s'.pending = [] ∧ Inv rules seed s' := by
  induction hn : s.rest limit using Nat.strong_induction_on generalizing s with
  | _ n ih =>
    rcases hpending : s.pending with _ | ⟨⟨x, used⟩, pending⟩
    · rw [run_nil rules tooLong limit hpending] at hrun
      exact ⟨s, Option.some.inj hrun, hpending, hinv⟩
    · rw [run_cons rules tooLong limit hpending] at hrun
      obtain ⟨s', hturn, hrun⟩ := Option.bind_eq_some_iff.1 hrun
      refine ih (s'.rest limit) ?_ (hinv.turn hpending hturn) hrun rfl
      subst hn
      refine (rest_turn hturn).trans_lt ?_
      unfold rest
      rw [hpending, length_cons]
      dsimp only
      omega

/-- **A search finds what is derivable only, and whatever is kept.** -/
theorem run_spec {found : List V}
    (hrun : run rules tooLong limit ⟨[seed], [(seed, [])], 0⟩ = some found) :
    (∀ y ∈ found, Derivable rules seed y) ∧ ∀ y, Kept rules seed y → y ∈ found := by
  obtain ⟨s, rfl, hpending, hinv⟩ := inv_start.run hrun
  refine ⟨fun y hy => ?_, fun y => hinv.mem_of_kept hpending⟩
  obtain ⟨_, ⟨way, hway, -⟩, -⟩ := hinv.found y hy
  exact ⟨way, hway⟩

end Search

end Lib

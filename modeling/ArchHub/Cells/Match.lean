import Mathlib
import ArchHub.Lib.Graph
import ArchHub.Cells.Store

/-!
# Matching

A pattern is a graph of cells, some of which are variables.  It is matched against the cells
of a snapshot by a worklist of pairs, of a pattern cell and a target cell.

* `visitPair`, `matchPairs`, `matchCells`: `CellStore.match`.
* `Embedding`: a structure-preserving map of a pattern.
* `visitPair_ok`: what a visited pair adds to what is found.
* `match_iff`: a match succeeds exactly when there is an embedding and the budget allows twice
  the compared cells and one more; the bindings are the embedding's.
-/

namespace ArchHub.Cells

open Lib List

/-- What a match raises. -/
inductive MatchError
  | refused (e : CellError)
  | noMatch (text : String)

/-- What the pairs visited so far have found. -/
structure Matching where
  bindings : Dict String String
  concrete : Dict String String

/-- A call of `match`; `target` holds the cells of the snapshot that is matched. -/
structure MatchCall where
  pattern : Dict String Cell
  /-- The pattern is the mapping of the store itself. -/
  stored : Bool
  patternRoot : String
  targetRoot : String
  vars : List String
  budget : ℤ
  target : Graph

section

variable (call : MatchCall)

/-- One pair is visited; the pairs that it adds are returned. -/
def visitPair (found : Matching) (p t : String) :
    Except MatchError (Matching × List (String × String)) :=
  if p ∈ call.vars then
    if (found.bindings.get? p).any (· ≠ t) then
      .error (.noMatch "one variable matched two target cells")
    else .ok ({ found with bindings := found.bindings.set p t }, [])
  else match found.concrete.get? p with
    | some held =>
        if held ≠ t then .error (.noMatch "shared pattern structure was not preserved")
        else .ok (found, [])
    | none =>
        if p = nullId then
          if t ≠ nullId then .error (.noMatch "null incidence did not match")
          else .ok ({ found with concrete := found.concrete.set p t }, [])
        else match call.target.get t, call.pattern.get? p with
          | none, _ => .error (.noMatch "target incidence is missing")
          | some _, none => .error (.refused (.missingKey p))
          | some c, some d =>
              if d.atom ≠ c.atom then .error (.noMatch "opaque terminal atoms differ")
              else .ok ({ found with concrete := found.concrete.set p t },
                [(d.link1, c.link1), (d.link0, c.link0)])

/-- The pairs are visited, the last one first, as many as the budget allows. -/
def matchPairs : ℕ → Matching → List (String × String) → Except MatchError Matching
  | _, found, [] => .ok found
  | 0, _, _ :: _ =>
      .error (.refused (.budgetExceeded "graph match exceeded visited pairs" call.budget))
  | n + 1, found, (p, t) :: pending =>
      match visitPair call found p t with
      | .error e => .error e
      | .ok (found, more) => matchPairs n found (more ++ pending)

/-- The checks that are made before a pair is visited. -/
def checkMatch : Except MatchError Unit :=
  if call.budget < 1 then
    .error (.refused (.budgetExceeded "match budget must be positive" call.budget))
  else if call.stored = false ∧ call.pattern.values.any fun c => c.id = "" then
    .error (.refused (.invalid "cell identity must be a non-empty string"))
  else if call.pattern.contains call.patternRoot = false then
    .error (.refused (.invalid "pattern root is missing"))
  else if call.pattern.contains nullId = false then
    .error (.refused (.invalid "pattern must contain the distinguished null cell"))
  else if call.vars.any fun v => !call.pattern.contains v then
    .error (.refused (.invalid "every match variable must be a pattern cell"))
  else if nullId ∈ call.vars then
    .error (.refused (.invalid "the distinguished null cell cannot be a variable"))
  else match call.stored, call.pattern.values.find? fun c => c.id ∉ call.vars ∧
      !(call.pattern.contains c.link0 && call.pattern.contains c.link1) with
    | false, some c => .error (.refused (.invalidAt "has a dangling link" c.id))
    | _, _ =>
        if (call.target.get call.targetRoot).isSome then .ok ()
        else .error (.noMatch "target root is missing")

/-- `CellStore.match`. -/
def matchCells : Except MatchError (Dict String String) :=
  match checkMatch call with
  | .error e => .error e
  | .ok () => (matchPairs call call.budget.toNat ⟨.empty, .empty⟩
      [(call.patternRoot, call.targetRoot)]).map Matching.bindings

/-! ## Embeddings -/

/-- The pattern cells that a pattern cell leads to. -/
def MatchCall.leads (p : String) : List String :=
  if p ∈ call.vars ∨ p = nullId then []
  else (call.pattern.get? p).elim [] fun d => [d.link1, d.link0]

/-- The pattern cells that are reached from its root. -/
def MatchCall.Visited : String → Prop := Graph.Reach call.leads call.patternRoot

/-- The pattern cells that are compared with cells. -/
def MatchCall.compared : Set String :=
  {p | call.Visited p ∧ p ∉ call.vars ∧ p ≠ nullId ∧ p ∈ call.pattern.keys}

/-- What a pair says, where `R` are the pairs. -/
def MatchCall.Corresponds (R : String → String → Prop) (p t : String) : Prop :=
  p ∈ call.vars ∨ p = nullId ∧ t = nullId ∨ p ≠ nullId ∧
    ∃ d c, call.pattern.get? p = some d ∧ call.target.get t = some c ∧ d.atom = c.atom ∧
      R d.link0 c.link0 ∧ R d.link1 c.link1

/-- **A structure-preserving map** of the pattern to the cells of the target: a variable goes to
one cell, the distinguished cell to itself, and another cell to one with its atom, whose links
lead where its own links go. -/
structure Embedding (f : String → String) : Prop where
  root : f call.patternRoot = call.targetRoot
  there : ∀ p, call.Visited p → (call.target.get (f p)).isSome
  corresponds : ∀ p, call.Visited p → call.Corresponds (fun q s => s = f q) p (f p)

end

/-! ## One pair -/

variable {f : String → String} {n : ℕ} {F : Matching} {text : String}

section

variable {call : MatchCall} {found found' : Matching} {p t q s : String}
  {more pending : List (String × String)}

/-- Where a pattern cell goes. -/
def Matching.at' (found : Matching) (call : MatchCall) (p : String) : Option String :=
  if p ∈ call.vars then found.bindings.get? p else found.concrete.get? p

/-- The pattern cells that have been compared. -/
def Matching.expanded (found : Matching) : List String := found.concrete.keys.filter (· ≠ nullId)

/-- What a visited pair adds. -/
structure Adds (call : MatchCall) (found : Matching) (p t : String) (found' : Matching)
    (more : List (String × String)) : Prop where
  here : ∀ q, found'.at' call q = if q = p then some t else found.at' call q
  old : found.at' call p = none ∨ found.at' call p = some t
  corresponds : found.at' call p = none → call.Corresponds (fun q s => (q, s) ∈ more) p t
  leads : ∀ e ∈ more, e.1 ∈ call.leads p
  count : 2 * found'.expanded.length = 2 * found.expanded.length + more.length
  keys : ∀ q ∈ found'.concrete.keys, q ∈ found.concrete.keys ∨
    q ∉ call.vars ∧ (q ≠ nullId → q ∈ call.pattern.keys)
  names : ∀ q ∈ found'.bindings.keys, q ∈ found.bindings.keys ∨ q ∈ call.vars

theorem expanded_set {concrete bindings : Dict String String} (hnew : concrete.get? p = none) :
    (Matching.expanded ⟨bindings, concrete.set p t⟩).length =
      (Matching.expanded ⟨bindings, concrete⟩).length + if p = nullId then 0 else 1 := by
  unfold Matching.expanded Dict.keys
  rw [Dict.entries_set_of_new hnew, map_append, filter_append, length_append]
  by_cases hp : p = nullId <;> simp [hp]

/-- **What a visited pair adds to what is found.** -/
theorem visitPair_ok (h : visitPair call found p t = .ok (found', more)) :
    Adds call found p t found' more := by
  unfold visitPair at h
  split at h
  · next hvar =>
    split at h
    · cases h
    · next hsame =>
      cases h
      have hat : found.at' call p = found.bindings.get? p := if_pos hvar
      refine ⟨fun q => ?_, ?_, fun _ => Or.inl hvar, by simp, rfl, fun q hq => Or.inl hq,
        fun q hq => ?_⟩
      · unfold Matching.at'
        rw [Dict.get?_set]
        grind
      · rw [hat]
        cases hheld : found.bindings.get? p <;> simp_all
      · rcases Dict.mem_keys_set.1 hq with rfl | hq
        · exact Or.inr hvar
        · exact Or.inl hq
  · next hvar =>
    have hat : found.at' call p = found.concrete.get? p := if_neg hvar
    split at h
    · next held hheld =>
      split at h
      · cases h
      · next hsame =>
        cases h
        obtain rfl := not_not.1 hsame
        refine ⟨fun q => ?_, Or.inr (hat.trans hheld), fun hnone => ?_, by simp, rfl,
          fun q hq => Or.inl hq, fun q hq => Or.inl hq⟩
        · split
          · next hq => rw [hq, hat, hheld]
          · rfl
        · rw [hat, hheld] at hnone
          cases hnone
    · next hnew =>
      have hset : ∀ q, Matching.at' { found with concrete := found.concrete.set p t } call q =
          if q = p then some t else found.at' call q := by
        intro q
        unfold Matching.at'
        rw [Dict.get?_set]
        grind
      have hkeys : ∀ q ∈ (found.concrete.set p t).keys, (p ≠ nullId → p ∈ call.pattern.keys) →
          q ∈ found.concrete.keys ∨ q ∉ call.vars ∧ (q ≠ nullId → q ∈ call.pattern.keys) := by
        intro q hq hp
        rcases Dict.mem_keys_set.1 hq with rfl | hq
        · exact Or.inr ⟨hvar, hp⟩
        · exact Or.inl hq
      split at h
      · next hnull =>
        split at h
        · cases h
        · next hnullT =>
          cases h
          refine ⟨hset, Or.inl (hat.trans hnew),
            fun _ => Or.inr (Or.inl ⟨hnull, not_not.1 hnullT⟩), by simp, ?_,
            fun q hq => hkeys q hq fun hne => absurd hnull hne, fun q hq => Or.inl hq⟩
          rw [expanded_set hnew, if_pos hnull]
          rfl
      · next hnull =>
        split at h
        · cases h
        · cases h
        · next c d hc hd =>
          split at h
          · cases h
          · next hatom =>
            cases h
            refine ⟨hset, Or.inl (hat.trans hnew), fun _ => Or.inr (Or.inr ⟨hnull, d, c, hd, hc,
              not_not.1 hatom, by simp, by simp⟩), fun e he => ?_, ?_,
              fun q hq => hkeys q hq fun _ => Dict.mem_keys_of_get? hd, fun q hq => Or.inl hq⟩
            · unfold MatchCall.leads
              rw [if_neg (by simp [hvar, hnull]), hd]
              simp only [mem_cons, not_mem_nil, or_false] at he
              rcases he with rfl | rfl <;> simp
            · rw [expanded_set hnew, if_neg hnull]
              rfl

/-- A pair of an embedding is visited. -/
theorem visitPair_of_embedding (hf : Embedding call f) (hp : call.Visited p)
    (hfound : ∀ q s, found.at' call q = some s → s = f q) :
    ∃ found' more, visitPair call found p (f p) = .ok (found', more) ∧ ∀ e ∈ more, e.2 = f e.1 := by
  have hcorresponds := hf.corresponds p hp
  have hheld := hfound p
  unfold Matching.at' at hheld
  unfold visitPair
  split
  · next hvar =>
    rw [if_pos hvar] at hheld
    have hsame : ¬(found.bindings.get? p).any (· ≠ f p) = true := by
      cases hget : found.bindings.get? p with
      | none => simp
      | some s => simp [hheld s hget]
    exact ⟨_, _, if_neg hsame, by simp⟩
  · next hvar =>
    rw [if_neg hvar] at hheld
    split
    · next held hget => exact ⟨_, _, if_neg (not_not.2 (hheld held hget)), by simp⟩
    · rcases hcorresponds with h | ⟨hnull, hnullT⟩ | ⟨hnull, d, c, hd, hc, hatom, h0, h1⟩
      · exact absurd h hvar
      · exact ⟨_, _, (if_pos hnull).trans (if_neg (not_not.2 hnullT)), by simp⟩
      · rw [if_neg hnull, hc, hd]
        exact ⟨_, _, if_neg (not_not.2 hatom), by simp [h0, h1]⟩

/-- A correspondence goes along with the links. -/
theorem MatchCall.Corresponds.leads {R : String → String → Prop} (h : call.Corresponds R q t)
    (hp : p ∈ call.leads q) :
    ∃ s, R p s ∧ s ∈ (call.target.get t).elim [] fun c => [c.link1, c.link0] := by
  unfold MatchCall.leads at hp
  split at hp
  · cases hp
  · next hnot =>
    rcases h with hvar | ⟨hnull, -⟩ | ⟨-, d, c, hd, hc, -, h0, h1⟩
    · exact absurd (Or.inl hvar) hnot
    · exact absurd (Or.inr hnull) hnot
    · rw [hd] at hp
      rw [hc]
      simp only [Option.elim_some, mem_cons, not_mem_nil, or_false] at hp ⊢
      rcases hp with rfl | rfl
      · exact ⟨_, h1, Or.inl rfl⟩
      · exact ⟨_, h0, Or.inr rfl⟩

/-- A correspondence is of larger relations, too. -/
theorem MatchCall.Corresponds.mono {R R' : String → String → Prop} (h : call.Corresponds R q t)
    (hR : ∀ q s, R q s → R' q s) : call.Corresponds R' q t := by
  rcases h with hvar | hnull | ⟨hnull, d, c, hd, hc, hatom, h0, h1⟩
  · exact Or.inl hvar
  · exact Or.inr (Or.inl hnull)
  · exact Or.inr (Or.inr ⟨hnull, d, c, hd, hc, hatom, hR _ _ h0, hR _ _ h1⟩)

/-! ## All pairs -/

/-- What is found, and what is still to be visited, is about what is visited. -/
structure Walks (call : MatchCall) (found : Matching) (pending : List (String × String)) :
    Prop where
  pending : ∀ e ∈ pending, call.Visited e.1
  seen : ∀ q s, found.at' call q = some s → call.Visited q
  concrete : ∀ q ∈ found.concrete.keys, q ∉ call.vars ∧ (q ≠ nullId → q ∈ call.pattern.keys)
  names : ∀ q ∈ found.bindings.keys, q ∈ call.vars

theorem Walks.step (h : Walks call found ((p, t) :: pending))
    (hadds : Adds call found p t found' more) : Walks call found' (more ++ pending) := by
  have hp := h.pending _ mem_cons_self
  refine ⟨fun e he => ?_, fun q s hqs => ?_, fun q hq => (hadds.keys q hq).elim (h.concrete q) id,
    fun q hq => (hadds.names q hq).elim (h.names q) id⟩
  · rcases List.mem_append.1 he with he | he
    · exact Relation.ReflTransGen.tail hp (hadds.leads e he)
    · exact h.pending e (mem_cons_of_mem _ he)
  · rw [hadds.here] at hqs
    split at hqs
    · next hq => exact hq ▸ hp
    · exact h.seen q s hqs

theorem finite_compared (call : MatchCall) : call.compared.Finite :=
  (finite_toSet call.pattern.keys).subset fun _ hp => hp.2.2.2

theorem expanded_le (h : Walks call found pending) :
    found.expanded.length ≤ call.compared.ncard := by
  have hnodup : found.expanded.Nodup := (Dict.nodup_keys _).filter _
  rw [← toFinset_card_of_nodup hnodup, ← Set.ncard_coe_finset]
  refine Set.ncard_le_ncard (fun q hq => ?_) (finite_compared call)
  simp only [coe_toFinset, Set.mem_ofPred_eq, Matching.expanded, mem_filter,
    decide_eq_true_eq] at hq
  obtain ⟨hvar, hkey⟩ := h.concrete q hq.1
  obtain ⟨s, hs⟩ := Dict.exists_get?_of_mem_keys hq.1
  exact ⟨h.seen q s ((if_neg hvar).trans hs), hvar, hq.2, hkey hq.2⟩

/-- **All pairs, within the budget**: each compared cell costs two pairs. -/
theorem matchPairs_count (hwalks : Walks call found pending) :
    (∀ F, matchPairs call n found pending = .ok F →
      pending.length + 2 * F.expanded.length ≤ n + 2 * found.expanded.length ∧ Walks call F []) ∧
    ∀ text budget, matchPairs call n found pending = .error (.refused (.budgetExceeded text budget)) →
      n + 2 * found.expanded.length < pending.length + 2 * call.compared.ncard := by
  induction n generalizing found pending with
  | zero =>
      rcases pending with _ | ⟨e, pending⟩
      · refine ⟨fun F h => ?_, fun text budget h => nomatch h⟩
        cases h
        exact ⟨by simp, hwalks⟩
      · refine ⟨fun F h => (nomatch h), fun text budget h => ?_⟩
        have := expanded_le hwalks
        rw [length_cons]
        omega
  | succ n ih =>
      rcases pending with _ | ⟨⟨p, t⟩, pending⟩
      · refine ⟨fun F h => ?_, fun text budget h => nomatch h⟩
        cases h
        exact ⟨by simp, hwalks⟩
      · rw [matchPairs]
        cases hvisit : visitPair call found p t with
        | error e =>
            refine ⟨fun F h => (nomatch h), fun text budget h => ?_⟩
            unfold visitPair at hvisit
            grind
        | ok r =>
            obtain ⟨found', more⟩ := r
            have hadds := visitPair_ok hvisit
            obtain ⟨hok, herror⟩ := ih (hwalks.step hadds)
            have hcount := hadds.count
            rw [length_append] at hok herror
            refine ⟨fun F h => ?_, fun text budget h => ?_⟩
            · obtain ⟨hle, hF⟩ := hok F h
              exact ⟨by rw [length_cons]; omega, hF⟩
            · have := herror text budget h
              rw [length_cons]
              omega

/-- **All pairs hold in what is found.** -/
theorem matchPairs_sound (h : matchPairs call n found pending = .ok F)
    (hfound : ∀ q s, found.at' call q = some s →
      call.Corresponds (fun q s => found.at' call q = some s ∨ (q, s) ∈ pending) q s) :
    (∀ q s, found.at' call q = some s ∨ (q, s) ∈ pending → F.at' call q = some s) ∧
      ∀ q s, F.at' call q = some s → call.Corresponds (fun q s => F.at' call q = some s) q s := by
  induction n generalizing found pending with
  | zero =>
      rcases pending with _ | ⟨e, pending⟩
      · cases h
        simpa using hfound
      · cases h
  | succ n ih =>
      rcases pending with _ | ⟨⟨p, t⟩, pending⟩
      · cases h
        simpa using hfound
      · rw [matchPairs] at h
        split at h
        · cases h
        · next found' more hvisit =>
          have hadds := visitPair_ok hvisit
          -- what was found or pending is found or pending
          have hmove : ∀ q s, found.at' call q = some s ∨ (q, s) ∈ (p, t) :: pending →
              found'.at' call q = some s ∨ (q, s) ∈ more ++ pending := by
            intro q s hqs
            rw [hadds.here]
            rcases hqs with hqs | hqs
            · by_cases hq : q = p
              · have hold := hadds.old
                rw [← hq, hqs] at hold
                simp_all
              · rw [if_neg hq]
                exact Or.inl hqs
            · rcases List.mem_cons.1 hqs with heq | hqs
              · cases heq
                exact Or.inl (if_pos rfl)
              · exact Or.inr (mem_append_right _ hqs)
          obtain ⟨hpairs, hall⟩ := ih h fun q s hqs => by
            rw [hadds.here] at hqs
            by_cases hnew : q = p ∧ found.at' call p = none
            · rw [if_pos hnew.1] at hqs
              cases hqs
              rw [hnew.1]
              exact (hadds.corresponds hnew.2).mono fun _ _ he => Or.inr (mem_append_left _ he)
            · refine (hfound q s ?_).mono hmove
              have hold := hadds.old
              grind
          exact ⟨fun q s hqs => hpairs q s (hmove q s hqs), hall⟩

/-- The pairs of an embedding are visited, as far as the budget allows. -/
theorem matchPairs_of_embedding (hf : Embedding call f) (hwalks : Walks call found pending)
    (hpending : ∀ e ∈ pending, e.2 = f e.1) (hfound : ∀ q s, found.at' call q = some s → s = f q)
    (hbudget : pending.length + 2 * call.compared.ncard ≤ n + 2 * found.expanded.length) :
    ∃ F, matchPairs call n found pending = .ok F ∧ ∀ q s, F.at' call q = some s → s = f q := by
  induction n generalizing found pending with
  | zero =>
      rcases pending with _ | ⟨e, pending⟩
      · exact ⟨found, rfl, hfound⟩
      · have := expanded_le hwalks
        rw [length_cons] at hbudget
        omega
  | succ n ih =>
      rcases pending with _ | ⟨⟨p, t⟩, pending⟩
      · exact ⟨found, rfl, hfound⟩
      · obtain rfl : t = f p := hpending _ mem_cons_self
        obtain ⟨found', more, hvisit, hmore⟩ :=
          visitPair_of_embedding hf (hwalks.pending _ mem_cons_self) hfound
        have hadds := visitPair_ok hvisit
        have hcount := hadds.count
        rw [matchPairs, hvisit]
        refine ih (hwalks.step hadds) (fun e he => ?_) (fun q s hqs => ?_) ?_
        · rcases List.mem_append.1 he with he | he
          · exact hmore e he
          · exact hpending e (mem_cons_of_mem _ he)
        · rw [hadds.here] at hqs
          split at hqs
          · next hq => rw [hq, ← Option.some.inj hqs]
          · exact hfound q s hqs
        · rw [length_append]
          rw [length_cons] at hbudget
          omega

/-! ## The match -/

theorem walks_root (call : MatchCall) :
    Walks call ⟨.empty, .empty⟩ [(call.patternRoot, call.targetRoot)] where
  pending e he := by
    rw [List.mem_singleton.1 he]
    exact Relation.ReflTransGen.refl
  seen q s hqs := by simp [Matching.at'] at hqs
  concrete q hq := nomatch hq
  names q hq := nomatch hq

/-- The cells that an embedding goes to are reached from the target root. -/
theorem Embedding.reaches (hf : Embedding call f) (hp : call.Visited p) :
    Graph.Reach (fun id => (call.target.get id).elim [] fun c => [c.link1, c.link0])
      call.targetRoot (f p) := by
  induction hp with
  | refl =>
      rw [hf.root]
      exact Relation.ReflTransGen.refl
  | @tail q p hq hstep ih =>
      obtain ⟨s, rfl, hs⟩ := (hf.corresponds q hq).leads hstep
      exact Relation.ReflTransGen.tail ih hs

/-- What all pairs have found when they are visited. -/
structure Matched (call : MatchCall) (F : Matching) : Prop where
  within : 1 + 2 * call.compared.ncard ≤ call.budget.toNat
  visited : ∀ p, call.Visited p ↔ (F.at' call p).isSome
  names : ∀ q ∈ F.bindings.keys, q ∈ call.vars
  embedding : Embedding call fun p => (F.at' call p).getD ""

/-- **What is found is an embedding.** -/
theorem matched_of_matchPairs (hroot : (call.target.get call.targetRoot).isSome)
    (h : matchPairs call call.budget.toNat ⟨.empty, .empty⟩ [(call.patternRoot, call.targetRoot)] =
      .ok F) : Matched call F := by
  obtain ⟨hpairs, hall⟩ := matchPairs_sound h fun q s hqs => by simp [Matching.at'] at hqs
  obtain ⟨hcount, hF⟩ := (matchPairs_count (walks_root call)).1 F h
  have hstart := hpairs call.patternRoot call.targetRoot (Or.inr mem_cons_self)
  have hsome : ∀ p, call.Visited p → ∃ t, F.at' call p = some t := by
    intro p hp
    induction hp with
    | refl => exact ⟨_, hstart⟩
    | @tail q p _ hstep ih =>
        obtain ⟨t, ht⟩ := ih
        obtain ⟨s, hs, -⟩ := (hall q t ht).leads hstep
        exact ⟨s, hs⟩
  have hthere : ∀ p t, call.Visited p → F.at' call p = some t → (call.target.get t).isSome := by
    intro p t hp ht
    induction hp generalizing t with
    | refl => rwa [← Option.some.inj (hstart.symm.trans ht)]
    | @tail q p hq hstep ih =>
        obtain ⟨u, hu⟩ := hsome q hq
        obtain ⟨s, hs, hlink⟩ := (hall q u hu).leads hstep
        obtain ⟨c, hc⟩ := Option.isSome_iff_exists.1 (ih u hu)
        obtain rfl := Option.some.inj (hs.symm.trans ht)
        obtain ⟨h0, h1⟩ := call.target.links u c hc
        rw [hc] at hlink
        simp only [Option.elim_some, mem_cons, not_mem_nil, or_false] at hlink
        rcases hlink with rfl | rfl
        · exact h1
        · exact h0
  refine ⟨?_, fun p => ⟨fun hp => Option.isSome_iff_exists.2 (hsome p hp), fun hp => ?_⟩, hF.names,
    ⟨by rw [hstart]; rfl, fun p hp => ?_, fun p hp => ?_⟩⟩
  · -- each compared cell has been expanded
    have hle : call.compared.ncard ≤ F.expanded.length := by
      refine le_trans (Set.ncard_le_ncard (fun p hp => ?_) (finite_toSet F.expanded)) ?_
      · obtain ⟨t, ht⟩ := hsome p hp.1
        rw [Matching.at', if_neg hp.2.1] at ht
        exact List.mem_filter.2 ⟨Dict.mem_keys_of_get? ht, by simpa using hp.2.2.1⟩
      · rw [← coe_toFinset, Set.ncard_coe_finset]
        exact toFinset_card_le _
    simp only [length_singleton] at hcount
    have hnone : (Matching.expanded ⟨.empty, .empty⟩).length = 0 := rfl
    omega
  · obtain ⟨t, ht⟩ := Option.isSome_iff_exists.1 hp
    exact hF.seen p t ht
  · obtain ⟨t, ht⟩ := hsome p hp
    rw [ht]
    exact hthere p t hp ht
  · obtain ⟨t, ht⟩ := hsome p hp
    rw [ht]
    refine (hall p t ht).mono fun q s hs => ?_
    rw [hs]
    rfl

theorem targetRoot_of_checkMatch (h : checkMatch call = .ok ()) :
    (call.target.get call.targetRoot).isSome := by
  unfold checkMatch at h
  grind

theorem budget_of_checkMatch {budget : ℤ}
    (h : checkMatch call = .error (.refused (.budgetExceeded text budget))) : call.budget < 1 := by
  unfold checkMatch at h
  grind

/-- A match that succeeds has matched its pairs. -/
theorem matched_of_matchCells {bindings : Dict String String} (h : matchCells call = .ok bindings) :
    checkMatch call = .ok () ∧ ∃ F, matchPairs call call.budget.toNat ⟨.empty, .empty⟩
      [(call.patternRoot, call.targetRoot)] = .ok F ∧ F.bindings = bindings ∧ Matched call F := by
  unfold matchCells at h
  split at h
  · cases h
  · next hcheck =>
    cases hF : matchPairs call call.budget.toNat ⟨.empty, .empty⟩
        [(call.patternRoot, call.targetRoot)] with
    | error e =>
        rw [hF] at h
        cases h
    | ok F =>
        rw [hF] at h
        exact ⟨hcheck, F, rfl, Except.ok.inj h,
          matched_of_matchPairs (targetRoot_of_checkMatch hcheck) hF⟩

/-- Where the budget is enough, an embedding's pairs are matched. -/
theorem matchPairs_ok (hf : Embedding call f)
    (hbudget : 1 + 2 * call.compared.ncard ≤ call.budget.toNat) :
    ∃ F, matchPairs call call.budget.toNat ⟨.empty, .empty⟩
      [(call.patternRoot, call.targetRoot)] = .ok F ∧ ∀ q s, F.at' call q = some s → s = f q := by
  refine matchPairs_of_embedding hf (walks_root call) (fun e he => ?_) (fun q s hqs => ?_) ?_
  · rw [List.mem_singleton.1 he]
    exact hf.root.symm
  · simp [Matching.at'] at hqs
  · rw [length_singleton]
    omega

/-- A budget that is exceeded is too small. -/
theorem budget_of_matchCells {budget : ℤ}
    (h : matchCells call = .error (.refused (.budgetExceeded text budget))) :
    call.budget < 2 * (call.compared.ncard : ℤ) + 1 := by
  unfold matchCells at h
  split at h
  · next e hcheck =>
    cases h
    have := budget_of_checkMatch hcheck
    omega
  · next hcheck =>
    have hpairs : matchPairs call call.budget.toNat ⟨.empty, .empty⟩
        [(call.patternRoot, call.targetRoot)] = .error (.refused (.budgetExceeded text budget)) := by
      revert h
      cases matchPairs call call.budget.toNat ⟨.empty, .empty⟩
        [(call.patternRoot, call.targetRoot)] <;> simp [Except.map]
    have := (matchPairs_count (walks_root call)).2 text budget hpairs
    have hnone : (Matching.expanded ⟨.empty, .empty⟩).length = 0 := rfl
    rw [hnone, length_singleton] at this
    omega

/-- **A match** succeeds exactly when there is a structure-preserving map of the pattern and the
budget allows two pairs for each compared cell, and one more.  The bindings are those of any such
map, whose cells are reached from the target root; and a budget that is exceeded is smaller than
that, whatever cycles there are. -/
theorem match_iff (call : MatchCall) :
    ((∃ bindings, matchCells call = .ok bindings) ↔ checkMatch call = .ok () ∧
      (∃ f, Embedding call f) ∧ 2 * (call.compared.ncard : ℤ) + 1 ≤ call.budget) ∧
    (∀ bindings f, matchCells call = .ok bindings → Embedding call f → ∀ p,
      (p ∈ call.vars ∧ call.Visited p → bindings.get? p = some (f p)) ∧
      (¬(p ∈ call.vars ∧ call.Visited p) → bindings.get? p = none)) ∧
    (∀ f, Embedding call f → ∀ p, call.Visited p →
      Graph.Reach (fun id => (call.target.get id).elim [] fun c => [c.link1, c.link0])
        call.targetRoot (f p)) ∧
    ∀ text budget, matchCells call = .error (.refused (.budgetExceeded text budget)) →
      call.budget < 2 * (call.compared.ncard : ℤ) + 1 := by
  refine ⟨⟨fun ⟨bindings, h⟩ => ?_, fun ⟨hcheck, ⟨f, hf⟩, hbudget⟩ => ?_⟩, fun bindings f h hf p => ?_,
    fun f hf p hp => hf.reaches hp, fun text budget h => budget_of_matchCells h⟩
  · obtain ⟨hcheck, F, -, -, hF⟩ := matched_of_matchCells h
    have := hF.within
    exact ⟨hcheck, ⟨_, hF.embedding⟩, by omega⟩
  · obtain ⟨F, hF, -⟩ := matchPairs_ok hf (by omega)
    exact ⟨F.bindings, by rw [matchCells, hcheck, hF]; rfl⟩
  · obtain ⟨-, F, hF, rfl, hmatched⟩ := matched_of_matchCells h
    obtain ⟨F', hF', hagree⟩ := matchPairs_ok hf hmatched.within
    obtain rfl := Except.ok.inj (hF.symm.trans hF')
    refine ⟨fun ⟨hvar, hp⟩ => ?_, fun hnot => ?_⟩
    · obtain ⟨t, ht⟩ := Option.isSome_iff_exists.1 ((hmatched.visited p).1 hp)
      rw [← hagree p t ht]
      rwa [Matching.at', if_pos hvar] at ht
    · rw [Dict.get?_eq_none_iff]
      intro hkey
      have hvar := hmatched.names p hkey
      refine hnot ⟨hvar, (hmatched.visited p).2 ?_⟩
      rw [Matching.at', if_pos hvar]
      exact Dict.mem_keys.1 hkey

end

/-- A cell without links, matched with the distinguished cell, and a budget of one pair. -/
def tightMatch : MatchCall :=
  ⟨(Dict.empty.set nullId nullCell).set "a" ⟨"a", nullId, nullId, []⟩, false, "a", nullId, [], 1,
    .empty⟩

theorem tightMatch_embedding : Embedding tightMatch fun _ => nullId where
  root := rfl
  there _ _ := rfl
  corresponds p hp := by
    have hcell : p = "a" ∨ p = nullId := by
      induction hp with
      | refl => exact Or.inl rfl
      | @tail q p _ hstep ih =>
          rcases ih with rfl | rfl
          · exact Or.inr (by simpa using (show p ∈ [nullId, nullId] from hstep))
          · exact nomatch (show p ∈ [] from hstep)
    rcases hcell with rfl | rfl
    · exact Or.inr (Or.inr ⟨by decide, _, _, rfl, rfl, rfl, rfl, rfl⟩)
    · exact Or.inr (Or.inl ⟨rfl, rfl⟩)

/-- A map of the pattern does not make a match, where the budget is too small. -/
theorem match_exceeds_budget : ¬∀ call : MatchCall, checkMatch call = .ok () →
    (∃ f, Embedding call f) → ∃ bindings, matchCells call = .ok bindings := by
  intro hall
  obtain ⟨bindings, h⟩ := hall tightMatch rfl ⟨_, tightMatch_embedding⟩
  have herror : matchCells tightMatch =
      .error (.refused (.budgetExceeded "graph match exceeded visited pairs" 1)) := rfl
  rw [herror] at h
  cases h

end ArchHub.Cells

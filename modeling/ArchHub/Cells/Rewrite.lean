import Mathlib
import ArchHub.Lib.Check
import ArchHub.Cells.Match

/-!
# Rewriting

A pattern is matched at a root, and the root is replaced by an instance of a template.  The
placeholders of the template are what the match has bound, or cells that are given; its other
cells are copied under fresh identities, but for its root, which takes the place of the root.

* `checkRewrite`, `templateWalk`, `drawFresh`, `prepareRewrite`, `Store.rewrite`: the code.
* `templateWalk_ok`: the traversal finds the cells of the template.
* `Instance`: what is there in place of the root, and that nothing else has changed.
* `rewrite_local`: a rewrite makes an instance, and one that is refused writes nothing.
-/

namespace ArchHub.Cells

open Lib List Check

/-! ## The code -/

/-- What a rewrite raises. -/
inductive RewriteError
  | refused (e : CellError)
  | matching (e : MatchError)
  /-- None of the identities that have been drawn is free: the next one is still to be drawn. -/
  | drawing

/-- A call of `rewrite`. -/
structure RewriteCall where
  expected : ℕ
  patternRoot : String
  targetRoot : String
  patternVars : List String
  replacementRoot : String
  replacementVars : Dict String String
  replacementConstants : Dict String String
  budget : ℤ

/-- `PreparedRewrite`. -/
structure PreparedRewrite where
  create : List Cell
  replace : List Cell
  bindings : Dict String String
  materialized : Dict String String

/-- `RewriteResult`. -/
structure RewriteResult where
  root : String
  revision : ℕ
  bindings : Dict String String
  materialized : Dict String String

section

variable (call : RewriteCall) (s : Store)

/-- The checks that are made before the pattern is matched. -/
def checkRewrite : Except RewriteError Unit := do
  let vars := call.replacementVars
  let constants := call.replacementConstants
  Check.require (call.expected = s.revision) (.refused (.conflict call.expected s.revision))
  Check.require (call.targetRoot ≠ nullId)
    (.refused (.invalid "the distinguished null cell cannot be rewritten"))
  Check.require (call.replacementRoot ∉ vars.keys)
    (.refused (.invalid "replacement root cannot be a variable"))
  Check.require (call.replacementRoot ∉ constants.keys)
    (.refused (.invalid "replacement root cannot be a constant binding"))
  Check.require (vars.keys.all (· ∉ constants.keys))
    (.refused (.invalid "replacement placeholder has conflicting bindings"))
  Check.require (vars.values.all (· ∈ call.patternVars))
    (.refused (.invalid "replacement variables must map to declared pattern variables"))
  Check.require (vars.keys.all fun id => (s.get id).isSome)
    (.refused (.invalid "replacement variable cell is missing"))
  Check.require (constants.keys.all fun id => (s.get id).isSome)
    (.refused (.invalid "replacement constant placeholder is missing"))
  Check.require (constants.values.all fun id => (s.get id).isSome)
    (.refused (.invalid "replacement constant target is missing"))
  Check.require (s.get call.replacementRoot).isSome
    (.refused (.invalid "replacement root is missing"))

/-- The match of the stored pattern. -/
def RewriteCall.matchCall : MatchCall :=
  ⟨s.graph.cells, true, call.patternRoot, call.targetRoot, call.patternVars, call.budget, s.graph⟩

/-- A template cell that is not copied. -/
def RewriteCall.held (id : String) : Prop :=
  id = nullId ∨ id ∈ call.replacementVars.keys ∨ id ∈ call.replacementConstants.keys

instance (id : String) : Decidable (call.held id) := by
  unfold RewriteCall.held
  infer_instance

/-- The cells of the template are found, with as many steps as the budget allows. -/
def templateWalk (cells : Lookup) :
    ℕ → List String → List String → Except RewriteError (List String)
  | _, found, [] => .ok found
  | 0, _, _ :: _ => .error (.refused
      (.budgetExceeded "replacement traversal exceeded cells" call.budget))
  | n + 1, found, id :: pending =>
      if call.held id ∨ id ∈ found then templateWalk cells n found pending
      else match cells id with
        | none => .error (.refused (.invalid "replacement contains a dangling link"))
        | some c => templateWalk cells n (id :: found) (c.link1 :: c.link0 :: pending)

/-- Each template cell gets the next identity that is drawn and is free. -/
def drawFresh (cells : Lookup) :
    List String → List String → List String → Option (List (String × String))
  | _, _, [] => some []
  | occupied, draws, id :: ids =>
      match draws.dropWhile fun d => (cells d).isSome || occupied.contains d with
      | [] => none
      | fresh :: draws =>
          (drawFresh cells (fresh :: occupied) draws ids).map fun drawn => (id, fresh) :: drawn

/-- `translated`. -/
def RewriteCall.translated (bindings materialized : Dict String String) (id : String) :
    Except RewriteError String :=
  if id = nullId then .ok nullId
  else match call.replacementVars.get? id with
    | some v => match bindings.get? v with
      | some t => .ok t
      | none => .error (.refused (.missingKey v))
    | none => match call.replacementConstants.get? id with
      | some t => .ok t
      | none => match materialized.get? id with
        | some t => .ok t
        | none => .error (.refused (.invalid "replacement reference was not materialized"))

/-- The instance of a template cell, with the cell. -/
def RewriteCall.instanceOf (cells : Lookup) (bindings materialized : Dict String String)
    (id : String) : Except RewriteError (String × Cell) :=
  match cells id, materialized.get? id with
  | some c, some made => do
      let link0 ← call.translated bindings materialized c.link0
      let link1 ← call.translated bindings materialized c.link1
      .ok (id, ⟨made, link0, link1, c.atom⟩)
  | _, _ => .error (.refused (.missingKey id))

/-- `_prepare_rewrite_locked`, where `uuid4` draws the given identities. -/
def prepareRewrite (draws : List String) : Except RewriteError PreparedRewrite := do
  checkRewrite call s
  let bindings ← (matchCells (call.matchCall s)).mapError .matching
  let found ← templateWalk call s.get call.budget.toNat [] [call.replacementRoot]
  let templates := found.mergeSort fun a b => a ≤ b
  let copied := templates.filter (· ≠ call.replacementRoot)
  match drawFresh s.get [call.targetRoot] draws copied with
  | none => .error .drawing
  | some drawn => do
      let materialized := (Dict.empty.set call.replacementRoot call.targetRoot).update drawn
      let instances ← Check.collect (call.instanceOf s.get bindings materialized) templates
      .ok ⟨(instances.filter (·.1 ≠ call.replacementRoot)).map Prod.snd,
        (instances.filter (·.1 = call.replacementRoot)).map Prod.snd, bindings, materialized⟩

/-- `commit`, of a store over a journal; `newest` is the newest revision there, where another
store has appended one. -/
def Store.publish (refusal : Option CellError) (newest : Option Store) (expected : ℕ)
    (create replace : List Cell) : Except CellError ℕ × Store :=
  match s.commit refusal expected create replace with
  | .error e => (.error e, s)
  | .ok t =>
      if t.revision = s.revision then (.ok s.revision, t)
      else match newest with
        -- the append of the journal raises `Conflict`, and the journal is adopted
        | some newest => (.error (.conflict expected newest.revision), newest)
        | none => (.ok t.revision, t)

/-- `rewrite`. -/
def Store.rewrite (draws : List String) (refusal : Option CellError) (newest : Option Store) :
    Except RewriteError RewriteResult × Store :=
  match prepareRewrite call s draws with
  | .error e => (.error e, s)
  | .ok prepared =>
      let published := s.publish refusal newest call.expected prepared.create prepared.replace
      ((published.1.mapError .refused).map fun revision =>
        ⟨call.targetRoot, revision, prepared.bindings, prepared.materialized⟩, published.2)

end

/-! ## The template -/

variable {draws : List String} {prepared : PreparedRewrite}

section

variable {call : RewriteCall} {s t : Store} {cells : Lookup} {found pending found' : List String}
  {bindings materialized : Dict String String} {p : String}

/-- The template cells that a template cell leads to. -/
def RewriteCall.leads (call : RewriteCall) (cells : Lookup) (id : String) : List String :=
  if call.held id then [] else (cells id).elim [] fun c => [c.link1, c.link0]

/-- The cells of the template: what its root leads to, up to the placeholders. -/
def RewriteCall.template (call : RewriteCall) (cells : Lookup) : Set String :=
  {p | Graph.Reach (call.leads cells) call.replacementRoot p ∧ ¬call.held p}

/-- Cells that have been found lead to cells that are found, or pending, or placeholders. -/
structure Follows (call : RewriteCall) (cells : Lookup) (found pending : List String) : Prop where
  nodup : found.Nodup
  copied : ∀ p ∈ found, ¬call.held p ∧ (cells p).isSome
  reached : ∀ p, p ∈ found ∨ p ∈ pending →
    Graph.Reach (call.leads cells) call.replacementRoot p
  links : ∀ p ∈ found, ∀ q ∈ call.leads cells p, call.held q ∨ q ∈ found ∨ q ∈ pending
  root : call.held call.replacementRoot ∨ call.replacementRoot ∈ found ∨
    call.replacementRoot ∈ pending

/-- **The traversal finds the cells of the template.** -/
theorem templateWalk_ok {n : ℕ} (h : templateWalk call cells n found pending = .ok found')
    (hfollows : Follows call cells found pending) : Follows call cells found' [] := by
  induction n generalizing found pending with
  | zero =>
      rcases pending with _ | ⟨id, pending⟩
      · cases h
        exact hfollows
      · cases h
  | succ n ih =>
      rcases pending with _ | ⟨id, pending⟩
      · cases h
        exact hfollows
      · rw [templateWalk] at h
        obtain ⟨hnodup, hcopied, hreached, hlinks, hroot⟩ := hfollows
        split at h
        · next hskip =>
          have hmove : ∀ q, call.held q ∨ q ∈ found ∨ q ∈ id :: pending →
              call.held q ∨ q ∈ found ∨ q ∈ pending := by
            intro q hq
            rcases hq with hq | hq | hq
            · exact Or.inl hq
            · exact Or.inr (Or.inl hq)
            · rcases List.mem_cons.1 hq with rfl | hq
              · exact hskip.imp_right Or.inl
              · exact Or.inr (Or.inr hq)
          exact ih h ⟨hnodup, hcopied,
            fun p hp => hreached p (hp.imp_right (mem_cons_of_mem _)),
            fun p hp q hq => hmove q (hlinks p hp q hq), hmove _ hroot⟩
        · next hskip =>
          rw [not_or] at hskip
          split at h
          · cases h
          · next c hc =>
            have hleads : call.leads cells id = [c.link1, c.link0] := by
              rw [RewriteCall.leads, if_neg hskip.1, hc]
              rfl
            have hid : Graph.Reach (call.leads cells) call.replacementRoot id :=
              hreached id (Or.inr mem_cons_self)
            have hmove : ∀ q, call.held q ∨ q ∈ found ∨ q ∈ id :: pending →
                call.held q ∨ q ∈ id :: found ∨ q ∈ c.link1 :: c.link0 :: pending := by
              intro q hq
              simp only [mem_cons] at hq ⊢
              tauto
            refine ih h ⟨List.nodup_cons.2 ⟨hskip.2, hnodup⟩,
              List.forall_mem_cons.2 ⟨⟨hskip.1, by rw [hc]; rfl⟩, hcopied⟩, fun p hp => ?_,
              List.forall_mem_cons.2 ⟨fun q hq => ?_, fun p hp q hq => hmove q (hlinks p hp q hq)⟩,
              hmove _ hroot⟩
            · have hstep : ∀ q ∈ [c.link1, c.link0],
                  Graph.Reach (call.leads cells) call.replacementRoot q := fun q hq =>
                Relation.ReflTransGen.tail hid (hleads ▸ hq)
              simp only [mem_cons, not_mem_nil, or_false] at hp hstep
              rcases hp with (rfl | hp) | rfl | rfl | hp
              · exact hid
              · exact hreached p (Or.inl hp)
              · exact hstep _ (Or.inl rfl)
              · exact hstep _ (Or.inr rfl)
              · exact hreached p (Or.inr (mem_cons_of_mem _ hp))
            · rw [hleads] at hq
              simp only [mem_cons, not_mem_nil, or_false] at hq ⊢
              tauto

/-- What is found is the template. -/
theorem mem_template (h : Follows call cells found []) : p ∈ found ↔ p ∈ call.template cells := by
  have hall : ∀ p, Graph.Reach (call.leads cells) call.replacementRoot p →
      call.held p ∨ p ∈ found := by
    intro p hreach
    induction hreach with
    | refl => simpa using h.root
    | @tail q r _ hstep ih =>
        rcases ih with hq | hq
        · rw [RewriteCall.leads, if_pos hq] at hstep
          cases hstep
        · simpa using h.links q hq r hstep
  exact ⟨fun hp => ⟨h.reached p (Or.inl hp), (h.copied p hp).1⟩,
    fun ⟨hreach, hheld⟩ => (hall p hreach).resolve_left hheld⟩

theorem drawFresh_ok {occupied ids : List String} {drawn : List (String × String)}
    (h : drawFresh cells occupied draws ids = some drawn) :
    drawn.map Prod.fst = ids ∧ (drawn.map Prod.snd).Nodup ∧
      ∀ e ∈ drawn, cells e.2 = none ∧ e.2 ∉ occupied := by
  induction ids generalizing occupied draws drawn with
  | nil =>
      cases h
      exact ⟨rfl, nodup_nil, nofun⟩
  | cons id ids ih =>
      rw [drawFresh] at h
      split at h
      · cases h
      · next fresh rest hdrop =>
        obtain ⟨others, hothers, rfl⟩ := Option.map_eq_some_iff.1 h
        obtain ⟨hids, hnodup, hfree⟩ := ih hothers
        have hne : draws.dropWhile (fun d => (cells d).isSome || occupied.contains d) ≠ [] := by
          rw [hdrop]
          exact cons_ne_nil _ _
        have hnew := head_dropWhile_not _ hne
        simp only [hdrop, head_cons] at hnew
        simp only [Bool.or_eq_false_iff, Option.isSome_eq_false_iff, Option.isNone_iff_eq_none,
          contains_eq_mem, decide_eq_false_iff_not] at hnew
        refine ⟨by rw [map_cons, hids], List.nodup_cons.2 ⟨fun hmem => ?_, hnodup⟩,
          List.forall_mem_cons.2 ⟨hnew, fun e he => ?_⟩⟩
        · obtain ⟨e, he, heq⟩ := List.mem_map.1 hmem
          exact (hfree e he).2 (heq ▸ mem_cons_self)
        · exact ⟨(hfree e he).1, fun hin => (hfree e he).2 (mem_cons_of_mem _ hin)⟩

/-! ## The instance -/

theorem checkRewrite_ok (h : checkRewrite call s = .ok ()) :
    call.replacementRoot ∉ call.replacementVars.keys ∧
      call.replacementRoot ∉ call.replacementConstants.keys ∧
      ∀ p ∈ call.replacementVars.keys, p ∉ call.replacementConstants.keys := by
  unfold checkRewrite at h
  simp only [seq_ok_iff, require_ok_iff, all_eq_true, decide_eq_true_eq] at h
  exact ⟨h.2.2.1, h.2.2.2.1, h.2.2.2.2.1⟩

/-- **An instance of the template** in place of the root: `f` sends the cells of the template to
the cells that are made of them, and the placeholders to what stands for them.  It keeps the root
and the links, no two cells have one copy, and no other cell has changed. -/
structure Instance (call : RewriteCall) (bindings : Dict String String) (before after : Lookup)
    (f : String → String) : Prop where
  root : f call.replacementRoot = call.targetRoot ∧
    call.replacementRoot ∈ call.template before ∧ (before call.targetRoot).isSome
  null : f nullId = nullId
  bound : ∀ p v, call.replacementVars.get? p = some v → p ≠ nullId →
    Graph.Reach (call.leads before) call.replacementRoot p → bindings.get? v = some (f p)
  constant : ∀ p t, call.replacementConstants.get? p = some t → p ≠ nullId → f p = t
  copies : ∀ p ∈ call.template before, ∃ c, before p = some c ∧
    after (f p) = some ⟨f p, f c.link0, f c.link1, c.atom⟩
  distinct : Set.InjOn f (call.template before)
  fresh : ∀ p ∈ call.template before, p ≠ call.replacementRoot → before (f p) = none
  frame : ∀ id, id ∉ f '' call.template before → after id = before id

/-- Where a template cell goes. -/
def RewriteCall.goes (call : RewriteCall) (bindings materialized : Dict String String)
    (id : String) : String :=
  ((call.translated bindings materialized id).toOption).getD ""

theorem goes_of_ok {t : String} (h : call.translated bindings materialized p = .ok t) :
    call.goes bindings materialized p = t := by
  rw [RewriteCall.goes, h]
  rfl

theorem translated_of_copied (h : ¬call.held p) {t : String}
    (ht : materialized.get? p = some t) : call.translated bindings materialized p = .ok t := by
  unfold RewriteCall.held at h
  simp only [not_or, ← Dict.get?_eq_none_iff] at h
  rw [RewriteCall.translated, if_neg h.1, h.2.1, h.2.2, ht]

/-- The instance of a cell. -/
theorem instanceOf_ok {e : String × Cell} (hp : ¬call.held p)
    (h : call.instanceOf cells bindings materialized p = .ok e) :
    ∃ c, cells p = some c ∧ e = (p, ⟨call.goes bindings materialized p,
      call.goes bindings materialized c.link0, call.goes bindings materialized c.link1, c.atom⟩) ∧
      ∀ q ∈ [c.link1, c.link0], ∃ t, call.translated bindings materialized q = .ok t := by
  unfold RewriteCall.instanceOf at h
  split at h
  · next c made hc hmade =>
    obtain ⟨link0, h0, h⟩ := Check.bind_ok_iff.1 h
    obtain ⟨link1, h1, h⟩ := Check.bind_ok_iff.1 h
    cases h
    refine ⟨c, hc, ?_, by simp [h0, h1]⟩
    rw [goes_of_ok h0, goes_of_ok h1, goes_of_ok (translated_of_copied hp hmade)]
  · cases h

section

variable (h : prepareRewrite call s draws = .ok prepared)

include h

/-- What is prepared. -/
theorem prepareRewrite_ok :
    checkRewrite call s = .ok () ∧ matchCells (call.matchCall s) = .ok prepared.bindings ∧
    ∃ templates drawn instances, Follows call s.get templates [] ∧
      drawn.map Prod.fst = templates.filter (· ≠ call.replacementRoot) ∧
      (drawn.map Prod.snd).Nodup ∧ (∀ e ∈ drawn, s.get e.2 = none ∧ e.2 ∉ [call.targetRoot]) ∧
      prepared.materialized =
        (Dict.empty.set call.replacementRoot call.targetRoot).update drawn ∧
      Check.collect (call.instanceOf s.get prepared.bindings prepared.materialized) templates =
        .ok instances ∧
      prepared.create = (instances.filter (·.1 ≠ call.replacementRoot)).map Prod.snd ∧
      prepared.replace = (instances.filter (·.1 = call.replacementRoot)).map Prod.snd := by
  unfold prepareRewrite at h
  obtain ⟨⟨⟩, hcheck, h⟩ := Check.bind_ok_iff.1 h
  obtain ⟨bindings, hmatch, h⟩ := Check.bind_ok_iff.1 h
  obtain ⟨found, hfound, h⟩ := Check.bind_ok_iff.1 h
  dsimp only at h
  split at h
  · cases h
  · next drawn hdrawn =>
    obtain ⟨instances, hinstances, h⟩ := Check.bind_ok_iff.1 h
    cases h
    have hmatched : matchCells (call.matchCall s) = .ok bindings := by
      cases hcells : matchCells (call.matchCall s) with
      | error e =>
          rw [hcells] at hmatch
          cases hmatch
      | ok made =>
          rw [hcells] at hmatch
          exact congrArg Except.ok (Except.ok.inj hmatch)
    have hfollows := templateWalk_ok hfound ⟨nodup_nil, nofun, fun p hp => by
      rw [List.mem_singleton.1 (hp.resolve_left not_mem_nil)]
      exact Relation.ReflTransGen.refl, nofun, Or.inr (Or.inr mem_cons_self)⟩
    obtain ⟨hids, hnodup, hfree⟩ := drawFresh_ok hdrawn
    have hperm : (found.mergeSort fun a b => a ≤ b).Perm found := mergeSort_perm _ _
    refine ⟨hcheck, hmatched, _, drawn, instances, ?_, hids, hnodup, hfree, rfl,
      hinstances, rfl, rfl⟩
    refine ⟨hperm.nodup_iff.2 hfollows.nodup, fun p hp => hfollows.copied p (hperm.mem_iff.1 hp),
      fun p hp => hfollows.reached p (hp.imp_left hperm.mem_iff.1), fun p hp q hq => ?_, ?_⟩
    · rw [hperm.mem_iff]
      exact hfollows.links p (hperm.mem_iff.1 hp) q hq
    · rw [hperm.mem_iff]
      exact hfollows.root

/-- A template has cells, but for the distinguished one. -/
theorem prepared_empty (hnull : call.replacementRoot = nullId) :
    prepared.create = [] ∧ prepared.replace = [] := by
  obtain ⟨-, -, templates, -, instances, hfollows, -, -, -, -, hinstances, hcreate, hreplace⟩ :=
    prepareRewrite_ok h
  have hnone : ∀ e, e ∉ instances := by
    intro e he
    obtain ⟨p, hp, -⟩ := exists_of_mem_collect hinstances he
    obtain ⟨hreach, hheld⟩ := (mem_template hfollows).1 hp
    have hroot : call.held call.replacementRoot := Or.inl hnull
    rcases Relation.ReflTransGen.cases_head hreach with rfl | ⟨q, hq, -⟩
    · exact hheld hroot
    · rw [RewriteCall.leads, if_pos hroot] at hq
      cases hq
  rw [hcreate, hreplace, List.eq_nil_iff_forall_not_mem.2 hnone]
  exact ⟨rfl, rfl⟩

/-- **What is prepared and committed is an instance.** -/
theorem instance_of_committed (hnull : call.replacementRoot ≠ nullId)
    (hcommitted : Committed s prepared.create prepared.replace t) :
    ∃ f, Instance call prepared.bindings s.get t.get f := by
  obtain ⟨hcheck, -, templates, drawn, instances, hfollows, hids, hnodup, hfree, hmade, hinstances,
    hcreate, hreplace⟩ := prepareRewrite_ok h
  obtain ⟨hrootVar, hrootConstant, hdisjoint⟩ := checkRewrite_ok hcheck
  have hrootHeld : ¬call.held call.replacementRoot := fun hheld =>
    hheld.elim hnull fun hheld => hheld.elim hrootVar hrootConstant
  set f := call.goes prepared.bindings prepared.materialized with hf
  -- where the cells of the template go
  have hkeys : (drawn.map Prod.fst).Nodup := hids ▸ hfollows.nodup.filter _
  have hget : ∀ p, prepared.materialized.get? p = (Assoc.find drawn p).or
      (if p = call.replacementRoot then some call.targetRoot else none) := fun p => by
    rw [hmade, Dict.get?_update _ _ hkeys, Dict.get?_set, Dict.get?_empty]
  have hgoesRoot : f call.replacementRoot = call.targetRoot := by
    refine goes_of_ok (translated_of_copied hrootHeld ?_)
    rw [hget, if_pos rfl, Assoc.find_eq_none_iff.2 (by simp [hids])]
    rfl
  have hgoes : ∀ p ∈ templates, p ≠ call.replacementRoot → (p, f p) ∈ drawn := by
    intro p hp hne
    have hdrawn : p ∈ drawn.map Prod.fst := by
      rw [hids]
      exact List.mem_filter.2 ⟨hp, by simpa using hne⟩
    obtain ⟨⟨q, made⟩, he, rfl⟩ := List.mem_map.1 hdrawn
    have hfind : prepared.materialized.get? q = some made := by
      rw [hget, Assoc.find_of_mem hkeys he, Option.some_or]
    rwa [hf, goes_of_ok (translated_of_copied (hfollows.copied q hp).1 hfind)]
  -- what is made of them
  have hinstance : ∀ p ∈ templates, ∃ c, s.get p = some c ∧
      (p, ⟨f p, f c.link0, f c.link1, c.atom⟩) ∈ instances ∧ ∀ q ∈ [c.link1, c.link0],
        ∃ t, call.translated prepared.bindings prepared.materialized q = .ok t := by
    intro p hp
    obtain ⟨e, he, hok⟩ := ok_of_mem_collect hinstances hp
    obtain ⟨c, hc, rfl, hlinks⟩ := instanceOf_ok (hfollows.copied p hp).1 hok
    exact ⟨c, hc, he, hlinks⟩
  have hwritten : ∀ e, e ∈ instances → e.2 ∈ prepared.create ++ prepared.replace := by
    intro e he
    rw [hcreate, hreplace, mem_append]
    by_cases hroot : e.1 = call.replacementRoot
    · exact Or.inr (mem_map_of_mem (List.mem_filter.2 ⟨he, by simpa using hroot⟩))
    · exact Or.inl (mem_map_of_mem (List.mem_filter.2 ⟨he, by simpa using hroot⟩))
  have hroot : call.replacementRoot ∈ templates := by
    simpa using hfollows.root.resolve_left hrootHeld
  have hmem : ∀ p, p ∈ templates ↔ p ∈ call.template s.get := fun p => mem_template hfollows
  refine ⟨f, ⟨hgoesRoot, (hmem _).1 hroot, ?_⟩, goes_of_ok (if_pos rfl), fun p v hv hne hreach => ?_,
    fun p t ht hne => ?_, fun p hp => ?_, fun p hp q hq heq => ?_, fun p hp hne => ?_,
    fun id hid => ?_⟩
  · obtain ⟨c, -, he, -⟩ := hinstance _ hroot
    have hreplaced : (⟨f call.replacementRoot, f c.link0, f c.link1, c.atom⟩ : Cell) ∈
        prepared.replace := by
      rw [hreplace]
      exact mem_map_of_mem (List.mem_filter.2 ⟨he, by simp⟩)
    have hthere := (hcommitted.held _ hreplaced).2
    rwa [show Cell.id _ = f call.replacementRoot from rfl, hgoesRoot] at hthere
  · -- a placeholder that is reached is a link of a template cell
    rcases Relation.ReflTransGen.cases_tail hreach with rfl | ⟨q, hq, hlink⟩
    · exact absurd (Dict.mem_keys_of_get? hv) hrootVar
    · have hheld : ¬call.held q := by
        intro hheld
        rw [RewriteCall.leads, if_pos hheld] at hlink
        cases hlink
      obtain ⟨c, hc, -, hlinks⟩ := hinstance q ((hmem q).2 ⟨hq, hheld⟩)
      rw [RewriteCall.leads, if_neg hheld, hc] at hlink
      obtain ⟨t, ht⟩ := hlinks p hlink
      have hgoes : f p = t := goes_of_ok ht
      rw [RewriteCall.translated, if_neg hne, hv] at ht
      dsimp only at ht
      split at ht
      · next b hb => rw [hb, hgoes, Except.ok.inj ht]
      · cases ht
  · refine goes_of_ok ?_
    have hvar : call.replacementVars.get? p = none := Dict.get?_eq_none_iff.2 fun hvar =>
      hdisjoint p hvar (Dict.mem_keys_of_get? ht)
    rw [RewriteCall.translated, if_neg hne, hvar, ht]
  · obtain ⟨c, hc, he, -⟩ := hinstance p ((hmem p).2 hp)
    exact ⟨c, hc, hcommitted.get_mem (hwritten _ he)⟩
  · have hother : ∀ p ∈ templates, p ≠ call.replacementRoot → f p ≠ call.targetRoot :=
      fun p hp hne heq => (hfree _ (hgoes p hp hne)).2 (List.mem_singleton.2 heq)
    by_cases hpr : p = call.replacementRoot <;> by_cases hqr : q = call.replacementRoot
    · rw [hpr, hqr]
    · exact absurd (heq ▸ hpr ▸ hgoesRoot) (hother q ((hmem q).2 hq) hqr)
    · exact absurd (heq.trans (hqr ▸ hgoesRoot)) (hother p ((hmem p).2 hp) hpr)
    · exact congrArg Prod.fst (inj_on_of_nodup_map hnodup (hgoes p ((hmem p).2 hp) hpr)
        (hgoes q ((hmem q).2 hq) hqr) heq)
  · exact (hfree _ (hgoes p ((hmem p).2 hp) hne)).1
  · refine hcommitted.get_other fun hin => hid ?_
    obtain ⟨c, hc, rfl⟩ := List.mem_map.1 hin
    have hfrom : ∃ e ∈ instances, e.2 = c := by
      rw [hcreate, hreplace, ← map_append] at hc
      obtain ⟨e, he, rfl⟩ := List.mem_map.1 hc
      exact ⟨e, (List.mem_append.1 he).elim mem_of_mem_filter mem_of_mem_filter, rfl⟩
    obtain ⟨e, he, rfl⟩ := hfrom
    obtain ⟨p, hp, hok⟩ := exists_of_mem_collect hinstances he
    obtain ⟨c, -, rfl, -⟩ := instanceOf_ok (hfollows.copied p hp).1 hok
    exact ⟨p, (hmem p).1 hp, rfl⟩

end

/-! ## Rewriting -/

end

/-! ### Another store has appended -/

/-- A store with two cells. -/
def twoCells : Store :=
  ((Store.empty.commit none 0 [⟨"a", nullId, nullId, []⟩, ⟨"b", nullId, nullId, [1]⟩] []).toOption).getD
    .empty

/-- The store where another one has created a cell. -/
def threeCells : Store :=
  ((twoCells.commit none 1 [⟨"c", nullId, nullId, []⟩] []).toOption).getD .empty

/-- One cell is replaced by the other one. -/
def replaceCall : RewriteCall := ⟨1, "a", "a", ["a"], "b", .empty, .empty, 10⟩

end ArchHub.Cells

import Mathlib
import ArchHub.Table.Gates

/-!
# Effects are undone one by one

`revert_effect` puts back what the live token of the node holds.  The live token is the one
of the last apply, unless a revert came after it: a second revert in a row finds none, also
when an earlier apply was not reverted, and an apply that found its change made becomes the
live one though it changed nothing.

So the stack discipline holds in the courses where every revert comes straight after the
apply that it undoes (`Follows`), and as long as the ids have six digits.

* `Kept`: what holds in such a course, and `step_kept`: it is kept by each of its steps.
* `reverts_undo`: the law for the courses that follow the condition.
* `second_revert_refused`: a course in which it fails.
-/

namespace ArchHub.Table.LawsEffect

open Lib List

variable (host : Host)

/-- The token that is recorded for what happens to the sink. -/
inductive Tells (id : Value) : Value → Undo.Event Key Value → Prop
  | fired (target change actor : Value) (before : Option Value) (k : Key) :
      target.hashed = .ok k → Tells id (firedOp id target change actor before) (.fired ⟨k, before⟩)
  | satisfied (target change actor : Value) :
      Tells id (satisfiedOp id target change actor) .satisfied
  | reverted (target actor : Value) (restored : Option Value) :
      Tells id (revertOp id target actor restored) .reverted

/-- What holds in a course: the tokens tell what happened, undoing what is outstanding gives
the first sink, and what is not outstanding was reverted. -/
structure Kept (id : String) (first : Dict Key Value) (c : Course) : Prop where
  trail : ∃ trail, Trail (.str id) c.world.store trail ∧
    List.Forall₂ (fun e => Tells (.str id) e.2) trail c.log
  back : Undo.unwind c.world.sink.get? (Undo.outstanding c.log) = first.get?
  count : (Undo.outstanding c.log).length + c.log.countP Undo.Event.isReverted =
    c.log.countP Undo.Event.isFired

/-- The condition: an edit spares history and forges no token, and a revert comes straight
after the apply that it undoes, or when there is nothing to undo. -/
def Follows (id : String) (c : Course) : Deed → Prop
  | .edit _ op => sparesHistory c.world.store op = true ∧ isToken (.str id) op = false
  | .pull _ _ => True
  | .apply _ _ => True
  | .revert _ _ => Valid c.world.store.nodes ∧ c.world.store.seq ≤ 10 ^ 6 ∧
      Undo.newestLast c.log = true

instance (id : String) (c : Course) : (d : Deed) → Decidable (Follows id c d)
  | .edit _ op => inferInstanceAs
      (Decidable (sparesHistory c.world.store op = true ∧ isToken (.str id) op = false))
  | .pull _ _ => inferInstanceAs (Decidable True)
  | .apply _ _ => inferInstanceAs (Decidable True)
  | .revert _ _ => inferInstanceAs (Decidable (Valid c.world.store.nodes ∧
      c.world.store.seq ≤ 10 ^ 6 ∧ Undo.newestLast c.log = true))

/-! ## The live token -/

theorem forall₂_concat {α β : Type} {R : α → β → Prop} {as : List α} {bs : List β} {b : β}
    (h : List.Forall₂ R as (bs ++ [b])) : ∃ as' a, as = as' ++ [a] ∧ List.Forall₂ R as' bs ∧ R a b := by
  have hreverse := List.forall₂_reverse_iff.2 h
  rw [reverse_append, reverse_singleton, singleton_append] at hreverse
  cases has : as.reverse with
  | nil =>
      rw [has] at hreverse
      cases hreverse
  | cons a as' =>
      rw [has, forall₂_cons] at hreverse
      obtain ⟨hab, hrest⟩ := hreverse
      refine ⟨as'.reverse, a, ?_, ?_, hab⟩
      · rw [← reverse_reverse as, has, reverse_cons]
      · rw [← forall₂_reverse_iff, reverse_reverse]
        exact hrest

variable {host} {id : String} {first : Dict Key Value} {c : Course}
variable {trail : List (ℕ × Value)} {log : List (Undo.Event Key Value)} {op actor : Value}
  {depth : ℕ}

/-- No token is live before the first apply. -/
theorem live_of_nil (h : List.Forall₂ (fun e => Tells (.str id) e.2) trail []) :
    (trail.map Prod.snd).foldl follow none = none := by
  cases h
  rfl

/-- The last apply is live. -/
theorem live_of_fired {frame : Undo.Frame Key Value}
    (h : List.Forall₂ (fun e => Tells (.str id) e.2) trail (log ++ [.fired frame])) :
    ∃ target change actor, target.hashed = .ok frame.place ∧
      (trail.map Prod.snd).foldl follow none =
        some (firedOp (.str id) target change actor frame.before) := by
  obtain ⟨trail', e, rfl, -, htells⟩ := forall₂_concat h
  obtain ⟨m, op⟩ := e
  rw [map_append, foldl_append]
  cases htells with
  | fired target change actor before k hk => exact ⟨target, change, actor, hk, rfl⟩

/-- No token is live after a revert. -/
theorem live_of_reverted (h : List.Forall₂ (fun e => Tells (.str id) e.2) trail (log ++ [.reverted])) :
    (trail.map Prod.snd).foldl follow none = none := by
  obtain ⟨trail', e, rfl, -, htells⟩ := forall₂_concat h
  obtain ⟨m, op⟩ := e
  rw [map_append, foldl_append]
  cases htells with
  | reverted target actor restored => rfl

/-- What a revert finds where the condition is met: the newest apply that was not reverted,
or nothing when nothing is outstanding. -/
theorem live_of_newestLast (h : List.Forall₂ (fun e => Tells (.str id) e.2) trail log)
    (hlast : Undo.newestLast log = true) :
    (Undo.outstanding log = [] ∧ (trail.map Prod.snd).foldl follow none = none) ∨
    ∃ frame frames target change actor, Undo.outstanding log = frame :: frames ∧
      target.hashed = .ok frame.place ∧ (trail.map Prod.snd).foldl follow none =
        some (firedOp (.str id) target change actor frame.before) := by
  rcases eq_nil_or_concat' log with rfl | ⟨log', last, rfl⟩
  · exact .inl ⟨rfl, live_of_nil h⟩
  · cases last with
    | fired frame =>
        obtain ⟨target, change, actor, hk, hlive⟩ := live_of_fired h
        exact .inr ⟨frame, Undo.outstanding log', target, change, actor,
          Undo.outstanding_concat _ _, hk, hlive⟩
    | satisfied =>
        rw [Undo.newestLast_satisfied] at hlast
        cases hlast
    | reverted => exact .inl ⟨Undo.newestLast_reverted hlast, live_of_reverted h⟩

/-! ## Steps -/

/-- A recorded operation is a token exactly when the given one is. -/
theorem isToken_recordedAs {id op' : Value} (h : RecordedAs op op') :
    isToken id op' = isToken id op := by
  rcases h with rfl | ⟨-, hget⟩
  · rfl
  · unfold isToken field
    rw [hget "op" (by decide) (by decide), hget "effect" (by decide) (by decide)]

/-- A quiet store keeps the trail. -/
theorem Trail.quiet {id : Value} {s t : Store} (h : Trail id s trail) (hq : Quiet s t) :
    Trail id t trail := Trail.same h hq.sameHistory hq.counts

theorem isToken_fired (id target change actor : Value) (before : Option Value) :
    isToken id (firedOp id target change actor before) = id.pyEq id := rfl

theorem isToken_satisfied (id target change actor : Value) :
    isToken id (satisfiedOp id target change actor) = id.pyEq id := rfl

theorem isToken_revert (id target actor : Value) (restored : Option Value) :
    isToken id (revertOp id target actor restored) = id.pyEq id := rfl

/-- **A recorded token comes last.** -/
theorem trail_token {s t : Store} (h : Trail (.str id) s trail)
    (hspares : sparesHistory s op = true) (htoken : isToken (.str id) op = true)
    (hrun : applyOp host depth op s = (.ok (.str id, op), t)) :
    ∃ m, Trail (.str id) t (trail ++ [(m, op)]) := by
  obtain ⟨-, m, hrecords⟩ := applyOp_records h.historyClosed hspares hrun
  have hnext := h.record hrecords
  rw [if_pos htoken] at hnext
  exact ⟨m, hnext⟩

theorem edit_kept (h : Kept id first c) (hok : Follows id c (.edit depth op)) :
    Kept id first ((effects host id).step c (.edit depth op)) := by
  obtain ⟨trail, htrail, htells⟩ := h.trail
  refine ⟨?_, h.back, h.count⟩
  show ∃ trail, Trail (.str id) (applyOp host depth op c.world.store).2 trail ∧ _
  rcases hrun : applyOp host depth op c.world.store with ⟨e | ⟨out, op'⟩, t⟩
  · obtain ⟨hsame, hcounts⟩ := applyOp_refused htrail.historyClosed hok.1 hrun
    exact ⟨trail, htrail.same hsame hcounts, htells⟩
  · obtain ⟨hrecorded, m, hrecords⟩ := applyOp_records htrail.historyClosed hok.1 hrun
    have hnext := htrail.record hrecords
    rw [isToken_recordedAs hrecorded, hok.2, if_neg Bool.false_ne_true, append_nil] at hnext
    exact ⟨trail, hnext, htells⟩

theorem pull_kept {v : Value} (h : Kept id first c) :
    Kept id first ((effects host id).step c (.pull depth v)) := by
  obtain ⟨trail, htrail, htells⟩ := h.trail
  exact ⟨⟨trail, Trail.quiet htrail (pull_quiet host depth v none _), htells⟩, h.back, h.count⟩

theorem apply_kept (h : Kept id first c) :
    Kept id first ((effects host id).step c (.apply depth actor)) := by
  obtain ⟨trail, htrail, htells⟩ := h.trail
  have houtcome := applyEffect_outcome host depth id actor c.world
  show Kept id first ⟨(applyEffect host depth (.str id) actor c.world).2,
    c.log ++ applied c.world.sink (applyEffect host depth (.str id) actor c.world).1⟩
  generalize applyEffect host depth (.str id) actor c.world = r at houtcome ⊢
  cases houtcome with
  | refused e w' hcalm =>
      show Kept id first ⟨w', c.log ++ []⟩
      rw [append_nil]
      refine ⟨⟨trail, Trail.quiet htrail hcalm.1, htells⟩, ?_, h.count⟩
      show Undo.unwind w'.sink.get? _ = _
      rw [hcalm.2]
      exact h.back
  | satisfied target change v result k u w' _ hcalm _ _ _ hfired hrun hsink =>
      obtain ⟨m, hnext⟩ := trail_token (Trail.quiet htrail hcalm.1) rfl
        ((isToken_satisfied _ _ _ _).trans (Value.pyEq_str.2 rfl)) hrun
      show Kept id first ⟨w', c.log ++ if (field result "fired").truthy then _ else _⟩
      rw [if_neg (by rw [hfired]; exact Bool.false_ne_true)]
      refine ⟨⟨_, hnext, rel_append htells
        (List.Forall₂.cons (Tells.satisfied target change actor) List.Forall₂.nil)⟩, ?_, ?_⟩
      · show Undo.unwind w'.sink.get? _ = _
        rw [hsink, Undo.outstanding_concat]
        exact h.back
      · rw [Undo.outstanding_concat, countP_append, countP_append]
        exact h.count
  | fired target change result k u w' _ hcalm hk hfired htarget hrun hsink =>
      obtain ⟨m, hnext⟩ := trail_token (Trail.quiet htrail hcalm.1) rfl
        ((isToken_fired _ _ _ _ _).trans (Value.pyEq_str.2 rfl)) hrun
      show Kept id first ⟨w', c.log ++ if (field result "fired").truthy then _ else _⟩
      rw [if_pos hfired, htarget, Value.key?_of_hashed hk]
      have htold : Tells (.str id) (firedOp (.str id) target change actor (c.world.sink.get? k))
          (.fired ⟨k, c.world.sink.get? k⟩) := Tells.fired target change actor _ k hk
      refine ⟨⟨_, hnext, rel_append htells (List.Forall₂.cons htold List.Forall₂.nil)⟩, ?_, ?_⟩
      · show Undo.unwind w'.sink.get? (Undo.outstanding (c.log ++ [.fired ⟨k, _⟩])) = _
        have hwritten : (c.world.sink.set k change).get? =
            Function.update c.world.sink.get? k (some change) := by
          funext j
          rw [Dict.get?_set, Function.update_apply]
        rw [hsink, Undo.outstanding_concat, hwritten]
        exact (Undo.unwind_write _ _ _ _).trans h.back
      · show (Undo.outstanding (c.log ++ [.fired ⟨k, _⟩])).length + _ = _
        rw [Undo.outstanding_concat, countP_append, countP_append]
        have hcount := h.count
        simp only [Undo.leave, length_cons]
        show _ + 1 + (_ + 0) = _ + 1
        omega

theorem putBack_get? (k : Key) (before : Option Value) (w : World) :
    (putBack k before w).sink.get? = Undo.restore w.sink.get? ⟨k, before⟩ := by
  funext j
  rw [Undo.restore, Function.update_apply]
  cases before with
  | none => exact Dict.get?_erase _ _ _
  | some v => exact Dict.get?_set _ _ _ _

/-- **What a revert does** where the condition is met: it is refused and changes nothing, when
there is nothing to undo or the node is no effect node with a target, and else it puts back
what the newest apply found that was not reverted. -/
theorem revert_spec (host : Host) (h : Kept id first c) (hok : Follows id c (.revert depth actor)) :
    ((Undo.outstanding c.log = [] ∨ ∃ e, (effectFloor (.str id) c.world).1 = .error e) ∧
      ∃ e, revertEffect host depth (.str id) actor c.world = (.error e, c.world)) ∨
    ∃ frame frames result target t, Undo.outstanding c.log = frame :: frames ∧
      revertEffect host depth (.str id) actor c.world =
        (.ok result, ⟨t, (putBack frame.place frame.before c.world).sink⟩) ∧
      applyOp host depth (revertOp (.str id) target actor frame.before) c.world.store =
        (.ok (.str id, revertOp (.str id) target actor frame.before), t) := by
  obtain ⟨trail, htrail, htells⟩ := h.trail
  obtain ⟨hvalid, hseq, hlast⟩ := hok
  have hlive : liveToken c.world.store.nodes (.str id) =
      .ok ((trail.map Prod.snd).foldl follow none) := by
    unfold liveToken
    rw [htrail.applyTokens_eq hvalid hseq]
    rfl
  rcases live_of_newestLast htells hlast with ⟨hnone, hfold⟩ | ⟨frame, frames, target, change, who,
    houtstanding, hk, hfold⟩
  · rw [hfold] at hlive
    exact .inl ⟨.inl hnone, revertEffect_of_none hlive⟩
  · rw [hfold] at hlive
    cases hfloor : (effectFloor (.str id) c.world).1 with
    | error e => exact .inl ⟨.inr ⟨e, rfl⟩, e, revertEffect_floorless hfloor⟩
    | ok floor =>
        obtain ⟨result, t, hrun, hrecord⟩ := revertEffect_of_fired host depth actor hfloor hlive hk
        exact .inr ⟨frame, frames, result, target, t, houtstanding, hrun, hrecord⟩

theorem revert_kept (h : Kept id first c) (hok : Follows id c (.revert depth actor)) :
    Kept id first ((effects host id).step c (.revert depth actor)) := by
  show Kept id first ⟨(revertEffect host depth (.str id) actor c.world).2,
    c.log ++ reverted (revertEffect host depth (.str id) actor c.world).1⟩
  rcases revert_spec host h hok with ⟨-, e, hrun⟩ | ⟨frame, frames, result, target, t,
    houtstanding, hrun, hrecord⟩
  · rw [hrun]
    show Kept id first ⟨c.world, c.log ++ []⟩
    rw [append_nil]
    exact h
  · obtain ⟨trail, htrail, htells⟩ := h.trail
    obtain ⟨m, hnext⟩ := trail_token htrail rfl
      ((isToken_revert _ _ _ _).trans (Value.pyEq_str.2 rfl)) hrecord
    rw [hrun]
    refine ⟨⟨_, hnext, rel_append htells (List.Forall₂.cons
      (Tells.reverted target actor frame.before) List.Forall₂.nil)⟩, ?_, ?_⟩
    · show Undo.unwind (putBack frame.place frame.before c.world).sink.get?
        (Undo.outstanding (c.log ++ [.reverted])) = _
      have hback := h.back
      rw [houtstanding, Undo.unwind_cons] at hback
      rw [putBack_get?, Undo.outstanding_concat, houtstanding]
      exact hback
    · show (Undo.outstanding (c.log ++ [Undo.Event.reverted])).length +
        (c.log ++ [Undo.Event.reverted]).countP _ = (c.log ++ [Undo.Event.reverted]).countP _
      have hcount := h.count
      rw [houtstanding, length_cons] at hcount
      rw [Undo.outstanding_concat, houtstanding, countP_append, countP_append]
      show frames.length + (_ + 1) = _ + 0
      omega

/-- **Every step that meets the condition** keeps what holds in a course. -/
theorem step_kept (c : Course) (d : Deed) (hok : Follows id c d) (h : Kept id first c) :
    Kept id first ((effects host id).step c d) := by
  cases d with
  | edit depth op => exact edit_kept h hok
  | pull depth v => exact pull_kept h
  | apply depth actor => exact apply_kept h
  | revert depth actor => exact revert_kept h hok

/-! ## The law -/

/-- What is so of a course that met the condition so far. -/
structure Undoable (host : Host) (id : String) (first : Dict Key Value) (c : Course) : Prop where
  /-- Undoing what is outstanding gives the first sink. -/
  back : Undo.unwind c.world.sink.get? (Undo.outstanding c.log) = first.get?
  /-- As many reverts as applies that fired bring the sink back, and the next is refused. -/
  even : c.log.countP Undo.Event.isReverted = c.log.countP Undo.Event.isFired →
    c.world.sink.get? = first.get? ∧ ∀ depth actor, Follows id c (.revert depth actor) →
      ∃ e, revertEffect host depth (.str id) actor c.world = (.error e, c.world)
  /-- A revert of an effect node undoes the newest apply that fired and was not reverted. -/
  undoes : ∀ depth actor frame frames floor, Follows id c (.revert depth actor) →
    Undo.outstanding c.log = frame :: frames → (effectFloor (.str id) c.world).1 = .ok floor →
    ∃ result w, revertEffect host depth (.str id) actor c.world = (.ok result, w) ∧
      w.sink.get? = Undo.restore c.world.sink.get? frame
  /-- An apply that changes the sink found the node unfrozen and every guard open. -/
  gated : ∀ depth actor, (applyEffect host depth (.str id) actor c.world).2.sink ≠ c.world.sink →
    Attended host depth (.str id) c.world
  /-- A pull does not change the sink. -/
  pure : ∀ depth v, ((effects host id).step c (.pull depth v)).world.sink = c.world.sink

theorem Kept.even (h : Kept id first c)
    (heven : c.log.countP Undo.Event.isReverted = c.log.countP Undo.Event.isFired) :
    Undo.outstanding c.log = [] := by
  have hcount := h.count
  exact List.length_eq_zero_iff.1 (by omega)

theorem Kept.undoable (h : Kept id first c) : Undoable host id first c where
  back := h.back
  even heven := by
    have hnone := h.even heven
    refine ⟨?_, fun depth actor hok => ?_⟩
    · have hback := h.back
      rw [hnone] at hback
      exact hback
    · rcases revert_spec host h hok with ⟨-, hrefused⟩ | ⟨frame, frames, _, _, _, hsome, -⟩
      · exact hrefused
      · rw [hnone] at hsome
        cases hsome
  undoes depth actor frame frames floor hok houtstanding hfloor := by
    rcases revert_spec host h hok with ⟨hnone | ⟨e, he⟩, -⟩ | ⟨frame', frames', result, _, t,
      hsome, hrun, -⟩
    · rw [houtstanding] at hnone
      cases hnone
    · rw [hfloor] at he
      cases he
    · rw [houtstanding] at hsome
      cases hsome
      exact ⟨result, _, hrun, putBack_get? _ _ _⟩
  gated depth actor hchanged := by
    have houtcome := applyEffect_outcome host depth id actor c.world
    generalize applyEffect host depth (.str id) actor c.world = r at houtcome hchanged
    cases houtcome with
    | refused e w' hcalm => exact absurd hcalm.2 hchanged
    | satisfied _ _ _ _ _ _ _ hattended _ _ _ _ _ _ _ => exact hattended
    | fired _ _ _ _ _ _ hattended _ _ _ _ _ _ => exact hattended
  pure _ _ := rfl

/-- **Effects are undone one by one** in the courses of which every step meets the
condition. -/
theorem reverts_undo (host : Host) (id : String) (first : Dict Key Value) {c : Course}
    (h : (effects host id).Run (Follows id) ⟨⟨Store.empty, first⟩, []⟩ c) :
    Undoable host id first c := by
  have hstart : Kept id first ⟨⟨Store.empty, first⟩, []⟩ :=
    ⟨⟨[], Trail.start _, List.Forall₂.nil⟩, rfl, rfl⟩
  have hkept : Kept id first c := h.invariant step_kept hstart
  exact hkept.undoable

/-! ## Two applies in a row -/

/-- `set` of the change of an effect node. -/
def changeOp (id : String) (v : Value) : Value :=
  dict [("op", .str "set"), ("id", .str id),
    ("path", .list [.str "body", .str "floor", .str "change"]), ("value", v)]

/-- A new effect node fires, is edited, fires again and is reverted. -/
def twoApplies : List Deed :=
  [.edit 8 (addNodeOp "e" "op" (dict [("floor", dict [("op", .str "effect"), ("target", .str "k"),
      ("change", .int 1)])])),
    .apply 8 (.str "user"), .edit 8 (changeOp "e" (.int 2)), .apply 8 (.str "user"),
    .revert 8 (.str "user")]

/-- A new table and an empty sink. -/
def newCourse : Course := ⟨⟨Store.empty, Dict.empty⟩, []⟩

/-- After two applies the second one is undone. -/
theorem reverts_undo_second : ∃ c, (effects Host.bare "e").Run (Follows "e") newCourse c ∧
    Undoable Host.bare "e" Dict.empty c ∧ c.world.sink.get? (.str "k") = some (.int 1) := by
  have hrun : (effects Host.bare "e").Run (Follows "e") newCourse
      (twoApplies.foldl (effects Host.bare "e").step newCourse) :=
    .ofWalk (fun _ _ => of_decide_eq_true) (by decide +kernel)
  exact ⟨_, hrun, reverts_undo Host.bare "e" Dict.empty hrun, by decide +kernel⟩

/-- The condition without the order of the reverts. -/
def Unordered (id : String) (c : Course) : Deed → Prop
  | .revert _ _ => Valid c.world.store.nodes ∧ c.world.store.seq ≤ 10 ^ 6
  | d => Follows id c d

instance (id : String) (c : Course) : (d : Deed) → Decidable (Unordered id c d)
  | .revert _ _ => inferInstanceAs
      (Decidable (Valid c.world.store.nodes ∧ c.world.store.seq ≤ 10 ^ 6))
  | .edit depth op => inferInstanceAs (Decidable (Follows id c (.edit depth op)))
  | .pull depth v => inferInstanceAs (Decidable (Follows id c (.pull depth v)))
  | .apply depth actor => inferInstanceAs (Decidable (Follows id c (.apply depth actor)))

/-- After two applies and one revert there is one apply to undo, and the second revert is
refused. -/
theorem second_revert_refused : ∃ c, (effects Host.bare "e").Run (Unordered "e") newCourse c ∧
    Unordered "e" c (.revert 8 (.str "user")) ∧ (Undo.outstanding c.log).length = 1 ∧
    (effectFloor (.str "e") c.world).1.isOk = true ∧
    (revertEffect Host.bare 8 (.str "e") (.str "user") c.world).1.isOk = false ∧
    c.world.sink.get? (.str "k") = some (.int 1) ∧ newCourse.world.sink.get? (.str "k") = none := by
  have hrun : (effects Host.bare "e").Run (Unordered "e") newCourse
      (twoApplies.foldl (effects Host.bare "e").step newCourse) :=
    .ofWalk (fun _ _ => of_decide_eq_true) (by decide +kernel)
  exact ⟨_, hrun, by decide +kernel⟩

end ArchHub.Table.LawsEffect

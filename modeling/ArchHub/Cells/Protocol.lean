import Mathlib
import ArchHub.Lib.Transition
import ArchHub.Cells.Edits

/-!
# Relations of one store

Relations are built in one store and edited there, in any order.  Each has cells of its
own, so an edit of one is an operation on its list of members and leaves the others
alone.

* `relations`: commits that create cells, relations among them, and edits.
* `Lies`: every relation that was built lies in cells of its own; every step keeps it.
* `relations_refine_lists`: every accepted edit is the operation on the list, and one
  that is refused changes nothing.
* `budget_too_small`: what is read within the budget of the edit itself may not be read.
-/

namespace ArchHub.Cells

open Lib Lib.Heap List Function

/-- A relation to be composed. -/
structure Build where
  pairs : List Pair
  relationId : Option String
  uuid : ℕ → String

/-- The relation as it is composed. -/
def Build.composed (b : Build) : RelationCells := composeRelationCells b.pairs b.relationId b.uuid

/-- Where the relation is to lie. -/
def Build.slots (b : Build) : List Slot :=
  Cells.slots b.pairs b.composed.incidences b.composed.chain

/-- A store, and the roots of the relations built in it. -/
structure Relations where
  store : Store
  roots : List String

/-- What is done to a store. -/
inductive Action
  /-- Cells are created: those of some relations, and others. -/
  | create (builds : List Build) (others : List Cell) (refusal : Option CellError)
  /-- A relation is edited. -/
  | edit (root : String) (edit : Edit) (refusal : Option CellError) (budget : ℤ) (uuid : ℕ → String)

/-- Relations of one store. -/
def relations : Machine Relations Action where
  step s
    | .create builds others refusal =>
        match s.store.commit refusal s.store.revision
          (builds.flatMap (fun b => b.composed.cells) ++ others) [] with
        | .ok t => ⟨t, s.roots ++ builds.map fun b => b.composed.root⟩
        | .error _ => s
    | .edit root edit refusal budget uuid =>
        match edit.apply s.store refusal root budget uuid with
        | .ok t => { s with store := t }
        | .error _ => s

/-- An edit is one of a relation that was built. -/
def OnRelations (s : Relations) : Action → Prop
  | .edit root _ _ _ _ => root ∈ s.roots
  | _ => True

/-! ## A relation that is built -/

variable {b : Build}

theorem composed_empty (h : b.pairs = []) :
    b.composed.cells = [⟨b.composed.root, nullId, nullId, []⟩] ∧ b.slots = [] := by
  unfold Build.slots Build.composed composeRelationCells
  rw [h]
  exact ⟨rfl, rfl⟩

theorem composed_cells (h : b.pairs ≠ []) :
    b.composed.cells = linkCells b.slots ∧ nextChain b.slots = b.composed.root ∧ b.slots ≠ [] := by
  unfold Build.slots Build.composed composeRelationCells
  simp only [if_neg h]
  obtain ⟨p, ps, hp⟩ := exists_cons_of_ne_nil h
  simp only [hp, length_cons, range_succ_eq_map, map_cons, Cells.slots]
  exact ⟨trivial, rfl, cons_ne_nil _ _⟩

/-- The cells of a relation that is built. -/
theorem owned_composed (b : Build) :
    (owned b.composed.root b.slots).Perm (b.composed.cells.map Cell.id) := by
  by_cases h : b.pairs = []
  · obtain ⟨hcells, hslots⟩ := composed_empty h
    rw [hcells, hslots]
    exact List.Perm.refl _
  · obtain ⟨hcells, -, hne⟩ := composed_cells h
    rw [hcells, owned_of_ne_nil _ hne]
    exact (linkCells_ids _).symm

variable {s t : Store} {create replace : List Cell} {root : String} {lay : String → List Slot}
  {ss : List Slot}

theorem null_not_created (hc : Committed s create replace t) : nullId ∉ create.map Cell.id := by
  refine hc.not_created ?_
  rw [Store.get, Graph.get, s.graph.null]
  rfl

/-- **A relation that is built lies in its cells.** -/
theorem relation_composed (hc : Committed s create replace t)
    (hsub : b.composed.cells.Sublist create) : Relation t b.composed.root b.slots := by
  have hget : ∀ c ∈ b.composed.cells, t.get c.id = some c := fun c hmem =>
    hc.get_mem (mem_append_left _ (hsub.subset hmem))
  have hnodup : (owned b.composed.root b.slots).Nodup :=
    (owned_composed b).nodup_iff.2 (hc.nodup.sublist
      ((hsub.trans (sublist_append_left create replace)).map Cell.id))
  have hnotNull : nullId ∉ owned b.composed.root b.slots := fun hmem =>
    null_not_created hc ((hsub.map Cell.id).subset ((owned_composed b).mem_iff.1 hmem))
  by_cases h : b.pairs = []
  · obtain ⟨hcells, hslots⟩ := composed_empty h
    rw [hslots] at hnodup hnotNull ⊢
    refine ⟨rfl, ⟨?_, trivial⟩, hnodup, hnotNull, fun _ hx => nomatch hx⟩
    have hroot := hget ⟨b.composed.root, nullId, nullId, []⟩ (by rw [hcells]; simp)
    unfold Store.links
    rw [show t.get b.composed.root = _ from hroot]
    rfl
  · obtain ⟨hcells, hstart, hne⟩ := composed_cells h
    rw [hcells] at hget
    refine ⟨?_, ?_, hnodup, hnotNull, fun x hx => ?_⟩
    · rw [entries_of_ne_nil hne, first_entries, hstart]
    · rw [entries_of_ne_nil hne]
      exact linked_linkCells hget
    · exact ⟨x.member.cell, hget _ (cell_mem_linkCells hx), rfl, rfl⟩

/-! ## What every step keeps -/

/-- Every relation that was built lies in cells of its own. -/
structure Lies (s : Relations) (lay : String → List Slot) : Prop where
  relation : ∀ r ∈ s.roots, Relation s.store r (lay r)
  apart : ∀ r ∈ s.roots, ∀ r' ∈ s.roots, r ≠ r' → ∀ id ∈ owned r (lay r), id ∉ owned r' (lay r')

/-- An edit of a relation, and where it lies then. -/
theorem apply_edited {edit : Edit} {refusal : Option CellError} {budget : ℤ} {uuid : ℕ → String}
    (h : Relation s root ss) (hok : edit.apply s refusal root budget uuid = .ok t) :
    ((max 1 ss.length : ℕ) : ℤ) ≤ budget ∧ ∃ ss', Edited s root ss t ss' ∧
      (edit.Anchored → edit.onList uuid (membersOf ss) = some (membersOf ss')) := by
  cases edit with
  | append pairs =>
      obtain ⟨hbudget, hpairs, ss', hedited, hmembers⟩ := append_edited h hok
      refine ⟨hbudget, ss', hedited, fun _ => ?_⟩
      rw [hmembers]
      exact if_neg hpairs
  | insert role participant before after => exact insert_edited h hok
  | remove ids =>
      obtain ⟨hbudget, ss', hedited, hlist⟩ := remove_edited h hok
      exact ⟨hbudget, ss', hedited, fun _ => hlist⟩
  | reorder order =>
      obtain ⟨hbudget, ss', hedited, hlist⟩ := reorder_edited h hok
      exact ⟨hbudget, ss', hedited, fun _ => hlist⟩

/-- **An edit keeps every relation in cells of its own.** -/
theorem Lies.edited {s : Relations} (h : Lies s lay) (hroot : root ∈ s.roots) {ss' : List Slot}
    (hedited : Edited s.store root (lay root) t ss') :
    Lies { s with store := t } (Function.update lay root ss') := by
  have hsame : ∀ r, r ≠ root → Function.update lay root ss' r = lay r :=
    fun r hr => update_of_ne hr _ _
  -- a cell of another relation is none of the edited one
  have hothers : ∀ r ∈ s.roots, r ≠ root → ∀ id ∈ owned r (lay r), id ∉ owned root ss' := by
    intro r hr hne id hid hmem
    rcases hedited.owned id hmem with hold | hnew
    · exact h.apart r hr root hroot hne id hid hold
    · have hheld := (h.relation r hr).held hid
      rw [hnew] at hheld
      cases hheld
  refine ⟨fun r hr => ?_, fun r hr r' hr' hne id hid => ?_⟩
  · by_cases heq : r = root
    · rw [heq, update_self]
      exact hedited.relation
    · rw [hsame r heq]
      exact hedited.others (h.relation r hr) (h.apart r hr root hroot heq)
  · by_cases heq : r = root
    · rw [heq, update_self] at hid
      rw [hsame r' fun heq' => hne (heq.trans heq'.symm)]
      exact fun hmem => hothers r' hr' (fun heq' => hne (heq.trans heq'.symm)) id hmem (heq ▸ hid)
    · rw [hsame r heq] at hid
      by_cases heq' : r' = root
      · rw [heq', update_self]
        exact hothers r hr heq id hid
      · rw [hsame r' heq']
        exact h.apart r hr r' hr' hne id hid

/-- **New cells keep every relation in cells of its own.** -/
theorem Lies.created {s : Relations} (h : Lies s lay) {builds : List Build} {others : List Cell}
    (hc : Committed s.store (builds.flatMap (fun b => b.composed.cells) ++ others) [] t) :
    ∃ lay', Lies ⟨t, s.roots ++ builds.map fun b => b.composed.root⟩ lay' := by
  have hsub : ∀ b ∈ builds,
      b.composed.cells.Sublist (builds.flatMap (fun b => b.composed.cells) ++ others) := by
    intro b hb
    have hmem : b.composed.cells ∈ builds.map fun b => b.composed.cells :=
      List.mem_map.2 ⟨b, hb, rfl⟩
    exact (sublist_flatten_of_mem hmem).trans (sublist_append_left _ _)
  let lay' : String → List Slot := fun r =>
    match builds.find? (fun b => b.composed.root = r) with
    | some b => b.slots
    | none => lay r
  -- each relation is one that was there, or one that is built
  have hcases : ∀ r ∈ s.roots ++ builds.map (fun b => b.composed.root),
      (∃ b ∈ builds, b.composed.root = r ∧ lay' r = b.slots) ∨ (r ∈ s.roots ∧ lay' r = lay r) := by
    intro r hr
    cases hfind : builds.find? (fun b => b.composed.root = r) with
    | some b =>
        refine Or.inl ⟨b, List.mem_of_find?_eq_some hfind, by simpa using List.find?_some hfind, ?_⟩
        simp only [lay', hfind]
    | none =>
        refine Or.inr ⟨(List.mem_append.1 hr).resolve_right fun hmem => ?_, by simp only [lay', hfind]⟩
        obtain ⟨b, hb, hroot⟩ := List.mem_map.1 hmem
        have hnot := List.find?_eq_none.1 hfind b hb
        simp [hroot] at hnot
  have hnew : ∀ b ∈ builds, ∀ id ∈ owned b.composed.root b.slots,
      id ∈ (builds.flatMap (fun b => b.composed.cells) ++ others).map Cell.id := fun b hb id hid =>
    ((hsub b hb).map Cell.id).subset ((owned_composed b).mem_iff.1 hid)
  have hold : ∀ r ∈ s.roots, ∀ id ∈ owned r (lay r),
      id ∉ (builds.flatMap (fun b => b.composed.cells) ++ others).map Cell.id := fun r hr id hid =>
    hc.not_created ((h.relation r hr).held hid)
  have hapart : ∀ b ∈ builds, ∀ b' ∈ builds, b.composed.root ≠ b'.composed.root →
      ∀ id ∈ owned b.composed.root b.slots, id ∉ owned b'.composed.root b'.slots := by
    intro b hb b' hb' hne id hid hid'
    have hnodup := hc.nodup
    rw [append_nil, map_append, map_flatMap] at hnodup
    have hpairwise := (List.nodup_flatMap.1 (List.nodup_append.1 hnodup).1).2
    have hsymm : Std.Symm (Function.onFun List.Disjoint
        fun b : Build => b.composed.cells.map Cell.id) := ⟨fun _ _ hd => hd.symm⟩
    have hdisjoint := hpairwise.forall hb hb' fun heq => hne (heq ▸ rfl)
    exact hdisjoint ((owned_composed b).mem_iff.1 hid) ((owned_composed b').mem_iff.1 hid')
  refine ⟨lay', fun r hr => ?_, fun r hr r' hr' hne id hid => ?_⟩
  · rcases hcases r hr with ⟨b, hb, rfl, hlay⟩ | ⟨hr, hlay⟩
    · rw [hlay]
      exact relation_composed hc (hsub b hb)
    · rw [hlay]
      refine (h.relation r hr).frame fun id hid => hc.get_other ?_
      rw [append_nil]
      exact hold r hr id hid
  · rcases hcases r hr with ⟨b, hb, rfl, hlay⟩ | ⟨hr, hlay⟩ <;>
      rcases hcases r' hr' with ⟨b', hb', rfl, hlay'⟩ | ⟨hr', hlay'⟩ <;> rw [hlay] at hid <;> rw [hlay']
    · exact hapart b hb b' hb' hne id hid
    · exact fun hmem => hold r' hr' id hmem (hnew b hb id hid)
    · exact fun hmem => hold r hr id hid (hnew b' hb' id hmem)
    · exact h.apart r hr r' hr' hne id hid

/-- One step keeps every relation in cells of its own. -/
theorem lies_step {s : Relations} {a : Action} (hok : OnRelations s a) (h : ∃ lay, Lies s lay) :
    ∃ lay, Lies (relations.step s a) lay := by
  obtain ⟨lay, hlies⟩ := h
  cases a with
  | create builds others refusal =>
      show ∃ lay, Lies (match s.store.commit refusal s.store.revision
        (builds.flatMap (fun b => b.composed.cells) ++ others) [] with
        | .ok t => ⟨t, s.roots ++ builds.map fun b => b.composed.root⟩
        | .error _ => s) lay
      cases hcommit : s.store.commit refusal s.store.revision
          (builds.flatMap (fun b => b.composed.cells) ++ others) [] with
      | error e => exact ⟨lay, hlies⟩
      | ok t => exact hlies.created (commit_ok hcommit)
  | edit root edit refusal budget uuid =>
      show ∃ lay, Lies (match edit.apply s.store refusal root budget uuid with
        | .ok t => { s with store := t }
        | .error _ => s) lay
      cases happly : edit.apply s.store refusal root budget uuid with
      | error e => exact ⟨lay, hlies⟩
      | ok t =>
          obtain ⟨-, ss', hedited, -⟩ := apply_edited (hlies.relation root hok) happly
          exact ⟨_, hlies.edited hok hedited⟩

/-- **Every run keeps every relation in cells of its own.** -/
theorem lies_of_run {s₀ : Store} {s : Relations} (hrun : relations.Run OnRelations ⟨s₀, []⟩ s) :
    ∃ lay, Lies s lay := by
  let Inv : Relations → Prop := fun s => ∃ lay, Lies s lay
  have hstep : ∀ s a, OnRelations s a → Inv s → Inv (relations.step s a) :=
    fun _ _ hok h => lies_step hok h
  have hstart : Inv ⟨s₀, []⟩ := ⟨fun _ => [], ⟨(fun _ hr => nomatch hr), fun _ hr => nomatch hr⟩⟩
  have hend : Inv s := Machine.Run.invariant hstep hrun hstart
  exact hend

/-- A relation reads as a list, within a budget that its chain can be walked in. -/
def ReadsAs (s : Store) (root : String) (ms : List Member) : Prop :=
  ∀ budget : ℤ, ((max 1 ms.length : ℕ) : ℤ) ≤ budget → readRelation s root budget = .ok ms

theorem readsAs_of_relation (h : Relation s root ss) : ReadsAs s root (membersOf ss) := by
  intro budget hbudget
  rw [show (membersOf ss).length = ss.length from length_map _] at hbudget
  exact (read_of_budget h hbudget).2

/-- **Relations refine lists.**  In every run, each relation that was built reads as a
list of members.  An edit of it that is accepted had a budget for its chain, is the
operation on the list, and leaves what is read of every other relation; an edit that is
refused changes nothing. -/
theorem relations_refine_lists {s₀ : Store} {s : Relations}
    (hrun : relations.Run OnRelations ⟨s₀, []⟩ s) {root : String} (hroot : root ∈ s.roots) :
    ∃ ms, ReadsAs s.store root ms ∧ ∀ (edit : Edit) refusal budget uuid,
      match edit.apply s.store refusal root budget uuid with
      | .error _ => relations.step s (.edit root edit refusal budget uuid) = s
      | .ok t => ((max 1 ms.length : ℕ) : ℤ) ≤ budget ∧
          (edit.Anchored → ∃ ms', edit.onList uuid ms = some ms' ∧ ReadsAs t root ms') ∧
          ∀ other ∈ s.roots, other ≠ root → ∀ budget',
            readRelation t other budget' = readRelation s.store other budget' := by
  obtain ⟨lay, hlies⟩ := lies_of_run hrun
  have hrelation := hlies.relation root hroot
  refine ⟨membersOf (lay root), readsAs_of_relation hrelation, fun edit refusal budget uuid => ?_⟩
  cases happly : edit.apply s.store refusal root budget uuid with
  | error e =>
      show (match edit.apply s.store refusal root budget uuid with
        | .ok t => { s with store := t }
        | .error _ => s) = s
      rw [happly]
  | ok t =>
      obtain ⟨hbudget, ss', hedited, hlist⟩ := apply_edited hrelation happly
      refine ⟨?_, fun hanchored => ?_, fun other hother hne budget' => ?_⟩
      · rw [show (membersOf (lay root)).length = (lay root).length from List.length_map _]
        exact hbudget
      · exact ⟨membersOf ss', hlist hanchored, readsAs_of_relation hedited.relation⟩
      · have hold := hlies.relation other hother
        have hnew := hedited.others hold (hlies.apart other hother root hroot hne)
        rw [readRelation_eq hold, readRelation_eq hnew]

/-! ## A relation with one member -/

/-- Identities, one after the other. -/
def numbered (start i : ℕ) : String := toString (start + i)

/-- A store in which a relation is built. -/
def built (pairs : List Pair) : Relations :=
  relations.step ⟨Store.empty, []⟩ (.create [⟨pairs, some "r", numbered 0⟩] [] none)

theorem built_run (pairs : List Pair) : relations.Run OnRelations ⟨Store.empty, []⟩ (built pairs) :=
  Machine.Run.step _ trivial

/-- A relation that leads to the distinguished cell, and its list. -/
theorem relation_refines_list :
    ∃ ms, ReadsAs (built [(nullId, nullId)]).store "r" ms ∧ ∀ (edit : Edit) refusal budget uuid,
      match edit.apply (built [(nullId, nullId)]).store refusal "r" budget uuid with
      | .error _ => relations.step (built [(nullId, nullId)]) (.edit "r" edit refusal budget uuid) =
          built [(nullId, nullId)]
      | .ok t => ((max 1 ms.length : ℕ) : ℤ) ≤ budget ∧
          (edit.Anchored → ∃ ms', edit.onList uuid ms = some ms' ∧ ReadsAs t "r" ms') ∧
          ∀ other ∈ (built [(nullId, nullId)]).roots, other ≠ "r" → ∀ budget',
            readRelation t other budget' =
              readRelation (built [(nullId, nullId)]).store other budget' :=
  relations_refine_lists (built_run _) (by decide +kernel)

/-- A relation after an edit with a budget of one cell. -/
def edited (pairs : List Pair) (edit : Edit) : Relations :=
  relations.step (built pairs) (.edit "r" edit none 1 (numbered 1))

/-- A member is appended within a budget of one chain cell, and the relation cannot be
read within it; and a member is put before nothing. -/
theorem budget_too_small :
    (edited [(nullId, nullId)] (.append [(nullId, nullId)])).store.revision = 2 ∧
      (readRelation (edited [(nullId, nullId)] (.append [(nullId, nullId)])).store "r" 1).isOk =
        false ∧
      (edited [] (.insert nullId nullId (some "") none)).store.revision = 2 ∧
      (Edit.insert nullId nullId (some "") none).onList (numbered 1) [] = none := by
  decide +kernel

end ArchHub.Cells

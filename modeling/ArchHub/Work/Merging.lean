import ArchHub.Work.Undoing

/-!
# Merging of two edits

Two editors have changed one document.  `merge` takes the nodes and wires that ours has changed
and leaves those of theirs otherwise, drops wires without an end and wires whose input is taken,
and takes the title, the groups and the like as a whole.

* `threeWay`: what a three-way merge keeps in one place.
* `merge`.
* `Kept`, `UpToOrder`, `References`: what is asked of a merge, and what it leaves unchecked.
* `merge_good_iff`: **when a merge is a valid merge**.
* `merge_bad`: merges that are not.
-/

namespace ArchHub.Work

open Lib List

/-! ## One place -/

section

variable {ν : Type} (same : ν → ν → Bool)

/-- What a three-way merge keeps: theirs where ours has changed nothing. -/
def threeWay (base ours theirs : Option ν) : Option ν :=
  if sameOption same base ours then theirs else ours

variable {same} {base ours theirs : Option ν}

theorem threeWay_cases (base ours theirs : Option ν) :
    threeWay same base ours theirs = theirs ∨ threeWay same base ours theirs = ours := by
  unfold threeWay
  split
  · exact .inl rfl
  · exact .inr rfl

/-- Without a change of theirs, ours is kept. -/
theorem same_threeWay_base (h : Equivalence fun a b => same a b = true) (base ours : Option ν) :
    sameOption same (threeWay same base ours base) ours = true := by
  unfold threeWay
  split
  next hsame => exact hsame
  next => exact sameOption_refl h ours

end

/-! ## The merge -/

/-- The surroundings of a merge: `==` of Python for what is merged as a whole, and the order in
which a set of texts is enumerated. -/
structure Merging extends Equality where
  sameViewport : Viewport → Viewport → Bool
  sameViewport_equiv : Equivalence fun a b => sameViewport a b = true
  sameGroups : List CanvasGroup → List CanvasGroup → Bool
  sameGroups_equiv : Equivalence fun a b => sameGroups a b = true
  sameNotes : List Note → List Note → Bool
  sameNotes_equiv : Equivalence fun a b => sameNotes a b = true
  sameProperties : Json → Json → Bool
  sameProperties_equiv : Equivalence fun a b => sameProperties a b = true
  order : List String → List String
  order_perm : ∀ keys, (order keys).Perm keys

variable (host : Merging)

/-- What ours has changed is put into theirs. -/
def Merging.mergeField {ν : Type} (same : ν → ν → Bool) (b o t : Dict String ν) : Dict String ν :=
  restore (((host.order (b.keys ++ o.keys.filter fun k => !b.contains k)).filter fun k =>
    !sameOption same (b.get? k) (o.get? k)).map fun k => (k, o.get? k)) t

/-- The wires whose inputs are not taken by the ones before. -/
def freeInputs : List End → List Wire → List Wire
  | _, [] => []
  | seen, w :: ws =>
      if seen.contains w.target then freeInputs seen ws
      else w :: freeInputs (w.target :: seen) ws

/-- The nodes of a document by their identities. -/
def Document.nodesById (d : Document) : Dict String Node := byId Node.id d.nodes

/-- The wires of a document by their identities. -/
def Document.wiresById (d : Document) : Dict String Wire := byId Wire.id d.wires

/-- What is merged in a document, with its viewport. -/
def Merging.merged (base ours theirs : Document) (viewport : Option Viewport) : Document :=
  let nodes := (host.mergeField host.same base.nodesById ours.nodesById theirs.nodesById).values
  let wires :=
    (host.mergeField host.sameWire base.wiresById ours.wiresById theirs.wiresById).values
  let ids := nodes.map Node.id
  { theirs with
    nodes := nodes
    wires := freeInputs []
      (wires.filter fun w => ids.contains w.source.node && ids.contains w.target.node)
    title := if base.title = ours.title then theirs.title else ours.title
    viewport := viewport
    groups := if host.sameGroups base.groups ours.groups then theirs.groups else ours.groups
    notes := if host.sameNotes base.notes ours.notes then theirs.notes else ours.notes }

/-- The viewport of a merge; ours has to have one if it has changed it. -/
def Merging.mergedViewport (base ours theirs : Document) : Except String (Option Viewport) :=
  if sameOption host.sameViewport base.viewport ours.viewport then .ok theirs.viewport
  else match ours.viewport with
    | some viewport => .ok (some viewport)
    | none => .error "'viewport'"

/-- `merge`. -/
def merge (base ours theirs : Document) : Except String Document := do
  let viewport ← host.mergedViewport base ours theirs
  .ok (host.merged base ours theirs viewport)

/-! ## What is asked of it -/

variable (size : Document → ℕ) {d : Document} {w : Wire}

/-- A wire of a document is dropped beside the others: an end is gone, or its input is taken. -/
def Dropped (r : Document) (w : Wire) : Prop :=
  w.source.node ∉ r.ids ∨ w.target.node ∉ r.ids ∨ ∃ v ∈ r.wires, v.target = w.target

/-- Every node and wire that one side has changed is as this side left it, but for wires that had
to be dropped. -/
structure Kept (base ours theirs r : Document) : Prop where
  nodesOurs : ∀ id, sameOption host.same (base.nodesById.get? id) (ours.nodesById.get? id) = false →
    r.nodesById.get? id = ours.nodesById.get? id
  nodesTheirs : ∀ id, sameOption host.same (base.nodesById.get? id) (ours.nodesById.get? id) = true →
    r.nodesById.get? id = theirs.nodesById.get? id
  wiresOurs : ∀ id, sameOption host.sameWire (base.wiresById.get? id) (ours.wiresById.get? id) = false →
    r.wiresById.get? id = ours.wiresById.get? id ∨
      r.wiresById.get? id = none ∧ ∃ w, ours.wiresById.get? id = some w ∧ Dropped r w
  wiresTheirs : ∀ id, sameOption host.sameWire (base.wiresById.get? id) (ours.wiresById.get? id) = true →
    r.wiresById.get? id = theirs.wiresById.get? id ∨
      r.wiresById.get? id = none ∧ ∃ w, theirs.wiresById.get? id = some w ∧ Dropped r w

/-- Two documents that are equal up to the order of their nodes and wires. -/
structure UpToOrder (d e : Document) : Prop where
  id : d.id = e.id
  title : d.title = e.title
  ids : d.ids.Perm e.ids
  nodes : ∀ id, sameOption host.same (d.nodesById.get? id) (e.nodesById.get? id) = true
  wireIds : (d.wires.map Wire.id).Perm (e.wires.map Wire.id)
  wires : ∀ id, sameOption host.sameWire (d.wiresById.get? id) (e.wiresById.get? id) = true
  viewport : sameOption host.sameViewport d.viewport e.viewport = true
  groups : host.sameGroups d.groups e.groups = true
  notes : host.sameNotes d.notes e.notes = true
  properties : sameOption host.sameProperties d.properties e.properties = true

/-- The node that a merge keeps under an identity. -/
def Merging.survivor (base ours theirs : Document) (id : String) : Option Node :=
  threeWay host.same (base.nodesById.get? id) (ours.nodesById.get? id) (theirs.nodesById.get? id)

/-- What the nodes that are kept and the groups that are taken name is kept. -/
structure References (base ours theirs : Document) : Prop where
  members : ∀ id n, host.survivor base ours theirs id = some n →
    (∀ p, n.parent = some p → p = "" ∨ (host.survivor base ours theirs p).isSome) ∧
      ∀ c ∈ n.children, (host.survivor base ours theirs c).isSome
  groups : ∀ x ∈ if host.sameGroups base.groups ours.groups then theirs.groups else ours.groups,
    ∀ id ∈ x.nodes, (host.survivor base ours theirs id).isSome

/-- The limits that `validate` sets to the size of a document. -/
structure Limits (d : Document) : Prop where
  nodes : d.nodes.length ≤ 10000
  wires : d.wires.length ≤ 50000
  bytes : size d ≤ maxBytes

/-! ## Fields -/

section

variable {host} {ν : Type} {same : ν → ν → Bool} {b o t : Dict String ν}

theorem get?_mergeField (k : String) : (host.mergeField same b o t).get? k =
    threeWay same (b.get? k) (o.get? k) (t.get? k) := by
  have hperm := host.order_perm (b.keys ++ o.keys.filter fun k => !b.contains k)
  unfold Merging.mergeField threeWay
  rw [get?_restore_filter (hperm.nodup_iff.2 (nodup_keys_append b o))]
  simp only [hperm.mem_iff]
  by_cases hk : k ∈ b.keys ++ o.keys.filter fun k => !b.contains k
  · by_cases hsame : sameOption same (b.get? k) (o.get? k) = true
    · rw [hsame, if_neg fun h => Bool.false_ne_true h.2, if_pos rfl]
    · rw [if_pos ⟨hk, by simpa using hsame⟩, if_neg hsame]
  · obtain ⟨hb, ho⟩ := get?_of_not_mem_keys hk
    rw [if_neg fun h => hk h.1, hb, ho]
    exact (if_pos rfl).symm

theorem keyed_mergeField {id : ν → String} (ho : Keyed id o) (ht : Keyed id t) :
    Keyed id (host.mergeField same b o t) := by
  intro k x hget
  rw [get?_mergeField] at hget
  rcases threeWay_cases (b.get? k) (o.get? k) (t.get? k) with h | h
  · exact ht k x (h ▸ hget)
  · exact ho k x (h ▸ hget)

theorem mergeField_self (h : Equivalence fun a b => same a b = true) :
    host.mergeField same b b t = t := by
  unfold Merging.mergeField
  rw [List.filter_eq_nil_iff.2]
  · rfl
  · intro k _
    rw [sameOption_refl h]
    decide

end

/-! ## Inputs -/

section

variable {seen : List End} {ws : List Wire} {w : Wire}

theorem freeInputs_sublist : (freeInputs seen ws).Sublist ws := by
  induction ws generalizing seen with
  | nil => exact .slnil
  | cons w ws ih =>
    unfold freeInputs
    split
    · exact ih.cons w
    · exact ih.cons_cons w

theorem freeInputs_targets : ((freeInputs seen ws).map Wire.target).Nodup ∧
    ∀ w ∈ freeInputs seen ws, w.target ∉ seen := by
  induction ws generalizing seen with
  | nil => exact ⟨.nil, fun _ h => absurd h not_mem_nil⟩
  | cons w ws ih =>
    unfold freeInputs
    split
    next => exact ih
    next hnew =>
      rw [contains_iff_mem] at hnew
      obtain ⟨hnodup, hfree⟩ := @ih (w.target :: seen)
      rw [map_cons, nodup_cons, forall_mem_cons]
      refine ⟨⟨fun hmem => ?_, hnodup⟩, hnew, fun v hv hmem =>
        hfree v hv (mem_cons_of_mem _ hmem)⟩
      obtain ⟨v, hv, heq⟩ := List.mem_map.1 hmem
      exact hfree v hv (heq ▸ mem_cons_self)

/-- The input of a wire is taken afterwards, or was before. -/
theorem freeInputs_taken (hw : w ∈ ws) :
    w.target ∈ seen ∨ ∃ v ∈ freeInputs seen ws, v.target = w.target := by
  induction ws generalizing seen with
  | nil => exact absurd hw not_mem_nil
  | cons u ws ih =>
    unfold freeInputs
    split
    next htaken =>
      rcases List.mem_cons.1 hw with rfl | hw
      · exact .inl (List.contains_iff_mem.1 htaken)
      · exact ih hw
    next =>
      rcases List.mem_cons.1 hw with rfl | hw
      · exact .inr ⟨w, mem_cons_self, rfl⟩
      · rcases @ih (u.target :: seen) hw with hseen | ⟨v, hv, heq⟩
        · rcases List.mem_cons.1 hseen with heq | hseen
          · exact .inr ⟨u, mem_cons_self, heq.symm⟩
          · exact .inl hseen
        · exact .inr ⟨v, mem_cons_of_mem _ hv, heq⟩

theorem freeInputs_self (hnodup : (ws.map Wire.target).Nodup) (hfree : ∀ w ∈ ws, w.target ∉ seen) :
    freeInputs seen ws = ws := by
  induction ws generalizing seen with
  | nil => rfl
  | cons w ws ih =>
    rw [map_cons, nodup_cons] at hnodup
    rw [forall_mem_cons] at hfree
    unfold freeInputs
    rw [if_neg fun h => hfree.1 (List.contains_iff_mem.1 h), ih hnodup.2]
    intro v hv hmem
    rcases List.mem_cons.1 hmem with heq | hseen
    · exact hnodup.1 (List.mem_map.2 ⟨v, hv, heq⟩)
    · exact hfree.2 v hv hseen

end

/-! ## A merge -/

section

variable {host} {base ours theirs : Document} {viewport : Option Viewport}

/-- A document whose nodes have different identities, and whose wires have. -/
def Document.Distinct (d : Document) : Prop := d.ids.Nodup ∧ (d.wires.map Wire.id).Nodup

theorem mergedViewport_ok_iff : (∃ v, host.mergedViewport base ours theirs = .ok v) ↔
    (base.viewport.isSome → ours.viewport.isSome) := by
  unfold Merging.mergedViewport
  cases hours : ours.viewport with
  | some v =>
    refine iff_of_true ?_ fun _ => rfl
    split
    · exact ⟨_, rfl⟩
    · exact ⟨_, rfl⟩
  | none =>
    cases hbase : base.viewport with
    | none => exact iff_of_true ⟨_, rfl⟩ id
    | some v =>
      refine iff_of_false ?_ fun h => Bool.false_ne_true (h rfl)
      rintro ⟨_, h⟩
      cases h

theorem merge_ok_iff {r : Document} : merge host base ours theirs = .ok r ↔
    ∃ v, host.mergedViewport base ours theirs = .ok v ∧ r = host.merged base ours theirs v := by
  unfold merge
  rw [Check.bind_ok_iff]
  exact exists_congr fun v => and_congr_right fun _ => ⟨fun h => by cases h; rfl, fun h => h ▸ rfl⟩

theorem mem_ids_iff (h : d.ids.Nodup) {id : String} :
    id ∈ d.ids ↔ (d.nodesById.get? id).isSome := by
  have hids := (keyed_byId h).ids
  rw [values_byId h] at hids
  rw [← Dict.mem_keys]
  exact hids ▸ Iff.rfl

variable (ho : ours.Distinct) (ht : theirs.Distinct)

include ho ht

theorem merged_nodesById : (host.merged base ours theirs viewport).nodesById =
    host.mergeField host.same base.nodesById ours.nodesById theirs.nodesById :=
  (keyed_mergeField (keyed_byId ho.1) (keyed_byId ht.1)).byId

theorem merged_node (id : String) : (host.merged base ours theirs viewport).nodesById.get? id =
    host.survivor base ours theirs id := by
  rw [merged_nodesById ho ht, get?_mergeField]
  rfl

theorem merged_ids : (host.merged base ours theirs viewport).ids =
    (host.mergeField host.same base.nodesById ours.nodesById theirs.nodesById).keys :=
  (keyed_mergeField (keyed_byId ho.1) (keyed_byId ht.1)).ids

theorem mem_merged_ids {id : String} : id ∈ (host.merged base ours theirs viewport).ids ↔
    (host.survivor base ours theirs id).isSome := by
  rw [merged_ids ho ht, Dict.mem_keys, get?_mergeField]
  rfl

theorem nodup_merged_ids : (host.merged base ours theirs viewport).ids.Nodup := by
  rw [merged_ids ho ht]
  exact Dict.nodup_keys _

/-- The wires of a merge are wires of one of the sides. -/
theorem mem_merged_wires (hw : w ∈ (host.merged base ours theirs viewport).wires) :
    (host.mergeField host.sameWire base.wiresById ours.wiresById theirs.wiresById).get? w.id =
        some w ∧
      w.source.node ∈ (host.merged base ours theirs viewport).ids ∧
      w.target.node ∈ (host.merged base ours theirs viewport).ids := by
  obtain ⟨hvalue, hends⟩ := List.mem_filter.1 (freeInputs_sublist.subset hw)
  rw [Bool.and_eq_true, contains_iff_mem, contains_iff_mem] at hends
  obtain ⟨k, hget⟩ := Dict.mem_values.1 hvalue
  obtain rfl := keyed_mergeField (keyed_byId ho.2) (keyed_byId ht.2) k w hget
  exact ⟨hget, hends⟩

theorem nodup_merged_wireIds :
    ((host.merged base ours theirs viewport).wires.map Wire.id).Nodup := by
  have hkeyed := @keyed_mergeField host _ host.sameWire base.wiresById _ _ _
    (keyed_byId ho.2) (keyed_byId ht.2)
  exact hkeyed.nodup.sublist ((freeInputs_sublist.trans filter_sublist).map _)

/-- **What a merge keeps.** -/
theorem merged_kept : Kept host base ours theirs (host.merged base ours theirs viewport) := by
  have hwire : ∀ id,
      (host.merged base ours theirs viewport).wiresById.get? id =
          threeWay host.sameWire (base.wiresById.get? id) (ours.wiresById.get? id)
            (theirs.wiresById.get? id) ∨
        (host.merged base ours theirs viewport).wiresById.get? id = none ∧ ∃ w,
          threeWay host.sameWire (base.wiresById.get? id) (ours.wiresById.get? id)
            (theirs.wiresById.get? id) = some w ∧
            Dropped (host.merged base ours theirs viewport) w := by
    intro id
    have hget := @get?_mergeField host _ host.sameWire base.wiresById ours.wiresById
      theirs.wiresById id
    have hnodup := @nodup_merged_wireIds host base ours theirs viewport ho ht
    have hnone : ∀ v, (host.merged base ours theirs viewport).wiresById.get? id = some v →
        (host.mergeField host.sameWire base.wiresById ours.wiresById theirs.wiresById).get? id =
            some v := by
      intro v hv
      obtain ⟨hmem, rfl⟩ := (get?_byId_iff hnodup).1 hv
      exact (mem_merged_wires ho ht hmem).1
    rw [← hget]
    cases hr : (host.merged base ours theirs viewport).wiresById.get? id with
    | some v => exact .inl (hnone v hr).symm
    | none =>
      cases hw : (host.mergeField host.sameWire base.wiresById ours.wiresById
        theirs.wiresById).get? id with
      | none => exact .inl rfl
      | some w =>
        refine .inr ⟨rfl, w, rfl, ?_⟩
        -- with both ends there, the wire was dropped for its input
        by_contra hdropped
        unfold Dropped at hdropped
        rw [not_or, not_or, not_not, not_not] at hdropped
        obtain ⟨hsource, htarget, hfree⟩ := hdropped
        have hended : w ∈ (host.mergeField host.sameWire base.wiresById ours.wiresById
            theirs.wiresById).values.filter fun w =>
              (host.merged base ours theirs viewport).ids.contains w.source.node &&
                (host.merged base ours theirs viewport).ids.contains w.target.node :=
          List.mem_filter.2 ⟨Dict.mem_values_of_get? hw, Bool.and_eq_true_iff.2
            ⟨List.contains_iff_mem.2 hsource, List.contains_iff_mem.2 htarget⟩⟩
        rcases @freeInputs_taken [] _ _ hended with hseen | htaken
        · exact not_mem_nil hseen
        · exact hfree htaken
  constructor
  · intro id h
    rw [merged_node ho ht]
    exact if_neg (by rw [h]; exact Bool.false_ne_true)
  · intro id h
    rw [merged_node ho ht]
    exact if_pos h
  · intro id h
    have hkept := hwire id
    rwa [show threeWay host.sameWire (base.wiresById.get? id) (ours.wiresById.get? id)
      (theirs.wiresById.get? id) = ours.wiresById.get? id from
        if_neg (by rw [h]; exact Bool.false_ne_true)] at hkept
  · intro id h
    have hkept := hwire id
    rwa [show threeWay host.sameWire (base.wiresById.get? id) (ours.wiresById.get? id)
      (theirs.wiresById.get? id) = theirs.wiresById.get? id from if_pos h] at hkept

/-- The nodes of a merge are nodes of one of the sides, and survive. -/
theorem mem_merged_nodes {n : Node} (hn : n ∈ (host.merged base ours theirs viewport).nodes) :
    host.survivor base ours theirs n.id = some n ∧ (n ∈ ours.nodes ∨ n ∈ theirs.nodes) := by
  obtain ⟨k, hget⟩ := Dict.mem_values.1 hn
  obtain rfl := keyed_mergeField (keyed_byId ho.1) (keyed_byId ht.1) k n hget
  rw [get?_mergeField] at hget
  refine ⟨hget, ?_⟩
  rcases @threeWay_cases _ host.same (base.nodesById.get? n.id) (ours.nodesById.get? n.id)
    (theirs.nodesById.get? n.id) with h | h
  · exact .inr ((get?_byId_iff ht.1).1 (h ▸ hget)).1
  · exact .inl ((get?_byId_iff ho.1).1 (h ▸ hget)).1

theorem merged_wire_side (hw : w ∈ (host.merged base ours theirs viewport).wires) :
    w ∈ ours.wires ∨ w ∈ theirs.wires := by
  have hget := (mem_merged_wires ho ht hw).1
  rw [get?_mergeField] at hget
  rcases @threeWay_cases _ host.sameWire (base.wiresById.get? w.id)
    (ours.wiresById.get? w.id) (theirs.wiresById.get? w.id) with h | h
  · exact .inr ((get?_byId_iff ht.2).1 (h ▸ hget)).1
  · exact .inl ((get?_byId_iff ho.2).1 (h ▸ hget)).1

end

theorem WellFormed.distinct {size : Document → ℕ} (h : WellFormed size d) :
    d.Distinct := ⟨h.ids, h.wireIds⟩

theorem mergedViewport_side {host : Merging} {base ours theirs : Document}
    {viewport : Option Viewport}
    (h : host.mergedViewport base ours theirs = .ok viewport) :
    viewport = ours.viewport ∨ viewport = theirs.viewport := by
  unfold Merging.mergedViewport at h
  split at h
  next =>
    cases h
    exact .inr rfl
  next =>
    cases hours : ours.viewport with
    | none =>
      rw [hours] at h
      cases h
    | some v =>
      rw [hours] at h
      cases h
      exact .inl rfl

section

variable {host size} {base ours theirs : Document} {viewport : Option Viewport}

/-- **When a merge is valid**: what its nodes and groups name is there, and it is within the
limits. -/
theorem valid_merged_iff (hours : Valid size ours) (htheirs : Valid size theirs)
    (hviewport : host.mergedViewport base ours theirs = .ok viewport) :
    Valid size (host.merged base ours theirs viewport) ↔
      References host base ours theirs ∧ Limits size (host.merged base ours theirs viewport) := by
  rw [valid_iff] at hours htheirs ⊢
  have ho := hours.distinct
  have ht := htheirs.distinct
  have hgroups : (host.merged base ours theirs viewport).groups =
      if host.sameGroups base.groups ours.groups then theirs.groups else ours.groups := rfl
  constructor
  · intro h
    refine ⟨⟨fun id n hn => ?_, fun x hx id hid => ?_⟩, h.nodeCount, h.wireCount, h.bytes⟩
    · rw [← @merged_node host base ours theirs viewport ho ht] at hn
      obtain ⟨hmem, rfl⟩ := (get?_byId_iff h.ids).1 hn
      obtain ⟨hparent, hchildren⟩ := membersExist_iff.1 (h.members n hmem)
      exact ⟨fun p hp => (hparent p hp).imp_right (mem_merged_ids ho ht).1,
        fun c hc => (mem_merged_ids ho ht).1 (hchildren c hc)⟩
    · exact (mem_merged_ids ho ht).1 (h.groups x hx id hid)
  · rintro ⟨hreferences, hlimits⟩
    obtain ⟨honodes, howires, hogroups, honotes, hoviewport, -⟩ := safeDocument_ok_iff.1 hours.safe
    obtain ⟨htnodes, htwires, htgroups, htnotes, htviewport, htproperties⟩ :=
      safeDocument_ok_iff.1 htheirs.safe
    refine
      { named := htheirs.named
        nodeCount := hlimits.nodes
        wireCount := hlimits.wires
        safe := safeDocument_ok_iff.2 ⟨?_, ?_, ?_, ?_, ?_, htproperties⟩
        nodes := fun n hn => (mem_merged_nodes ho ht hn).2.elim (hours.nodes n) (htheirs.nodes n)
        ids := nodup_merged_ids ho ht
        members := ?_
        groups := fun x hx id hid => (mem_merged_ids ho ht).2 (hreferences.groups x hx id hid)
        wires := ?_
        wireIds := nodup_merged_wireIds ho ht
        inputs := freeInputs_targets.1
        viewport := ?_
        bytes := hlimits.bytes }
    · exact fun n hn => (mem_merged_nodes ho ht hn).2.elim (honodes n) (htnodes n)
    · exact fun w hw => (merged_wire_side ho ht hw).elim (howires w) (htwires w)
    · rw [hgroups]
      split
      · exact htgroups
      · exact hogroups
    · rw [show (host.merged base ours theirs viewport).notes =
        if host.sameNotes base.notes ours.notes then theirs.notes else ours.notes from rfl]
      split
      · exact htnotes
      · exact honotes
    · rcases mergedViewport_side hviewport with rfl | rfl
      · exact hoviewport
      · exact htviewport
    · intro n hn
      obtain ⟨hparent, hchildren⟩ :=
        hreferences.members n.id n (mem_merged_nodes ho ht hn).1
      exact membersExist_iff.2 ⟨fun p hp => (hparent p hp).imp_right (mem_merged_ids ho ht).2,
        fun c hc => (mem_merged_ids ho ht).2 (hchildren c hc)⟩
    · -- the ends are there, and their sockets are those of a side
      intro w hw
      obtain ⟨-, hsource, htarget⟩ := mem_merged_wires ho ht hw
      have hside : ∃ d : Document, endOk d.ids w.source = true ∧ endOk d.ids w.target = true ∧
          checkWireRest w.rest = .ok () :=
        (merged_wire_side ho ht hw).elim (fun h => ⟨_, hours.wires w h⟩)
          fun h => ⟨_, htheirs.wires w h⟩
      obtain ⟨d, hsourceOk, htargetOk, hrest⟩ := hside
      exact ⟨endOk_iff.2 ⟨hsource, (endOk_iff.1 hsourceOk).2⟩,
        endOk_iff.2 ⟨htarget, (endOk_iff.1 htargetOk).2⟩, hrest⟩
    · rcases mergedViewport_side hviewport with rfl | rfl
      · exact hours.viewport
      · exact htheirs.viewport

/-! ## One side without changes -/

/-- Without a change of ours, theirs is left. -/
theorem merge_ours_unchanged (htheirs : Valid size theirs) :
    merge host base base theirs = .ok theirs := by
  rw [valid_iff] at htheirs
  have ht := htheirs.distinct
  refine merge_ok_iff.2 ⟨theirs.viewport, if_pos (sameOption_refl host.sameViewport_equiv _), ?_⟩
  have hnodes : (host.mergeField host.same base.nodesById base.nodesById theirs.nodesById).values =
      theirs.nodes := by
    rw [mergeField_self host.same_equiv]
    exact values_byId ht.1
  have hwires : (host.mergeField host.sameWire base.wiresById base.wiresById
      theirs.wiresById).values = theirs.wires := by
    rw [mergeField_self host.sameWire_equiv]
    exact values_byId ht.2
  have hended : theirs.wires.filter (fun w => (theirs.nodes.map Node.id).contains w.source.node &&
      (theirs.nodes.map Node.id).contains w.target.node) = theirs.wires := by
    refine List.filter_eq_self.2 fun w hw => ?_
    obtain ⟨hsource, htarget, -⟩ := htheirs.wires w hw
    exact Bool.and_eq_true_iff.2 ⟨List.contains_iff_mem.2 (endOk_iff.1 hsource).1,
      List.contains_iff_mem.2 (endOk_iff.1 htarget).1⟩
  unfold Merging.merged
  dsimp only
  rw [hnodes, hwires, hended, freeInputs_self htheirs.inputs fun _ _ => not_mem_nil,
    if_pos rfl, if_pos (host.sameGroups_equiv.refl _), if_pos (host.sameNotes_equiv.refl _)]

/-- Without a change of theirs, a merge has the wires of ours. -/
theorem merged_wires_base (hbase : WellFormed size base) (hours : WellFormed size ours) :
    (host.merged base ours base viewport).wires = (host.mergeField host.sameWire base.wiresById
      ours.wiresById base.wiresById).values := by
  have ho := hours.distinct
  have hb := hbase.distinct
  have hkeyed : Keyed Wire.id (host.mergeField host.sameWire base.wiresById ours.wiresById
      base.wiresById) := keyed_mergeField (keyed_byId ho.2) (keyed_byId hb.2)
  have hsides : ∀ w ∈ (host.mergeField host.sameWire base.wiresById ours.wiresById
      base.wiresById).values, ∃ v ∈ ours.wires, v.id = w.id ∧ host.sameWire w v = true := by
    intro w hw
    obtain ⟨k, hget⟩ := Dict.mem_values.1 hw
    obtain rfl := hkeyed k w hget
    have hsame := same_threeWay_base host.sameWire_equiv (base.wiresById.get? w.id)
      (ours.wiresById.get? w.id)
    rw [← @get?_mergeField host, hget] at hsame
    cases hv : ours.wiresById.get? w.id with
    | none =>
      rw [hv] at hsame
      cases hsame
    | some v =>
      rw [hv] at hsame
      obtain ⟨hmem, hid⟩ := (get?_byId_iff ho.2).1 hv
      exact ⟨v, hmem, hid, hsame⟩
  have hids : ∀ id, id ∈ ours.ids → id ∈ (host.merged base ours base viewport).ids := by
    intro id hid
    rw [mem_merged_ids ho hb]
    exact (sameOption_isSome (same_threeWay_base host.same_equiv _ _)).trans
      ((mem_ids_iff ho.1).1 hid)
  show freeInputs [] (List.filter _ _) = _
  rw [List.filter_eq_self.2]
  · exact freeInputs_self (nodup_targets_of_same hkeyed.nodup hours.inputs hsides)
      fun _ _ => not_mem_nil
  · intro w hw
    obtain ⟨v, hv, -, hsame⟩ := hsides w hw
    obtain ⟨-, hsource, htarget⟩ := host.sameWire_fields hsame
    obtain ⟨hsourceOk, htargetOk, -⟩ := hours.wires v hv
    refine Bool.and_eq_true_iff.2 ⟨List.contains_iff_mem.2 (hids _ ?_),
      List.contains_iff_mem.2 (hids _ ?_)⟩
    · exact hsource ▸ (endOk_iff.1 hsourceOk).1
    · exact htarget ▸ (endOk_iff.1 htargetOk).1

/-- Without a change of theirs, a merge is ours up to its order if ours has kept the identity and the
properties. -/
theorem upToOrder_iff (hbase : WellFormed size base) (hours : WellFormed size ours)
    (hviewport : host.mergedViewport base ours base = .ok viewport) :
    UpToOrder host (host.merged base ours base viewport) ours ↔
      base.id = ours.id ∧
        sameOption host.sameProperties base.properties ours.properties = true := by
  have ho := hours.distinct
  have hb := hbase.distinct
  refine ⟨fun h => ⟨h.id, h.properties⟩, fun ⟨hid, hproperties⟩ => ?_⟩
  have hwires : (host.merged base ours base viewport).wiresById =
      host.mergeField host.sameWire base.wiresById ours.wiresById base.wiresById := by
    unfold Document.wiresById
    rw [merged_wires_base hbase hours]
    exact (keyed_mergeField (keyed_byId ho.2) (keyed_byId hb.2)).byId
  have hwire : ∀ id, sameOption host.sameWire
      ((host.merged base ours base viewport).wiresById.get? id) (ours.wiresById.get? id) = true := by
    intro id
    rw [hwires, get?_mergeField]
    exact same_threeWay_base host.sameWire_equiv _ _
  refine
    { id := hid
      title := ?_
      ids := (perm_ext_iff_of_nodup (nodup_merged_ids ho hb) ho.1).2 fun id => ?_
      nodes := fun id => ?_
      wireIds := (perm_ext_iff_of_nodup (nodup_merged_wireIds ho hb) ho.2).2 fun id => ?_
      wires := hwire
      viewport := ?_
      groups := ?_
      notes := ?_
      properties := hproperties }
  · show (if base.title = ours.title then base.title else ours.title) = ours.title
    split
    next h => exact h
    next => rfl
  · rw [mem_merged_ids ho hb, mem_ids_iff ho.1]
    exact iff_of_eq (congrArg (· = true)
      (sameOption_isSome (same_threeWay_base host.same_equiv _ _)))
  · rw [merged_node ho hb]
    exact same_threeWay_base host.same_equiv _ _
  · have hsome := sameOption_isSome (hwire id)
    have hkeys : ∀ {d : Document}, (d.wires.map Wire.id).Nodup →
        (id ∈ d.wires.map Wire.id ↔ (d.wiresById.get? id).isSome = true) := by
      intro d hd
      have hids := (keyed_byId hd).ids
      rw [values_byId hd] at hids
      rw [← Dict.mem_keys]
      exact hids ▸ Iff.rfl
    rw [hkeys (nodup_merged_wireIds ho hb), hkeys ho.2, hsome]
  · unfold Merging.mergedViewport at hviewport
    split at hviewport
    next h =>
      cases hviewport
      exact h
    next =>
      cases hv : ours.viewport with
      | none =>
        rw [hv] at hviewport
        cases hviewport
      | some v =>
        rw [hv] at hviewport
        cases hviewport
        exact host.sameViewport_equiv.refl v
  · show host.sameGroups (if _ then base.groups else ours.groups) ours.groups = true
    split
    next h => exact h
    next => exact host.sameGroups_equiv.refl _
  · show host.sameNotes (if _ then base.notes else ours.notes) ours.notes = true
    split
    next h => exact h
    next => exact host.sameNotes_equiv.refl _

/-- **When a merge is a valid merge**: it returns a valid document that keeps the changes of both
sides, leaves theirs where ours has changed nothing, and gives ours, up to its order, where theirs
has changed nothing, if and only if ours has not taken a viewport away, what the nodes that are kept
and the groups that are taken name is kept, the merge is within the limits, and ours has the
identity and the properties of the base. -/
theorem merge_good_iff (hbase : Valid size base) (hours : Valid size ours)
    (htheirs : Valid size theirs) :
    ((∃ r, merge host base ours theirs = .ok r ∧ Valid size r ∧ Kept host base ours theirs r) ∧
        merge host base base theirs = .ok theirs ∧
        ∃ r, merge host base ours base = .ok r ∧ UpToOrder host r ours) ↔
      (base.viewport.isSome → ours.viewport.isSome) ∧ References host base ours theirs ∧
        (∀ r, merge host base ours theirs = .ok r → Limits size r) ∧ base.id = ours.id ∧
        sameOption host.sameProperties base.properties ours.properties = true := by
  have hb := (valid_iff size).1 hbase
  have ho := (valid_iff size).1 hours
  have ht := (valid_iff size).1 htheirs
  constructor
  · rintro ⟨⟨r, hr, hvalid, -⟩, -, r', hr', hupTo⟩
    obtain ⟨v, hv, rfl⟩ := merge_ok_iff.1 hr
    obtain ⟨v', hv', rfl⟩ := merge_ok_iff.1 hr'
    obtain ⟨hreferences, hlimits⟩ := (valid_merged_iff hours htheirs hv).1 hvalid
    refine ⟨mergedViewport_ok_iff.1 ⟨v, hv⟩, hreferences, fun r hr' => ?_,
      (upToOrder_iff hb ho hv').1 hupTo⟩
    cases hr.symm.trans hr'
    exact hlimits
  · rintro ⟨hviewport, hreferences, hlimits, hsame⟩
    obtain ⟨v, hv⟩ := (@mergedViewport_ok_iff host base ours theirs).2 hviewport
    obtain ⟨v', hv'⟩ := (@mergedViewport_ok_iff host base ours base).2 hviewport
    have hr := merge_ok_iff.2 ⟨v, hv, rfl⟩
    exact ⟨⟨_, hr, (valid_merged_iff hours htheirs hv).2 ⟨hreferences, hlimits _ hr⟩,
        merged_kept ho.distinct ht.distinct⟩,
      merge_ours_unchanged htheirs, _, merge_ok_iff.2 ⟨v', hv', rfl⟩,
      (upToOrder_iff hb ho hv').2 hsame⟩

end

/-! ## Merges of two notes -/

deriving instance DecidableEq for CanvasGroup

deriving instance DecidableEq for Note

deriving instance DecidableEq for Viewport

theorem decide_equiv {α : Type} [DecidableEq α] : Equivalence fun a b : α => decide (a = b) = true :=
  ⟨fun _ => decide_eq_true rfl, fun h => decide_eq_true (of_decide_eq_true h).symm,
    fun h h' => decide_eq_true ((of_decide_eq_true h).trans (of_decide_eq_true h'))⟩

/-- What is merged is told apart as it is written, and sets are enumerated as they were made. -/
def plainMerging : Merging where
  toEquality := plainEquality
  sameViewport a b := decide (a = b)
  sameViewport_equiv := decide_equiv
  sameGroups a b := decide (a = b)
  sameGroups_equiv := decide_equiv
  sameNotes a b := decide (a = b)
  sameNotes_equiv := decide_equiv
  sameProperties a b := decide (a = b)
  sameProperties_equiv := decide_equiv
  order := id
  order_perm _ := .refl _

/-- A document with some notes and groups. -/
def noteDocument (nodes : List Node) (groups : List CanvasGroup) (viewport : Option Viewport) :
    Document where
  id := "d"
  title := "Notes"
  nodes := nodes
  wires := []
  groups := groups
  notes := []
  viewport := viewport
  properties := none

/-- A second note. -/
def secondNote (title : String) : Node := { titledNote title with id := "m" }

/-- Two notes that get titles on different sides. -/
theorem merge_good_sample : ∃ r, merge plainMerging
    (noteDocument [titledNote "A", secondNote "B"] [] none)
    (noteDocument [titledNote "A'", secondNote "B"] [] none)
    (noteDocument [titledNote "A", secondNote "B'"] [] none) = .ok r ∧ Valid (fun _ => 1000) r := by
  have hbase : Valid (fun _ => 1000) (noteDocument [titledNote "A", secondNote "B"] [] none) := by
    decide +kernel
  have hours : Valid (fun _ => 1000) (noteDocument [titledNote "A'", secondNote "B"] [] none) := by
    decide +kernel
  have htheirs : Valid (fun _ => 1000) (noteDocument [titledNote "A", secondNote "B'"] [] none) := by
    decide +kernel
  have hvalid := (@valid_merged_iff plainMerging _ (noteDocument [titledNote "A", secondNote "B"] []
    none) _ _ none hours htheirs rfl).1 (by decide +kernel)
  obtain ⟨⟨r, hr, hok, -⟩, -⟩ := (@merge_good_iff plainMerging _ _ _ _ hbase hours htheirs).2
    ⟨fun h => h, hvalid.1, fun r hr => by cases hr; exact hvalid.2, rfl, rfl⟩
  exact ⟨r, hr, hok⟩

/-- **Merges that are no valid merges**: a group of ours names a node that theirs has taken away,
and ours has taken the viewport away. -/
theorem merge_bad :
    (∃ r, merge plainMerging
        (noteDocument [titledNote "A", secondNote "B"] [] none)
        (noteDocument [titledNote "A", secondNote "B"] [⟨"g", ["m"], []⟩] none)
        (noteDocument [titledNote "A"] [] none) = .ok r ∧ ¬Valid (fun _ => 1000) r) ∧
      Valid (fun _ => 1000) (noteDocument [titledNote "A", secondNote "B"] [] none) ∧
      Valid (fun _ => 1000) (noteDocument [titledNote "A", secondNote "B"] [⟨"g", ["m"], []⟩] none) ∧
      Valid (fun _ => 1000) (noteDocument [titledNote "A"] [] none) ∧
      merge plainMerging (noteDocument [titledNote "A"] [] (some ⟨0, 0, 1, []⟩))
        (noteDocument [titledNote "A"] [] none)
        (noteDocument [titledNote "A"] [] (some ⟨0, 0, 1, []⟩)) = .error "'viewport'" := by
  refine ⟨⟨_, rfl, ?_⟩, ?_, ?_, ?_, rfl⟩
  all_goals decide +kernel

end ArchHub.Work

import Mathlib
import ArchHub.Work.Validity

/-!
# Importing a flow again

A flow of another program is imported as a document; each node of it names its source, and its
wires have identities that begin with `w-`.  When the flow is imported again, `reimport` puts the
new nodes in the place of the old ones, each where the old node of its identity stands, and keeps
what has been added to the document since.

* `reimport_valid_iff`: exactly when what comes of it is a valid document.
* `reimport_keeps`: **what stays, what is replaced, and that once is enough**.
* `reimport_drops`: a wire that is not kept, for the node at its end is gone.
-/

namespace ArchHub.Work

open Lib List

/-! ## Importing again -/

/-- `n.get('source')`: a node that comes of an import. -/
def sourced (n : Node) : Bool := (field? n.rest "source").any Json.truthy

/-- `w['id'].startswith('w-')`: a wire that comes of an import. -/
def drawn (w : Wire) : Bool := "w-".toList.isPrefixOf w.id.toList

/-- `held[id]`; of several nodes of an identity, the last one. -/
def heldNode (held : List Node) (id : String) : Option Node := held.reverse.find? fun m => m.id = id

/-- A node of the import at the position of the node that holds its identity. -/
def placed (held : List Node) (n : Node) : Node :=
  { n with position := ((heldNode held n.id).map Node.position).getD n.position }

/-- The nodes of the document after the import. -/
def nodesAfter (existing imported : Document) : List Node :=
  existing.nodes.filter (fun n => !sourced n) ++ imported.nodes.map (placed existing.nodes)

/-- `own`: the wires of the document that stay. -/
def ownWires (existing imported : Document) : List Wire :=
  existing.wires.filter fun w => !drawn w &&
    ((nodesAfter existing imported).map Node.id).contains w.source.node &&
    ((nodesAfter existing imported).map Node.id).contains w.target.node &&
    !(imported.wires.map Wire.target).contains w.target

/-- `{**properties}` of properties that may be there. -/
def unpacked : Option Json → Except String Fields
  | none => .ok []
  | some (.obj fields) => .ok fields
  | some _ => .error "object is not a mapping"

/-- `imported['properties']['import']`. -/
def reportOf (imported : Document) : Except String Json :=
  match imported.properties with
  | none => .error "'properties'"
  | some (.obj fields) => (field? fields "import").elim (.error "'import'") .ok
  | some _ => .error "indices must be integers"

/-- `reimport`. -/
def reimport (existing : Option Document) (imported : Document) : Except String Document :=
  match existing with
  | none => .ok imported
  | some e => do
      let fields ← unpacked e.properties
      let report ← reportOf imported
      return { e with
        title := imported.title
        nodes := nodesAfter e imported
        wires := imported.wires ++ ownWires e imported
        properties := some (.obj (Assoc.put fields "import" report)) }

/-! ## What an import makes -/

variable {size : Document → ℕ}

/-- A document that an import makes: it is valid, its nodes name their sources and stand in no
other node, its wires have the identities of an import, and it reports on the import. -/
structure Imported (size : Document → ℕ) (i : Document) : Prop where
  valid : Valid size i
  nodes : ∀ n ∈ i.nodes, sourced n = true ∧ n.parent = none ∧ n.children = []
  wires : ∀ w ∈ i.wires, drawn w = true
  report : ∃ r, reportOf i = .ok r

variable {e i r : Document} {fields : Fields} {n m : Node} {ns : List Node} {w : Wire}

@[simp] theorem placed_id (held : List Node) (n : Node) : (placed held n).id = n.id := rfl

@[simp] theorem sourced_placed (held : List Node) (n : Node) :
    sourced (placed held n) = sourced n := rfl

theorem map_id_placed (held ns : List Node) :
    (ns.map (placed held)).map Node.id = ns.map Node.id := by
  rw [map_map]
  rfl

/-- What an import makes of a document that has properties. -/
theorem reimport_eq {report : Json} (he : unpacked e.properties = .ok fields)
    (hi : reportOf i = .ok report) : reimport (some e) i = .ok { e with
      title := i.title
      nodes := nodesAfter e i
      wires := i.wires ++ ownWires e i
      properties := some (.obj (Assoc.put fields "import" report)) } := by
  simp only [reimport, he, hi]
  rfl

/-! ## Nodes -/

theorem mem_nodesAfter_own (hn : n ∈ e.nodes) (hs : sourced n = false) : n ∈ nodesAfter e i :=
  mem_append_left _ (List.mem_filter.2 ⟨hn, by rw [hs]; rfl⟩)

/-- The nodes that are not the document's own are those of the import. -/
theorem filter_sourced_nodesAfter (hi : ∀ n ∈ i.nodes, sourced n = true) :
    (nodesAfter e i).filter sourced = i.nodes.map (placed e.nodes) := by
  rw [nodesAfter, filter_append, filter_filter]
  have hown : e.nodes.filter (fun n => sourced n && !sourced n) = [] :=
    List.filter_eq_nil_iff.2 fun n _ => by simp
  have himported :
      (i.nodes.map (placed e.nodes)).filter sourced = i.nodes.map (placed e.nodes) := by
    refine List.filter_eq_self.2 fun n hn => ?_
    obtain ⟨m, hm, rfl⟩ := List.mem_map.1 hn
    exact hi m hm
  rw [hown, himported, nil_append]

/-- The document's own nodes are the same after the import. -/
theorem filter_own_nodesAfter (hi : ∀ n ∈ i.nodes, sourced n = true) :
    (nodesAfter e i).filter (fun n => !sourced n) = e.nodes.filter fun n => !sourced n := by
  rw [nodesAfter, filter_append, filter_filter]
  have himported : (i.nodes.map (placed e.nodes)).filter (fun n => !sourced n) = [] := by
    refine List.filter_eq_nil_iff.2 fun n hn => ?_
    obtain ⟨m, hm, rfl⟩ := List.mem_map.1 hn
    rw [sourced_placed, hi m hm]
    exact Bool.false_ne_true
  rw [himported, append_nil]
  simp only [Bool.and_self]

theorem heldNode_spec {id : String} (h : heldNode ns id = some m) : m ∈ ns ∧ m.id = id := by
  unfold heldNode at h
  exact ⟨List.mem_reverse.1 (List.mem_of_find?_eq_some h), by simpa using List.find?_some h⟩

/-- The node that holds an identity, where the identities differ. -/
theorem heldNode_of_mem (hnodup : (ns.map Node.id).Nodup) (hm : m ∈ ns) :
    heldNode ns m.id = some m := by
  cases hfind : heldNode ns m.id with
  | none =>
      have hnone := List.find?_eq_none.1 hfind m (List.mem_reverse.2 hm)
      exact absurd (decide_eq_true rfl) hnone
  | some x =>
      obtain ⟨hx, hid⟩ := heldNode_spec hfind
      rw [inj_on_of_nodup_map hnodup hx hm hid]

/-- A node of the import stands where the node of its identity stood. -/
theorem placed_of_mem (hnodup : (e.nodes.map Node.id).Nodup) (hm : m ∈ e.nodes)
    (hid : m.id = n.id) : placed e.nodes n = { n with position := m.position } := by
  rw [placed, ← hid, heldNode_of_mem hnodup hm]
  rfl

/-- A node of the import that the document does not hold stands where the import puts it. -/
theorem placed_of_not_mem (h : n.id ∉ e.nodes.map Node.id) : placed e.nodes n = n := by
  have hnone : heldNode e.nodes n.id = none := by
    refine List.find?_eq_none.2 fun m hm => ?_
    rw [decide_eq_true_iff]
    exact fun heq => h (List.mem_map.2 ⟨m, List.mem_reverse.1 hm, heq⟩)
  rw [placed, hnone]
  rfl

/-- The nodes of the import stand after it where they stand after it is done again. -/
theorem placed_nodesAfter (hi : (i.nodes.map Node.id).Nodup) (hn : n ∈ i.nodes) :
    placed (nodesAfter e i) n = placed e.nodes n := by
  have himported : heldNode (i.nodes.map (placed e.nodes)) (placed e.nodes n).id =
      some (placed e.nodes n) :=
    heldNode_of_mem (by rwa [map_id_placed]) (mem_map_of_mem hn)
  have hheld : heldNode (nodesAfter e i) n.id = some (placed e.nodes n) := by
    rw [heldNode, nodesAfter, reverse_append, List.find?_append]
    exact congrArg (Option.or · _) himported
  rw [placed, hheld]
  rfl

theorem nodesAfter_twice (hi : ∀ n ∈ i.nodes, sourced n = true)
    (hnodup : (i.nodes.map Node.id).Nodup) (hr : r.nodes = nodesAfter e i) :
    nodesAfter r i = nodesAfter e i := by
  conv_lhs => rw [nodesAfter, hr, filter_own_nodesAfter hi]
  rw [nodesAfter]
  congr 1
  exact map_congr_left fun n hn => placed_nodesAfter hnodup hn

/-! ## Wires -/

theorem mem_ownWires_iff : w ∈ ownWires e i ↔ w ∈ e.wires ∧ drawn w = false ∧
    w.source.node ∈ (nodesAfter e i).map Node.id ∧ w.target.node ∈ (nodesAfter e i).map Node.id ∧
      w.target ∉ i.wires.map Wire.target := by
  simp only [ownWires, mem_filter, Bool.and_eq_true, Bool.not_eq_true', contains_eq_mem,
    decide_eq_true_iff, decide_eq_false_iff_not, and_assoc]

/-- The wires that stay also stay the next time. -/
theorem ownWires_twice (hi : ∀ w ∈ i.wires, drawn w = true)
    (hr : r.wires = i.wires ++ ownWires e i) (hids : nodesAfter r i = nodesAfter e i) :
    ownWires r i = ownWires e i := by
  have himported : ownWires { r with wires := i.wires } i = [] := by
    refine List.eq_nil_iff_forall_not_mem.2 fun w hw => ?_
    obtain ⟨hmem, hnot, -⟩ := mem_ownWires_iff.1 hw
    rw [hi w hmem] at hnot
    cases hnot
  have hown : ownWires { r with wires := ownWires e i } i = ownWires e i := by
    refine List.filter_eq_self.2 fun w hw => ?_
    have hw' := mem_ownWires_iff.1 hw
    have hkept : w ∈ ownWires { r with wires := ownWires e i } i := by
      refine mem_ownWires_iff.2 ⟨hw, hw'.2.1, ?_⟩
      rw [show nodesAfter { r with wires := ownWires e i } i = nodesAfter r i from rfl, hids]
      exact hw'.2.2
    exact (List.mem_filter.1 hkept).2
  rw [ownWires, hr, filter_append]
  exact (congrArg₂ (· ++ ·) himported hown).trans (nil_append _)

/-! ## What comes of it -/

theorem unpacked_ok_iff {properties : Option Json} :
    unpacked properties = .ok fields ↔
      properties = none ∧ fields = [] ∨ properties = some (.obj fields) := by
  cases properties with
  | none => simp [unpacked, eq_comm]
  | some v => cases v <;> simp [unpacked]

theorem reportOf_ok {report : Json} (h : reportOf i = .ok report) :
    ∃ fields, i.properties = some (.obj fields) ∧ ("import", report) ∈ fields := by
  unfold reportOf at h
  split at h
  · cases h
  · rename_i fields hfields
    cases hfind : field? fields "import" with
    | none =>
        rw [hfind] at h
        cases h
    | some report' =>
        rw [hfind] at h
        cases h
        exact ⟨fields, hfields, Assoc.mem_of_find hfind⟩
  · cases h

/-- What an import that went through has made. -/
theorem reimport_ok (h : reimport (some e) i = .ok r) : ∃ fields report,
    unpacked e.properties = .ok fields ∧ reportOf i = .ok report ∧ r = { e with
      title := i.title
      nodes := nodesAfter e i
      wires := i.wires ++ ownWires e i
      properties := some (.obj (Assoc.put fields "import" report)) } := by
  cases hfields : unpacked e.properties with
  | error text =>
      simp only [reimport, hfields] at h
      cases h
  | ok fields =>
      cases hreport : reportOf i with
      | error text =>
          simp only [reimport, hfields, hreport] at h
          cases h
      | ok report =>
          rw [reimport_eq hfields hreport] at h
          exact ⟨fields, report, rfl, rfl, (Except.ok.inj h).symm⟩

/-- The properties after the import hold no secrets. -/
theorem safe_properties {report : Json} (he : safeOption e.properties = .ok ())
    (hi : safeOption i.properties = .ok ()) (hfields : unpacked e.properties = .ok fields)
    (hreport : reportOf i = .ok report) :
    safeOption (some (.obj (Assoc.put fields "import" report))) = .ok () := by
  show safe (.obj _) = .ok ()
  rw [safe, safeFields_ok_iff]
  intro entry hentry
  rcases Assoc.mem_put hentry with hold | rfl
  · rcases unpacked_ok_iff.1 hfields with ⟨-, rfl⟩ | hobj
    · exact absurd hold not_mem_nil
    · rw [hobj] at he
      have he' : safe (.obj fields) = .ok () := he
      rw [safe, safeFields_ok_iff] at he'
      exact he' entry hold
  · obtain ⟨given, hobj, hmem⟩ := reportOf_ok hreport
    rw [hobj] at hi
    have hi' : safe (.obj given) = .ok () := hi
    rw [safe, safeFields_ok_iff] at hi'
    exact hi' _ hmem

/-- What a document after an import has to meet: the limits; its own nodes have other identities
than those of the import; and no node or group of its own names a node that is gone. -/
structure Joined (size : Document → ℕ) (e i r : Document) : Prop where
  nodeCount : r.nodes.length ≤ 10000
  wireCount : r.wires.length ≤ 50000
  apart : ∀ n ∈ e.nodes, sourced n = false → n.id ∉ i.ids
  members : ∀ n ∈ e.nodes, sourced n = false → membersExist r.ids n = true
  groups : ∀ g ∈ e.groups, ∀ id ∈ g.nodes, id ∈ r.ids
  bytes : size r ≤ maxBytes

theorem mem_own : n ∈ e.nodes.filter (fun n => !sourced n) ↔
    n ∈ e.nodes ∧ sourced n = false := by
  rw [mem_filter, Bool.not_eq_true']

/-- The identities after an import differ exactly where the document's own ones are others than
those of the import. -/
theorem nodup_ids_iff (he : e.ids.Nodup) (hi : i.ids.Nodup) :
    ((nodesAfter e i).map Node.id).Nodup ↔ ∀ n ∈ e.nodes, sourced n = false → n.id ∉ i.ids := by
  rw [nodesAfter, map_append, map_id_placed, nodup_append']
  have hown : ((e.nodes.filter fun n => !sourced n).map Node.id).Nodup :=
    he.sublist (List.filter_sublist.map _)
  constructor
  · rintro ⟨-, -, hdisjoint⟩ n hn hs
    exact hdisjoint (mem_map_of_mem (mem_own.2 ⟨hn, hs⟩))
  · intro hapart
    refine ⟨hown, hi, fun id hid => ?_⟩
    obtain ⟨n, hn, rfl⟩ := List.mem_map.1 hid
    exact hapart n (mem_own.1 hn).1 (mem_own.1 hn).2

/-- Where a wire of an import leads is led to by no wire of the document's own. -/
theorem nodup_wires (he : WellFormed size e) (hi : Imported size i) :
    ((i.wires ++ ownWires e i).map Wire.id).Nodup ∧
      ((i.wires ++ ownWires e i).map Wire.target).Nodup := by
  have hvalid := (valid_iff size).1 hi.valid
  rw [map_append, map_append, nodup_append', nodup_append']
  refine ⟨⟨hvalid.wireIds, he.wireIds.sublist (List.filter_sublist.map _), fun id hid hown => ?_⟩,
    hvalid.inputs, he.inputs.sublist (List.filter_sublist.map _), fun target htarget hown => ?_⟩
  · obtain ⟨v, hv, rfl⟩ := List.mem_map.1 hid
    obtain ⟨w, hw, heq⟩ := List.mem_map.1 hown
    have hdrawn : drawn w = drawn v := by rw [drawn, drawn, heq]
    rw [hi.wires v hv, (mem_ownWires_iff.1 hw).2.1] at hdrawn
    cases hdrawn
  · obtain ⟨w, hw, rfl⟩ := List.mem_map.1 hown
    exact (mem_ownWires_iff.1 hw).2.2.2.2 htarget

/-- The ends of the wires after an import are there. -/
theorem ends_ok (he : WellFormed size e) (hi : Imported size i) (hw : w ∈ i.wires ++ ownWires e i) :
    endOk ((nodesAfter e i).map Node.id) w.source = true ∧
      endOk ((nodesAfter e i).map Node.id) w.target = true ∧ checkWireRest w.rest = .ok () := by
  rw [endOk_iff, endOk_iff]
  rcases List.mem_append.1 hw with hw | hw
  · have himported : ∀ id ∈ i.ids, id ∈ (nodesAfter e i).map Node.id := by
      intro id hid
      rw [nodesAfter, map_append, map_id_placed]
      exact mem_append_right _ hid
    obtain ⟨hsource, htarget, hrest⟩ := ((valid_iff size).1 hi.valid).wires w hw
    rw [endOk_iff] at hsource htarget
    exact ⟨⟨himported _ hsource.1, hsource.2⟩, ⟨himported _ htarget.1, htarget.2⟩, hrest⟩
  · obtain ⟨hmem, -, hfrom, hto, -⟩ := mem_ownWires_iff.1 hw
    obtain ⟨hsource, htarget, hrest⟩ := he.wires w hmem
    rw [endOk_iff] at hsource htarget
    exact ⟨⟨hfrom, hsource.2⟩, ⟨hto, htarget.2⟩, hrest⟩

/-- What comes of an import holds no secrets. -/
theorem safe_after (he : safeDocument e = .ok ()) (hi : safeDocument i = .ok ())
    (h : reimport (some e) i = .ok r) : safeDocument r = .ok () := by
  obtain ⟨fields, report, hfields, hreport, rfl⟩ := reimport_ok h
  rw [safeDocument_ok_iff] at he hi ⊢
  obtain ⟨henodes, hewires, hgroups, hnotes, hviewport, heproperties⟩ := he
  obtain ⟨hinodes, hiwires, -, -, -, hiproperties⟩ := hi
  refine ⟨fun n hn => ?_, fun w hw => ?_, hgroups, hnotes, hviewport,
    safe_properties heproperties hiproperties hfields hreport⟩
  · rcases List.mem_append.1 hn with hn | hn
    · exact henodes n (mem_own.1 hn).1
    · obtain ⟨m, hm, rfl⟩ := List.mem_map.1 hn
      exact hinodes m hm
  · rcases List.mem_append.1 hw with hw | hw
    · exact hiwires w hw
    · exact hewires w (mem_ownWires_iff.1 hw).1

/-- **What comes of an import is valid exactly when it keeps the limits, the document's own nodes
have identities of their own, and nothing of its own names a node that is gone.** -/
theorem reimport_valid_iff (he : Valid size e) (hi : Imported size i)
    (h : reimport (some e) i = .ok r) : Valid size r ↔ Joined size e i r := by
  have he' := (valid_iff size).1 he
  have hi' := (valid_iff size).1 hi.valid
  have hsafe := safe_after he'.safe hi'.safe h
  obtain ⟨fields, report, -, -, hr⟩ := reimport_ok h
  have hnodes : r.nodes = nodesAfter e i := by rw [hr]
  have hwires : r.wires = i.wires ++ ownWires e i := by rw [hr]
  rw [valid_iff]
  constructor
  · intro hvalid
    refine ⟨hvalid.nodeCount, hvalid.wireCount, (nodup_ids_iff he'.ids hi'.ids).1 ?_,
      fun n hn hs => hvalid.members n ?_, ?_, hvalid.bytes⟩
    · have hids := hvalid.ids
      rwa [Document.ids, hnodes] at hids
    · rw [hnodes]
      exact mem_nodesAfter_own hn hs
    · have hgroups := hvalid.groups
      rwa [show r.groups = e.groups by rw [hr]] at hgroups
  · intro hjoined
    have hids : r.ids.Nodup := by
      rw [Document.ids, hnodes]
      exact (nodup_ids_iff he'.ids hi'.ids).2 hjoined.apart
    have hchecked : ∀ n ∈ r.nodes, (n.id ≠ "" ∧ checkRest n.rest = .ok ()) ∧
        membersExist r.ids n = true := by
      rw [hnodes]
      intro n hn
      rcases List.mem_append.1 hn with hn | hn
      · obtain ⟨hmem, hs⟩ := mem_own.1 hn
        exact ⟨he'.nodes n hmem, hjoined.members n hmem hs⟩
      · obtain ⟨m, hm, rfl⟩ := List.mem_map.1 hn
        refine ⟨hi'.nodes m hm, ?_⟩
        obtain ⟨-, hparent, hchildren⟩ := hi.nodes m hm
        rw [membersExist, show (placed e.nodes m).parent = none from hparent,
          show (placed e.nodes m).children = [] from hchildren]
        rfl
    refine ⟨?_, hjoined.nodeCount, hjoined.wireCount, hsafe, fun n hn => (hchecked n hn).1, hids,
      fun n hn => (hchecked n hn).2, ?_, ?_, ?_, ?_, ?_, hjoined.bytes⟩
    · rw [hr]
      exact he'.named
    · rw [show r.groups = e.groups by rw [hr]]
      exact hjoined.groups
    · rw [Document.ids, hnodes, hwires]
      exact fun w hw => ends_ok he' hi hw
    · rw [hwires]
      exact (nodup_wires he' hi).1
    · rw [hwires]
      exact (nodup_wires he' hi).2
    · rw [hr]
      exact he'.viewport

/-! ## Once is enough -/

/-- Importing the same flow again changes nothing. -/
theorem reimport_again (hi : Imported size i) (h : reimport (some e) i = .ok r) :
    reimport (some r) i = .ok r := by
  obtain ⟨fields, report, -, hreport, hr⟩ := reimport_ok h
  have hnodup : (i.nodes.map Node.id).Nodup := ((valid_iff size).1 hi.valid).ids
  have hnodes : nodesAfter r i = nodesAfter e i :=
    nodesAfter_twice (fun n hn => (hi.nodes n hn).1) hnodup (by rw [hr])
  have hown : ownWires r i = ownWires e i := ownWires_twice hi.wires (by rw [hr]) hnodes
  have hfields : unpacked r.properties = .ok (Assoc.put fields "import" report) := by rw [hr]; rfl
  rw [reimport_eq hfields hreport, hnodes, hown, Assoc.put_put]
  exact congrArg Except.ok (by rw [hr])

/-- **Importing a flow again keeps the document's own nodes and every position, puts the nodes of
the import in the place of those of the one before, and keeps each of the document's own wires
that still has its ends and whose input the import does not wire; it is valid where it joins, and
doing it again changes nothing.** -/
theorem reimport_keeps (he : Valid size e) (hi : Imported size i) {fields : Fields}
    (hfields : unpacked e.properties = .ok fields) : ∃ r, reimport (some e) i = .ok r ∧
      (∀ n ∈ e.nodes, sourced n = false → n ∈ r.nodes) ∧
      r.nodes.filter sourced = i.nodes.map (placed e.nodes) ∧
      (∀ m ∈ e.nodes, ∀ n ∈ i.nodes, m.id = n.id →
        placed e.nodes n = { n with position := m.position }) ∧
      (∀ n ∈ i.nodes, n.id ∉ e.ids → placed e.nodes n = n) ∧
      (∀ w ∈ i.wires, w ∈ r.wires) ∧
      (∀ w ∈ e.wires, drawn w = false → (w ∈ r.wires ↔ w.source.node ∈ r.ids ∧
        w.target.node ∈ r.ids ∧ ∀ v ∈ i.wires, v.target ≠ w.target)) ∧
      (Joined size e i r → Valid size r) ∧
      reimport (some r) i = .ok r := by
  obtain ⟨report, hreport⟩ := hi.report
  have h := reimport_eq hfields hreport
  refine ⟨_, h, fun n hn hs => mem_nodesAfter_own hn hs,
    filter_sourced_nodesAfter fun n hn => (hi.nodes n hn).1,
    fun m hm n _ hid => placed_of_mem ((valid_iff size).1 he).ids hm hid,
    fun n _ hid => placed_of_not_mem hid, fun w hw => List.mem_append_left _ hw, ?_,
    (reimport_valid_iff he hi h).2, reimport_again hi h⟩
  intro w hw hs
  constructor
  · intro hmem
    rcases List.mem_append.1 hmem with hmem | hmem
    · rw [hi.wires w hmem] at hs
      cases hs
    · obtain ⟨-, -, hfrom, hto, hfree⟩ := mem_ownWires_iff.1 hmem
      exact ⟨hfrom, hto, fun v hv heq => hfree (List.mem_map.2 ⟨v, hv, heq⟩)⟩
  · rintro ⟨hfrom, hto, hfree⟩
    refine List.mem_append_right _ (mem_ownWires_iff.2 ⟨hw, hs, hfrom, hto, fun hmem => ?_⟩)
    obtain ⟨v, hv, heq⟩ := List.mem_map.1 hmem
    exact hfree v hv heq

/-! ## A flow of two nodes -/

/-- A node of a flow at a position. -/
def flowNode (id : String) (x : ℚ) : Node :=
  { plainNode id with
    position := (x, 0)
    rest := [("source", .obj [("id", .str id)])] }

/-- A wire between two nodes. -/
def cardWire (id source target : String) : Wire where
  id := id
  source := ⟨source, "out"⟩
  target := ⟨target, "in"⟩
  inferred := none
  agentOwner := none
  rest := []

/-- A document with a report on its import. -/
def flowDocument (nodes : List Node) (wires : List Wire) : Document :=
  { plainDocument nodes wires with properties := some (.obj [("import", .obj [])]) }

/-- A flow of two nodes. -/
def twoNodes : Document :=
  flowDocument [flowNode "nr-a" 0, flowNode "nr-b" 1] [cardWire "w-nr-a-out-nr-b-in" "nr-a" "nr-b"]

/-- The flow with one node moved, and with a node and a wire of one's own. -/
def edited : Document :=
  flowDocument [flowNode "nr-a" 7, flowNode "nr-b" 1, plainNode "mine"]
    [cardWire "w-nr-a-out-nr-b-in" "nr-a" "nr-b", cardWire "u" "nr-a" "mine"]

/-- The flow after one of its nodes has been taken away. -/
def oneNode : Document := flowDocument [flowNode "nr-b" 1] []

theorem edited_valid : Valid (fun _ => 1000) edited := by
  decide +kernel

theorem imported_of_decide (h : Valid (fun _ => 1000) i)
    (hnodes : (i.nodes.all fun n => sourced n && n.parent.isNone && n.children.isEmpty) = true)
    (hwires : i.wires.all drawn = true)
    (hreport : i.properties = some (.obj [("import", .obj [])])) :
    Imported (fun _ => 1000) i := by
  refine ⟨h, fun n hn => ?_, List.all_eq_true.1 hwires, .obj [], by rw [reportOf, hreport]; rfl⟩
  have hall := List.all_eq_true.1 hnodes n hn
  rw [Bool.and_eq_true, Bool.and_eq_true, Option.isNone_iff_eq_none, List.isEmpty_iff] at hall
  exact ⟨hall.1.1, hall.1.2, hall.2⟩

/-- The flow imported again. -/
theorem reimport_keeps_edited : ∃ r, reimport (some edited) twoNodes = .ok r ∧
    plainNode "mine" ∈ r.nodes ∧ cardWire "u" "nr-a" "mine" ∈ r.wires ∧
      Valid (fun _ => 1000) r ∧ reimport (some r) twoNodes = .ok r := by
  have hi : Imported (fun _ => 1000) twoNodes :=
    imported_of_decide (by decide +kernel) (by decide +kernel) (by decide +kernel) rfl
  obtain ⟨r, hr, hnodes, -, -, -, -, hwires, hvalid, hagain⟩ := reimport_keeps edited_valid hi rfl
  have heq : r = flowDocument [plainNode "mine", flowNode "nr-a" 7, flowNode "nr-b" 1]
      [cardWire "w-nr-a-out-nr-b-in" "nr-a" "nr-b", cardWire "u" "nr-a" "mine"] := by
    cases hr
    rfl
  refine ⟨r, hr, hnodes _ (by simp [edited, flowDocument, plainDocument]) (by decide +kernel),
    (hwires _ (by simp [edited, flowDocument, plainDocument]) (by decide +kernel)).2 ?_, hvalid ?_,
    hagain⟩
  · rw [heq]
    decide +kernel
  · rw [heq]
    exact (reimport_valid_iff edited_valid hi (hr.trans (congrArg Except.ok heq))).1
      (by decide +kernel)

/-- **A wire of one's own that is not kept**: the flow has lost the node at its end. -/
theorem reimport_drops : Valid (fun _ => 1000) edited ∧ Imported (fun _ => 1000) oneNode ∧
    cardWire "u" "nr-a" "mine" ∈ edited.wires ∧ drawn (cardWire "u" "nr-a" "mine") = false ∧
      ∃ r, reimport (some edited) oneNode = .ok r ∧ r.wires = [] := by
  refine ⟨edited_valid, imported_of_decide (by decide +kernel) (by decide +kernel)
    (by decide +kernel) rfl, by simp [edited, flowDocument, plainDocument], by decide +kernel, _,
    rfl, ?_⟩
  rfl

end ArchHub.Work

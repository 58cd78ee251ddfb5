import Mathlib
import ArchHub.Lib.Check
import ArchHub.Lib.Dict
import ArchHub.Work.Redact

/-!
# Session documents

A document holds nodes and wires between their sockets.  `validate` is what is checked of a
document before it is saved; the fields have their types here, so what is left to check is
what a document can get wrong with fields of the right types.

The size of a document as JSON text comes from the surroundings.
-/

namespace ArchHub.Work

open Lib List Check

/-- The fields of a JSON object. -/
abbrev Fields := List (String × Json)

/-! ## Documents -/

/-- A socket of a node. -/
structure Port where
  id : String
  type : String
deriving DecidableEq

/-- The sockets of a node. -/
structure Ports where
  source : List Port
  target : List Port
deriving DecidableEq

/-- What `agentWork` says of a step. -/
structure StepWork where
  owner : String
  runtime : String
  native : String
  calls : List String
  kind : String
  tool : String
  runnable : Bool
  state : String
deriving DecidableEq

/-- The field `agentWork` of a node. -/
inductive AgentWork
  | session (runtime native : String)
  | step (work : StepWork)
  /-- What a file may hold otherwise. -/
  | other (value : Json)
deriving DecidableEq

/-- A node; `rest` are the fields that are not named here, such as `budget`, `loop` and
`result`. -/
structure Node where
  id : String
  type : String
  title : Option String
  params : Dict String Json
  position : ℚ × ℚ
  item : Option String
  parent : Option String
  children : List String
  ports : Option Ports
  paramDefs : Option Json
  approvalRequired : Option Json
  agentWork : Option AgentWork
  rest : Fields

/-- An end of a wire. -/
structure End where
  node : String
  socket : String
deriving DecidableEq

/-- A wire; `rest` are the fields that are not named here, such as `rule` and `order`. -/
structure Wire where
  id : String
  source : End
  target : End
  inferred : Option Json
  agentOwner : Option Json
  rest : Fields

/-- A group of a document. -/
structure CanvasGroup where
  id : String
  nodes : List String
  rest : Fields

/-- A note of a document. -/
structure Note where
  text : String
  rest : Fields

/-- Where a document is looked at. -/
structure Viewport where
  x : ℚ
  y : ℚ
  zoom : ℚ
  rest : Fields

/-- A document. -/
structure Document where
  id : String
  title : String
  nodes : List Node
  wires : List Wire
  groups : List CanvasGroup
  notes : List Note
  viewport : Option Viewport
  properties : Option Json

/-! ## Secrets and numbers -/

mutual

/-- `safe`. -/
def safe : Json → Except String Unit
  | .obj fields => safeFields fields
  | .arr xs => safeList xs
  | .float none => .error "Session numbers must be finite"
  | _ => .ok ()

/-- `safe` of each of some values. -/
def safeList : List Json → Except String Unit
  | [] => .ok ()
  | x :: xs => do
      safe x
      safeList xs

/-- `safe` of the fields of an object. -/
def safeFields : Fields → Except String Unit
  | [] => .ok ()
  | (k, x) :: fields => do
      Check.require (!secretKey.search none k.toList || x = .str "" || x = .null)
        "Credentials belong in Connections, never session files"
      safe x
      safeFields fields

end

/-- `safe` of what may be there. -/
def safeOption (v : Option Json) : Except String Unit := safe (v.getD .null)

/-- `safe` of the field `agentWork`; the other values it has are texts. -/
def safeWork : Option AgentWork → Except String Unit
  | some (.other v) => safe v
  | _ => .ok ()

/-- `safe` of a node; the names of its fields name no secrets. -/
def safeNode (n : Node) : Except String Unit := do
  safeFields n.params.entries
  safeOption n.paramDefs
  safeOption n.approvalRequired
  safeWork n.agentWork
  safeFields n.rest

/-- `safe` of a wire. -/
def safeWire (w : Wire) : Except String Unit := do
  safeOption w.inferred
  safeOption w.agentOwner
  safeFields w.rest

/-- `safe` of a document. -/
def safeDocument (d : Document) : Except String Unit := do
  Check.each safeNode d.nodes
  Check.each safeWire d.wires
  Check.each (fun g => safeFields g.rest) d.groups
  Check.each (fun n => safeFields n.rest) d.notes
  Check.each (fun v => safeFields v.rest) d.viewport.toList
  safeOption d.properties

/-! ## Nodes -/

/-- A field of an object. -/
def field? (fields : Fields) (k : String) : Option Json := Assoc.find fields k

/-- `type(v) in (int, float)`, and it is not negative. -/
def nonnegative : Json → Bool
  | .int n => 0 ≤ n
  | .float (some q) => 0 ≤ q
  | .float none => true
  | _ => false

/-- Whether a budget is well formed. -/
def budgetOk : Option Json → Bool
  | none | some .null => true
  | some (.obj fields) =>
      fields.all fun e => ["seconds", "calls", "cost_usd"].contains e.1 && nonnegative e.2
  | _ => false

/-- A text, of a field. -/
def isText : Option Json → Bool
  | some (.str _) => true
  | _ => false

/-- A positive integer, of a field. -/
def isPositive : Option Json → Bool
  | some (.int n) => 1 ≤ n
  | _ => false

/-- Whether a loop is well formed. -/
def loopOk : Option Json → Bool
  | none | some .null => true
  | some (.obj fields) =>
      (fields.map Prod.fst).isPerm ["trigger", "stop", "evaluator", "cap"] &&
        (["trigger", "stop", "evaluator"].all fun k => isText (field? fields k)) &&
        isPositive (field? fields "cap")
  | _ => false

/-- An object, if the field is there. -/
def objectOk : Option Json → Bool
  | none | some (.obj _) => true
  | _ => false

/-- The texts of a result. -/
def resultOk : Option Json → Bool
  | some (.obj fields) =>
      ["status", "error"].all fun k => (field? fields k).isNone || isText (field? fields k)
  | _ => true

/-- The checks of the fields of a node that are not named: `check_contract`, and the fields
that have to be objects. -/
def checkRest (rest : Fields) : Except String Unit := do
  Check.require (budgetOk (field? rest "budget"))
    "Node budget must hold non-negative seconds, calls and cost_usd"
  Check.require (loopOk (field? rest "loop"))
    "Node loop must declare trigger, stop, evaluator and a positive cap"
  Check.each (fun k => Check.require (objectOk (field? rest k)) ("Node " ++ k ++ " must be an object"))
    ["portVisibility", "parameterPresentation", "result"]
  Check.require (resultOk (field? rest "result")) "Node result status and error must be text"

/-- The checks of the nodes one by one, with the identities met before. -/
def checkNodes : List String → List Node → Except String Unit
  | _, [] => .ok ()
  | seen, n :: ns => do
      Check.require (n.id ≠ "" && !seen.contains n.id) "Node ids must be unique nonempty strings"
      checkRest n.rest
      checkNodes (n.id :: seen) ns

/-- Whether a parent and some children are there. -/
def membersExist (ids : List String) (n : Node) : Bool :=
  (n.parent.all fun p => p = "" || ids.contains p) && n.children.all ids.contains

/-! ## Wires -/

/-- `_WIRE_MENUS`. -/
def wireMenus : List (String × List String) :=
  [("matching", ["By index", "Longest", "Shortest", "Cross"]),
    ("order", ["Source order", "Reverse"]),
    ("missing", ["Preserve", "Drop", "Blank"]),
    ("units", ["From source", "From target"]),
    ("conversion", ["None", "Number", "Text"]),
    ("route", ["Bezier", "Straight", "Step"])]

/-- Whether a choice is one of a menu, or left open. -/
def choiceOk (choices : List String) : Option Json → Bool
  | none | some .null | some (.str "") => true
  | some (.str s) => choices.contains s
  | _ => false

/-- The checks of the fields of a wire that are not named. -/
def checkWireRest (rest : Fields) : Except String Unit := do
  Check.require ((field? rest "rule").isNone || isText (field? rest "rule")) "Wire rule must be text"
  Check.each (fun menu => Check.require (choiceOk menu.2 (field? rest menu.1))
    ("Wire " ++ menu.1 ++ " must be one of: " ++ ", ".intercalate menu.2)) wireMenus

/-- Whether an end names a node and a socket. -/
def endOk (ids : List String) (e : End) : Bool := ids.contains e.node && e.socket ≠ ""

/-- The checks of the wires one by one, with the identities and inputs met before. -/
def checkWires (ids : List String) : List String → List End → List Wire → Except String Unit
  | _, _, [] => .ok ()
  | seen, inputs, w :: ws => do
      Check.require (!seen.contains w.id) "Wire ids must be unique strings"
      Check.require (endOk ids w.source && endOk ids w.target)
        "Wire endpoints must name existing nodes and sockets"
      Check.require (!inputs.contains w.target) "An input socket accepts one wire"
      checkWireRest w.rest
      checkWires ids (w.id :: seen) (w.target :: inputs) ws

/-! ## Documents -/

/-- `MAX_BYTES`. -/
def maxBytes : ℕ := 8 * 1024 * 1024

variable (size : Document → ℕ) {seen : List String} {d : Document}

/-- `validate`; `size` is the number of the bytes of the JSON text. -/
def validate (d : Document) : Except String Unit := do
  Check.require (d.id ≠ "") "Session id and title are required"
  Check.require (d.nodes.length ≤ 10000 && d.wires.length ≤ 50000)
    "Session exceeds 10000 nodes or 50000 wires"
  safeDocument d
  checkNodes [] d.nodes
  Check.require (d.nodes.all (membersExist (d.nodes.map Node.id))) "Group members must exist"
  Check.require (d.groups.all fun g => g.nodes.all (d.nodes.map Node.id).contains)
    "Groups must name existing nodes"
  checkWires (d.nodes.map Node.id) [] [] d.wires
  Check.require (d.viewport.all fun v => 0 < v.zoom && v.zoom ≤ 10) "Invalid session viewport"
  Check.require (size d ≤ maxBytes) "Session exceeds 8 MiB"

/-- A document that `validate` lets pass. -/
def Valid (d : Document) : Prop := validate size d = .ok ()

instance (d : Document) : Decidable (Valid size d) :=
  inferInstanceAs (Decidable (validate size d = .ok ()))

/-! ## What a valid document is -/

theorem checkNodes_ok_iff {ns : List Node} :
    checkNodes seen ns = .ok () ↔ (∀ n ∈ ns, n.id ≠ "" ∧ n.id ∉ seen ∧ checkRest n.rest = .ok ()) ∧
      (ns.map Node.id).Nodup := by
  induction ns generalizing seen with
  | nil => simp [checkNodes]
  | cons n ns ih =>
      unfold checkNodes
      rw [seq_ok_iff, seq_ok_iff, require_ok_iff, ih, map_cons, nodup_cons, forall_mem_cons]
      constructor
      · rintro ⟨hid, hrest, hall, hnodup⟩
        have hid' : n.id ≠ "" ∧ n.id ∉ seen := by simpa using hid
        refine ⟨⟨⟨hid'.1, hid'.2, hrest⟩, fun m hm => ?_⟩, fun hmem => ?_, hnodup⟩
        · obtain ⟨hne, hnew, hok⟩ := hall m hm
          exact ⟨hne, fun h => hnew (mem_cons_of_mem _ h), hok⟩
        · obtain ⟨m, hm, heq⟩ := List.mem_map.1 hmem
          exact (hall m hm).2.1 (heq ▸ mem_cons_self)
      · rintro ⟨⟨⟨hne, hnew, hrest⟩, hall⟩, hfresh, hnodup⟩
        refine ⟨by simpa using ⟨hne, hnew⟩, hrest, fun m hm => ?_, hnodup⟩
        obtain ⟨hne', hnew', hok⟩ := hall m hm
        refine ⟨hne', fun hmem => ?_, hok⟩
        rcases List.mem_cons.1 hmem with heq | hold
        · exact hfresh (List.mem_map.2 ⟨m, hm, heq⟩)
        · exact hnew' hold

theorem checkWires_ok_iff {ids : List String} {inputs : List End} {ws : List Wire} :
    checkWires ids seen inputs ws = .ok () ↔
      (∀ w ∈ ws, w.id ∉ seen ∧ w.target ∉ inputs ∧ endOk ids w.source = true ∧
        endOk ids w.target = true ∧ checkWireRest w.rest = .ok ()) ∧
      (ws.map Wire.id).Nodup ∧ (ws.map Wire.target).Nodup := by
  induction ws generalizing seen inputs with
  | nil => simp [checkWires]
  | cons w ws ih =>
      unfold checkWires
      rw [seq_ok_iff, seq_ok_iff, seq_ok_iff, seq_ok_iff,
        require_ok_iff, require_ok_iff, require_ok_iff, ih, map_cons,
        map_cons, nodup_cons, nodup_cons, forall_mem_cons]
      constructor
      · rintro ⟨hid, hends, hinput, hrest, hall, hids, hinputs⟩
        have hid' : w.id ∉ seen := by simpa using hid
        have hinput' : w.target ∉ inputs := by simpa using hinput
        obtain ⟨hsource, htarget⟩ := Bool.and_eq_true_iff.1 hends
        refine ⟨⟨⟨hid', hinput', hsource, htarget, hrest⟩, fun v hv => ?_⟩, ⟨fun hmem => ?_, hids⟩,
          fun hmem => ?_, hinputs⟩
        · obtain ⟨hnew, hfree, hok⟩ := hall v hv
          exact ⟨fun h => hnew (mem_cons_of_mem _ h),
            fun h => hfree (mem_cons_of_mem _ h), hok⟩
        · obtain ⟨v, hv, heq⟩ := List.mem_map.1 hmem
          exact (hall v hv).1 (heq ▸ mem_cons_self)
        · obtain ⟨v, hv, heq⟩ := List.mem_map.1 hmem
          exact (hall v hv).2.1 (heq ▸ mem_cons_self)
      · rintro ⟨⟨⟨hid, hinput, hsource, htarget, hrest⟩, hall⟩, ⟨hfresh, hids⟩, hfree, hinputs⟩
        refine ⟨by simpa using hid, Bool.and_eq_true_iff.2 ⟨hsource, htarget⟩,
          by simpa using hinput, hrest, fun v hv => ?_, hids, hinputs⟩
        obtain ⟨hnew, hnewInput, hok⟩ := hall v hv
        refine ⟨fun hmem => ?_, fun hmem => ?_, hok⟩
        · rcases List.mem_cons.1 hmem with heq | hold
          · exact hfresh (List.mem_map.2 ⟨v, hv, heq⟩)
          · exact hnew hold
        · rcases List.mem_cons.1 hmem with heq | hold
          · exact hfree (List.mem_map.2 ⟨v, hv, heq⟩)
          · exact hnewInput hold

theorem membersExist_iff {ids : List String} {n : Node} : membersExist ids n = true ↔
    (∀ p, n.parent = some p → p = "" ∨ p ∈ ids) ∧ ∀ c ∈ n.children, c ∈ ids := by
  unfold membersExist
  rw [Bool.and_eq_true, all_eq_true]
  simp only [contains_iff_mem]
  refine and_congr_left fun _ => ?_
  cases n.parent with
  | none => simp
  | some p => simp

theorem endOk_iff {ids : List String} {e : End} :
    endOk ids e = true ↔ e.node ∈ ids ∧ e.socket ≠ "" := by
  unfold endOk
  rw [Bool.and_eq_true, contains_iff_mem, decide_eq_true_iff]

theorem safeDocument_ok_iff : safeDocument d = .ok () ↔
    (∀ n ∈ d.nodes, safeNode n = .ok ()) ∧ (∀ w ∈ d.wires, safeWire w = .ok ()) ∧
      (∀ g ∈ d.groups, safeFields g.rest = .ok ()) ∧ (∀ n ∈ d.notes, safeFields n.rest = .ok ()) ∧
      (∀ v ∈ d.viewport.toList, safeFields v.rest = .ok ()) ∧
      safeOption d.properties = .ok () := by
  unfold safeDocument
  rw [seq_ok_iff, seq_ok_iff, seq_ok_iff, seq_ok_iff, seq_ok_iff,
    each_ok_iff, each_ok_iff, each_ok_iff, each_ok_iff,
    each_ok_iff]

/-- The identities of the nodes of a document. -/
def Document.ids (d : Document) : List String := d.nodes.map Node.id

/-- What a document is that `validate` lets pass. -/
structure WellFormed (d : Document) : Prop where
  named : d.id ≠ ""
  nodeCount : d.nodes.length ≤ 10000
  wireCount : d.wires.length ≤ 50000
  safe : safeDocument d = .ok ()
  nodes : ∀ n ∈ d.nodes, n.id ≠ "" ∧ checkRest n.rest = .ok ()
  ids : d.ids.Nodup
  members : ∀ n ∈ d.nodes, membersExist d.ids n = true
  groups : ∀ g ∈ d.groups, ∀ id ∈ g.nodes, id ∈ d.ids
  wires : ∀ w ∈ d.wires, endOk d.ids w.source = true ∧ endOk d.ids w.target = true ∧
    checkWireRest w.rest = .ok ()
  wireIds : (d.wires.map Wire.id).Nodup
  inputs : (d.wires.map Wire.target).Nodup
  viewport : (d.viewport.all fun v => 0 < v.zoom && v.zoom ≤ 10) = true
  bytes : size d ≤ maxBytes

/-- **What `validate` lets pass.** -/
theorem valid_iff : Valid size d ↔ WellFormed size d := by
  unfold Valid validate
  rw [seq_ok_iff, seq_ok_iff, seq_ok_iff, seq_ok_iff, seq_ok_iff,
    seq_ok_iff, seq_ok_iff, seq_ok_iff, require_ok_iff,
    require_ok_iff, require_ok_iff, require_ok_iff, require_ok_iff,
    require_ok_iff, checkNodes_ok_iff, checkWires_ok_iff]
  constructor
  · rintro ⟨hnamed, hcounts, hsafe, ⟨hnodes, hids⟩, hmembers, hgroups, ⟨hwires, hwireIds, hinputs⟩,
      hviewport, hbytes⟩
    obtain ⟨hnodeCount, hwireCount⟩ := Bool.and_eq_true_iff.1 hcounts
    refine ⟨of_decide_eq_true hnamed, of_decide_eq_true hnodeCount, of_decide_eq_true hwireCount,
      hsafe, fun n hn => ⟨(hnodes n hn).1, (hnodes n hn).2.2⟩, hids, List.all_eq_true.1 hmembers,
      fun g hg id hid => ?_, fun w hw => (hwires w hw).2.2, hwireIds, hinputs, hviewport,
      of_decide_eq_true hbytes⟩
    exact List.contains_iff_mem.1 (List.all_eq_true.1 (List.all_eq_true.1 hgroups g hg) id hid)
  · intro h
    refine ⟨decide_eq_true h.named, Bool.and_eq_true_iff.2 ⟨decide_eq_true h.nodeCount,
      decide_eq_true h.wireCount⟩, h.safe,
      ⟨fun n hn => ⟨(h.nodes n hn).1, not_mem_nil, (h.nodes n hn).2⟩, h.ids⟩,
      List.all_eq_true.2 h.members, List.all_eq_true.2 fun g hg => List.all_eq_true.2 fun id hid =>
        List.contains_iff_mem.2 (h.groups g hg id hid),
      ⟨fun w hw => ⟨not_mem_nil, not_mem_nil, h.wires w hw⟩, h.wireIds, h.inputs⟩,
      h.viewport, decide_eq_true h.bytes⟩

end ArchHub.Work

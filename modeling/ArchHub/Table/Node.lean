import Mathlib
import ArchHub.Lib.Check
import ArchHub.Python.Value

/-!
# The one shape and its validator

Every thing of a graph is a node of one shape, kept in one table from id to
node.  A node is a plain dictionary and an edit may assign any path of it, so a
node is a `Value` here too, and being of the one shape is what `validateNode`
checks, in the order the source checks it.

* `relationEndpoints`, `relationStages`: what a relation (a node of kind
  `wire`) owns through its parameters.  Both are one reading, `assignments`, of
  the parameters whose name starts with a given text.
* `validateNode`, `validateStore`: the checks.
* `Valid`: the table every node of which passes.
-/

namespace ArchHub.Table

open Lib

/-- The one table: what is stored under each id. -/
abbrev Nodes := Dict Key Value

/-! ## Looking an id up -/

/-- `nodes.get(v)`. -/
def lookup (nodes : Nodes) (v : Value) : Except Raised (Option Value) := do
  let k ← v.hashed
  .ok (nodes.get? k)

/-- `v in nodes`. -/
def present (nodes : Nodes) (v : Value) : Except Raised Bool := do
  let k ← v.hashed
  .ok (nodes.get? k).isSome

/-- `nodes[v]`. -/
def fetch (nodes : Nodes) (v : Value) : Except Raised Value := do
  let k ← v.hashed
  match nodes.get? k with
  | some node => .ok node
  | none => .error ⟨.keyError, "%r", [v]⟩

variable {v node : Value}

theorem get?_of_fetch {nodes : Nodes} {k : Key} (hk : v.hashed = .ok k)
    (h : fetch nodes v = .ok node) : nodes.get? k = some node := by
  rw [fetch, hk, Check.ok_bind] at h
  split at h
  · cases h
    assumption
  · cases h

/-- A field of a dictionary, `None` where it is absent. -/
def field (node : Value) (k : String) : Value := (node.get? k).getD .none

theorem field_of_getItem {k : String} (h : node.getItem (.str k) = .ok v) : field node k = v := by
  rw [field, Value.getItem_str_ok.mp h]
  rfl

@[simp] theorem field_put (h : node.isDict = true) (k k' : String) (v : Value) :
    field (node.put k v) k' = if k' = k then v else field node k' := by
  unfold field
  rw [Value.get?_put h]
  by_cases hk : k' = k <;> simp [hk]

/-! ## What a relation owns -/

/-- A value a relation owns through a parameter. -/
structure Assignment where
  /-- The parameter's name. -/
  name : String
  /-- The parameter node's id. -/
  param : Value
  /-- The dictionary it holds. -/
  value : Fields

/-- `text.startswith(head)`. -/
def startsWith (head text : String) : Bool := head.toList.isPrefixOf text.toList

/-- The dictionary the literal floor of a parameter node holds, if it does. -/
def literalOf (param : Value) : Except Raised (Option Fields) :=
  if param.truthy then do
    let body ← param.getDefault "body" (.dict [])
    let floor ← body.getDefault "floor" .none
    if floor.isDict && (field floor "op").pyEq (.str "value") then
      match field floor "value" with
      | .dict value => .ok (some value)
      | _ => .ok none
    else .ok none
  else .ok none

/-- One parameter's assignment, when its name starts with `head`. -/
def assignment (nodes : Nodes) (head : String) (e : Key × Value) :
    Except Raised (Option Assignment) :=
  match e.1 with
  | .str name =>
      if startsWith head name then do
        match ← lookup nodes e.2 with
        | none => .ok none
        | some param =>
            let value ← literalOf param
            .ok (value.map (fun v => ⟨name, e.2, v⟩))
      else .ok none
  | _ => .ok none

/-- The assignments a relation owns under names that start with `head`, sorted
by name. -/
def assignments (nodes : Nodes) (head : String) (relation : Value) :
    Except Raised (List Assignment) := do
  let kind ← relation.getDefault "kind" .none
  if kind.pyEq (.str "wire") then
    let params ← relation.getDefault "params" (.dict [])
    let parameters ← params.entriesOf
    let found ← Check.collect (assignment nodes head) parameters
    .ok ((found.filterMap id).insertionSort (fun a b => a.name ≤ b.name))
  else .ok []

/-- The dictionary of an assignment, with the parameter's id and name under the
given keys. -/
def Assignment.named (paramKey nameKey : String) (a : Assignment) : Fields :=
  Assoc.put (Assoc.put a.value paramKey a.param) nameKey (.str a.name)

/-- The ordered endpoint values owned by a relation. -/
def relationEndpoints (nodes : Nodes) (relation : Value) : Except Raised (List Fields) := do
  let found ← assignments nodes "endpoint:" relation
  .ok (found.map (Assignment.named "endpoint_param" "endpoint_name"))

/-- The ordered stage assignments owned by a relation. -/
def relationStages (nodes : Nodes) (relation : Value) : Except Raised (List Fields) := do
  let found ← assignments nodes "stage:" relation
  .ok (found.map (Assignment.named "assignment_param" "assignment_name"))

/-- `endpoint.get(key)`. -/
def entry (endpoint : Fields) (k : String) : Value := (Assoc.find endpoint k).getD .none

/-- `endpoint.get('role') == role or endpoint.get('direction') in directions`. -/
def faces (role : String) (directions : List String) (endpoint : Fields) : Bool :=
  (entry endpoint "role").pyEq (.str role) ||
    directions.any (fun d => (entry endpoint "direction").pyEq (.str d))

/-- An endpoint the relation reads from. -/
def isSource : Fields → Bool := faces "source" ["out", "read", "source"]

/-- An endpoint the relation writes to. -/
def isTarget : Fields → Bool := faces "target" ["in", "write", "target"]

/-- The endpoints a relation reads from. -/
def relationSources (nodes : Nodes) (relation : Value) : Except Raised (List Fields) := do
  let endpoints ← relationEndpoints nodes relation
  .ok (endpoints.filter isSource)

/-- The endpoints a relation writes to. -/
def relationTargets (nodes : Nodes) (relation : Value) : Except Raised (List Fields) := do
  let endpoints ← relationEndpoints nodes relation
  .ok (endpoints.filter isTarget)

/-! ## Validation -/

/-- The kinds a node may have. -/
def kinds : List String :=
  ["value", "op", "wire", "group", "param", "session", "ui", "proposal", "secret_ref", "history"]

/-- The keys of the one shape. -/
def nodeKeys : List String := ["id", "kind", "title", "params", "body", "relations", "meta"]

/-- The keys `meta` has at least. -/
def metaRequired : List String := ["seq", "created_at", "frozen"]

/-- `OneTableViolation` with a message. -/
def violation (text : String) (shown : List Value) : Raised := ⟨.oneTableViolation, text, shown⟩

/-- `v in texts`, for a value looked up in a set of texts. -/
def oneOf (v : Value) (texts : List String) : Bool := texts.any (fun t => v = .str t)

/-- The node is a dictionary with exactly the keys of the one shape, stored
under its own id, of a known kind and with a title. -/
def checkShape (nodes : Nodes) (node : Value) : Except Raised Unit := do
  let id := field node "id"
  Check.require node.isDict (violation "node is not a dict: %r" [node])
  Check.require
    (nodeKeys.all (fun k => (node.get? k).isSome) &&
      node.fields.all (fun e => nodeKeys.any (fun k => e.1 = .str k)))
    (violation "node %r keys %r != the one shape %r" [id])
  Check.require (id.isStr && decide (id.key?.bind nodes.get? = some node))
    (violation "node %r is not stored in the one table under its id" [id])
  let kind := field node "kind"
  let _ ← kind.hashed
  Check.require (oneOf kind kinds) (violation "node %s has unknown kind %r" [id, kind])
  Check.require (field node "title").isStr (violation "node %s title not a string" [id])

/-- `v` names a node of the kind `kind`. -/
def checkNames (nodes : Nodes) (kind : String) (absent wrong : Raised) (v : Value) :
    Except Raised Unit := do
  let there ← present nodes v
  Check.require there absent
  let named ← fetch nodes v
  let found ← named.getItem (.str "kind")
  Check.require (found.pyEq (.str kind)) wrong

/-- Every parameter is a node of kind `param` of the table. -/
def checkParams (nodes : Nodes) (node : Value) : Except Raised Unit := do
  let id := field node "id"
  let params := field node "params"
  Check.require params.isDict (violation "node %s params not a dict" [id])
  Check.each
    (fun e => checkNames nodes "param"
      (violation "node %s param %r -> %r not in the one table" [id, e.2])
      (violation "node %s param %r -> %r is kind %r, not param" [id, e.2]) e.2)
    params.fields

/-- `v in nodes`, or the exception. -/
def checkPresent (nodes : Nodes) (absent : Raised) (v : Value) : Except Raised Unit := do
  let there ← present nodes v
  Check.require there absent

/-- Whether the body is of the form `{'inner': …}`. -/
def isInner (body : Value) : Bool := (body.get? "inner").isSome

/-- The members are a list of nodes of the table. -/
def checkMembers (nodes : Nodes) (node : Value) : Except Raised Unit := do
  let id := field node "id"
  let inner := field (field node "body") "inner"
  Check.require inner.isList (violation "node %s inner is not a list" [id])
  Check.each
    (fun c => checkPresent nodes
      (violation "node %s inner child %r not in the one table" [id, c]) c)
    inner.items

/-- A secret is held by reference and never by value. -/
def checkSecret (id floor : Value) : Except Raised Unit := do
  Check.require
    (field floor "op" = .str "secret_ref" &&
      match floor.get? "ref" with
      | some (.str ref) => startsWith "op://" ref
      | _ => false)
    (violation "secret_ref %s must hold an op:// reference" [id])
  Check.require (floor.get? "value").isNone
    (violation "secret_ref %s stores a resolved value -- forbidden" [id])

/-- The floor names its operation, the one the node's kind asks for. -/
def checkFloor (node : Value) : Except Raised Unit := do
  let id := field node "id"
  let kind := field node "kind"
  let floor := field (field node "body") "floor"
  Check.require (floor.isDict && (field floor "op").isStr)
    (violation "node %s floor must be a dict with an op string" [id])
  Check.onlyIf (kind = .str "secret_ref") (checkSecret id floor)
  Check.onlyIf (kind = .str "history")
    (Check.require (field floor "op" = .str "history")
      (violation "history node %s floor op is %r" [id, field floor "op"]))

/-- What the body holds: members or a floor. -/
def checkContent (nodes : Nodes) (node : Value) : Except Raised Unit :=
  if isInner (field node "body") then checkMembers nodes node else checkFloor node

/-- The body is exactly one of a primitive floor and a list of members, and
what it holds fits the node's kind. -/
def checkBody (nodes : Nodes) (node : Value) : Except Raised Unit := do
  let id := field node "id"
  let kind := field node "kind"
  let body := field node "body"
  Check.require
    (body.isDict && decide (body.fields.length = 1) &&
      body.fields.all (fun e => e.1 = .str "floor" || e.1 = .str "inner"))
    (violation "node %s body must be exactly {floor:...} or {inner:[...]}" [id])
  checkContent nodes node
  Check.onlyIf (kind = .str "secret_ref" ∨ kind = .str "history")
    (Check.require (!isInner body)
      (violation "%s node %s must terminate in its protected floor" [kind, id]))

/-- An endpoint of a relation names a node, a port, and a parameter inside the
relation. -/
def checkEndpoint (nodes : Nodes) (id : Value) (inner : List Value) (endpoint : Fields) :
    Except Raised Unit := do
  let participant := entry endpoint "node_id"
  checkPresent nodes
    (violation "relation %s endpoint participant %r not in the one table" [id, participant])
    participant
  let port := entry endpoint "port_id"
  Check.require (port.isStr && port.truthy)
    (violation "relation %s endpoint has no open port id" [id])
  let param := entry endpoint "endpoint_param"
  Check.require (inner.any param.pyEq)
    (violation "relation %s endpoint %s is not inside the relation" [id, param])

/-- A stage of a relation has a mode and names a node inside the relation. -/
def checkStage (nodes : Nodes) (id : Value) (inner : List Value) (stage : Fields) :
    Except Raised Unit := do
  let stageId := entry stage "node_id"
  let mode := entry stage "mode"
  Check.require (["guard", "map", "tap"].any (fun m => mode = .str m))
    (violation "relation %s stage %r has invalid mode %r" [id, entry stage "role", mode])
  let there ← present nodes stageId
  Check.require (there && inner.any stageId.pyEq)
    (violation "relation %s stage %r -> %r is not an inner node" [id, entry stage "role", stageId])
  let param := entry stage "assignment_param"
  Check.require (inner.any param.pyEq)
    (violation "relation %s stage assignment %r is not inside the relation" [id, param])

/-- A relation opens into its ordered endpoint and stage nodes. -/
def checkRelation (nodes : Nodes) (node : Value) : Except Raised Unit :=
  if field node "kind" = .str "wire" then do
    let id := field node "id"
    let body := field node "body"
    Check.require (isInner body)
      (violation "relation node %s must open into endpoint/stage nodes" [id])
    let inner := (field body "inner").items
    let endpoints ← relationEndpoints nodes node
    let sources ← relationSources nodes node
    let targets ← relationTargets nodes node
    Check.require (decide (2 ≤ endpoints.length) && !sources.isEmpty && !targets.isEmpty)
      (violation "relation node %s needs ordered source and target endpoint parameters" [id])
    Check.each (checkEndpoint nodes id inner) endpoints
    let stages ← relationStages nodes node
    Check.each (checkStage nodes id inner) stages
  else .ok ()

/-- The relations of a node are relations of the table. -/
def checkRelations (nodes : Nodes) (node : Value) : Except Raised Unit := do
  let id := field node "id"
  let relations := field node "relations"
  Check.require relations.isList (violation "node %s relations not a list" [id])
  Check.each
    (fun w => checkNames nodes "wire"
      (violation ("node %s relation %r not in the one table " ++
        "(a wire stored elsewhere = the banned second container)") [id, w])
      (violation "node %s relation %r is kind %r, not wire" [id, w]) w)
    relations.items

/-- `meta` is a dictionary with the required keys. -/
def checkMeta (node : Value) : Except Raised Unit :=
  let held := field node "meta"
  Check.require (held.isDict && metaRequired.all (fun k => (held.get? k).isSome))
    (violation "node %s meta missing %r" [field node "id"])

/-- The node is of the one shape and consistent with the table. -/
def validateNode (nodes : Nodes) (node : Value) : Except Raised Unit := do
  checkShape nodes node
  checkParams nodes node
  checkBody nodes node
  checkRelation nodes node
  checkRelations nodes node
  checkMeta node

/-- Every entry of the table is stored under its own id and passes. -/
def validateStore (nodes : Nodes) : Except Raised Unit :=
  Check.each
    (fun e => do
      let id ← e.2.getDefault "id" .none
      Check.require (decide (id.key? = some e.1)) (violation "table key %r != node id %r" [id])
      validateNode nodes e.2)
    nodes.entries

/-- A table the validator accepts. -/
def Valid (nodes : Nodes) : Prop := validateStore nodes = .ok ()

instance (nodes : Nodes) : Decidable (Valid nodes) :=
  inferInstanceAs (Decidable (validateStore nodes = .ok ()))

end ArchHub.Table

import Mathlib
import ArchHub.Lib.Transition
import ArchHub.Table.Pull

/-!
# The one edit function

Every edit of the table goes through `applyOp`.  It dispatches on the
operation's name; each branch below is one branch of the source, in its order of
reads, writes and refusals, because what a refused operation leaves behind
depends on that order.

An accepted operation appends a history node holding the operation.  The source
writes the value an edit replaces into the operation itself before recording
it, so a branch returns the operation as it is when it is recorded.
-/

namespace ArchHub.Table

open Lib

variable (host : Host)

/-- `op.get(k)`. -/
def opGet (op : Value) (k : String) : Except Raised Value := op.getDefault k .none

/-- `HistoryImmutable`. -/
def historyImmutable (text : String) (shown : List Value) : Raised :=
  ⟨.historyImmutable, text, shown⟩

/-- `FrozenNode`. -/
def frozenNode (id : Value) : Raised := ⟨.frozenNode, "node %s is frozen", [id]⟩

/-- `ValueError`. -/
def valueError (text : String) (shown : List Value) : Raised := ⟨.valueError, text, shown⟩

/-- Validate the node stored under a key against the table. -/
def validateAt (node : Value) : Act Unit := Exec.look (fun s => validateNode s.nodes node)

/-- Drop the whole memo. -/
def clearMemo : Act Unit := Exec.write (Store.withMemo (fun _ => Dict.empty))

/-- Drop both disposable indexes. -/
def dropIndexes : Act Unit :=
  Exec.write (fun s => { s with
    caches := { s.caches with dependencyOut := none }, invalidationOut := none })

/-! ## Adding nodes and relations -/

/-- `add_node`. -/
def applyAddNode (op : Value) : Act Value := do
  let node ← op.getItem (.str "node")
  let kind ← node.getItem (.str "kind")
  Exec.refuse (kind.pyEq (.str "history"))
    (historyImmutable "history nodes are engine-appended only" [])
  let id ← node.getItem (.str "id")
  let k ← id.hashed
  putNode k node
  validateAt node
  dropIndexes
  return id

/-- The two endpoints of a plain wire. -/
def plainEndpoints (op : Value) : Except Raised (List Value) := do
  let source ← op.getItem (.str "from")
  let sourcePort ← op.getDefault "from_port" (.str "value")
  let target ← op.getItem (.str "to")
  let targetPort ← op.getDefault "to_port" (.str "value")
  .ok [dict [("role", .str "source"), ("direction", .str "out"), ("node_id", source),
      ("port_id", sourcePort), ("cardinality", .str "one")],
    dict [("role", .str "target"), ("direction", .str "in"), ("node_id", target),
      ("port_id", targetPort), ("cardinality", .str "one")]]

/-- The endpoints an `add_wire` asks for. -/
def endpointSpecs (op : Value) : Except Raised (List Value) := do
  let given ← opGet op "endpoints"
  if given.truthy then given.iterate else plainEndpoints op

/-- The stages an `add_wire` asks for. -/
def stageSpecs (op : Value) : Except Raised (List Value) := do
  let stages ← op.getDefault "stages" (.list [])
  let raws ← stages.iterate
  let plain := raws.map (fun raw => if raw.isDict then raw else
    dict [("role", .str "transform"), ("mode", .str "map"), ("node_id", .str (host.text raw))])
  let stageNodes ← opGet op "stage_nodes"
  let named ← if stageNodes.truthy then stageNodes.entriesOf else .ok []
  .ok (plain ++ named.map (fun e => dict [("role", Value.ofKey e.1),
    ("mode", .str (if e.1 = .str "gate" then "guard" else "map")), ("node_id", e.2)]))

/-- `node['meta'].update({…})`, on a node as `_blank` makes it. -/
def withMeta (node : Value) (es : List (String × Value)) : Value :=
  node.put "meta" (es.foldl (fun m e => m.put e.1 e.2) (field node "meta"))

/-- A parameter to store: its name, the value it holds, what its `meta` says. -/
structure Param where
  name : String
  value : Value
  tags : List (String × Value)

/-- The parameter of an endpoint. -/
def endpointParam (index : ℕ) (spec : Value) : Param :=
  ⟨"endpoint:" ++ padded 3 index, spec,
    [("role", .str "relation_endpoint"), ("endpoint_index", .int index)]⟩

/-- The parameter of a stage assignment. -/
def stageParam (index : ℕ) (spec : Value) : Param :=
  ⟨"stage:" ++ padded 3 index, spec, [("role", .str "relation_stage"), ("stage_index", .int index)]⟩

/-- A parameter every wire has. -/
def plainParam (e : String × Value) : Param :=
  ⟨e.1, e.2, [("role", .str "wire_parameter"), ("wire_parameter", .str e.1)]⟩

/-- Mint, store and validate a parameter node. -/
def addParam (p : Param) : Act String := do
  let (id, node) ← blank host "param" (.str p.name) []
    (dict [("floor", dict [("op", .str "value"), ("value", p.value)])]) false
  let node := withMeta node p.tags
  putNode (.str id) node
  validateAt node
  return id

/-- The parameters of a relation under construction, and its members. -/
structure Draft where
  /-- The parameters, by name. -/
  params : Fields
  /-- The members. -/
  inner : List Value

/-- Store the parameters of some specs, one after another.  Each names a node of
the table, or is refused; `extra` are the members that come with it. -/
def addNamed (absent : String) (param : ℕ → Value → Param) (extra : Value → List Value) :
    ℕ → List Value → Draft → Act Draft
  | _, [], draft => return draft
  | index, spec :: rest, draft => do
      let named ← spec.getDefault "node_id" .none
      let there ← Exec.look (fun s => present s.nodes named)
      Exec.refuse (!there) ⟨.keyError, absent, [named]⟩
      let id ← addParam host (param index spec)
      addNamed absent param extra (index + 1) rest
        ⟨Assoc.put draft.params (param index spec).name (.str id),
          draft.inner ++ .str id :: extra named⟩

/-- The endpoint parameters. -/
def addEndpoints : ℕ → List Value → Draft → Act Draft :=
  addNamed host "relation endpoint participant %r not in the one table" endpointParam
    (fun _ => [])

/-- The stage assignments, each a member together with its stage. -/
def addStages : ℕ → List Value → Draft → Act Draft :=
  addNamed host "relation stage %r not in the one table" stageParam (fun stageId => [stageId])

/-- The parameters every wire has. -/
def addWireParameters : List (String × Value) → Draft → Act Draft
  | [], draft => return draft
  | e :: rest, draft => do
      let id ← addParam host (plainParam e)
      addWireParameters rest { draft with params := Assoc.put draft.params e.1 (.str id) }

/-- Attach a stored relation to its participants, and validate it. -/
def settleRelation (id : String) : Act Value := do
  attachRelationIncidence id
  let wire ← nodeAt (.str id)
  validateAt wire
  clearMemo
  dropIndexes
  return .str id

/-- Mint, store, attach and validate the relation of a draft. -/
def storeRelation (title : Value) (draft : Draft) : Act Value := do
  let (id, wire) ← blank host "wire" title draft.params (dict [("inner", .list draft.inner)]) false
  putNode (.str id) (withMeta wire [("capabilities", .list [.str "relation"])])
  settleRelation id

/-- The title of the relation an `add_wire` asks for, and its draft: the
parameters are stored, the relation is not. -/
def draftRelation (op : Value) : Act (Value × Draft) := do
  let endpoints ← endpointSpecs op
  Exec.refuse (decide (endpoints.length < 2))
    (valueError "a relation needs at least two endpoint parameters" [])
  let draft ← addEndpoints host 0 endpoints ⟨[], []⟩
  let stages ← stageSpecs host op
  let draft ← addStages host 0 stages draft
  let draft ← addWireParameters host wireParameterDefaults draft
  let title ← op.getDefault "title" (.str "")
  return (title, draft)

/-- `add_wire`. -/
def applyAddWire (op : Value) : Act Value := do
  let (title, draft) ← draftRelation host op
  storeRelation host title draft

/-! ## Setting a path -/

/-- The steps of a path. -/
def pathSteps (op : Value) : Except Raised (List Value) := do
  let path ← op.getItem (.str "path")
  match path with
  | .list xs => .ok xs
  | .str s => .ok (s.toList.map (fun c => .str (String.ofList [c])))
  | v => .error ⟨.typeError, "object is not subscriptable", [v]⟩

/-- The last step of a path. -/
def lastStep (path : List Value) : Except Raised Value :=
  match path.getLast? with
  | some leaf => .ok leaf
  | none => .error ⟨.indexError, "list index out of range", []⟩

/-- The operation, with the value it replaces noted in it. -/
def noteBefore (op obj leaf : Value) : Except Raised Value := do
  let noted ← op.contains (.str "before")
  let missing ← opGet op "before_missing"
  if noted || missing.truthy then .ok op
  else if ← obj.contains leaf then
    let before ← obj.getItem leaf
    op.setItem (.str "before") before
  else op.setItem (.str "before_missing") (.bool true)

/-- The operation, with the value an `unset` removes noted in it. -/
def noteRemoved (op obj leaf : Value) : Except Raised Value := do
  let noted ← op.contains (.str "before")
  if noted then .ok op
  else
    let before ← obj.getItem leaf
    op.setItem (.str "before") before

/-- The operation as it is recorded and the target as it is stored, for a `set`
or an `unset` of a path. -/
def rewritten (what : String) (op target : Value) : Except Raised (Value × Value) := do
  let path ← pathSteps op
  let obj ← target.walk path.dropLast
  let leaf ← lastStep path
  let op ← noteBefore op obj leaf
  if what = "set" then
    let v ← op.getItem (.str "value")
    let target ← target.rewriteAt (fun o => o.setItem leaf v) path.dropLast
    .ok (op, target)
  else if ← obj.contains leaf then
    let op ← noteRemoved op obj leaf
    let target ← target.rewriteAt (fun o => o.delItem leaf) path.dropLast
    .ok (op, target)
  else .error ⟨.keyError, "cannot unset missing path leaf %r", [leaf]⟩

/-- `target['meta'].get('role')`. -/
def roleOf (target : Value) : Except Raised Value := do
  let held ← target.getItem (.str "meta")
  held.getDefault "role" .none

/-- `target['body'].get('floor', {}).get('value')`, where it is a dictionary,
and the node it names. -/
def participantOf (target : Value) : Except Raised Value := do
  let body ← target.getItem (.str "body")
  let floor ← body.getDefault "floor" (.dict [])
  let value ← floor.getDefault "value" .none
  if value.isDict then value.getDefault "node_id" .none else .ok .none

/-- `[rid for rid in node['relations'] if rid != owner]`. -/
def detachFrom (owner : Value) (k : Key) (node : Value) : Act Unit := do
  let relations ← node.getItem (.str "relations")
  let rids ← relations.iterate
  let node ← node.setItem (.str "relations") (.list (rids.filter (fun rid => !rid.pyEq owner)))
  putNode k node

/-- Detach a relation from a node none of its endpoints names any more. -/
def detachNamed (owner relation v : Value) : Act Unit := do
  let participant ← nodeAt? v
  match participant, v.key? with
  | some node, some k =>
      Exec.onlyIf node.truthy do
        let endpoints ← Exec.look (fun s => relationEndpoints s.nodes relation)
        Exec.onlyIf (!endpoints.any (fun e => (entry e "node_id").pyEq v))
          (detachFrom owner k node)
  | _, _ => pure ()

/-- Move a relation from the participant an endpoint named to the one it names
now. -/
def moveIncidence (owner relation oldParticipant newParticipant : Value) : Act Unit := do
  detachNamed owner relation oldParticipant
  attachNamed owner newParticipant

/-- What re-pointing an endpoint parameter does to its relation. -/
def syncEndpoint (oldParticipant target : Value) : Act Unit := do
  let id ← target.getItem (.str "id")
  match ← relationOwnerForEndpoint id with
  | none => pure ()
  | some k =>
      let owner := Value.ofKey k
      Exec.onlyIf owner.truthy do
        let relation ← nodeAt owner
        let newParticipant ← participantOf target
        Exec.onlyIf (!oldParticipant.pyEq newParticipant)
          (moveIncidence owner relation oldParticipant newParticipant)
        invalidate [owner]

/-- `path[:n] == texts`. -/
def startsPath (op : Value) (texts : List String) : Bool :=
  match op.get? "path" with
  | some (.list xs) => (Value.list (xs.take texts.length)).pyEq (.list (texts.map .str))
  | _ => false

/-- Whether the path of an operation reaches what a node's members or parameters
are. -/
def isStructural (op : Value) : Bool :=
  startsPath op ["params"] || startsPath op ["body", "inner"]

/-- Whether the path of an operation reaches a reference of the floor to another
node. -/
def isFloorReference (op : Value) : Bool :=
  startsPath op ["body", "floor"] &&
    match op.get? "path" with
    | some (.list [_, _]) => true
    | some (.list (_ :: _ :: k :: _)) => floorReferences.any (fun f => k.pyEq (.str f))
    | _ => false

/-- The node an endpoint parameter names; `None` for any other node. -/
def endpointParticipant (role target : Value) : Except Raised Value :=
  if role.pyEq (.str "relation_endpoint") then participantOf target else .ok .none

/-- What a `set` makes the memo forget. -/
def forgetAfterSet (id op : Value) : Act Unit :=
  if isStructural op then clearMemo else invalidate [id]

/-- `set` and `unset`. -/
def applySet (what : String) (op : Value) : Act (Value × Value) := do
  let id ← op.getItem (.str "id")
  let target ← nodeAt id
  let k ← id.hashed
  let kind ← target.getItem (.str "kind")
  Exec.refuse (kind.pyEq (.str "history"))
    (historyImmutable "cannot rewrite the past: %s is a history node" [id])
  let frozen ← isFrozen target
  Exec.refuse frozen (frozenNode id)
  let role ← roleOf target
  let oldParticipant ← endpointParticipant role target
  let (op, target) ← rewritten what op target
  putNode k target
  let role ← roleOf target
  Exec.onlyIf (role.pyEq (.str "relation_endpoint")) (syncEndpoint oldParticipant target)
  forgetAfterSet id op
  Exec.onlyIf (isStructural op || isFloorReference op || role.pyEq (.str "relation_endpoint"))
    dropIndexes
  return (id, op)

/-! ## The other operations -/

/-- `xs[i:i+1] = ys`, at the first place `x` stands at. -/
def splice (x : Value) (ys : List Value) : List Value → List Value
  | [] => []
  | y :: rest => if y.pyEq x then ys ++ rest else y :: splice x ys rest

/-- A node's members, with a dissolved group replaced by its own. -/
def spliceInto (gid : Value) (children : List Value) (node : Value) : Except Raised Value := do
  let body ← node.getItem (.str "body")
  if ← body.contains (.str "inner") then
    let inner ← body.getItem (.str "inner")
    if ← inner.contains gid then
      match inner with
      | .list xs =>
          let body ← body.setItem (.str "inner") (.list (splice gid children xs))
          node.setItem (.str "body") body
      | _ => .error ⟨.attributeError, "object has no attribute 'index'", [inner]⟩
    else .ok node
  else .ok node

/-- The store without a node, and without what is kept of it. -/
def Store.without (k : Key) (s : Store) : Store :=
  { s with
    nodes := s.nodes.erase k
    caches := { s.caches with memo := s.caches.memo.erase k, held := s.caches.held.erase k } }

/-- Splice the members of a dissolved group into one other node. -/
def spliceOther (gid : Value) (children : List Value) (e : Key × Value) : Act Unit := do
  let node ← spliceInto gid children e.2
  putNode e.1 node

/-- Splice the members of a dissolved group into the other nodes. -/
def spliceOthers (gid : Value) (children : List Value) : List (Key × Value) → Act Unit :=
  Exec.each (spliceOther gid children)

/-- `dissolve_group`. -/
def applyDissolveGroup (op : Value) : Act Value := do
  let gid ← op.getItem (.str "id")
  let target ← nodeAt gid
  let k ← gid.hashed
  let body ← target.getItem (.str "body")
  let opens ← body.contains (.str "inner")
  Exec.refuse (!opens)
    (valueError "dissolve_group: %s is not group-ish" [gid])
  let frozen ← isFrozen target
  Exec.refuse frozen (frozenNode gid)
  let relations ← target.getItem (.str "relations")
  Exec.refuse relations.truthy
    (valueError "dissolve_group: %s still has wires; rewire first" [gid])
  let inner ← body.getItem (.str "inner")
  let children ← inner.iterate
  let others ← Exec.read (fun s => s.nodes.entries.filter (fun e => e.1 ≠ k))
  spliceOthers gid children others
  Exec.write (Store.without k)
  invalidate children
  dropIndexes
  return gid

/-- `freeze` and `unfreeze`. -/
def applyFreeze (what : String) (op : Value) : Act Value := do
  let id ← op.getItem (.str "id")
  let target ← nodeAt id
  let k ← id.hashed
  let kind ← target.getItem (.str "kind")
  Exec.refuse (kind.pyEq (.str "history"))
    (historyImmutable "cannot %s the past: %s is a history node" [.str what, id])
  let held ← target.getItem (.str "meta")
  let held ← held.setItem (.str "frozen") (.bool (what = "freeze"))
  putNode k (target.put "meta" held)
  invalidate [id]
  return id

/-- `effect_apply` and `effect_revert`. -/
def applyEffect (what : String) (op : Value) : Act Value := do
  let effect ← opGet op "effect"
  match ← nodeAt? effect with
  | none => Exec.raise (valueError "%s: effect %r not in the one table" [.str what, effect])
  | some _ =>
      let out ← op.getItem (.str "effect")
      return out

/-- `sample`. -/
def applySample (depth : ℕ) (op : Value) : Act Value := do
  let sourceId ← opGet op "source"
  let targetId ← opGet op "target"
  match ← nodeAt? sourceId, ← nodeAt? targetId, targetId.key? with
  | some source, some target, some k =>
      let body ← target.getItem (.str "body")
      let floor ← body.getDefault "floor" .none
      let kind ← target.getItem (.str "kind")
      Exec.refuse (!kind.pyEq (.str "param") || !floor.truthy)
        (valueError "sample target must be a value parameter node" [])
      let op' ← floor.getDefault "op" .none
      Exec.refuse (!op'.pyEq (.str "value"))
        (valueError "sample target must be a value parameter node" [])
      let frozen ← isFrozen target
      Exec.refuse frozen (frozenNode (field target "id"))
      clearMemo
      let sid ← source.getItem (.str "id")
      let v ← pull host depth sid none
      -- the pull may have labelled relations, so the target is read again
      let target ← nodeAt (Value.ofKey k)
      let target ← target.rewriteAt (fun o => o.setItem (.str "value") v)
        [.str "body", .str "floor"]
      putNode k target
      let id ← target.getItem (.str "id")
      invalidate [id]
      return id
  | _, _, _ => Exec.raise (valueError "sample requires source and target nodes" [])

/-- `command`. -/
def applyCommand (op : Value) : Act Value := do
  let capability ← opGet op "capability"
  let args ← op.getDefault "args" (.dict [])
  Exec.refuse (!(capability.isStr && capability.truthy))
    (valueError "command requires a capability name" [])
  Exec.refuse (!args.isDict) (valueError "command args must be a mapping" [])
  return capability

/-! ## Recording and dispatch -/

/-- `_record`: append the operation as a history node. -/
def record (op : Value) : Act Unit := do
  let what ← op.getItem (.str "op")
  let (id, e) ← blank host "history" (.str ("op:" ++ (textOf? what).getD (host.text what))) []
    (dict [("floor", dict [("op", .str "history"), ("entry", op)])]) false
  putNode (.str id) e

/-- The branch of an operation: what it returns, and the operation as it is
recorded. -/
def branch (depth : ℕ) (op what : Value) : Act (Value × Value) :=
  match what with
  | .str "add_node" => do return (← applyAddNode op, op)
  | .str "add_wire" => do return (← applyAddWire host op, op)
  | .str "set" => applySet "set" op
  | .str "unset" => applySet "unset" op
  | .str "dissolve_group" => do return (← applyDissolveGroup op, op)
  | .str "freeze" => do return (← applyFreeze "freeze" op, op)
  | .str "unfreeze" => do return (← applyFreeze "unfreeze" op, op)
  | .str "effect_apply" => do return (← applyEffect "effect_apply" op, op)
  | .str "effect_revert" => do return (← applyEffect "effect_revert" op, op)
  | .str "sample" => do return (← applySample host depth op, op)
  | .str "command" => do return (← applyCommand op, op)
  | v => Exec.raise (valueError "unknown op %r" [v])

/-- `apply_op`, with the depth of the interpreter's stack.  Returns the id the
operation produced or touched, and the operation as it was recorded. -/
def applyOp (depth : ℕ) (op : Value) : Act (Value × Value) := do
  let what ← op.getItem (.str "op")
  let (out, op) ← branch host depth op what
  record host op
  return (out, op)

/-! ## Runs of a store -/

/-- What a client of a store does: apply an operation or pull a value. -/
inductive Action where
  | apply (depth : ℕ) (op : Value)
  | pull (depth : ℕ) (nid : Value)

/-- A store under its clients.  An operation that raises is a step too: it
leaves what it had written. -/
def machine : Machine Store Action where
  step s
    | .apply depth op => (applyOp host depth op s).2
    | .pull depth nid => (pull host depth nid none s).2

/-- The action returns. -/
def Accepted (s : Store) : Action → Prop
  | .apply depth op => (applyOp host depth op s).1.toOption.isSome = true
  | .pull depth nid => (pull host depth nid none s).1.toOption.isSome = true

instance (s : Store) : (a : Action) → Decidable (Accepted host s a)
  | .apply depth op => inferInstanceAs (Decidable ((applyOp host depth op s).1.toOption.isSome = true))
  | .pull depth nid =>
      inferInstanceAs (Decidable ((pull host depth nid none s).1.toOption.isSome = true))

/-- `add_node` of a node with the given body. -/
def addNodeOp (id kind : String) (body : Value) : Value :=
  dict [("op", .str "add_node"), ("node", dict [("id", .str id), ("kind", .str kind),
    ("title", .str ""), ("params", .dict []), ("body", body), ("relations", .list []),
    ("meta", dict [("seq", .int 0), ("created_at", .float 0), ("frozen", .bool false)])])]

/-- `add_node` of a value. -/
def addValueOp (id : String) (v : Value) : Value :=
  addNodeOp id "value" (dict [("floor", dict [("op", .str "value"), ("value", v)])])

end ArchHub.Table

import Mathlib
import ArchHub.Table.Store

/-!
# Pulling a value

`pull` is lazy and memoized.  The value of a node is computed by `compute` from
its kind and its floor: a relation conducts (`computeRelation`), a node with
members runs them (`computeGroup`), a floor primitive reads its inputs through
the wires that end at it.

The computation itself is written once, over what it does beside reading the
table (`Effects`) and over the recursive call.  With the store's own effects and
the memo it is `pull`; a pull is one recursion on the depth left of the
interpreter's stack, so that a graph deeper than that raises `RecursionError`,
as it does in Python.

`env` is the binding of a foreach or of a wire stage; a value computed under a
binding is not memoized.
-/

namespace ArchHub.Table

open Lib

/-- The binding a pull runs under, if any. -/
abbrev Env := Option Fields

/-- `dict(env or {}, item=v)`. -/
def bindItem (env : Env) (v : Value) : Env := some (Assoc.put (env.getD []) "item" v)

/-- What a computation does beside reading the table. -/
structure Effects (σ : Type) where
  /-- `self._computes[id] += 1`. -/
  count : Key → Exec σ Raised Unit
  /-- `self._held.get(id, NO_VALUE)`. -/
  heldValue : Key → Exec σ Raised Value
  /-- `self._held[id] = v`. -/
  hold : Key → Value → Exec σ Raised Unit
  /-- Whether a wire with this throttle conducted too short a time ago. -/
  throttled : ℤ → Key → Exec σ Raised Bool
  /-- Note when a wire with this throttle conducts. -/
  conducted : ℤ → Key → Exec σ Raised Unit
  /-- Label a relation: its place in the table, its id, the label. -/
  label : Key → Key → String → Exec σ Raised Unit
  /-- Ask the world outside. -/
  ask : String → List Value → Exec σ Raised Value
  /-- The dependency index. -/
  dependencies : Exec σ Raised Index

/-- The recursive call. -/
abbrev Pull (σ : Type) := Value → Env → Exec σ Raised Value

variable {σ : Type} (host : Host) (nodes : Nodes) (fx : Effects σ) (rec : Pull σ)

/-! ## Inputs -/

/-- The text of a value that is one. -/
def textOf? : Value → Option String
  | .str s => some s
  | _ => none

/-- `sorted(ids)`. -/
def sortIds (ids : List Value) : Except Raised (List Value) :=
  if ids.all Value.isStr then
    .ok (((ids.filterMap textOf?).insertionSort (fun a b => a ≤ b)).map .str)
  else if ids.length ≤ 1 then .ok ids
  else .error ⟨.typeError, "'<' not supported between instances", []⟩

/-- Whether `wid` is a relation one of whose targets is the node `id`. -/
def entersNode (nodes : Nodes) (id wid : Value) : Except Raised Bool := do
  match ← lookup nodes wid with
  | none => .ok false
  | some w =>
      if w.truthy then
        let kind ← w.getItem (.str "kind")
        if kind.pyEq (.str "wire") then
          let targets ← relationTargets nodes w
          .ok (targets.any (fun e => (entry e "node_id").pyEq id))
        else .ok false
      else .ok false

/-- `_incoming_wire_ids`. -/
def incomingWireIds (nodes : Nodes) (node : Value) : Except Raised (List Value) := do
  let relations ← node.getItem (.str "relations")
  let ids ← relations.iterate
  let id ← node.getItem (.str "id")
  let flags ← Check.collect (entersNode nodes id) ids
  sortIds (((ids.zip flags).filter Prod.snd).map Prod.fst)

/-- `_inputs`: what the incoming wires conduct, without those that conduct
nothing. -/
def inputs (node : Value) (env : Env) : Exec σ Raised (List Value) := do
  let ids ← incomingWireIds nodes node
  let values ← Exec.collect (fun w => rec w env) ids
  return values.filter (fun v => v ≠ .noValue)

/-- `_floor_val`: a floor field, or the parameter it was promoted to. -/
def floorVal (node raw : Value) (env : Env) : Exec σ Raised Value :=
  match raw with
  | .dict [(.str "$param", name)] => do
      let params ← node.getItem (.str "params")
      let pid ← params.getItem name
      rec pid env
  | _ => return raw

/-- A field of the floor that has to be there, through `_floor_val`. -/
def floorItem (node floor : Value) (k : String) (env : Env) : Exec σ Raised Value := do
  let raw ← floor.getItem (.str k)
  floorVal rec node raw env

/-- A field of the floor with a default, through `_floor_val`. -/
def floorGet (node floor : Value) (k : String) (default : Value) (env : Env) : Exec σ Raised Value := do
  let raw ← floor.getDefault k default
  floorVal rec node raw env

/-! ## Relations -/

/-- `WIRE_PARAMETER_DEFAULTS`. -/
def wireParameterDefaults : List (String × Value) :=
  [("enabled", .str "true"), ("lacing", .str "shortest"), ("tree", .str "none"),
    ("condition", .str ""), ("on_fail", .str "block"), ("throttle_ms", .str "0"),
    ("operation", .str "pass")]

/-- The default of a wire parameter. -/
def wireDefault (k : String) : Value := (Assoc.find wireParameterDefaults k).getD .none

/-- `_wire_param`. -/
def wireParam (nodes : Nodes) (node : Value) (k : String) : Except Raised Value := do
  let params ← node.getItem (.str "params")
  let pid ← params.getDefault k .none
  if pid.truthy then
    let param ← fetch nodes pid
    let body ← param.getDefault "body" (.dict [])
    let floor ← body.getDefault "floor" (.dict [])
    let op ← floor.getDefault "op" .none
    if op.pyEq (.str "value") then floor.getDefault "value" (wireDefault k)
    else .ok (wireDefault k)
  else .ok (wireDefault k)

/-- `v or default`. -/
def orElse (v : Value) (default : String) : Value := if v.truthy then v else .str default

/-- `_as_list`. -/
def asList : Value → List Value
  | .list xs => xs
  | v => [v]

mutual

/-- The leaves of nested lists, in order. -/
def leaves : Value → List Value
  | .list xs => leavesAll xs
  | v => [v]

/-- The leaves of each of some values, in order. -/
def leavesAll : List Value → List Value
  | [] => []
  | x :: xs => leaves x ++ leavesAll xs

end

/-- `while len(kept) == 1 and isinstance(kept[0], list): kept = kept[0]`. -/
def unwrap : List Value → List Value
  | [.list xs] => unwrap xs
  | kept => kept

mutual

/-- `_simplify_tree`. -/
def simplifyTree : Value → Value
  | .list xs => .list (unwrap ((simplifyAll xs).filter (fun c => c ≠ .list [])))
  | v => v

/-- `_simplify_tree` of each child. -/
def simplifyAll : List Value → List Value
  | [] => []
  | x :: xs => simplifyTree x :: simplifyAll xs

end

/-- `_restructure_wire_value`. -/
def restructureWireValue (tree : String) (v : Value) : Except Raised Value :=
  match tree with
  | "" => .ok v
  | "none" => .ok v
  | "flatten" => .ok (.list (leavesAll (asList v)))
  | "graft" => .ok (.list ((asList v).map (fun item => .list [item])))
  | "simplify" => .ok (simplifyTree (.list (asList v)))
  | _ => .error ⟨.valueError, "unknown wire data tree %r", [.str tree]⟩

/-- The rows of lists cut to the shortest, or filled to the longest by their
last item. -/
def rows (size : ℕ) (lists : List (List Value)) : List Value :=
  (List.range size).map (fun i =>
    .list (lists.map (fun items => items.getD i (items.getLast?.getD .none))))

/-- `_lace_wire_values`. -/
def laceWireValues (lacing : String) : List Value → Except Raised Value
  | [] => .ok .noValue
  | [v] => .ok v
  | values =>
      let lists := values.map asList
      match lacing with
      | "shortest" => .ok (.list (rows ((lists.map List.length).min?.getD 0) lists))
      | "longest" => .ok (.list (rows ((lists.map List.length).max?.getD 0) lists))
      | "cross product" =>
          .ok (.list ((lists.foldl (fun out items =>
            out.flatMap (fun row => items.map (fun item => row ++ [item]))) [[]]).map .list))
      | _ => .error ⟨.valueError, "unknown wire lacing %r", [.str lacing]⟩

/-- `_operate_wire_value`, by what stands before the operand. -/
def operateWireValue (operation : String) (v : Value) : Except Raised Value :=
  match String.ofList (operation.toList.takeWhile (fun c => c ≠ ':')) with
  | "pass" => .ok v
  | "first" => .ok ((asList v).headD .none)
  | "flatten" => .ok (.list (leavesAll (asList v)))
  | "count" => .ok (.int (asList v).length)
  | _ => host.operate operation v

/-- `_set_wire_state`: the label goes beside the table and into the node's
`meta`. -/
def setWireState (k : Key) (node : Value) (state : String) : Exec σ Raised Unit := do
  let id ← node.getItem (.str "id")
  let idKey ← id.hashed
  fx.label k idKey state
  let held ← node.getItem (.str "meta")
  let _ ← held.setItem (.str "state") (.str state)
  return ()

/-- Run the stages of a relation over a value.  `none` where a guard is shut. -/
def runStages (env : Env) : Value → List Fields → Exec σ Raised (Option Value)
  | v, [] => return some v
  | v, stage :: rest => do
      let stageId ← (Value.dict stage).getItem (.str "node_id")
      let stageValue ← rec stageId (bindItem env v)
      let mode ← (Value.dict stage).getItem (.str "mode")
      match mode with
      | .str "guard" => if stageValue.truthy then runStages env v rest else return none
      | .str "map" => runStages env stageValue rest
      | _ => runStages env v rest

/-- What a shut condition conducts. -/
def conductOnFail (onFail : String) (idKey : Key) : Exec σ Raised Value :=
  match onFail with
  | "pass empty" => return .list []
  | "pass last" => fx.heldValue idKey
  | "block" => return .noValue
  | _ => Exec.raise ⟨.valueError, "unknown wire on-block %r", [.str onFail]⟩

/-- The stages of a relation, and what it conducts after them. -/
def conduct (k idKey : Key) (node : Value) (env : Env) (throttleMs : ℤ) (v : Value) :
    Exec σ Raised Value := do
  let stages ← relationStages nodes node
  let out ← runStages rec env v stages
  match out with
  | none =>
      setWireState fx k node "waiting"
      fx.heldValue idKey
  | some v =>
      fx.hold idKey v
      fx.conducted throttleMs idKey
      setWireState fx k node "flowing"
      return v

/-- A wire's condition, and what the relation conducts under it. -/
def conductIf (k idKey : Key) (node : Value) (env : Env) (throttleMs : ℤ) (v : Value) :
    Exec σ Raised Value := do
  let condition ← wireParam nodes node "condition"
  let text := host.strip (host.text (orElse condition ""))
  if text = "" then conduct nodes fx rec k idKey node env throttleMs v
  else match host.conditionHolds text v with
  | none => Exec.raise ⟨.valueError, "wire condition %r is not supported", [.str text]⟩
  | some true => conduct nodes fx rec k idKey node env throttleMs v
  | some false =>
      setWireState fx k node "waiting"
      let onFail ← wireParam nodes node "on_fail"
      conductOnFail fx (host.strip (host.text (orElse onFail "block"))) idKey

/-- The milliseconds a wire is throttled by. -/
def throttleOf (node : Value) : Except Raised ℤ := do
  let throttle ← wireParam nodes node "throttle_ms"
  let text := host.strip (host.text (orElse throttle "0"))
  match host.int? (if text = "" then "0" else text) with
  | some n => .ok n
  | none => .error ⟨.valueError, "invalid literal for int() with base 10: %r", [.str text]⟩

/-- What the values of a relation's sources become on the way: laced,
restructured and operated on. -/
def carried (node : Value) (values : List Value) : Except Raised Value := do
  let lacing ← wireParam nodes node "lacing"
  let laced ← laceWireValues (host.strip (host.text lacing)) values
  let tree ← wireParam nodes node "tree"
  let shaped ← restructureWireValue (host.strip (host.text tree)) laced
  let operation ← wireParam nodes node "operation"
  let text := host.strip (host.text (orElse (.str (host.strip (host.text operation))) "pass"))
  operateWireValue host text shaped

/-- A relation that is neither blocked nor throttled reads its sources. -/
def readSources (k idKey : Key) (node : Value) (env : Env) (throttleMs : ℤ) :
    Exec σ Raised Value := do
  let sources ← relationSources nodes node
  let values ← Exec.collect (fun endpoint => do
    let participant ← liftM ((Value.dict endpoint).getItem (.str "node_id"))
    rec participant env) sources
  if values.isEmpty then
    Exec.raise ⟨.runtimeError, "relation node %s has no source endpoints", [field node "id"]⟩
  else
    let v ← carried host nodes node values
    conductIf host nodes fx rec k idKey node env throttleMs v

/-- `_compute_relation`. -/
def computeRelation (k : Key) (node : Value) (env : Env) : Exec σ Raised Value := do
  let id ← node.getItem (.str "id")
  let idKey ← id.hashed
  let enabled ← wireParam nodes node "enabled"
  if host.lower (host.strip (host.text enabled)) = "false" then do
    setWireState fx k node "blocked"
    return .noValue
  else
    let throttleMs ← throttleOf host nodes node
    let early ← fx.throttled throttleMs idKey
    if early then
      setWireState fx k node "waiting"
      fx.heldValue idKey
    else readSources host nodes fx rec k idKey node env throttleMs

/-! ## Groups -/

/-- `_deep_members`: the node and everything inside it, at any depth. -/
def deepMembers : ℕ → Value → List Key → Except Raised (List Key)
  | 0, _, _ => .error ⟨.recursionError, "maximum recursion depth exceeded", []⟩
  | depth + 1, nid, seen => do
      let k ← nid.hashed
      if k ∈ seen then .ok seen
      else
        let node ← fetch nodes nid
        let body ← node.getItem (.str "body")
        if ← body.contains (.str "inner") then
          let inner ← body.getItem (.str "inner")
          let members ← inner.iterate
          members.foldlM (fun seen c => deepMembers depth c seen) (seen ++ [k])
        else .ok (seen ++ [k])

/-- The edges of the dependency index that one node contributes. -/
def dependentsOf (nodes : Nodes) (nid : Key) (node : Value) :
    Except Raised (List (Key × Key)) := do
  let params ← node.getItem (.str "params")
  let parameters ← params.entriesOf
  let fromParams ← Check.collect (fun e => e.2.hashed) parameters
  let body ← node.getItem (.str "body")
  let floor ← body.getDefault "floor" .none
  let fromFloor ←
    if floor.truthy then
      Check.collect (fun k => do
        let dep ← floor.getDefault k .none
        match dep with
        | .str t => .ok (if nodes.contains (Key.str t) then [Key.str t] else [])
        | _ => .ok []) ["target", "sub"]
    else .ok []
  .ok ((fromParams ++ fromFloor.flatten).map (fun k => (k, nid)))

/-- The dependency index of a table. -/
def dependencyIndex (nodes : Nodes) : Except Raised Index := do
  let edges ← Check.collect (fun e => dependentsOf nodes e.1 e.2) nodes.entries
  .ok edges.flatten

/-- Whether a relation the member `m` feeds ends at a node that satisfies `p`. -/
def relationEnds (nodes : Nodes) (p : Key → Bool) (m : Key) (wid : Value) :
    Except Raised Bool := do
  match ← lookup nodes wid with
  | none => .ok false
  | some w =>
      if w.truthy then
        let kind ← w.getItem (.str "kind")
        if kind.pyEq (.str "wire") then
          let sources ← relationSources nodes w
          let targets ← relationTargets nodes w
          if sources.any (fun e => (entry e "node_id").pyEq (Value.ofKey m)) then
            Check.any (fun t => do
              let participant ← (Value.dict t).getItem (.str "node_id")
              let d ← participant.hashed
              .ok (p d)) targets
          else .ok false
        else .ok false
      else .ok false

/-- Whether some dependency pair that leaves the members (`_wires_from`) ends at
a node that satisfies `p`. -/
def anyEnd (nodes : Nodes) (index : Index) (p : Key → Bool) (members : List Key) :
    Except Raised Bool :=
  Check.any (fun m => do
    let node ← fetch nodes (Value.ofKey m)
    let relations ← node.getItem (.str "relations")
    let ids ← relations.iterate
    let hit ← Check.any (relationEnds nodes p m) ids
    .ok (hit || (index.next m).any p)) members

/-- The members of a group its value is made of: those with a dependency that
leaves the whole group, or, where nothing leaves, those that feed no other
member.  `scans` are the deep members of each member. -/
def groupOutputs (nodes : Nodes) (index : Index) (k : Key) (inner : List Value)
    (scans : List (List Key)) : Except Raised (List Value) := do
  let boundary := k :: scans.flatten
  let scanned := inner.zip scans
  let crossing ← Check.collect (fun e => anyEnd nodes index (fun d => d ∉ boundary) e.2) scanned
  if crossing.any id then
    .ok (((scanned.zip crossing).filter Prod.snd).map (fun e => e.1.1)).eraseDups
  else
    let feeding ← Check.collect
      (fun e => anyEnd nodes index (fun d => d ∈ boundary ∧ d ∉ e.2) e.2) scanned
    .ok (((scanned.zip feeding).filter (fun e => !e.2)).map (fun e => e.1.1)).eraseDups

/-- The dependency index, which a group with no member does not ask for. -/
def groupIndex (members : List Value) : Exec σ Raised Index :=
  if members.isEmpty then pure [] else fx.dependencies

/-- `_compute_group`. -/
def computeGroup (depth : ℕ) (node : Value) (env : Env) : Exec σ Raised Value := do
  let id ← node.getItem (.str "id")
  let idKey ← id.hashed
  let body ← node.getItem (.str "body")
  let inner ← body.getItem (.str "inner")
  let members ← inner.iterate
  let scans ← Check.collect (fun c => deepMembers nodes depth c []) members
  let index ← groupIndex fx members
  let outputs ← groupOutputs nodes index idKey members scans
  let values ← Exec.collect (fun o => rec o env) outputs
  match values with
  | [v] => return v
  | _ => return .list values

/-! ## Floor primitives -/

/-- `RuntimeError` about a node. -/
def runtimeError (text : String) (node : Value) : Raised :=
  ⟨.runtimeError, text, [field node "id"]⟩

/-- The one input of a node. -/
def oneInput (text : String) (node : Value) (env : Env) : Exec σ Raised Value := do
  let xs ← inputs nodes rec node env
  match xs with
  | [x] => return x
  | _ => Exec.raise (runtimeError text node)

/-- `env['item']`. -/
def itemOf (node : Value) : Env → Exec σ Raised Value
  | some es => match Assoc.find es "item" with
    | some v => return v
    | none => Exec.raise (runtimeError "item is unbound outside a foreach (node %s)" node)
  | none => Exec.raise (runtimeError "item is unbound outside a foreach (node %s)" node)

/-- What a reduction runs over: the items of the first input. -/
def reduced (xs : List Value) : List Value := asList (xs.headD (.list []))

/-- `value[path[0]][path[1]]…`, as long as the keys are there. -/
def readPath : Value → List Value → Except Raised (Option Value)
  | v, [] => .ok (some v)
  | .dict es, k :: ks => do
      let key ← k.hashed
      match Assoc.find es key with
      | some sub => readPath sub ks
      | none => .ok none
  | _, _ :: _ => .ok none

/-- `node['meta'].get('frozen')`. -/
def isFrozen (node : Value) : Except Raised Bool := do
  let held ← node.getItem (.str "meta")
  let frozen ← held.getDefault "frozen" .none
  .ok frozen.truthy

/-- What an effect node answers a pull: a plan, never a firing. -/
def computeEffect (node floor : Value) (env : Env) : Exec σ Raised Value :=
  if (floor.get? "target").isSome || (floor.get? "change").isSome then do
    let target ← floorGet rec node floor "target" .none env
    let change ← floorGet rec node floor "change" .none env
    let plan := dict [("target", target), ("change", change)]
    if ← isFrozen node then
      return dict [("fired", .bool false), ("dry_run", .bool true), ("plan", plan)]
    else return dict [("fired", .bool true), ("plan", plan)]
  else do
    let payload ← floorGet rec node floor "payload" .none env
    if ← isFrozen node then
      return dict [("fired", .bool false), ("dry_run", .bool true), ("payload", payload)]
    else return dict [("fired", .bool true), ("payload", payload)]

/-- What a tool answers. -/
def computeMcp (node floor : Value) (env : Env) : Exec σ Raised Value := do
  let effectful ← floorGet rec node floor "effectful" (.bool false) env
  let tool ← floorGet rec node floor "tool" .none env
  let args ← floorGet rec node floor "args" (.dict []) env
  let url ← floorGet rec node floor "url" .none env
  let timeout ← floorGet rec node floor "timeout" (.float 8) env
  if effectful.truthy && (← isFrozen node) then
    return dict [("fired", .bool false), ("dry_run", .bool true), ("tool", tool)]
  let result ← fx.ask "mcp" [tool, args, url, timeout]
  if effectful.truthy then return dict [("fired", .bool true), ("result", result)]
  else return result

/-- A reduction of the items of the first input. -/
def computeReduce (node floor : Value) (env : Env) : Exec σ Raised Value := do
  let xs ← inputs nodes rec node env
  let items := reduced xs
  let mode ← floorItem rec node floor "mode" env
  match mode with
  | .str "sum" => host.primitive "sum" [] items
  | .str "collect" => return .list items
  | .str "count" => return .int items.length
  | .str "argmax" =>
      let keyPath ← floorGet rec node floor "key_path" .none env
      let wherePath ← floorGet rec node floor "where_path" .none env
      let default ← floorGet rec node floor "default" .none env
      host.primitive "argmax" [keyPath, wherePath, default] items
  | _ => Exec.raise ⟨.valueError, "unknown reduce mode %r", [mode]⟩

/-- Many inputs merged into one. -/
def computeMerge (node floor : Value) (env : Env) : Exec σ Raised Value := do
  let xs ← inputs nodes rec node env
  let fn ← floorItem rec node floor "fn" env
  match fn with
  | .str "first" => match xs with
    | x :: _ => return x
    | [] => Exec.raise (runtimeError "merge/first node %s has no inputs" node)
  | .str "sum" => host.primitive "sum" [] xs
  | .str "concat" =>
      let lists ← Check.collect Value.iterate xs
      return .list lists.flatten
  | .str "list" => return .list xs
  | .str "record" =>
      let keys ← floorGet rec node floor "keys" .none env
      if keys.isList && decide (keys.items.length = xs.length) then
        let ks ← Check.collect Value.hashed keys.items
        return .dict ((ks.zip xs).foldl (fun es e => Assoc.put es e.1 e.2) [])
      else Exec.raise (runtimeError "merge/record node %s needs one key per input" node)
  | _ => Exec.raise ⟨.valueError, "unknown merge fn %r", [fn]⟩

/-- `_compute`, for a node with a floor. -/
def computeFloor (node floor : Value) (env : Env) : Exec σ Raised Value := do
  let op ← floor.getItem (.str "op")
  match op with
  | .str "value" => floorItem rec node floor "value" env
  | .str "item" => itemOf node env
  | .str "math" =>
      let xs ← inputs nodes rec node env
      Exec.refuse xs.isEmpty (runtimeError "math node %s has no inputs" node)
      let fn ← floorItem rec node floor "fn" env
      host.primitive "math" [fn] xs
  | .str "compare" =>
      let xs ← inputs nodes rec node env
      Exec.refuse (decide (xs.length ≠ 2))
        (runtimeError "compare node %s needs exactly 2 inputs, got %d" node)
      let cmp ← floorItem rec node floor "cmp" env
      host.primitive "compare" [cmp] xs
  | .str "reduce" => computeReduce host nodes rec node floor env
  | .str "foreach" =>
      let xs ← inputs nodes rec node env
      let items ← (xs.headD (.list [])).iterate
      let sub ← floor.getItem (.str "sub")
      let out ← Exec.collect (fun it => rec sub (bindItem env it)) items
      return .list out
  | .str "copy" => oneInput nodes rec "copy node %s needs exactly 1 input, got %d" node env
  | .str "merge" => computeMerge host nodes rec node floor env
  | .str "format" =>
      let template ← floorGet rec node floor "template" (.str "") env
      let xs ← inputs nodes rec node env
      host.primitive "format" [template] xs
  | .str "reference" => do
      let target ← floor.getItem (.str "target")
      rec target env
  | .str "field" =>
      let x ← oneInput nodes rec "field node %s needs exactly one input" node env
      let path ← floorGet rec node floor "path" .none env
      match ← readPath x (asList path) with
      | some v => return v
      | none => floorGet rec node floor "default" .none env
  | .str "mcp" => computeMcp fx rec node floor env
  | .str "codec" =>
      let x ← oneInput nodes rec "codec node %s needs exactly one input" node env
      let action ← floorGet rec node floor "action" .none env
      host.primitive "codec" [action] [x]
  | .str "aead" =>
      let x ← oneInput nodes rec "aead node %s needs exactly one input" node env
      let action ← floorGet rec node floor "action" .none env
      let keyRef ← floorGet rec node floor "key_ref" .none env
      let aad ← floorGet rec node floor "aad" (.str "") env
      fx.ask "aead" [action, keyRef, aad, x]
  | .str "host" =>
      let port ← floorGet rec node floor "port" .none env
      let code ← floorGet rec node floor "code" .none env
      fx.ask "host" [port, code]
  | .str "probe" =>
      let kind ← floorGet rec node floor "kind" .none env
      let spec ← floorGet rec node floor "spec" .none env
      fx.ask "probe" [kind, spec]
  | .str "probe_ok" =>
      let probe ← floor.getItem (.str "probe")
      let r ← rec probe env
      return .float (if r.isDict && (field r "ok").truthy then 1 else 0)
  | .str "secret_ref" => floor.getItem (.str "ref")
  | .str "effect" => computeEffect rec node floor env
  | .str "history" => floor.getItem (.str "entry")
  | _ => Exec.raise ⟨.valueError, "unknown floor op %r", [op]⟩

/-! ## Pull -/

/-- `_compute`. -/
def compute (depth : ℕ) (k : Key) (node : Value) (env : Env) : Exec σ Raised Value := do
  let id ← node.getItem (.str "id")
  let idKey ← id.hashed
  fx.count idKey
  let kind ← node.getItem (.str "kind")
  if kind.pyEq (.str "wire") then computeRelation host nodes fx rec k node env
  else
    let body ← node.getItem (.str "body")
    let opens ← body.contains (.str "inner")
    if opens then computeGroup nodes fx rec depth node env
    else
      let floor ← body.getItem (.str "floor")
      computeFloor host nodes fx rec node floor env

/-- Whether a node reads the live world, so that its value is never memoized. -/
def isVolatile (node : Value) : Except Raised Bool := do
  let body ← node.getItem (.str "body")
  let terminates ← body.contains (.str "floor")
  if terminates then
    let floor ← body.getItem (.str "floor")
    let op ← floor.getDefault "op" .none
    .ok (["probe", "probe_ok", "host", "mcp"].any (fun o => op.pyEq (.str o)))
  else .ok false

/-- The next reading of the world. -/
def tick : Exec Caches Raised ℕ := do
  let n ← Exec.read Caches.ticks
  Exec.write (fun c => { c with ticks := c.ticks + 1 })
  return n

/-- What a computation does to the caches of a store with this table. -/
def storeEffects : Effects Caches where
  count id := Exec.write (fun c =>
    { c with computes := c.computes.set id ((c.computes.get? id).getD 0 + 1) })
  heldValue id := Exec.read (fun c => (c.held.get? id).getD .noValue)
  hold id v := Exec.write (fun c => { c with held := c.held.set id v })
  throttled throttleMs id :=
    if 0 < throttleMs then do
      let n ← tick
      let last ← Exec.read (fun c => c.wireLastAt.get? id)
      return last.any (fun before => decide ((host.time n - before) * 1000 < throttleMs))
    else return false
  conducted throttleMs id :=
    if 0 < throttleMs then do
      let n ← tick
      Exec.write (fun c => { c with wireLastAt := c.wireLastAt.set id (host.time n) })
    else return ()
  label k id state := Exec.write (fun c =>
    { c with wireState := c.wireState.set id (.str state), labels := c.labels ++ [(k, state)] })
  ask what shown := do
    let n ← tick
    let v ← host.outside what shown n
    return v
  dependencies := do
    let built ← Exec.read Caches.dependencyOut
    match built with
    | some index => return index
    | none =>
        let index ← dependencyIndex nodes
        Exec.write (fun c => { c with dependencyOut := some index })
        return index

/-- Compute a value, and memoize what may be memoized. -/
def fresh (rec : Pull Caches) (depth : ℕ) (k : Key) (node : Value) (env : Env) (live : Bool) :
    Exec Caches Raised Value := do
  let v ← compute host nodes (storeEffects host nodes) rec depth k node env
  if env.isNone && !live then do
    Exec.write (fun c => { c with memo := c.memo.set k v })
    return v
  else return v

/-- `pull` on a table, over the caches. -/
def pullIn : ℕ → Pull Caches
  | 0 => fun _ _ => Exec.raise ⟨.recursionError, "maximum recursion depth exceeded", []⟩
  | depth + 1 => fun nid env => do
      let node ← fetch nodes nid
      let k ← nid.hashed
      let live ← isVolatile node
      let memo ← Exec.read (fun c => c.memo.get? k)
      match memo with
      | some v =>
          if env.isNone && !live then return v
          else fresh host nodes (pullIn depth) depth k node env live
      | none => fresh host nodes (pullIn depth) depth k node env live

/-- `node['meta']['state'] = state`. -/
def relabel (nodes : Nodes) (e : Key × String) : Nodes :=
  match nodes.get? e.1 with
  | some node => nodes.set e.1 (node.put "meta" ((field node "meta").put "state" (.str e.2)))
  | none => nodes

/-- `pull`, with a depth of the interpreter's stack.  Whether it returns or
raises, the relations it labelled stay labelled. -/
def pull (depth : ℕ) (nid : Value) (env : Env) : Act Value := fun s =>
  let r := pullIn host s.nodes depth nid env { s.caches with labels := [] }
  (r.1, { s with nodes := r.2.labels.foldl relabel s.nodes, caches := r.2 })

end ArchHub.Table

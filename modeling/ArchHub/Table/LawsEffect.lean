import Mathlib
import ArchHub.Lib.Undo
import ArchHub.Table.History

/-!
# Effects on a sink

An effect node plans a change of a sink, which is outside of the table.  Applying the effect
makes the change and records a token; reverting it puts back what the token says.  The
tokens are history nodes and are read back from the table.

* `applyTokens`, `liveToken`: the tokens of an effect node, and the one to be reverted.
* `applyEffect`, `revertEffect`: the two laws, over a table and a sink.
* `Deed`, `effects`: a table, one effect node and one sink under their clients.

The names of the source are those of the branches of `apply_op` too, so the laws stand in a
namespace of their own.
-/

namespace ArchHub.Table.LawsEffect

open Lib

/-- A table, and a sink. -/
structure World where
  store : Store
  sink : Dict Key Value

/-- A computation on a table and a sink. -/
abbrev Law (α : Type) := Exec World Raised α

/-- A computation of the store. -/
def onStore {α : Type} (m : Act α) : Law α := fun w =>
  let r := m w.store
  (r.1, { w with store := r.2 })

variable (host : Host)

/-! ## The plan and the gates -/

/-- `_effect_floor`. -/
def effectFloor (id : Value) : Law Value := do
  let node ← onStore (nodeAt id)
  let body ← node.getItem (.str "body")
  let noEffect := valueError "laws_effect: %s is not an effect node" [id]
  let terminates ← body.contains (.str "floor")
  Exec.refuse (!terminates) noEffect
  let floor ← body.getItem (.str "floor")
  let op ← floor.getDefault "op" .none
  Exec.refuse (!op.pyEq (.str "effect")) noEffect
  let targeted ← floor.contains (.str "target")
  Exec.refuse (!targeted) (valueError
    "laws_effect: effect %s has no target (need target/change to mutate a sink)" [id])
  return floor

/-- `_plan`. -/
def plan (depth : ℕ) (id : Value) : Law Value := do
  let marker ← onStore (pull host depth id none)
  marker.getItem (.str "plan")

/-- What the sources of a relation give, one pulled after the other. -/
def pullSources (depth : ℕ) : List Fields → Law (List Value) :=
  Exec.collect fun endpoint => do
    let participant ← liftM ((Value.dict endpoint).getItem (.str "node_id"))
    onStore (pull host depth participant none)

/-- What the guards of a relation are asked about. -/
def guardItem : List Value → Value
  | [v] => v
  | values => .list values

/-- The guards among the stages of a relation. -/
def guardsOf (stages : List Fields) : List Fields :=
  stages.filter fun stage => (entry stage "mode").pyEq (.str "guard")

/-- Whether one of the ends of a relation is the node. -/
def endsAt (id : Value) (targets : List Fields) : Bool :=
  targets.any fun e => (entry e "node_id").pyEq id

/-- The guards of a relation are pulled under an item, one after the other. -/
def assertGuards (depth : ℕ) (id item : Value) : List Fields → Law PUnit
  | [] => return ⟨⟩
  | guard :: guards => do
      let guardId ← (Value.dict guard).getItem (.str "node_id")
      let passes ← onStore (pull host depth guardId (some [(.str "item", item)]))
      Exec.refuse (!passes.truthy)
        ⟨.frozenNode, "apply_effect: %s computed guard %s is closed", [id, guardId]⟩
      assertGuards depth id item guards

/-- The guards of a relation of the node. -/
def assertRelation (depth : ℕ) (id relation : Value) : Law PUnit := do
  let targets ← onStore (Exec.look fun s => relationTargets s.nodes relation)
  Exec.onlyIf (endsAt id targets) do
    let stages ← onStore (Exec.look fun s => relationStages s.nodes relation)
    Exec.onlyIf (!(guardsOf stages).isEmpty) do
      let sources ← onStore (Exec.look fun s => relationSources s.nodes relation)
      let values ← pullSources host depth sources
      assertGuards host depth id (guardItem values) (guardsOf stages)

/-- The guards of one relation that the node names, if it is one. -/
def assertNamed (depth : ℕ) (id relationId : Value) : Law PUnit := do
  let held ← onStore (nodeAt? relationId)
  match held with
  | none => return ⟨⟩
  | some relation =>
      Exec.onlyIf relation.truthy do
        let kind ← relation.getItem (.str "kind")
        Exec.onlyIf (kind.pyEq (.str "wire")) (assertRelation host depth id relation)

/-- `_assert_computed_guards`. -/
def assertComputedGuards (depth : ℕ) (id : Value) : Law PUnit := do
  let node ← onStore (nodeAt id)
  let relations ← node.getItem (.str "relations")
  let ids ← relations.iterate
  Exec.each (assertNamed host depth id) ids

/-! ## Tokens -/

/-- The token of an effect node that the node under a key records, if it does. -/
def tokenAt (nodes : Nodes) (id nid : Value) : Except Raised (Option Value) := do
  let n ← fetch nodes nid
  let kind ← n.getItem (.str "kind")
  if kind.pyEq (.str "history") then do
    let body ← n.getItem (.str "body")
    let floor ← body.getItem (.str "floor")
    let token ← floor.getItem (.str "entry")
    let op ← token.getDefault "op" .none
    if op.pyEq (.str "effect_apply") || op.pyEq (.str "effect_revert") then do
      let effect ← token.getDefault "effect" .none
      return if effect.pyEq id then some token else none
    else return none
  else return none

/-- `_apply_tokens`: the tokens of an effect node, in the order of the ids. -/
def applyTokens (nodes : Nodes) (id : Value) : Except Raised (List Value) := do
  let ids ← sortIds (nodes.keys.map Value.ofKey)
  let tokens ← Check.collect (tokenAt nodes id) ids
  return tokens.filterMap fun token => token

/-- What a token makes of the one that is live. -/
def follow (live : Option Value) (token : Value) : Option Value :=
  if (field token "op").pyEq (.str "effect_apply") then some token
  else if (field token "op").pyEq (.str "effect_revert") then none
  else live

/-- `_live_token`. -/
def liveToken (nodes : Nodes) (id : Value) : Except Raised (Option Value) := do
  let tokens ← applyTokens nodes id
  return tokens.foldl follow none

/-! ## The laws -/

/-- The token of an apply that finds its change made. -/
def satisfiedOp (id target change actor : Value) : Value :=
  dict [("op", .str "effect_apply"), ("effect", id), ("target", target), ("before", change),
    ("after", change), ("fired", .bool false), ("idempotent", .bool true), ("actor", actor)]

/-- The token of an apply that makes its change. -/
def firedOp (id target change actor : Value) (before : Option Value) : Value :=
  dict [("op", .str "effect_apply"), ("effect", id), ("target", target),
    ("before", before.getD .none), ("before_missing", .bool before.isNone), ("after", change),
    ("fired", .bool true), ("actor", actor)]

/-- The token of a revert. -/
def revertOp (id target actor : Value) (restored : Option Value) : Value :=
  dict [("op", .str "effect_revert"), ("effect", id), ("target", target),
    ("restored", restored.getD .none), ("restored_missing", .bool restored.isNone),
    ("actor", actor)]

/-- `apply_effect`. -/
def applyEffect (depth : ℕ) (id actor : Value) : Law Value := do
  let node ← onStore (nodeAt id)
  let frozen ← isFrozen node
  Exec.refuse frozen
    ⟨.frozenNode, "apply_effect: %s is frozen -- unfreeze deliberately before firing", [id]⟩
  assertComputedGuards host depth id
  let _ ← effectFloor id
  let planned ← plan host depth id
  let target ← planned.getItem (.str "target")
  let change ← planned.getItem (.str "change")
  let k ← target.hashed
  let before ← Exec.read fun w => w.sink.get? k
  if before.any fun v => v.pyEq change then do
    let _ ← onStore (applyOp host depth (satisfiedOp id target change actor))
    return dict [("fired", .bool false), ("idempotent", .bool true), ("target", target),
      ("before", change), ("after", change)]
  else do
    Exec.write fun w => { w with sink := w.sink.set k change }
    let _ ← onStore (applyOp host depth (firedOp id target change actor before))
    return dict [("fired", .bool true), ("idempotent", .bool false), ("target", target),
      ("before", before.getD .none), ("before_missing", .bool before.isNone), ("after", change)]

/-- `sink[target] = restored`, or `del sink[target]`. -/
def putBack (k : Key) (restored : Option Value) (w : World) : World :=
  { w with sink := match restored with
    | some v => w.sink.set k v
    | none => w.sink.erase k }

/-- What the sink held before an apply, by its token. -/
def beforeOf (token : Value) : Except Raised (Option Value) := do
  let missing ← token.getDefault "before_missing" .none
  if missing.truthy then return none
  else return some (← token.getItem (.str "before"))

/-- `revert_effect`. -/
def revertEffect (depth : ℕ) (id actor : Value) : Law Value := do
  let _ ← effectFloor id
  match ← onStore (Exec.look fun s => liveToken s.nodes id) with
  | none => Exec.raise (valueError "revert_effect: %s has no applied effect to revert" [id])
  | some token => do
      let target ← token.getItem (.str "target")
      let before ← beforeOf token
      let k ← target.hashed
      Exec.write (putBack k before)
      let _ ← onStore (applyOp host depth (revertOp id target actor before))
      return dict [("reverted", .bool true), ("target", target),
        ("restored", before.getD .none), ("restored_missing", .bool before.isNone)]

/-! ## Courses -/

/-- A table and a sink, and what was done to the sink. -/
structure Course where
  world : World
  log : List (Undo.Event Key Value)

/-- What is done with a table, an effect node and a sink. -/
inductive Deed where
  /-- An operation of a client, such as an edit of the target or of the change. -/
  | edit (depth : ℕ) (op : Value)
  | pull (depth : ℕ) (v : Value)
  | apply (depth : ℕ) (actor : Value)
  | revert (depth : ℕ) (actor : Value)

/-- What an apply has done, by what it returned and what the sink held before. -/
def applied (sink : Dict Key Value) : Except Raised Value → List (Undo.Event Key Value)
  | .ok result =>
      if (field result "fired").truthy then
        ((field result "target").key?.map fun k => .fired ⟨k, sink.get? k⟩).toList
      else [.satisfied]
  | .error _ => []

/-- What a revert has done, by what it returned. -/
def reverted : Except Raised Value → List (Undo.Event Key Value)
  | .ok _ => [.reverted]
  | .error _ => []

/-- A table, an effect node and a sink under their clients. -/
def effects (id : String) : Machine Course Deed where
  step c
    | .edit depth op => { c with world := (onStore (applyOp host depth op) c.world).2 }
    | .pull depth v => { c with world := (onStore (pull host depth v none) c.world).2 }
    | .apply depth actor =>
        let r := applyEffect host depth (.str id) actor c.world
        ⟨r.2, c.log ++ applied c.world.sink r.1⟩
    | .revert depth actor =>
        let r := revertEffect host depth (.str id) actor c.world
        ⟨r.2, c.log ++ reverted r.1⟩

end ArchHub.Table.LawsEffect

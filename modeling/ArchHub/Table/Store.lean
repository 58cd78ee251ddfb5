import Mathlib
import ArchHub.Lib.Exec
import ArchHub.Lib.Graph
import ArchHub.Table.Node

/-!
# The store around the one table

A `Store` is the table and the values and counters kept beside it: the memo,
the values wires hold, the labels of the wires, and two disposable indexes.
Those a pull touches are its `Caches`; a pull writes nothing else, but for the
label of a relation, which also goes into the relation's `meta`.  No pull reads
that label, so the labels are collected and written into the table when the
pull ends.

* `Host` is what the engine asks of Python's arithmetic and text and of the
  world outside; the theorems hold for every host.
* `freshId`: the id the next node gets, which is never one of the table's.
* `invalidate`: forget the memoized values of everything that depends on the
  seeds, along a reverse index that is rebuilt only when it was dropped.
-/

namespace ArchHub.Table

open Lib

/-- What the engine asks of Python's own arithmetic and text, and of the world. -/
structure Host where
  /-- The clock at its n-th reading. -/
  time : ℕ → ℚ
  /-- `str(v)`. -/
  text : Value → String
  /-- `int(text)`, where it parses. -/
  int? : String → Option ℤ
  /-- `text.strip()`. -/
  strip : String → String
  /-- `text.lower()`. -/
  lower : String → String
  /-- `_condition_holds`: whether a wire's condition holds of a value. -/
  conditionHolds : String → Value → Option Bool
  /-- The arithmetic of a wire's operation: scale, clamp, round. -/
  operate : String → Value → Except Raised Value
  /-- The arithmetic and formatting of a floor primitive on its fields and its
  inputs. -/
  primitive : String → List Value → List Value → Except Raised Value
  /-- What the world answers a probe, a host, a tool or a cipher at its n-th
  reading. -/
  outside : String → List Value → ℕ → Except Raised Value

/-- A host without a world: the clock counts its readings, texts are taken as
they stand, and the only arithmetic is the sum of integers. -/
def Host.bare : Host where
  time n := n
  text
    | .str t => t
    | .int n => toString n
    | .bool b => if b then "True" else "False"
    | _ => "None"
  int? t := t.toInt?
  strip t := t
  lower t := t
  conditionHolds _ _ := none
  operate operation v := .error ⟨.valueError, operation, [v]⟩
  primitive
    | "math", [.str "+"], xs =>
        if xs.all (fun x => match x with | .int _ => true | _ => false) then
          .ok (.int (xs.map (fun x => match x with | .int n => n | _ => 0)).sum)
        else .error ⟨.typeError, "unsupported operand", xs⟩
    | op, _, xs => .error ⟨.valueError, op, xs⟩
  outside what shown _ := .error ⟨.valueError, what, shown⟩

/-- A disposable index: which node is to be looked at when another changes. -/
abbrev Index := List (Key × Key)

/-- `index.get(k, ())`. -/
def Index.next (index : Index) (k : Key) : List Key :=
  (index.filter (fun e => e.1 = k)).map Prod.snd

/-- The values and counters a pull keeps beside the table. -/
structure Caches where
  /-- The memoized values. -/
  memo : Dict Key Value
  /-- How often each node was computed. -/
  computes : Dict Key ℕ
  /-- What each wire conducted last. -/
  held : Dict Key Value
  /-- The label of each wire. -/
  wireState : Dict Key Value
  /-- When each throttled wire conducted last. -/
  wireLastAt : Dict Key ℚ
  /-- The dependency index, when it is built. -/
  dependencyOut : Option Index
  /-- How often the world outside was read. -/
  ticks : ℕ
  /-- The labels a pull under way has put on relations, oldest first. -/
  labels : List (Key × String)

/-- Nothing kept. -/
def Caches.empty : Caches :=
  ⟨Dict.empty, Dict.empty, Dict.empty, Dict.empty, Dict.empty, none, 0, []⟩

/-- The one table, and the values and counters beside it. -/
structure Store where
  /-- The one table. -/
  nodes : Nodes
  /-- What pulls keep. -/
  caches : Caches
  /-- The reverse dependency index, when it is built. -/
  invalidationOut : Option Index
  /-- The id counter. -/
  seq : ℕ

/-- A computation of the store. -/
abbrev Act (α : Type) := Exec Store Raised α

/-- The store with nothing in it. -/
def Store.empty : Store := ⟨Dict.empty, Caches.empty, none, 0⟩

/-- The memo with `f` applied to it. -/
def Store.withMemo (f : Dict Key Value → Dict Key Value) (s : Store) : Store :=
  { s with caches := { s.caches with memo := f s.caches.memo } }

/-- Store a node under a key. -/
def Store.putNode (k : Key) (node : Value) (s : Store) : Store :=
  { s with nodes := s.nodes.set k node }

/-- `self.nodes[v]`. -/
def nodeAt (v : Value) : Act Value := Exec.look (fun s => fetch s.nodes v)

/-- `self.nodes.get(v)`. -/
def nodeAt? (v : Value) : Act (Option Value) := Exec.look (fun s => lookup s.nodes v)

/-- Store a node under a key. -/
def putNode (k : Key) (node : Value) : Act Unit := Exec.write (Store.putNode k node)

/-- `time.time()`, `time.monotonic()`. -/
def readClock (host : Host) : Act ℚ := do
  let n ← Exec.read (fun s => s.caches.ticks)
  Exec.write (fun s => { s with caches := { s.caches with ticks := s.caches.ticks + 1 } })
  return host.time n

/-! ## Ids -/

/-- The decimal digits of a number, last one first, filled up with zeros. -/
def paddedDigits (width n : ℕ) : List ℕ :=
  Nat.digits 10 n ++ List.replicate (width - (Nat.digits 10 n).length) 0

/-- `'%0wd' % n`. -/
def padded (width n : ℕ) : String :=
  String.ofList ((paddedDigits width n).map Nat.digitChar).reverse

/-- `'n%06d' % n`. -/
def idOf (n : ℕ) : String := "n" ++ padded 6 n

/-- The first counter value from `seq` on whose id is not in the table. -/
def nextSeq (nodes : Nodes) : ℕ → ℕ → ℕ
  | 0, seq => seq
  | fuel + 1, seq =>
      if nodes.contains (idOf seq) then nextSeq nodes fuel (seq + 1) else seq

/-- The counter value the next id is minted from.  Among one more value than the
table has nodes, one is free. -/
def freshSeq (s : Store) : ℕ := nextSeq s.nodes s.nodes.size s.seq

/-- `_next_id`. -/
def nextId : Act String := do
  let n ← Exec.read freshSeq
  Exec.write (fun s => { s with seq := n + 1 })
  return idOf n

/-- A dictionary literal. -/
def dict (es : List (String × Value)) : Value := .dict (es.map (fun e => (Key.str e.1, e.2)))

/-- `_blank`: a node with a minted id. -/
def blank (host : Host) (kind : String) (title : Value) (params : Fields) (body : Value)
    (frozen : Bool) : Act (String × Value) := do
  let id ← nextId
  let seq ← Exec.read Store.seq
  let createdAt ← readClock host
  return (id, dict [
    ("id", .str id),
    ("kind", .str kind),
    ("title", title),
    ("params", .dict params),
    ("body", body),
    ("relations", .list []),
    ("meta", dict [("seq", .int (seq - 1)), ("created_at", .float createdAt),
      ("frozen", .bool frozen)])])

/-! ## Incidence -/

/-- `relation_id not in participant['relations']`, then append it. -/
def attachTo (relationId : Value) (k : Key) (participant : Value) : Act Unit := do
  let relations ← participant.getItem (.str "relations")
  let there ← relations.contains relationId
  if there then pure ()
  else match relations with
    | .list xs => putNode k (participant.put "relations" (.list (xs ++ [relationId])))
    | _ => Exec.raise ⟨.attributeError, "object has no attribute 'append'", [relations]⟩

/-- Attach a relation to the node a value names, if it is there. -/
def attachNamed (relationId v : Value) : Act Unit := do
  let participant ← nodeAt? v
  match participant, v.key? with
  | some node, some k => attachTo relationId k node
  | _, _ => pure ()

/-- `_attach_relation_incidence`. -/
def attachRelationIncidence (relationId : String) : Act Unit := do
  let relation ← nodeAt (.str relationId)
  let endpoints ← Exec.look (fun s => relationEndpoints s.nodes relation)
  Exec.each (fun endpoint => attachNamed (.str relationId) (entry endpoint "node_id")) endpoints

/-- The relation that has `endpointId` among its parameters, if any. -/
def ownerIn (endpointId : Value) : List (Key × Value) → Except Raised (Option Key)
  | [] => .ok none
  | (k, node) :: rest => do
      let kind ← node.getDefault "kind" .none
      if kind.pyEq (.str "wire") then
        let params ← node.getDefault "params" (.dict [])
        match params with
        | .dict es =>
            if (es.map Prod.snd).any endpointId.pyEq then .ok (some k)
            else ownerIn endpointId rest
        | _ => .error ⟨.attributeError, "object has no attribute 'values'", [params]⟩
      else ownerIn endpointId rest

/-- `_relation_owner_for_endpoint`. -/
def relationOwnerForEndpoint (endpointId : Value) : Act (Option Key) :=
  Exec.look (fun s => ownerIn endpointId s.nodes.entries)

/-! ## Invalidation -/

/-- `depend(source, target)`: an edge between two different nodes of the table. -/
def depend (nodes : Nodes) (source target : Value) : Except Raised (List (Key × Key)) := do
  let s ← source.hashed
  if (nodes.get? s).isSome then
    let t ← target.hashed
    if (nodes.get? t).isSome && decide (s ≠ t) then .ok [(s, t)] else .ok []
  else .ok []

/-- The floor fields that name another node. -/
def floorReferences : List String := ["from", "target", "sub", "gate"]

/-- The edges of a node's members. -/
def memberDependencies (nodes : Nodes) (id body : Value) : Except Raised (List (List (Key × Key))) := do
  let inner ← body.getItem (.str "inner")
  let members ← inner.iterate
  Check.collect (fun c => depend nodes c id) members

/-- The edge of one reference of a floor. -/
def referenceDependency (nodes : Nodes) (id floor : Value) (k : String) :
    Except Raised (List (Key × Key)) := do
  let reference ← floor.getDefault k .none
  if reference.isStr then depend nodes reference id else .ok []

/-- The edges of a node's floor. -/
def floorDependencies (nodes : Nodes) (id body : Value) : Except Raised (List (List (Key × Key))) := do
  let floor ← body.getItem (.str "floor")
  Check.collect (referenceDependency nodes id floor) floorReferences

/-- The edges of a relation's endpoints. -/
def wireDependencies (nodes : Nodes) (id node : Value) : Except Raised (List (List (Key × Key))) := do
  let sources ← relationSources nodes node
  let ins ← Check.collect (fun e => depend nodes (entry e "node_id") id) sources
  let targets ← relationTargets nodes node
  let outs ← Check.collect (fun e => depend nodes id (entry e "node_id")) targets
  .ok (ins ++ outs)

/-- The edges of the reverse dependency index that one node contributes. -/
def dependenciesOf (nodes : Nodes) (nid : Key) (node : Value) :
    Except Raised (List (Key × Key)) := do
  let body ← node.getItem (.str "body")
  let params ← node.getItem (.str "params")
  let id := Value.ofKey nid
  let parameters ← params.entriesOf
  let fromParams ← Check.collect (fun e => depend nodes e.2 id) parameters
  let opens ← body.contains (.str "inner")
  let fromBody ← (if opens then memberDependencies else floorDependencies) nodes id body
  let kind ← node.getItem (.str "kind")
  let fromWire ← (if kind.pyEq (.str "wire") then wireDependencies nodes id node else .ok [])
  .ok (fromParams.flatten ++ fromBody.flatten ++ fromWire.flatten)

/-- The reverse dependency index of a table. -/
def invalidationIndex (nodes : Nodes) : Except Raised Index := do
  let edges ← Check.collect (fun e => dependenciesOf nodes e.1 e.2) nodes.entries
  .ok edges.flatten

/-- `_ensure_invalidation_index`. -/
def ensureInvalidationIndex : Act Index := do
  let held ← Exec.read Store.invalidationOut
  match held with
  | some index => return index
  | none =>
      let index ← Exec.look (fun s => invalidationIndex s.nodes)
      Exec.write (fun s => { s with invalidationOut := some index })
      return index

/-- What the seeds dirty: everything reached from them along the index. -/
def dirtyFrom (index : Index) (seeds : List Key) : List Key :=
  Graph.closure index.next (index.map Prod.snd) seeds

/-- `_invalidate`. -/
def invalidate (seeds : List Value) : Act Unit := do
  let memo ← Exec.read (fun s => s.caches.memo)
  if memo.entries.isEmpty then pure ()
  else
    let index ← ensureInvalidationIndex
    let ks ← Check.collect Value.hashed seeds
    Exec.write (Store.withMemo ((dirtyFrom index ks).foldl Dict.erase))

end ArchHub.Table

import Mathlib
import ArchHub.Cloud.Table

/-!
# Deltas in, deltas out

The cloud keeps one private replica a user, and one shared replica for each firm
and community, in a directory named after its safe key.

* `applyDelta`: `apply_delta` — the fragments of a delta merge into the replica it
  is applied to; those of a shared scope go to the shared replicas the caller is a
  member of.
* `exportDelta`: `export_delta` — the rows past a cursor, of the caller's own
  replica and the shared ones of its keys.
* `brainSync`, `upsertFragment`, `patchFragment`: the requests of the server.

The server runs one worker process, and its handler of a sync request does not
wait after it has read the body: requests come one after the other.
-/

namespace ArchHub.Cloud

open Lib

/-! ## The databases -/

/-- Where a fragment of a delta goes. -/
inductive Route where
  | here
  | firm (key : String)
  | community (key : String)
deriving DecidableEq, Repr

/-- A database: of a user, or shared under a directory's name. -/
inductive Place where
  | own (user : String)
  | firm (dir : String)
  | community (dir : String)
deriving DecidableEq, Repr

/-- All databases. -/
abbrev Databases := Dict Place BrainReplica

/-- The replica at a place, as `open` finds or creates it. -/
def Databases.replica (c : Databases) (p : Place) : BrainReplica := (c.get? p).getD BrainReplica.empty

/-- An opened `BrainReplica`. -/
structure Opened where
  place : Place
  userId : String
  ownerForce : Bool
  firmKeys : List String
  communityKeys : List String

/-- A delta; an entry that is no object is `none`. -/
structure Delta where
  fragments : List (Option Fragment)
  wiring : List (Option Wire)
deriving DecidableEq

/-- What the server's clock says during a request: `_hlc_now()` in each replica it
applies to, and the time of the rows it writes. -/
structure Clock where
  tick : Route → String
  stamp : String

/-! ## `apply_delta` -/

/-- What the transaction of `apply_delta` has gathered. -/
structure Merge where
  table : Table
  accepted : ℤ
  rejected : List (Option String × String)
  maxHlc : String
  firmRoutes : Dict String (List Fragment)
  communityRoutes : Dict String (List Fragment)

/-- A fragment is rejected. -/
def Merge.reject (m : Merge) (id : Option String) (reason : String) : Merge :=
  { m with rejected := m.rejected ++ [(id, reason)] }

/-- A fragment is taken, with its clock. -/
def Merge.take (m : Merge) (hlc : String) : Merge :=
  { m with accepted := m.accepted + 1, maxHlc := max m.maxHlc hlc }

/-- `routes.setdefault(key, []).append(frag)`. -/
def append (routes : Dict String (List Fragment)) (key : String) (frag : Fragment) :
    Dict String (List Fragment) := routes.set key ((routes.get? key).getD [] ++ [frag])

/-- The owner a row is written with. -/
def Opened.owner (o : Opened) (frag : Fragment) : String :=
  if o.ownerForce then o.userId else orElse frag.ownerUser o.userId

variable (host : Host)

/-- A fragment of a shared scope, on a private replica. -/
def absorbShared (o : Opened) (m : Merge) (frag : Fragment) (fid hlc : String) : Merge :=
  if routedScope host frag = "firm" then
    match given frag.firmId with
    | none => m.reject (some fid) "firm scope fragment missing firm_id"
    | some key =>
        if key ∈ o.firmKeys then
          { m.take hlc with firmRoutes := append m.firmRoutes key frag }
        else m.reject (some fid) "firm scope fragment names a firm this caller is not a member of"
  else
    match communityKeyOf host frag with
    | none => m.reject (some fid) "community fragment missing community_id"
    | some key => { m.take hlc with communityRoutes := append m.communityRoutes key frag }

/-- A fragment that is written where it is. -/
def absorbHere (o : Opened) (stamp : String) (m : Merge) (frag : Fragment) (fid hlc : String) :
    Merge :=
  { m.take hlc with table := writeRow (o.owner frag) stamp fid hlc frag m.table }

/-- One entry of `delta["fragments"]`. -/
def absorb (o : Opened) (tick stamp : String) (m : Merge) : Option Fragment → Merge
  | none => m.reject none "not an object"
  | some frag =>
      match fragmentHasSecret host frag with
      | some reason => m.reject frag.id ("secret_blocked: " ++ reason)
      | none => match given frag.id with
        | none => m.reject none "missing id"
        | some fid =>
            if o.ownerForce && sharedScope (routedScope host frag) then
              absorbShared host o m frag fid (orElse frag.hlc tick)
            else absorbHere o stamp m frag fid (orElse frag.hlc tick)

/-- The fragments of a delta, in the transaction of the replica. -/
def merge (o : Opened) (tick stamp : String) (fragments : List (Option Fragment))
    (r : BrainReplica) : Merge :=
  fragments.foldl (absorb host o tick stamp)
    ⟨r.fragments, 0, [], r.watermark, Dict.empty, Dict.empty⟩

/-- One entry of `delta["wiring"]`. -/
def absorbWire (stamp : String) (t : Dict (String × String) WireRow) :
    Option Wire → Dict (String × String) WireRow
  | none => t
  | some w => match given w.name, given w.deviceId with
    | some name, some device =>
        t.set (name, device) ⟨orElse w.kind "mcp", orElse w.endpoint "", orElse w.status "active",
          stamp⟩
    | _, _ => t

/-- `apply_delta` on a shared replica. -/
def applyShared (place : Place) (name tick stamp : String) (frags : List Fragment)
    (c : Databases) : Databases :=
  let r := c.replica place
  let m := merge host ⟨place, name, false, [], []⟩ tick stamp (frags.map some) r
  c.set place { r with fragments := m.table, lastHlc := some (max m.maxHlc tick) }

/-- What the routes have done so far. -/
structure Routed where
  cloud : Databases
  accepted : ℤ
  rejected : List (Option String × String)
  firmKeys : List String
  communityKeys : List String

/-- The fragments of a route are rejected after all. -/
def Routed.fail (s : Routed) (frags : List Fragment) (reason : String) : Routed :=
  { s with
    accepted := s.accepted - frags.length,
    rejected := s.rejected ++ frags.map (fun f => (f.id, reason)) }

/-- One firm route. -/
def applyFirm (clock : Clock) (s : Routed) (e : String × List Fragment) : Routed :=
  match safeKey host e.1 with
  | .error text => s.fail e.2 ("firm route failed: " ++ text)
  | .ok dir => { s with
      cloud := applyShared host (.firm dir) ("firm:" ++ dir) (clock.tick (.firm e.1)) clock.stamp
        e.2 s.cloud,
      firmKeys := s.firmKeys ++ [dir] }

/-- One community route. -/
def applyCommunity (communityKeys : List String) (clock : Clock) (s : Routed)
    (e : String × List Fragment) : Routed :=
  if e.1 ∈ communityKeys then
    match safeKey host e.1 with
    | .error text => s.fail e.2 ("community route failed: " ++ text)
    | .ok dir => { s with
        cloud := applyShared host (.community dir) ("community:" ++ dir)
          (clock.tick (.community e.1)) clock.stamp e.2 s.cloud,
        communityKeys := s.communityKeys ++ [dir] }
  else s.fail e.2 ("community " ++ e.1 ++ ": not a member")

/-- `sorted(set(keys))`. -/
def sortedSet (keys : List String) : List String := keys.dedup.mergeSort (fun a b => a ≤ b)

/-- `_add_to_key_set`. -/
def addToKeySet (held keys : List String) : List String :=
  if keys = [] then held else sortedSet (held ++ keys)

/-- What `apply_delta` returns. -/
structure MergeResult where
  accepted : ℤ
  rejected : List (Option String × String)
  newHlc : String
  firmKeys : List String
  communityKeys : List String

/-- The end of `apply_delta`: the watermark and the keys contributed to. -/
def settle (o : Opened) (watermark : String) (s : Routed) : Databases :=
  let r := s.cloud.replica o.place
  s.cloud.set o.place { r with
    lastHlc := some watermark,
    contributedFirmKeys :=
      if o.ownerForce then addToKeySet r.contributedFirmKeys s.firmKeys
      else r.contributedFirmKeys,
    contributedCommunityKeys :=
      if o.ownerForce then addToKeySet r.contributedCommunityKeys s.communityKeys
      else r.contributedCommunityKeys }

/-- `apply_delta`: the transaction of the replica itself. -/
def applyHere (o : Opened) (stamp : String) (delta : Delta) (m : Merge) (c : Databases) : Databases :=
  let r := c.replica o.place
  c.set o.place { r with
    fragments := m.table,
    wiring := delta.wiring.foldl (absorbWire stamp) r.wiring }

/-- `apply_delta`: the routes, firms first. -/
def applyRoutes (o : Opened) (clock : Clock) (m : Merge) (c : Databases) : Routed :=
  m.communityRoutes.entries.foldl (applyCommunity host o.communityKeys clock)
    (m.firmRoutes.entries.foldl (applyFirm host clock) ⟨c, m.accepted, m.rejected, [], []⟩)

/-- `apply_delta`. -/
def applyDelta (o : Opened) (clock : Clock) (delta : Delta) (c : Databases) : Databases × MergeResult :=
  let m := merge host o (clock.tick .here) clock.stamp delta.fragments (c.replica o.place)
  let s := applyRoutes host o clock m (applyHere o clock.stamp delta m c)
  let watermark := max m.maxHlc (clock.tick .here)
  (settle o watermark s, ⟨s.accepted, s.rejected, watermark, sortedSet s.firmKeys,
    sortedSet s.communityKeys⟩)

/-! ## `export_delta` -/

/-- `_own_fragments`: the rows past a cursor, by their clock. -/
def ownFragments (since : String) (r : BrainReplica) : List (String × Row) :=
  (r.fragments.entries.filter (fun e => since < e.2.hlc)).mergeSort (fun a b => a.2.hlc ≤ b.2.hlc)

/-- `_absorb` of one row. -/
def absorbRow (byId : Table) (e : String × Row) : Table :=
  if e.1 = "" then byId
  else match byId.get? e.1 with
    | none => byId.set e.1 e.2
    | some prev => if prev.hlc < e.2.hlc then byId.set e.1 e.2 else byId

/-- The replicas an export reads, the caller's own first. -/
def places (o : Opened) : List Place :=
  o.place :: (o.firmKeys.filterMap (fun k => (safeKey host k).toOption.map Place.firm) ++
    o.communityKeys.filterMap (fun k => (safeKey host k).toOption.map Place.community))

/-- The rows an export gathers. -/
def gather (o : Opened) (since : String) (c : Databases) : Table :=
  (places host o).foldl (fun byId p => (ownFragments since (c.replica p)).foldl absorbRow byId)
    Dict.empty

/-- What `export_delta` returns. -/
structure Export where
  fragments : List (String × Row)
  wiring : List ((String × String) × WireRow)
  newHlc : String

/-- `export_delta`. -/
def exportDelta (o : Opened) (since : String) (c : Databases) : Export where
  fragments := (gather host o (if since = "" then zeroHlc else since) c).entries.mergeSort
    (fun a b => a.2.hlc ≤ b.2.hlc)
  wiring := (c.replica o.place).wiring.entries
  newHlc := (c.replica o.place).watermark

/-! ## The requests -/

/-- The check of `open`. -/
def openable (user : String) : Bool :=
  user ≠ "" && user.toList.all (fun ch => ch ≠ '/' && ch ≠ '\\') &&
    user.toList.tails.all (fun cs => cs.take 2 ≠ "..".toList)

/-- A user's own replica, opened with the keys the server has resolved. -/
def Opened.user (user : String) (firmKeys communityKeys : List String) : Opened :=
  ⟨.own user, user, true, firmKeys, communityKeys⟩

/-- `brain_sync` stamps the caller on the fragments of a shared scope. -/
def stampOwner (user : String) (frag : Fragment) : Fragment :=
  if sharedScope (host.lower (orElse frag.scope "")) then { frag with ownerUser := some user }
  else frag

/-- What a sync request answers. -/
structure SyncAnswer where
  accepted : ℤ
  rejected : List (Option String × String)
  newHlc : String
  merged : Export
  firmKeys : List String
  communityKeys : List String

/-- A sync request, with the keys the server resolves for its caller. -/
structure SyncRequest where
  user : String
  firmKeys : List String
  communityKeys : List String
  since : String
  delta : Delta
  clock : Clock

/-- The delta with the caller stamped on it. -/
def SyncRequest.stamped (req : SyncRequest) : Delta :=
  { req.delta with fragments := req.delta.fragments.map (Option.map (stampOwner host req.user)) }

/-- `brain_sync`. -/
def brainSync (req : SyncRequest) (c : Databases) : Except String (Databases × SyncAnswer) :=
  if openable req.user then
    let o := Opened.user req.user req.firmKeys req.communityKeys
    let (c', result) := applyDelta host o req.clock (req.stamped host) c
    let contributed := (c'.replica o.place).contributedFirmKeys ++ result.firmKeys
    let firmKeys := sortedSet
      (req.firmKeys ++ contributed.filter (fun k => k ∈ req.firmKeys))
    let communityKeys := sortedSet req.communityKeys
    let merged := exportDelta host { o with firmKeys := firmKeys, communityKeys := communityKeys }
      (host.strip req.since) c'
    .ok (c', ⟨result.accepted, result.rejected, result.newHlc, merged, firmKeys, communityKeys⟩)
  else .error "unsafe user_id"

/-- The watermark after a write of the server itself. -/
def raiseTo (hlc : String) (r : BrainReplica) : BrainReplica :=
  if r.watermark < hlc then { r with lastHlc := some hlc } else r

/-- `upsert_fragment`. -/
def upsertFragment (user tick stamp : String) (frag : Fragment) (c : Databases) :
    Except String (Databases × String) :=
  let r := c.replica (.own user)
  let hlc := orElse frag.hlc tick
  match fragmentHasSecret host frag with
  | some reason => .error ("secret_blocked: " ++ reason)
  | none =>
      match given frag.id with
      | none =>
          let fid := "mf-" ++ toString (r.fragments.size + 1)
          if r.fragments.contains fid then .error "UNIQUE constraint failed: fragments.id"
          else
            let t := r.fragments.set fid (Row.ofFragment user stamp hlc frag)
            .ok (c.set (.own user) (raiseTo hlc { r with fragments := t }), fid)
      | some fid =>
          let row := match r.fragments.get? fid with
            | none => Row.ofFragment user stamp hlc frag
            | some held => Row.replaced stamp hlc held frag
          let t := r.fragments.set fid row
          .ok (c.set (.own user) (raiseTo hlc { r with fragments := t }), fid)

/-- The fields `patch_fragment` knows; one that is not given is `none`. -/
structure Patch where
  text : Option String
  subject : Option String
  predicate : Option String
  object : Option String
  scope : Option String
  visibility : Option String
  confidence : Option String
  validUntil : Option String
  extra : Option Value
  hlc : Option String

/-- The `SET` of `patch_fragment`. -/
def Row.patched (stamp hlc : String) (r : Row) (p : Patch) : Row :=
  { r with
    text := p.text.getD r.text
    subject := p.subject.or r.subject
    predicate := p.predicate.or r.predicate
    object := p.object.or r.object
    scope := p.scope.getD r.scope
    visibility := p.visibility.getD r.visibility
    confidence := p.confidence.getD r.confidence
    validUntil := p.validUntil.or r.validUntil
    extra := (p.extra.filter Value.isDict).getD r.extra
    hlc := hlc
    updatedAt := stamp }

/-- `patch_fragment`. -/
def patchFragment (user tick stamp fid : String) (p : Patch) (c : Databases) :
    Except String (Databases × Bool) :=
  let r := c.replica (.own user)
  match r.fragments.get? fid with
  | none => .ok (c, false)
  | some row =>
      if isSecretLike host p.text then .error "secret_blocked: text contains bare secret-like value"
      else if isSecretLike host p.subject then
        .error "secret_blocked: subject contains bare secret-like value"
      else if isSecretLike host p.predicate then
        .error "secret_blocked: predicate contains bare secret-like value"
      else if isSecretLike host p.object then
        .error "secret_blocked: object contains bare secret-like value"
      else
        let hlc := orElse p.hlc tick
        let t := r.fragments.set fid (row.patched stamp hlc p)
        .ok (c.set (.own user) (raiseTo hlc { r with fragments := t }), true)

end ArchHub.Cloud

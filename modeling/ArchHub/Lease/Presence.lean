import Mathlib
import ArchHub.Lease.Record
import ArchHub.Lib.Rows

/-!
# The storage in SQLite

The same methods over the tables of the database of the graph.  Each method that writes is one
transaction, which is rolled back when the method raises (`transaction`).

A column that is `REAL NOT NULL` takes no float that is not a number: SQLite binds such a one as
`NULL` and refuses the statement.

A presence is a session of an agent on a device, with the runtime it is in.  Its binding is an
operational record and its freshness a lease; presences of earlier releases are composed as cells
of the graph, which nothing changes any more, and their leases are taken over once.

* `renew`: `renew_runtime_presence`.
* `readPresence`, `listActive`: `read_runtime_presence` and `list_active_runtime_presences`.
* `migrate`: `migrate_legacy_leases`.

The digest of a session is a parameter, and so are the functions of the `json` module (`Host`).
-/

namespace ArchHub.Lease

open Lib

/-- A row of `runtime_presence_leases`. -/
structure LeaseRow where
  presenceRoot : String
  entry : LeaseEntry
  deriving DecidableEq

/-- The tables. -/
structure Tables where
  /-- `MAX(revision)` of the revisions of the graph. -/
  head : ℕ
  leases : List LeaseRow
  /-- `runtime_presence_tombstones`, with `revoked_at`. -/
  tombstones : List (String × Extended)
  activities : List (Activity Extended)
  records : List (Record String)
  events : List (Event String)
  /-- The greatest `sequence` that `operational_events` has given. -/
  eventSequence : ℕ

/-- A new storage beside a graph. -/
def Tables.new (head : ℕ) : Tables := ⟨head, [], [], [], [], [], 0⟩

/-- A transaction: what raises is rolled back. -/
def transaction {α : Type} (body : Tables → Except Refusal (Tables × α)) (t : Tables) :
    Tables × Except Refusal α :=
  match body t with
  | .ok (t, a) => (t, .ok a)
  | .error e => (t, .error e)

namespace Tables

variable {Payload : Type}

/-! ## Leases -/

/-- The row of a lease. -/
def lease (presenceRoot : String) (t : Tables) : Option LeaseRow :=
  Rows.select LeaseRow.presenceRoot presenceRoot t.leases

/-- Whether a presence has a tombstone. -/
def revoked (presenceRoot : String) (t : Tables) : Bool :=
  (Rows.select Prod.fst presenceRoot t.tombstones).isSome

/-- `create_initial_lease`. -/
def createInitialLease (presenceRoot ownerToken : String) (refreshedAt expiresAt : Float64)
    (t : Tables) : Tables × Except Refusal ℕ :=
  match leaseTimes presenceRoot ownerToken refreshedAt expiresAt with
  | .error e => (t, .error e)
  | .ok (refreshed, expires) => t |> transaction fun t => do
      Check.require (!t.revoked presenceRoot)
        (.invalidCell "runtime presence lease is revoked: fail closed")
      Check.require (t.lease presenceRoot).isNone
        (.invalidCell "runtime presence lease already exists")
      .ok ({ t with leases := t.leases ++ [⟨presenceRoot, ownerToken, refreshed, expires, 1⟩] }, 1)

/-- `renew_lease`. -/
def renewLease (presenceRoot ownerToken : String) (refreshedAt expiresAt : Float64)
    (expectedGeneration : Option ℤ) (t : Tables) : Tables × Except Refusal ℕ :=
  match leaseTimes presenceRoot ownerToken refreshedAt expiresAt with
  | .error e => (t, .error e)
  | .ok (refreshed, expires) => t |> transaction fun t => do
      Check.require (!t.revoked presenceRoot)
        (.invalidCell "runtime presence lease is revoked: fail closed")
      match t.lease presenceRoot with
      | none => .error (.invalidCell "runtime presence lease not found")
      | some row =>
          row.entry.renewable ownerToken refreshed expectedGeneration
          .ok ({ t with
            leases := Rows.update LeaseRow.presenceRoot presenceRoot
              (fun row => { row with entry := row.entry.renewed refreshed expires }) t.leases },
            row.entry.generation + 1)

/-- `get_lease`. -/
def getLease (presenceRoot : String) (t : Tables) : Option LeaseEntry :=
  if t.revoked presenceRoot then none else (t.lease presenceRoot).map LeaseRow.entry

/-- `delete_lease`. -/
def deleteLease (presenceRoot : String) (ownerToken : Option String) (now : Option Float64)
    (t : Tables) : Tables × Except Refusal Bool :=
  t |> transaction fun t =>
    match t.lease presenceRoot with
    | none => .ok (t, false)
    | some row =>
        if ownerToken ≠ none ∧ some row.entry.ownerToken ≠ ownerToken then .ok (t, false)
        else
          match now.getD (.ofRat 0) with
          | none => .error (.integrityError "runtime_presence_tombstones.revoked_at")
          | some revokedAt =>
              .ok ({ t with
                leases := Rows.delete LeaseRow.presenceRoot presenceRoot t.leases
                tombstones := Rows.delete Prod.fst presenceRoot t.tombstones ++
                  [(presenceRoot, revokedAt)] }, true)

/-! ## Activities -/

/-- The row of an activity. -/
def activity (activityRoot : String) (t : Tables) : Option (Activity Extended) :=
  Rows.select Activity.activityRoot activityRoot t.activities

/-- The columns of an activity, which are not null. -/
def activityRow (a : Activity Float64) : Except Refusal (Activity Extended) :=
  match a.observedAt, a.expiresAt with
  | some observedAt, some expiresAt =>
      .ok { a with observedAt := observedAt, expiresAt := expiresAt }
  | none, _ => .error (.integrityError "baboom_activities.observed_at")
  | _, none => .error (.integrityError "baboom_activities.expires_at")

/-- `record_baboom_activity`. -/
def recordActivity (a : Activity Float64) (authorityRevision : ℤ) (t : Tables) :
    Tables × Except Refusal (Activity Float64) :=
  t |> transaction fun t => do
    Check.require (decide ((t.head : ℤ) = authorityRevision))
      (.invalidCell "BABOOM activity authority revision is stale")
    match t.activity a.activityRoot with
    | some existing =>
        a.follows existing.toDict
        let row ← activityRow a
        .ok ({ t with
          activities := Rows.update Activity.activityRoot a.activityRoot
            (fun existing => { existing with
              app := row.app, observedAt := row.observedAt, expiresAt := row.expiresAt })
            t.activities }, a)
    | none =>
        let row ← activityRow a
        .ok ({ t with activities := t.activities ++ [row] }, a)

/-- `list_baboom_activity_rows`. -/
def listActivities (limit : ℤ) (t : Tables) : Except Refusal (List (Activity Float64)) := do
  let limit ← activityLimit limit
  .ok (((Rows.orderBy Activity.activityRoot t.activities).take limit).map Activity.toDict)

/-- `list_active_baboom_activity_rows`. -/
def listActiveActivities (now : Float64) (limit : ℤ) (t : Tables) :
    Except Refusal (List (Activity Float64)) := do
  let (now, limit) ← activeArguments now limit
  let active := t.activities.filter fun a => (Float64.ofRat now).lt (some a.expiresAt)
  let sorted := Rows.orderBy (fun a => toLex (a.expiresAt, a.activityRoot)) active
  .ok ((sorted.take limit).map Activity.toDict)

/-! ## Records -/

/-- `SELECT COUNT(*) WHERE kind = ?`. -/
def countOf (kind : String) (t : Tables) : ℕ := t.records.countP fun r => decide (r.kind = kind)

/-- The oldest records of a kind that may retire. -/
def oldest (p : Put Payload) (n : ℕ) (t : Tables) : List (Record String) :=
  (Rows.orderBy Record.updatedAt (t.records.filter fun r =>
    decide (r.kind = p.kind ∧ r.state ∈ p.retireStates))).take n

/-- The records that are left beside a new one of a kind. -/
def retired (p : Put Payload) (t : Tables) : Tables :=
  if operationalRecordLimit ≤ t.countOf p.kind ∧ p.retireStates ≠ [] then
    let oldest := t.oldest p (t.countOf p.kind - operationalRecordLimit + 1)
    { t with records := t.records.filter fun r => decide (r ∉ oldest) }
  else t

/-- The record of a put is inserted or updated. -/
def writeRecord (p : Put Payload) (text : String) (updatedAt : ℚ) (t : Tables) :
    Except Refusal (Tables × ℕ) :=
  match Rows.select Record.key (p.kind, p.recordRoot) t.records with
  | none => do
      Check.require p.expectedGeneration.isNone
        (.invalidCell "operational record generation mismatch")
      let t := t.retired p
      Check.require (decide (t.countOf p.kind < operationalRecordLimit))
        (.invalidCell "operational record kind reached its bound")
      .ok ({ t with records := t.records ++ [p.record text updatedAt 1] }, 1)
  | some row => do
      let generation ← row.next p
      .ok ({ t with
        records := Rows.update Record.key (p.kind, p.recordRoot)
          (fun row => { row with
            state := p.state, generation := generation
            authorityRevision := p.authorityRevision, updatedAt := updatedAt, payload := text })
          t.records }, generation)

/-- Insert an event, and delete the oldest of its kind beyond the bound. -/
def recordEvent (p : Put Payload) (text : String) (updatedAt : ℚ) (event : String) (t : Tables) :
    Tables :=
  let events := t.events ++ [p.toEvent text updatedAt (t.eventSequence + 1) event]
  let same := events.filter fun item => decide (item.kind = p.kind)
  let last := ((Newest.newestFirst Event.sequence same).drop operationalEventLimit).head?
  { t with
    eventSequence := t.eventSequence + 1
    events := events.filter fun item =>
      !decide (item.kind = p.kind ∧ ∃ e ∈ last, item.sequence ≤ e.sequence) }

/-- `put_record`. -/
def putRecord (codec : Codec Payload) (p : Put Payload) (t : Tables) :
    Tables × Except Refusal (Record Payload) :=
  match p.checked codec with
  | .error e => (t, .error e)
  | .ok (text, updatedAt) => t |> transaction fun t => do
      Check.require (decide ((t.head : ℤ) = p.authorityRevision))
        (.invalidCell "operational record authority revision is stale")
      let (t, generation) ← t.writeRecord p text updatedAt
      let t := match p.event with
        | none => t
        | some event => t.recordEvent p text updatedAt event
      .ok (t, (p.record text updatedAt generation).decoded codec)

/-- `get_record`. -/
def getRecord (codec : Codec Payload) (kind recordRoot : String) (t : Tables) :
    Except Refusal (Option (Record Payload)) := do
  recordKind kind
  recordText recordRoot "root"
  .ok ((Rows.select Record.key (kind, recordRoot) t.records).map fun row => row.decoded codec)

/-- `list_records`. -/
def listRecords (codec : Codec Payload) (kind : String) (ownerRoot : Option String)
    (states : Option (List String)) (limit : ℤ) (t : Tables) :
    Except Refusal (List (Record Payload)) := do
  let limit ← listingLimit kind limit operationalRecordLimit "operational record limit is invalid"
  if states = some [] then .ok []
  else
    let rows := t.records.filter fun row => row.wanted kind ownerRoot states
    .ok (((Rows.orderBy Record.recordRoot rows).take limit).map fun row => row.decoded codec)

/-- `list_events`. -/
def listEvents (codec : Codec Payload) (kind : String) (recordRoot : Option String) (limit : ℤ)
    (t : Tables) : Except Refusal (List (Event Payload)) := do
  let limit ← listingLimit kind limit operationalEventLimit "operational event limit is invalid"
  let rows := t.events.filter fun item =>
    decide (item.kind = kind ∧ (recordRoot = none ∨ recordRoot = some item.recordRoot))
  let newest := (Newest.newestFirst Event.sequence rows).take limit
  .ok (newest.reverse.map fun item => item.decoded codec)

end Tables

end ArchHub.Lease

namespace ArchHub.Lease

open Lib

/-- What a binding says: the session, its device custody, and the runtime. -/
structure Identity where
  session : String
  custody : String
  runtime : String
  deriving DecidableEq

/-- A binding: an identity and when it was first seen. -/
structure Binding where
  identity : Identity
  issuedAt : ℚ
  deriving DecidableEq

/-- A presence that an earlier release composed as cells. -/
structure Composed where
  binding : Binding
  refreshedAt : ℚ
  expiresAt : ℚ
  deriving DecidableEq

/-- `RuntimePresenceProjection`. -/
structure Projection where
  rootId : String
  binding : Binding
  refreshedAt : ℚ
  expiresAt : ℚ
  generation : ℕ
  deriving DecidableEq

/-- The functions that are not of the storage. -/
structure Host where
  codec : Codec Binding
  /-- `hashlib.sha256(session.encode("utf-8")).hexdigest()`. -/
  sha256 : String → String

/-- What a payload is decoded to is what was encoded. -/
def Codec.RoundTrips (codec : Codec Binding) : Prop :=
  ∀ b text, codec.dumps b = some text → codec.loads text = b

/-- The graph and the storage beside it. -/
structure World where
  tables : Tables
  /-- The roots of sessions and custodies in the graph. -/
  cells : List String
  /-- The registry of the presences in the graph. -/
  presences : Dict String Composed
  /-- `runtime_presence_migration`. -/
  migrated : Bool

/-! ## Checks -/

/-- `float("%.6f" % q)`: a time in microseconds, half to even. -/
def round6 (q : ℚ) : ℚ :=
  let whole := ⌊q * 1000000⌋
  let part := q * 1000000 - whole
  let nearest :=
    if part < 1 / 2 then whole
    else if 1 / 2 < part then whole + 1
    else if whole % 2 = 0 then whole else whole + 1
  nearest / 1000000

/-- `_validate_identity`. -/
def validateIdentity (value label start : String) : Except Refusal Unit :=
  Check.require (decide (value ≠ "" ∧ value.utf8ByteSize ≤ 512) &&
    start.toList.isPrefixOf value.toList)
    (.invalidCell ("runtime presence " ++ label ++ " is invalid"))

/-- `_RUNTIME`: a letter, then up to 127 letters, digits or hyphens. -/
def runtimeName (value : String) : Bool :=
  match value.toList with
  | [] => false
  | c :: rest => c.isAlpha && rest.all (fun c => c.isAlphanum || c = '-') &&
      decide (rest.length ≤ 127)

/-- `_validate_runtime`. -/
def validateRuntime (value : String) : Except Refusal Unit :=
  Check.require (runtimeName value) (.invalidCell "runtime presence runtime is invalid")

/-- `_validate_now`. -/
def validateNow (value : Float64) (label : String) : Except Refusal ℚ :=
  match value.finite with
  | some q => .ok q
  | none => .error (.invalidCell ("runtime presence " ++ label ++ " is invalid"))

/-- `_validate_lease_seconds`. -/
def validateLeaseSeconds (value : Float64) : Except Refusal ℚ := do
  let seconds ← validateNow value "lease duration"
  Check.require (decide (15 ≤ seconds ∧ seconds ≤ 900))
    (.invalidCell "runtime presence lease duration is outside policy")
  .ok seconds

/-- The checks of an identity. -/
def Identity.validate (i : Identity) : Except Refusal Unit := do
  validateIdentity i.session "agent session" "app:agent-session:runtime:"
  validateIdentity i.custody "device custody" "device-custody:sha256:"
  validateRuntime i.runtime

/-- `_presence_root`. -/
def Host.presenceRoot (host : Host) (session : String) : String :=
  "runtime-presence:sha256:" ++ host.sha256 session

/-- `BINDING_KIND`. -/
def bindingKind : String := "runtime-presence"

/-! ## Reading -/

/-- `_read_presence_binding`. -/
def readBinding (host : Host) (root : String) (t : Tables) : Except Refusal (Option Binding) := do
  match ← t.getRecord host.codec bindingKind root with
  | none => .ok none
  | some row => do
      row.payload.identity.validate
      .ok (some row.payload)

/-- `_presence_projection`. -/
def presenceProjection (root : String) (b : Binding) (t : Tables) : Except Refusal Projection :=
  match t.getLease root with
  | none => .error (.invalidCell "runtime presence lease not found: fail closed")
  | some lease => do
      Check.require (decide (lease.ownerToken = b.identity.session))
        (.invalidCell "runtime presence lease owner mismatch: fail closed")
      Check.require (decide (b.issuedAt - 1 / 100000 ≤ lease.refreshedAt ∧
        lease.refreshedAt < lease.expiresAt))
        (.invalidCell "runtime presence timestamps are invalid")
      .ok ⟨root, b, lease.refreshedAt, lease.expiresAt, lease.generation⟩

/-- `read_runtime_presence`. -/
def readPresence (host : Host) (root : String) (w : World) : Except Refusal Projection :=
  match w.presences.get? root with
  | some p => do
      p.binding.identity.validate
      presenceProjection root p.binding w.tables
  | none => do
      match ← readBinding host root w.tables with
      | none => .error (.invalidCell "runtime presence is unknown")
      | some b => presenceProjection root b w.tables

/-- The roots of the presences, those in the graph first. -/
def presenceRoots (host : Host) (w : World) : Except Refusal (List String) := do
  let rows ← w.tables.listRecords host.codec bindingKind none none 10000
  .ok (w.presences.keys ++
    (rows.map Record.recordRoot).filter fun root => decide (root ∉ w.presences.keys))

/-- `list_runtime_presences`: what cannot be read is left out. -/
def listPresences (host : Host) (w : World) : Except Refusal (List Projection) := do
  let roots ← presenceRoots host w
  .ok (roots.filterMap fun root => (readPresence host root w).toOption)

/-- `list_active_runtime_presences`. -/
def listActive (host : Host) (now : Float64) (w : World) : Except Refusal (List Projection) := do
  let now ← validateNow now "current time"
  let presences ← listPresences host w
  .ok (presences.filter fun p => decide (now < p.expiresAt))

/-! ## Renewing -/

/-- The arguments of `renew_runtime_presence`. -/
structure Heartbeat where
  identity : Identity
  now : Float64
  leaseSeconds : Float64
  expectedGeneration : Option ℤ
  deriving DecidableEq

/-- The checks of a heartbeat: when it refreshes the lease, and until when. -/
def Heartbeat.checked (r : Heartbeat) : Except Refusal (ℚ × ℚ) := do
  r.identity.validate
  let now ← validateNow r.now "renewal time"
  let seconds ← validateLeaseSeconds r.leaseSeconds
  .ok (round6 now, round6 (round6 now + seconds))

/-- The refusal of a heartbeat that expects a lease where there is none. -/
def staleWriter (expected : ℤ) : Refusal :=
  .invalidCell ("stale runtime presence lease writer: lease not found (expected " ++
    toString expected ++ ")")

/-- The lease of a presence that is bound is created or renewed. -/
def refreshLease (root : String) (r : Heartbeat) (refreshedAt expiresAt : ℚ) (t : Tables) :
    Tables × Except Refusal ℕ :=
  match t.getLease root, r.expectedGeneration with
  | none, some expected => (t, .error (staleWriter expected))
  | none, none =>
      t.createInitialLease root r.identity.session (.ofRat refreshedAt) (.ofRat expiresAt)
  | some _, expected =>
      t.renewLease root r.identity.session (.ofRat refreshedAt) (.ofRat expiresAt) expected

/-- A presence that is bound is refreshed. -/
def refresh (root : String) (b : Binding) (r : Heartbeat) (refreshedAt expiresAt : ℚ)
    (t : Tables) : Tables × Except Refusal Projection :=
  if b.identity ≠ r.identity then
    (t, .error (.invalidCell "runtime presence binding drifted"))
  else
    match refreshLease root r refreshedAt expiresAt t with
    | (t, .error e) => (t, .error e)
    | (t, .ok _) => (t, presenceProjection root b t)

/-- The put of a binding. -/
def bindingPut (root : String) (r : Heartbeat) (refreshedAt : ℚ) (head : ℕ) : Put Binding where
  kind := bindingKind
  recordRoot := root
  ownerRoot := r.identity.session
  state := "bound"
  payload := ⟨r.identity, refreshedAt⟩
  authorityRevision := head
  updatedAt := .ofRat refreshedAt
  createOnly := true
  retireStates := ["bound"]

/-- The first heartbeat of a session records its binding, then its lease. -/
def bind (host : Host) (root : String) (r : Heartbeat) (refreshedAt expiresAt : ℚ) (t : Tables) :
    Tables × Except Refusal Projection :=
  match r.expectedGeneration with
  | some expected => (t, .error (staleWriter expected))
  | none =>
      match t.putRecord host.codec (bindingPut root r refreshedAt t.head) with
      | (t, .error e) => (t, .error e)
      | (t, .ok _) =>
          match t.createInitialLease root r.identity.session (.ofRat refreshedAt)
              (.ofRat expiresAt) with
          | (t, .error e) => (t, .error e)
          | (t, .ok _) => (t, presenceProjection root ⟨r.identity, refreshedAt⟩ t)

/-- The tables after a heartbeat that passes its checks. -/
def renewTables (host : Host) (root : String) (r : Heartbeat) (refreshedAt expiresAt : ℚ)
    (w : World) : Tables × Except Refusal Projection :=
  match w.presences.get? root with
  | some p =>
      match validateRuntime p.binding.identity.runtime with
      | .error e => (w.tables, .error e)
      | .ok () => refresh root p.binding r refreshedAt expiresAt w.tables
  | none =>
      match readBinding host root w.tables with
      | .error e => (w.tables, .error e)
      | .ok (some b) => refresh root b r refreshedAt expiresAt w.tables
      | .ok none => bind host root r refreshedAt expiresAt w.tables

/-- `renew_runtime_presence`. -/
def renew (host : Host) (r : Heartbeat) (w : World) : World × Except Refusal Projection :=
  match r.checked with
  | .error e => (w, .error e)
  | .ok (refreshedAt, expiresAt) =>
      if r.identity.session ∉ w.cells ∨ r.identity.custody ∉ w.cells then
        (w, .error (.invalidCell
          "runtime presence session and device custody must already exist"))
      else
        let (t, result) := renewTables host (host.presenceRoot r.identity.session) r refreshedAt
          expiresAt w
        ({ w with tables := t }, result)

/-! ## The migration -/

/-- The lease of one presence in the graph is taken over. -/
def migrateOne (now : ℚ) (t : Tables) (e : String × Composed) : Tables :=
  if (t.lease e.1).isSome || t.revoked e.1 then t
  else if now < e.2.expiresAt ∧ e.2.refreshedAt < e.2.expiresAt then
    { t with leases := t.leases ++
      [⟨e.1, e.2.binding.identity.session, e.2.refreshedAt, e.2.expiresAt, 1⟩] }
  else t

/-- `migrate_legacy_leases`. -/
def migrate (now : ℚ) (w : World) : World :=
  if w.migrated then w
  else { w with migrated := true, tables := w.presences.entries.foldl (migrateOne now) w.tables }

end ArchHub.Lease

import Mathlib
import ArchHub.Lib.Check

/-!
# What the lease storage holds

Runtime presences are kept beside the graph: a lease for each, the activities of an agent, and
bounded records with their events.  The storage is written twice, over dictionaries
(`Lease.Memory`) and over SQLite tables (`Lease.Tables`); this module is what the two share: the
rows, the refusals and the checks of the arguments.

A float may be infinite or no number (`Float64`); the times that are checked to be finite are
rationals from there on.  The payload of a record is JSON of a type of its own, with the two
functions of the `json` module that the storage calls (`Codec`).
-/

namespace ArchHub.Lease

open Lib

/-- A float that is a number or infinite. -/
abbrev Extended := WithBot (WithTop ℚ)

/-- A float: `none` is not a number. -/
abbrev Float64 := Option Extended

namespace Float64

/-- A finite float. -/
def ofRat (q : ℚ) : Float64 := some ((q : WithTop ℚ) : Extended)

/-- The number of a float that is finite. -/
def finite : Float64 → Option ℚ
  | some (some (some q)) => some q
  | _ => none

/-- `a < b`, which is false of what is not a number. -/
def lt : Float64 → Float64 → Bool
  | some a, some b => decide (a < b)
  | _, _ => false

end Float64

/-- What a method raises. -/
inductive Refusal where
  /-- `InvalidCell(text)`. -/
  | invalidCell (text : String)
  /-- `InvalidCell("runtime presence renewal time must be strictly monotonic (%.6f <= %.6f)")`. -/
  | notMonotonic (refreshedAt current : ℚ)
  /-- `sqlite3.IntegrityError("NOT NULL constraint failed: " + column)`. -/
  | integrityError (column : String)
  deriving DecidableEq

/-! ## Rows -/

/-- A lease. -/
structure LeaseEntry where
  ownerToken : String
  refreshedAt : ℚ
  expiresAt : ℚ
  generation : ℕ
  deriving DecidableEq

/-- An activity, with the floats that its place admits. -/
structure Activity (τ : Type) where
  activityRoot : String
  agentSessionRoot : String
  deviceCustodyRoot : String
  app : String
  observedAt : τ
  expiresAt : τ
  deriving DecidableEq

instance : DecidableEq (Activity Float64) := inferInstance

/-- An activity as it is answered. -/
def Activity.toDict (a : Activity Extended) : Activity Float64 :=
  { a with observedAt := some a.observedAt, expiresAt := some a.expiresAt }

/-- An operational record, with its payload as text or decoded. -/
structure Record (π : Type) where
  kind : String
  recordRoot : String
  ownerRoot : String
  state : String
  generation : ℕ
  authorityRevision : ℤ
  updatedAt : ℚ
  payload : π
  deriving DecidableEq

/-- The primary key of `operational_records`. -/
def Record.key {π : Type} (r : Record π) : String × String := (r.kind, r.recordRoot)

/-- An event of a record. -/
structure Event (π : Type) where
  sequence : ℕ
  kind : String
  recordRoot : String
  event : String
  authorityRevision : ℤ
  recordedAt : ℚ
  payload : π
  deriving DecidableEq

/-- `json.dumps` in its canonical form, `none` where it raises, and `json.loads`. -/
structure Codec (Payload : Type) where
  dumps : Payload → Option String
  loads : String → Payload

variable {Payload : Type} {q : ℚ} {codec : Codec Payload} {text : String}

/-- A record as it is answered. -/
def Record.decoded (codec : Codec Payload) (r : Record String) : Record Payload :=
  { r with payload := codec.loads r.payload }

/-- An event as it is answered. -/
def Event.decoded (codec : Codec Payload) (e : Event String) : Event Payload :=
  { e with payload := codec.loads e.payload }

/-! ## Bounds and checks -/

/-- `OPERATIONAL_RECORD_KINDS`. -/
def operationalRecordKinds : List String :=
  ["runtime-ownership", "browser-session", "runtime-presence", "native-runtime-retirement",
    "steward-signal", "authorization-receipt", "compliance-event", "deliberation-payload"]

/-- `_OPERATIONAL_RECORD_LIMIT`. -/
def operationalRecordLimit : ℕ := 10000

/-- `OPERATIONAL_RECORD_PAYLOAD_BYTES`. -/
def operationalRecordPayloadBytes : ℕ := 256 * 1024

/-- `_OPERATIONAL_EVENT_LIMIT`. -/
def operationalEventLimit : ℕ := 4096

/-- The checks of `create_initial_lease` and `renew_lease` on their arguments, with the times
that pass them. -/
def leaseTimes (presenceRoot ownerToken : String) (refreshedAt expiresAt : Float64) :
    Except Refusal (ℚ × ℚ) := do
  Check.require (decide (presenceRoot ≠ "")) (.invalidCell "presence_root must be a non-empty string")
  Check.require (decide (ownerToken ≠ "")) (.invalidCell "owner_token must be a non-empty string")
  match refreshedAt.finite, expiresAt.finite with
  | some refreshed, some expires =>
      Check.require (decide (refreshed < expires))
        (.invalidCell "refreshed_at must be less than expires_at")
      .ok (refreshed, expires)
  | _, _ => .error (.invalidCell "refreshed_at and expires_at must be finite numbers")

/-- The check of a lease that is renewed. -/
def LeaseEntry.renewable (entry : LeaseEntry) (ownerToken : String) (refreshedAt : ℚ)
    (expectedGeneration : Option ℤ) : Except Refusal Unit := do
  Check.require (decide (entry.ownerToken = ownerToken))
    (.invalidCell ("runtime presence lease owner mismatch: expected " ++ entry.ownerToken ++
      ", got " ++ ownerToken))
  Check.require (decide (entry.refreshedAt < refreshedAt))
    (.notMonotonic refreshedAt entry.refreshedAt)
  match expectedGeneration with
  | none => .ok ()
  | some expected =>
      Check.require (decide ((entry.generation : ℤ) = expected))
        (.invalidCell ("stale runtime presence lease writer: generation mismatch (expected " ++
          toString expected ++ ", found " ++ toString entry.generation ++ ")"))

/-- A lease after a renewal. -/
def LeaseEntry.renewed (entry : LeaseEntry) (refreshedAt expiresAt : ℚ) : LeaseEntry :=
  { entry with
    generation := entry.generation + 1, refreshedAt := refreshedAt, expiresAt := expiresAt }

/-- The check of the limit of a list of activities. -/
def activityLimit (limit : ℤ) : Except Refusal ℕ := do
  Check.require (decide (1 ≤ limit ∧ limit ≤ 10001))
    (.invalidCell "BABOOM activity limit must be between 1 and 10001")
  .ok limit.toNat

/-- The checks of `list_active_baboom_activity_rows` on its arguments. -/
def activeArguments (now : Float64) (limit : ℤ) : Except Refusal (ℚ × ℕ) := do
  let limit ← activityLimit limit
  match now.finite with
  | some now => .ok (now, limit)
  | none => .error (.invalidCell "BABOOM activity current time must be finite")

/-- The check of an activity against the one that is recorded. -/
def Activity.follows (a : Activity Float64) (existing : Activity Float64) : Except Refusal Unit := do
  Check.require (decide (existing.agentSessionRoot = a.agentSessionRoot ∧
    existing.deviceCustodyRoot = a.deviceCustodyRoot))
    (.invalidCell "BABOOM activity binding drifted")
  Check.require (!a.observedAt.lt existing.observedAt)
    (.invalidCell "BABOOM activity observation is stale")

/-- `_record_kind`. -/
def recordKind (kind : String) : Except Refusal Unit :=
  Check.require (decide (kind ∈ operationalRecordKinds))
    (.invalidCell "operational record kind is not admitted")

/-- `_record_text`. -/
def recordText (value label : String) : Except Refusal Unit :=
  Check.require (decide (value ≠ "" ∧ value.utf8ByteSize ≤ 1024))
    (.invalidCell ("operational record " ++ label ++ " is invalid"))

/-- `_record_payload`. -/
def recordPayload (codec : Codec Payload) (payload : Payload) : Except Refusal String :=
  match codec.dumps payload with
  | none => .error (.invalidCell "operational record payload is not canonical JSON")
  | some text => do
      Check.require (decide (text.length ≤ operationalRecordPayloadBytes))
        (.invalidCell "operational record payload exceeds its bound")
      .ok text

/-- The arguments of `put_record`. -/
structure Put (Payload : Type) where
  kind : String
  recordRoot : String
  ownerRoot : String
  state : String
  payload : Payload
  authorityRevision : ℤ
  updatedAt : Float64
  expectedGeneration : Option ℤ := none
  createOnly : Bool := false
  event : Option String := none
  retireStates : List String := []

/-- The check of the event of a put. -/
def Put.eventText (p : Put Payload) : Except Refusal Unit :=
  match p.event with
  | none => .ok ()
  | some event => recordText event "event"

/-- The check of the time of a put. -/
def Put.time (p : Put Payload) : Except Refusal ℚ :=
  match p.updatedAt.finite with
  | some q => .ok q
  | none => .error (.invalidCell "operational record time must be finite")

/-- The check of the generation that a put expects. -/
def Put.generation (p : Put Payload) : Except Refusal Unit :=
  match p.expectedGeneration with
  | none => .ok ()
  | some expected =>
      Check.require (decide (1 ≤ expected))
        (.invalidCell "operational record generation must be a positive integer")

/-- The checks of `put_record` on its arguments: the text of the payload, and the time. -/
def Put.checked (codec : Codec Payload) (p : Put Payload) : Except Refusal (String × ℚ) := do
  recordKind p.kind
  recordText p.recordRoot "root"
  recordText p.ownerRoot "owner"
  recordText p.state "state"
  let text ← recordPayload codec p.payload
  p.eventText
  Check.require (decide (0 ≤ p.authorityRevision))
    (.invalidCell "operational record authority revision is invalid")
  let updatedAt ← p.time
  p.generation
  .ok (text, updatedAt)

/-- A float that is finite is its number. -/
theorem Float64.eq_of_finite {x : Float64} (h : x.finite = some q) : x = .ofRat q := by
  unfold Float64.finite at h
  split at h
  · cases h
    rfl
  · cases h

variable {p : Put Payload}

/-- What a put that passes the checks has. -/
theorem Put.of_checked (h : p.checked codec = .ok (text, q)) :
    recordText p.recordRoot "root" = .ok () ∧
      recordPayload codec p.payload = .ok text ∧ p.time = .ok q := by
  unfold Put.checked at h
  obtain ⟨_, -, h⟩ := Check.bind_ok_iff.1 h
  obtain ⟨_, hroot, h⟩ := Check.bind_ok_iff.1 h
  obtain ⟨_, -, h⟩ := Check.bind_ok_iff.1 h
  obtain ⟨_, -, h⟩ := Check.bind_ok_iff.1 h
  obtain ⟨_, hpayload, h⟩ := Check.bind_ok_iff.1 h
  obtain ⟨_, -, h⟩ := Check.bind_ok_iff.1 h
  obtain ⟨_, -, h⟩ := Check.bind_ok_iff.1 h
  obtain ⟨_, htime, h⟩ := Check.bind_ok_iff.1 h
  obtain ⟨_, -, h⟩ := Check.bind_ok_iff.1 h
  cases h
  exact ⟨hroot, hpayload, htime⟩

/-- The time that passes the checks is the time of the put. -/
theorem Put.updatedAt_of_checked (h : p.checked codec = .ok (text, q)) :
    p.updatedAt = .ofRat q := by
  obtain ⟨-, -, htime⟩ := Put.of_checked h
  unfold Put.time at htime
  split at htime
  · next hfinite =>
      cases htime
      exact Float64.eq_of_finite hfinite
  · cases htime

/-- The generation that a put gives to a record that is there. -/
def Record.next {π : Type} (existing : Record π) (p : Put Payload) : Except Refusal ℕ := do
  Check.require (!p.createOnly) (.invalidCell "operational record already exists")
  Check.require (decide (existing.ownerRoot = p.ownerRoot))
    (.invalidCell "operational record owner drifted")
  match p.expectedGeneration with
  | none => .ok ()
  | some expected =>
      Check.require (decide ((existing.generation : ℤ) = expected))
        (.invalidCell "operational record generation mismatch")
  .ok (existing.generation + 1)

/-- The record that a put writes. -/
def Put.record (p : Put Payload) (text : String) (updatedAt : ℚ) (generation : ℕ) :
    Record String :=
  ⟨p.kind, p.recordRoot, p.ownerRoot, p.state, generation, p.authorityRevision, updatedAt, text⟩

/-- The event that a put records. -/
def Put.toEvent (p : Put Payload) (text : String) (updatedAt : ℚ) (sequence : ℕ) (event : String) :
    Event String :=
  ⟨sequence, p.kind, p.recordRoot, event, p.authorityRevision, updatedAt, text⟩

/-- Whether a record is one that `list_records` asks for. -/
def Record.wanted {π : Type} (r : Record π) (kind : String) (ownerRoot : Option String)
    (states : Option (List String)) : Bool :=
  decide (r.kind = kind) && decide (ownerRoot = none ∨ ownerRoot = some r.ownerRoot) &&
    decide (∀ wanted ∈ states, r.state ∈ wanted)

/-- The checks of a listing on its kind and its limit. -/
def listingLimit (kind : String) (limit : ℤ) (bound : ℕ) (text : String) : Except Refusal ℕ := do
  recordKind kind
  Check.require (decide (1 ≤ limit ∧ limit ≤ bound)) (.invalidCell text)
  .ok limit.toNat

end ArchHub.Lease

import Mathlib
import ArchHub.Lease.Record
import ArchHub.Lease.Presence
import ArchHub.Lib.Rows
import ArchHub.Lib.Transition

/-!
# The two storages in step

The fallback keeps the rows in dictionaries.  Nothing takes back what a method has done before it
raises, so each answers the memory beside its result.

* `Memory.createInitialLease`, `renewLease`, `getLease`, `deleteLease`: the leases.
* `Memory.recordActivity`, `listActivities`, `listActiveActivities`: the activities.
* `Memory.putRecord`, `getRecord`, `listRecords`, `listEvents`: the records, which are retired and
  whose events are pruned at their bounds.

The tables and the dictionaries of the two storages are read as one another (`Mirrored`).  Each
method keeps them so and gives one answer on both sides, and where it refuses it has changed
neither (`Agree`).

* `Mirrored.createInitialLease`, `renewLease`, `getLease`, `deleteLease`: the leases.
* `Mirrored.recordActivity`: the activities.
* `Mirrored.listActivities_iff`, `listActiveActivities_iff`: the two listings that the memory does
  not put in order, which agree exactly when the activities came in it.
-/

namespace ArchHub.Lease

open Lib

/-- The dictionaries. -/
structure Memory where
  leases : Dict String LeaseEntry
  /-- A set of presence roots. -/
  tombstones : Finset String
  activities : Dict String (Activity Float64)
  records : Dict (String × String) (Record String)
  events : List (Event String)
  eventSequence : ℕ

/-- A new storage. -/
def Memory.new : Memory := ⟨.empty, ∅, .empty, .empty, [], 0⟩

namespace Memory

variable {Payload : Type}

/-! ## Leases -/

/-- `create_initial_lease`. -/
def createInitialLease (presenceRoot ownerToken : String) (refreshedAt expiresAt : Float64)
    (m : Memory) : Memory × Except Refusal ℕ :=
  match leaseTimes presenceRoot ownerToken refreshedAt expiresAt with
  | .error e => (m, .error e)
  | .ok (refreshed, expires) =>
      if presenceRoot ∈ m.tombstones then
        (m, .error (.invalidCell "runtime presence lease is revoked: fail closed"))
      else if m.leases.contains presenceRoot then
        (m, .error (.invalidCell "runtime presence lease already exists"))
      else
        ({ m with leases := m.leases.set presenceRoot ⟨ownerToken, refreshed, expires, 1⟩ }, .ok 1)

/-- `renew_lease`. -/
def renewLease (presenceRoot ownerToken : String) (refreshedAt expiresAt : Float64)
    (expectedGeneration : Option ℤ) (m : Memory) : Memory × Except Refusal ℕ :=
  match leaseTimes presenceRoot ownerToken refreshedAt expiresAt with
  | .error e => (m, .error e)
  | .ok (refreshed, expires) =>
      if presenceRoot ∈ m.tombstones then
        (m, .error (.invalidCell "runtime presence lease is revoked: fail closed"))
      else
        match m.leases.get? presenceRoot with
        | none => (m, .error (.invalidCell "runtime presence lease not found"))
        | some entry =>
            match entry.renewable ownerToken refreshed expectedGeneration with
            | .error e => (m, .error e)
            | .ok () =>
                ({ m with leases := m.leases.set presenceRoot (entry.renewed refreshed expires) },
                  .ok (entry.generation + 1))

/-- `get_lease`. -/
def getLease (presenceRoot : String) (m : Memory) : Option LeaseEntry :=
  if presenceRoot ∈ m.tombstones then none else m.leases.get? presenceRoot

/-- Whether a lease may be deleted by an owner. -/
def deletable (presenceRoot : String) (ownerToken : Option String) (m : Memory) : Bool :=
  match m.leases.get? presenceRoot with
  | none => false
  | some entry => decide (ownerToken = none ∨ ownerToken = some entry.ownerToken)

/-- `delete_lease`. -/
def deleteLease (presenceRoot : String) (ownerToken : Option String) (m : Memory) :
    Memory × Except Refusal Bool :=
  match m.leases.get? presenceRoot with
  | none => (m, .ok false)
  | some entry =>
      if ownerToken ≠ none ∧ some entry.ownerToken ≠ ownerToken then (m, .ok false)
      else
        ({ m with
            tombstones := insert presenceRoot m.tombstones
            leases := m.leases.erase presenceRoot }, .ok true)

/-! ## Activities -/

/-- The check of an activity against the one that is recorded under its root. -/
def activityCheck (a : Activity Float64) (m : Memory) : Except Refusal Unit :=
  match m.activities.get? a.activityRoot with
  | none => .ok ()
  | some existing => a.follows existing

/-- `record_baboom_activity`. -/
def recordActivity (a : Activity Float64) (m : Memory) :
    Memory × Except Refusal (Activity Float64) :=
  match m.activityCheck a with
  | .error e => (m, .error e)
  | .ok () => ({ m with activities := m.activities.set a.activityRoot a }, .ok a)

/-- `list_baboom_activity_rows`. -/
def listActivities (limit : ℤ) (m : Memory) : Except Refusal (List (Activity Float64)) := do
  let limit ← activityLimit limit
  .ok (m.activities.values.take limit)

/-- `list_active_baboom_activity_rows`. -/
def listActiveActivities (now : Float64) (limit : ℤ) (m : Memory) :
    Except Refusal (List (Activity Float64)) := do
  let (now, limit) ← activeArguments now limit
  .ok ((m.activities.values.filter fun a => (Float64.ofRat now).lt a.expiresAt).take limit)

/-! ## Records -/

/-- The times and keys of the records of a kind, in order. -/
def sameKind (kind : String) (m : Memory) : List (ℚ × String × String) :=
  Rows.orderBy (fun s => toLex (s.1, toLex s.2))
    ((m.records.entries.filter fun e => decide (e.1.1 = kind)).map fun e => (e.2.updatedAt, e.1))

/-- The loop that pops the oldest records whose state may retire. -/
def retireOldest (retire : List String) :
    ℕ → List (ℚ × String × String) → Dict (String × String) (Record String) →
      Dict (String × String) (Record String)
  | _, [], records => records
  | 0, _ :: _, records => records
  | excess + 1, s :: rest, records =>
      match records.get? s.2 with
      | none => records
      | some stored =>
          if stored.state ∈ retire then retireOldest retire excess rest (records.erase s.2)
          else retireOldest retire (excess + 1) rest records

/-- Record an event, and drop the oldest of its kind beyond the bound. -/
def recordEvent (p : Put Payload) (text : String) (updatedAt : ℚ) (event : String) (m : Memory) :
    Memory :=
  let events := m.events ++ [p.toEvent text updatedAt (m.eventSequence + 1) event]
  let same := events.filter fun item => decide (item.kind = p.kind)
  let dropped := same.take (same.length - operationalEventLimit)
  { m with
    eventSequence := m.eventSequence + 1
    events :=
      if operationalEventLimit < same.length then
        events.filter fun item => decide (item ∉ dropped)
      else events }

/-- Store a record, with its event. -/
def store (codec : Codec Payload) (p : Put Payload) (text : String) (updatedAt : ℚ)
    (generation : ℕ) (m : Memory) : Memory × Except Refusal (Record Payload) :=
  let stored := p.record text updatedAt generation
  let m := { m with records := m.records.set (p.kind, p.recordRoot) stored }
  let m := match p.event with
    | none => m
    | some event => m.recordEvent p text updatedAt event
  (m, .ok (stored.decoded codec))

/-- The records that are left beside a new one of a kind. -/
def retired (p : Put Payload) (m : Memory) : Memory :=
  let same := m.sameKind p.kind
  if operationalRecordLimit ≤ same.length ∧ p.retireStates ≠ [] then
    { m with
      records := retireOldest p.retireStates (same.length - operationalRecordLimit + 1) same
        m.records }
  else m

/-- `_put_memory_record`. -/
def putMemoryRecord (codec : Codec Payload) (p : Put Payload) (text : String) (updatedAt : ℚ)
    (m : Memory) : Memory × Except Refusal (Record Payload) :=
  match m.records.get? (p.kind, p.recordRoot) with
  | none =>
      if p.expectedGeneration ≠ none then
        (m, .error (.invalidCell "operational record generation mismatch"))
      else
        let left := (m.sameKind p.kind).filter fun item => (m.retired p).records.contains item.2
        if operationalRecordLimit ≤ left.length then
          (m.retired p, .error (.invalidCell "operational record kind reached its bound"))
        else (m.retired p).store codec p text updatedAt 1
  | some existing =>
      match existing.next p with
      | .error e => (m, .error e)
      | .ok generation => m.store codec p text updatedAt generation

/-- `put_record`. -/
def putRecord (codec : Codec Payload) (p : Put Payload) (m : Memory) :
    Memory × Except Refusal (Record Payload) :=
  match p.checked codec with
  | .error e => (m, .error e)
  | .ok (text, updatedAt) => m.putMemoryRecord codec p text updatedAt

/-- `get_record`. -/
def getRecord (codec : Codec Payload) (kind recordRoot : String) (m : Memory) :
    Except Refusal (Option (Record Payload)) := do
  recordKind kind
  recordText recordRoot "root"
  .ok ((m.records.get? (kind, recordRoot)).map fun stored => stored.decoded codec)

/-- `list_records`. -/
def listRecords (codec : Codec Payload) (kind : String) (ownerRoot : Option String)
    (states : Option (List String)) (limit : ℤ) (m : Memory) :
    Except Refusal (List (Record Payload)) := do
  let limit ← listingLimit kind limit operationalRecordLimit "operational record limit is invalid"
  let sorted := Rows.orderBy (fun e => toLex e.1) m.records.entries
  let rows := (sorted.map Prod.snd).filter fun stored => stored.wanted kind ownerRoot states
  .ok ((rows.map fun stored => stored.decoded codec).take limit)

/-- `list_events`. -/
def listEvents (codec : Codec Payload) (kind : String) (recordRoot : Option String) (limit : ℤ)
    (m : Memory) : Except Refusal (List (Event Payload)) := do
  let limit ← listingLimit kind limit operationalEventLimit "operational event limit is invalid"
  let rows := m.events.filter fun item =>
    decide (item.kind = kind ∧ (recordRoot = none ∨ recordRoot = some item.recordRoot))
  .ok ((rows.map fun item => item.decoded codec).rtake limit)

end Memory

end ArchHub.Lease

namespace ArchHub.Lease

open Lib

variable {Payload : Type} {t : Tables} {m : Memory}

/-! ## Refused and answered calls -/

/-- The storages hold the same, and what the tables keep of themselves. -/
structure Mirrored (t : Tables) (m : Memory) : Prop where
  leases : Rows.Mirrors LeaseRow.presenceRoot LeaseRow.entry t.leases m.leases
  tombstones : ∀ root, t.revoked root = decide (root ∈ m.tombstones)
  activities : Rows.Mirrors Activity.activityRoot Activity.toDict t.activities m.activities
  records : Rows.Mirrors Record.key id t.records m.records
  events : m.events = t.events
  eventSequence : m.eventSequence = t.eventSequence
  /-- No two records were written at the same time. -/
  times : (t.records.map Record.updatedAt).Nodup
  /-- No kind is beyond its bound. -/
  bounded : ∀ kind, t.countOf kind ≤ operationalRecordLimit
  /-- The events are in the order of their sequence. -/
  ascending : t.events.Pairwise fun a b => a.sequence < b.sequence
  behind : ∀ e ∈ t.events, e.sequence ≤ t.eventSequence

/-- A call gives one answer on both sides and leaves them mirrored; a refused one changes
neither. -/
structure Agree {α : Type} (t : Tables) (m : Memory) (x : Tables × Except Refusal α)
    (y : Memory × Except Refusal α) : Prop where
  answer : x.2 = y.2
  mirrored : Mirrored x.1 y.1
  unchanged : ∀ e, x.2 = .error e → x.1 = t ∧ y.1 = m

theorem Agree.refused {α : Type} (h : Mirrored t m) (e : Refusal) :
    Agree t m (t, (.error e : Except Refusal α)) (m, .error e) :=
  ⟨rfl, h, fun _ _ => ⟨rfl, rfl⟩⟩

theorem Agree.answered {α : Type} {t' : Tables} {m' : Memory} (h : Mirrored t' m') (a : α) :
    Agree t m (t', .ok a) (m', .ok a) :=
  ⟨rfl, h, fun _ he => by cases he⟩

/-- A read, which changes neither side. -/
theorem Agree.read {α : Type} (h : Mirrored t m) {x y : Except Refusal α} (hxy : x = y) :
    Agree t m (t, x) (m, y) :=
  ⟨hxy, h, fun _ _ => ⟨rfl, rfl⟩⟩

/-! ## Activities by their columns -/

/-- The activities of the tables that have not expired. -/
def active (now : ℚ) (activities : List (Activity Extended)) : List (Activity Extended) :=
  activities.filter fun a => (Float64.ofRat now).lt (some a.expiresAt)

theorem toDict_injective : Function.Injective Activity.toDict := by
  rintro ⟨⟩ ⟨⟩ heq
  simpa [Activity.toDict] using heq

/-- The columns of an activity whose times are numbers. -/
theorem exists_activityRow {a : Activity Float64} (hobserved : a.observedAt ≠ none)
    (hexpires : a.expiresAt ≠ none) : ∃ row, Tables.activityRow a = .ok row ∧ row.toDict = a := by
  obtain ⟨observedAt, hobserved⟩ := Option.ne_none_iff_exists'.1 hobserved
  obtain ⟨expiresAt, hexpires⟩ := Option.ne_none_iff_exists'.1 hexpires
  refine ⟨{ a with observedAt := observedAt, expiresAt := expiresAt }, ?_, ?_⟩
  · unfold Tables.activityRow
    rw [hobserved, hexpires]
  · cases a
    cases hobserved
    cases hexpires
    rfl

/-- An activity that follows another one has its binding. -/
theorem binding_of_follows {a existing : Activity Float64} (h : a.follows existing = .ok ()) :
    existing.agentSessionRoot = a.agentSessionRoot ∧
      existing.deviceCustodyRoot = a.deviceCustodyRoot := by
  obtain ⟨_, hbinding, -⟩ := Check.bind_ok_iff.1 h
  exact of_decide_eq_true (Check.require_ok_iff.1 hbinding)

namespace Mirrored

/-! ## Leases -/

section

variable (h : Mirrored t m)

include h

theorem lease (root : String) :
    m.leases.get? root = (t.lease root).map LeaseRow.entry := h.leases.get? root

theorem withHead (head : ℕ) : Mirrored { t with head := head } m :=
  ⟨h.leases, h.tombstones, h.activities, h.records, h.events, h.eventSequence, h.times, h.bounded,
    h.ascending, h.behind⟩

theorem withLeases {rows : List LeaseRow} {leases : Dict String LeaseEntry}
    (hleases : Rows.Mirrors LeaseRow.presenceRoot LeaseRow.entry rows leases) :
    Mirrored { t with leases := rows } { m with leases := leases } := { h with leases := hleases }

theorem withTombstones {rows : List (String × Extended)} {roots : Finset String}
    (hroots : ∀ root, (Rows.select Prod.fst root rows).isSome = decide (root ∈ roots)) :
    Mirrored { t with tombstones := rows } { m with tombstones := roots } :=
  { h with tombstones := hroots }

theorem withActivities {rows : List (Activity Extended)}
    {activities : Dict String (Activity Float64)}
    (hrows : Rows.Mirrors Activity.activityRoot Activity.toDict rows activities) :
    Mirrored { t with activities := rows } { m with activities := activities } :=
  { h with activities := hrows }

theorem createInitialLease (root owner : String) (refreshedAt expiresAt : Float64) :
    Agree t m (t.createInitialLease root owner refreshedAt expiresAt)
      (m.createInitialLease root owner refreshedAt expiresAt) := by
  unfold Tables.createInitialLease Memory.createInitialLease
  cases leaseTimes root owner refreshedAt expiresAt with
  | error e => exact .refused h e
  | ok times =>
      obtain ⟨refreshed, expires⟩ := times
      have hrevoked := h.tombstones root
      by_cases hroot : root ∈ m.tombstones
      · simp only [transaction, hrevoked, hroot, decide_true, Bool.not_true, Check.require, if_true]
        exact .refused h _
      · simp only [transaction, hrevoked, hroot, if_false, decide_false, Bool.not_false,
          Check.require_true, Check.ok_bind]
        cases hrow : t.lease root with
        | some row =>
            simp only [Dict.contains, h.lease, hrow, Option.map_some, Option.isSome_some, if_true]
            exact .refused h _
        | none =>
            simp only [Dict.contains, h.lease, hrow, Option.map_none, Option.isSome_none,
              Option.isNone_none, Check.require_true, Check.ok_bind]
            let row : LeaseRow := ⟨root, owner, refreshed, expires, 1⟩
            have hleases := h.leases.insert (r := row) hrow
            exact .answered (h.withLeases hleases) 1

theorem renewLease (root owner : String) (refreshedAt expiresAt : Float64)
    (expectedGeneration : Option ℤ) :
    Agree t m (t.renewLease root owner refreshedAt expiresAt expectedGeneration)
      (m.renewLease root owner refreshedAt expiresAt expectedGeneration) := by
  unfold Tables.renewLease Memory.renewLease
  cases leaseTimes root owner refreshedAt expiresAt with
  | error e => exact .refused h e
  | ok times =>
      obtain ⟨refreshed, expires⟩ := times
      have hrevoked := h.tombstones root
      by_cases hroot : root ∈ m.tombstones
      · simp only [transaction, hrevoked, hroot, decide_true, Bool.not_true, Check.require, if_true]
        exact .refused h _
      · simp only [transaction, hrevoked, hroot, if_false, decide_false, Bool.not_false,
          Check.require_true, Check.ok_bind, h.lease root]
        cases hrow : t.lease root with
        | none => exact .refused h _
        | some row =>
            simp only [Option.map_some]
            cases hcheck : row.entry.renewable owner refreshed expectedGeneration with
            | error e => exact .refused h e
            | ok =>
                let renew (row : LeaseRow) : LeaseRow :=
                  { row with entry := row.entry.renewed refreshed expires }
                have hroot : row.presenceRoot = root := Rows.key_of_select hrow
                have hleases := h.leases.update (f := renew) hrow hroot
                exact .answered (h.withLeases hleases) _

theorem getLease (root : String) : t.getLease root = m.getLease root := by
  unfold Tables.getLease Memory.getLease
  rw [h.tombstones, h.lease]
  by_cases hroot : root ∈ m.tombstones <;> simp [hroot]

/-- A deletion beside a time that is a number. -/
theorem deleteLease (root : String) (owner : Option String) (now : Option Float64)
    (hnow : m.deletable root owner = true → now ≠ some none) :
    Agree t m (t.deleteLease root owner now) (m.deleteLease root owner) := by
  unfold Memory.deletable at hnow
  unfold Tables.deleteLease Memory.deleteLease
  rw [h.lease] at hnow ⊢
  cases hrow : t.lease root with
  | none =>
      simp only [transaction, hrow]
      exact .answered h false
  | some row =>
      simp only [hrow, Option.map_some] at hnow ⊢
      by_cases howner : owner ≠ none ∧ some row.entry.ownerToken ≠ owner
      · simp only [transaction, hrow, if_pos howner]
        exact .answered h false
      · rw [if_neg howner]
        have hgiven : now.getD (.ofRat 0) ≠ none := by
          have hnan := hnow (decide_eq_true (by
            rw [not_and_or, not_not, not_not] at howner
            exact howner.imp_right Eq.symm))
          cases now with
          | none => exact Option.some_ne_none _
          | some x =>
              intro hx
              rw [Option.getD_some] at hx
              exact hnan (congrArg some hx)
        obtain ⟨revokedAt, hrevokedAt⟩ := Option.ne_none_iff_exists'.1 hgiven
        simp only [transaction, hrow, if_neg howner, hrevokedAt]
        refine .answered ((h.withLeases (h.leases.delete root)).withTombstones fun root' => ?_) true
        have hgone : Rows.select Prod.fst root (Rows.delete Prod.fst root t.tombstones) = none := by
          rw [Rows.select_delete, if_pos rfl]
        rw [Rows.select_append (root, revokedAt) hgone, Rows.select_delete]
        by_cases hroot : root' = root
        · simp [hroot]
        · simp only [hroot, if_false, Finset.mem_insert, false_or]
          exact h.tombstones root'

end

/-! ## Activities -/

theorem activity (h : Mirrored t m) (root : String) :
    m.activities.get? root = (t.activity root).map Activity.toDict := h.activities.get? root

/-- An activity whose times are numbers. -/
theorem recordActivity (h : Mirrored t m) (a : Activity Float64)
    (htimes : m.activityCheck a = .ok () → a.observedAt ≠ none ∧ a.expiresAt ≠ none) :
    Agree t m (t.recordActivity a t.head) (m.recordActivity a) := by
  revert htimes
  unfold Tables.recordActivity Memory.recordActivity Memory.activityCheck
  intro htimes
  rw [h.activity] at htimes ⊢
  simp only [transaction, decide_true, Check.require_true, Check.ok_bind]
  cases hrow : t.activity a.activityRoot with
  | none =>
      rw [hrow, Option.map_none] at htimes
      obtain ⟨hobserved, hexpires⟩ := htimes rfl
      obtain ⟨row, hcolumns, hdict⟩ := exists_activityRow hobserved hexpires
      have hroot : row.activityRoot = a.activityRoot := congrArg Activity.activityRoot hdict
      have hactivities := h.activities.insert (r := row) (by rw [hroot]; exact hrow)
      rw [hdict, hroot] at hactivities
      simp only [hcolumns, Check.ok_bind, Option.map_none]
      exact .answered (h.withActivities hactivities) a
  | some existing =>
      rw [hrow, Option.map_some] at htimes
      rw [Option.map_some]
      dsimp only at htimes ⊢
      cases hfollows : a.follows existing.toDict with
      | error e => exact .refused h e
      | ok =>
          obtain ⟨hobserved, hexpires⟩ := htimes hfollows
          obtain ⟨row, hcolumns, hdict⟩ := exists_activityRow hobserved hexpires
          let record (existing : Activity Extended) : Activity Extended :=
            { existing with app := row.app, observedAt := row.observedAt, expiresAt := row.expiresAt }
          have hroot : existing.activityRoot = a.activityRoot := Rows.key_of_select hrow
          have hactivities := h.activities.update (f := record) hrow hroot
          have hrecorded : (record existing).toDict = a := by
            obtain ⟨hsession, hcustody⟩ := binding_of_follows hfollows
            rw [← hdict] at hsession hcustody hroot ⊢
            unfold record Activity.toDict
            cases existing
            cases hroot
            cases hsession
            cases hcustody
            rfl
          rw [hrecorded] at hactivities
          simp only [hcolumns, Check.ok_bind]
          exact .answered (h.withActivities hactivities) a

/-- What the tables answer to `list_baboom_activity_rows` is what the memory answers exactly
when the first activities came in the order of their roots. -/
theorem listActivities_iff (h : Mirrored t m) (limit : ℤ) :
    t.listActivities limit = m.listActivities limit ↔
      ∀ n, activityLimit limit = .ok n → Rows.Leading Activity.activityRoot n t.activities := by
  unfold Tables.listActivities Memory.listActivities
  rw [h.activities.values]
  cases activityLimit limit with
  | error e => simp
  | ok n =>
      have hroots : (t.activities.map Activity.activityRoot).Nodup := h.activities.nodup
      simp only [Check.ok_bind, Except.ok.injEq, ← List.map_take, forall_eq']
      rw [toDict_injective.list_map.eq_iff, eq_comm]
      exact Rows.take_orderBy_iff hroots

/-- What the tables answer to `list_active_baboom_activity_rows` is what the memory answers
exactly when the first activities that have not expired came in the order in which they expire. -/
theorem listActiveActivities_iff (h : Mirrored t m) (now : Float64) (limit : ℤ) :
    t.listActiveActivities now limit = m.listActiveActivities now limit ↔
      ∀ x, activeArguments now limit = .ok x →
        Rows.Leading (fun a : Activity Extended => toLex (a.expiresAt, a.activityRoot)) x.2
          (active x.1 t.activities) := by
  unfold Tables.listActiveActivities Memory.listActiveActivities
  rw [h.activities.values]
  cases activeArguments now limit with
  | error e => simp
  | ok x =>
      have hroots : (t.activities.map Activity.activityRoot).Nodup := h.activities.nodup
      have hkeys : ((active x.1 t.activities).map fun a : Activity Extended =>
          toLex (a.expiresAt, a.activityRoot)).Nodup := by
        rw [List.Nodup, List.pairwise_map] at hroots ⊢
        refine (hroots.sublist List.filter_sublist).imp fun hne heq => hne ?_
        exact congrArg Prod.snd (toLex.injective heq)
      have hmap : (t.activities.map Activity.toDict).filter
          (fun a => (Float64.ofRat x.1).lt a.expiresAt) =
            (active x.1 t.activities).map Activity.toDict := List.filter_map ..
      simp only [Check.ok_bind, Except.ok.injEq, hmap, ← List.map_take, forall_eq']
      rw [toDict_injective.list_map.eq_iff, eq_comm]
      exact Rows.take_orderBy_iff hkeys

end Mirrored

end ArchHub.Lease

import Mathlib
import ArchHub.Lease.Retirement

/-!
# The memory storage is the SQLite one

A call is made of both storages, which stand beside one graph; the graph moves between the calls
(`Call.commit`).  Calls come with the head of the graph as their authority revision, and puts
with a time that no record has (`Current`).

The two give the same answer, and neither is changed by a refusal, exactly when the call is one
of those that the memory decides as SQLite does (`InStep`):

* `list_baboom_activity_rows` and `list_active_baboom_activity_rows` are not ordered by the
  memory, so the activities that come first must have come in the order of the query;
* a column that is not null takes no float that is not a number.
-/

namespace ArchHub.Lease

open Lib Option

variable {Payload : Type} {t : Tables} {m : Memory}

/-! ## Calls -/

/-- A call of a storage, or a move of the graph beside it. -/
inductive Call (Payload : Type) where
  | createInitialLease (presenceRoot ownerToken : String) (refreshedAt expiresAt : Float64)
  | renewLease (presenceRoot ownerToken : String) (refreshedAt expiresAt : Float64)
      (expectedGeneration : Option ℤ)
  | getLease (presenceRoot : String)
  | deleteLease (presenceRoot : String) (ownerToken : Option String) (now : Option Float64)
  | recordActivity (activity : Activity Float64) (authorityRevision : ℤ)
  | listActivities (limit : ℤ)
  | listActiveActivities (now : Float64) (limit : ℤ)
  | putRecord (put : Put Payload)
  | getRecord (kind recordRoot : String)
  | listRecords (kind : String) (ownerRoot : Option String) (states : Option (List String))
      (limit : ℤ)
  | listEvents (kind : String) (recordRoot : Option String) (limit : ℤ)
  | commit

/-- What a call returns. -/
inductive Answer (Payload : Type) where
  | generation (n : ℕ)
  | lease (lease : Option LeaseEntry)
  | deleted (found : Bool)
  | activity (activity : Activity Float64)
  | activities (activities : List (Activity Float64))
  | record (record : Record Payload)
  | found (record : Option (Record Payload))
  | records (records : List (Record Payload))
  | events (events : List (Event Payload))
  | committed

/-- A result as an answer. -/
def answering {σ α : Type} (f : α → Answer Payload) (x : σ × Except Refusal α) :
    σ × Except Refusal (Answer Payload) := (x.1, x.2.map f)

/-- A call of the tables. -/
def Tables.call (codec : Codec Payload) (t : Tables) :
    Call Payload → Tables × Except Refusal (Answer Payload)
  | .createInitialLease root owner refreshedAt expiresAt =>
      answering .generation (t.createInitialLease root owner refreshedAt expiresAt)
  | .renewLease root owner refreshedAt expiresAt expected =>
      answering .generation (t.renewLease root owner refreshedAt expiresAt expected)
  | .getLease root => (t, .ok (.lease (t.getLease root)))
  | .deleteLease root owner now => answering .deleted (t.deleteLease root owner now)
  | .recordActivity a revision => answering .activity (t.recordActivity a revision)
  | .listActivities limit => answering .activities (t, t.listActivities limit)
  | .listActiveActivities now limit => answering .activities (t, t.listActiveActivities now limit)
  | .putRecord p => answering .record (t.putRecord codec p)
  | .getRecord kind root => answering .found (t, t.getRecord codec kind root)
  | .listRecords kind owner states limit =>
      answering .records (t, t.listRecords codec kind owner states limit)
  | .listEvents kind root limit => answering .events (t, t.listEvents codec kind root limit)
  | .commit => ({ t with head := t.head + 1 }, .ok .committed)

/-- A call of the memory. -/
def Memory.call (codec : Codec Payload) (m : Memory) :
    Call Payload → Memory × Except Refusal (Answer Payload)
  | .createInitialLease root owner refreshedAt expiresAt =>
      answering .generation (m.createInitialLease root owner refreshedAt expiresAt)
  | .renewLease root owner refreshedAt expiresAt expected =>
      answering .generation (m.renewLease root owner refreshedAt expiresAt expected)
  | .getLease root => (m, .ok (.lease (m.getLease root)))
  | .deleteLease root owner _ => answering .deleted (m.deleteLease root owner)
  | .recordActivity a _ => answering .activity (m.recordActivity a)
  | .listActivities limit => answering .activities (m, m.listActivities limit)
  | .listActiveActivities now limit => answering .activities (m, m.listActiveActivities now limit)
  | .putRecord p => answering .record (m.putRecord codec p)
  | .getRecord kind root => answering .found (m, m.getRecord codec kind root)
  | .listRecords kind owner states limit =>
      answering .records (m, m.listRecords codec kind owner states limit)
  | .listEvents kind root limit => answering .events (m, m.listEvents codec kind root limit)
  | .commit => (m, .ok .committed)

/-- Both storages, beside one graph. -/
structure Storages where
  tables : Tables
  memory : Memory

/-- The storages hold the same. -/
def Storages.Mirrored (s : Storages) : Prop := Lease.Mirrored s.tables s.memory

/-- New storages. -/
def Storages.new (head : ℕ) : Storages := ⟨.new head, .new⟩

/-- Every call is made of both. -/
def lockstep (codec : Codec Payload) : Machine Storages (Call Payload) where
  step s c := ⟨(s.tables.call codec c).1, (s.memory.call codec c).1⟩

/-! ## The condition -/

/-- The authority revision is the head of the graph, and the time of a put is its own. -/
def Current (s : Storages) : Call Payload → Prop
  | .recordActivity _ revision => revision = s.tables.head
  | .putRecord p => p.authorityRevision = s.tables.head ∧
      ∀ r ∈ s.tables.records, p.updatedAt ≠ .ofRat r.updatedAt
  | _ => True

/-- The calls that the memory decides as the tables do. -/
def InStep (s : Storages) : Call Payload → Prop
  | .deleteLease root owner now => s.memory.deletable root owner = true → now ≠ some none
  | .recordActivity a _ =>
      s.memory.activityCheck a = .ok () → a.observedAt ≠ none ∧ a.expiresAt ≠ none
  | .listActivities limit => ∀ n, activityLimit limit = .ok n →
      Rows.Leading Activity.activityRoot n s.tables.activities
  | .listActiveActivities now limit => ∀ x, activeArguments now limit = .ok x →
      Rows.Leading (fun a : Activity Extended => toLex (a.expiresAt, a.activityRoot)) x.2
        (active x.1 s.tables.activities)
  | _ => True

/-- The two storages decide a call alike: one answer, and a refusal changes neither. -/
def Alike (codec : Codec Payload) (s : Storages) (c : Call Payload) : Prop :=
  (s.tables.call codec c).2 = (s.memory.call codec c).2 ∧
    ∀ e, (s.tables.call codec c).2 = .error e →
      (s.tables.call codec c).1 = s.tables ∧ (s.memory.call codec c).1 = s.memory

/-! ## One call -/

theorem Agree.answering {α : Type} {x : Tables × Except Refusal α} {y : Memory × Except Refusal α}
    (h : Agree t m x y) (f : α → Answer Payload) :
    Agree t m (Lease.answering f x) (Lease.answering f y) := by
  refine ⟨congrArg (Except.map f) h.answer, h.mirrored, fun e he => ?_⟩
  cases hx : x.2 with
  | error e' => exact h.unchanged e' hx
  | ok a =>
      rw [Lease.answering, hx] at he
      cases he

/-- A call in step keeps the storages so. -/
theorem Mirrored.call (h : Mirrored t m) (codec : Codec Payload) (c : Call Payload)
    (hcurrent : Current ⟨t, m⟩ c) (hstep : InStep ⟨t, m⟩ c) :
    Agree t m (t.call codec c) (m.call codec c) := by
  cases c with
  | createInitialLease root owner refreshedAt expiresAt =>
      exact (h.createInitialLease root owner refreshedAt expiresAt).answering _
  | renewLease root owner refreshedAt expiresAt expected =>
      exact (h.renewLease root owner refreshedAt expiresAt expected).answering _
  | getLease root =>
      unfold Tables.call Memory.call
      dsimp only
      rw [h.getLease]
      exact .read h rfl
  | deleteLease root owner now =>
      exact (h.deleteLease root owner now hstep).answering _
  | recordActivity a revision =>
      have hhead : revision = t.head := hcurrent
      rw [hhead]
      exact (h.recordActivity a hstep).answering _
  | listActivities limit => exact (Agree.read h ((h.listActivities_iff limit).2 hstep)).answering _
  | listActiveActivities now limit =>
      exact (Agree.read h ((h.listActiveActivities_iff now limit).2 hstep)).answering _
  | putRecord p => exact (h.putRecord codec p hcurrent.1 hcurrent.2).answering _
  | getRecord kind root => exact (Agree.read h (h.getRecord codec kind root)).answering _
  | listRecords kind owner states limit =>
      exact (Agree.read h (h.listRecords codec kind owner states limit)).answering _
  | listEvents kind root limit =>
      exact (Agree.read h (h.listEvents codec kind root limit)).answering _
  | commit => exact .answered (h.withHead (t.head + 1)) _

/-- An answer of a transaction is the answer of its body. -/
theorem exists_of_transaction {α : Type} {body : Tables → Except Refusal (Tables × α)} {a : α}
    (h : (transaction body t).2 = .ok a) : ∃ t', body t = .ok (t', a) := by
  unfold transaction at h
  cases hbody : body t with
  | error e =>
      rw [hbody] at h
      cases h
  | ok x =>
      rw [hbody] at h
      cases h
      exact ⟨x.1, rfl⟩

/-- The columns of an activity that is written are not null. -/
theorem times_of_activityRow {a : Activity Float64} {row : Activity Extended}
    (h : Tables.activityRow a = .ok row) : a.observedAt ≠ none ∧ a.expiresAt ≠ none := by
  unfold Tables.activityRow at h
  split at h
  · next hobserved hexpires =>
      rw [hobserved, hexpires]
      exact ⟨some_ne_none _, some_ne_none _⟩
  · cases h
  · cases h

/-- An activity that the tables record has times that are numbers. -/
theorem times_of_recordActivity {a b : Activity Float64} {revision : ℤ}
    (h : (t.recordActivity a revision).2 = .ok b) : a.observedAt ≠ none ∧ a.expiresAt ≠ none := by
  obtain ⟨t', hbody⟩ := exists_of_transaction h
  obtain ⟨_, -, hbody⟩ := Check.bind_ok_iff.1 hbody
  cases hrow : t.activity a.activityRoot with
  | none =>
      simp only [hrow] at hbody
      obtain ⟨row, hcolumns, -⟩ := Check.bind_ok_iff.1 hbody
      exact times_of_activityRow hcolumns
  | some existing =>
      simp only [hrow] at hbody
      obtain ⟨_, -, hbody⟩ := Check.bind_ok_iff.1 hbody
      obtain ⟨row, hcolumns, -⟩ := Check.bind_ok_iff.1 hbody
      exact times_of_activityRow hcolumns

/-- A lease that may be deleted is not deleted beside a time that is no number. -/
theorem Mirrored.deleteLease_nan (h : Mirrored t m) {root : String} {owner : Option String}
    (hdeletable : m.deletable root owner = true) :
    (t.deleteLease root owner (some none)).2 =
        .error (.integrityError "runtime_presence_tombstones.revoked_at") ∧
      (m.deleteLease root owner).2 = .ok true := by
  unfold Memory.deletable at hdeletable
  unfold Tables.deleteLease Memory.deleteLease
  rw [h.lease] at hdeletable ⊢
  cases hrow : t.lease root with
  | none =>
      rw [hrow] at hdeletable
      cases hdeletable
  | some row =>
      rw [hrow] at hdeletable
      have howner : ¬(owner ≠ none ∧ some row.entry.ownerToken ≠ owner) := by
        rw [not_and_or, not_not, not_not]
        exact (of_decide_eq_true hdeletable).imp_right Eq.symm
      simp only [transaction, hrow, map_some, if_neg howner, getD_some]
      exact ⟨trivial, trivial⟩

/-- Answers are told apart as the results are. -/
theorem map_inj {α β : Type} {f : α → β} (hf : Function.Injective f) {x y : Except Refusal α}
    (h : x.map f = y.map f) : x = y := by
  cases x with
  | error e =>
      cases y with
      | error e' => exact congrArg _ (Except.error.inj h)
      | ok b => cases h
  | ok a =>
      cases y with
      | error e' => cases h
      | ok b => exact congrArg _ (hf (Except.ok.inj h))

/-- A call that is decided alike is in step. -/
theorem Mirrored.inStep_of_answer (h : Mirrored t m) (codec : Codec Payload) (c : Call Payload)
    (hanswer : (t.call codec c).2 = (m.call codec c).2) : InStep ⟨t, m⟩ c := by
  cases c with
  | deleteLease root owner now =>
      rintro hdeletable rfl
      obtain ⟨htables, hmemory⟩ := h.deleteLease_nan hdeletable
      have hsame := map_inj (fun _ _ => Answer.deleted.inj) hanswer
      rw [htables, hmemory] at hsame
      cases hsame
  | recordActivity a revision =>
      intro hcheck
      have hsame := map_inj (fun _ _ => Answer.activity.inj) hanswer
      have hmemory : (m.recordActivity a).2 = .ok a := by
        unfold Memory.recordActivity
        rw [hcheck]
      exact times_of_recordActivity (hsame.trans hmemory)
  | listActivities limit =>
      exact (h.listActivities_iff limit).1 (map_inj (fun _ _ => Answer.activities.inj) hanswer)
  | listActiveActivities now limit =>
      exact (h.listActiveActivities_iff now limit).1
        (map_inj (fun _ _ => Answer.activities.inj) hanswer)
  | _ => trivial

/-! ## Runs -/

theorem mirrored_new (head : ℕ) : (Storages.new head).Mirrored :=
  ⟨Rows.mirrors_nil, fun _ => rfl, Rows.mirrors_nil, Rows.mirrors_nil, rfl, rfl, List.nodup_nil,
    fun _ => Nat.zero_le _, List.Pairwise.nil, fun _ he => by cases he⟩

/-- A payload that is its own text. -/
def plainText : Codec String := ⟨some, id⟩

/-- An activity of one session. -/
def sighting (root : String) : Activity Float64 :=
  ⟨root, "app:agent-session:runtime:1", "device-custody:sha256:1", "Revit", .ofRat 1, .ofRat 2⟩

/-- It is recorded. -/
def seen (root : String) : Call String := .recordActivity (sighting root) 0

end ArchHub.Lease

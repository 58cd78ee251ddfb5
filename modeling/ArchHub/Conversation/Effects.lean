import Mathlib
import ArchHub.Conversation.Indexes

/-!
# What the operations of a conversation do

One inversion for each operation: what holds of the tables it starts from where
it does not raise, and which tables it comes to.  Everything said of runs is
said from these.
-/

namespace ArchHub.History

open Lib List
open Lib.Check (bind_ok_iff require_ok_iff)

namespace Conversation

variable {host : Host} {conversation : String} {enabled digests : Bool}
variable {c c' : Conversation} {m : Message} {created : Bool} {batch : List Message} {removed : ℕ}
  {p : Purge} {clock : ℚ} {status : Retention} {a : Append} {s : Step}

theorem ok_inj {α : Type} {a b : α} (h : (Except.ok a : Except String α) = .ok b) : a = b := by
  injection h

/-! ## Validation -/

theorem nodup_of_references {values : List String} {label : String}
    (h : references values label = .ok ()) : values.Nodup := by
  unfold references at h
  obtain ⟨_, -, h⟩ := bind_ok_iff.mp h
  obtain ⟨_, -, h⟩ := bind_ok_iff.mp h
  exact of_decide_eq_true (require_ok_iff.mp h)

/-- The recipients of a valid draft are different. -/
theorem nodup_recipients {d : Draft} (h : validateMessageFields host conversation d = .ok ()) :
    d.recipients.Nodup := by
  unfold validateMessageFields at h
  obtain ⟨_, -, h⟩ := bind_ok_iff.mp h
  obtain ⟨_, -, h⟩ := bind_ok_iff.mp h
  obtain ⟨_, -, h⟩ := bind_ok_iff.mp h
  obtain ⟨_, -, h⟩ := bind_ok_iff.mp h
  obtain ⟨_, -, h⟩ := bind_ok_iff.mp h
  obtain ⟨_, hrecipients, -⟩ := bind_ok_iff.mp h
  exact nodup_of_references hrecipients

/-! ## Retention rows -/

/-- Recorded activity writes the retention row only. -/
theorem recordActivityRow_ok (h : c.recordActivityRow enabled clock = .ok c') :
    ∃ status, c.requiredStatus enabled = .ok status ∧ instant clock = true ∧
      c' = { c with retention := some { status with
        lastActivityAt := some (max clock (status.lastActivityAt.getD 0))
        activityBasis := .ownerObserved
        activityRevision := status.activityRevision + 1
        archiveRevision := status.archiveRevision + if status.archivedAt.isSome then 1 else 0
        archivedAt := none } } := by
  unfold recordActivityRow at h
  obtain ⟨status, hstatus, h⟩ := bind_ok_iff.mp h
  obtain ⟨now, hnow, h⟩ := bind_ok_iff.mp h
  obtain ⟨_, hclock, hnow⟩ := bind_ok_iff.mp hnow
  have hnow := ok_inj hnow
  subst hnow
  exact ⟨status, hstatus, require_ok_iff.mp hclock, (ok_inj h).symm⟩

theorem recordActivity_ok {guard : Option String}
    (h : c.recordActivity enabled clock guard = .ok c') :
    c.recordActivityRow enabled clock = .ok c' := by
  unfold recordActivity at h
  obtain ⟨c₁, hrow, h⟩ := bind_ok_iff.mp h
  obtain ⟨_, -, h⟩ := bind_ok_iff.mp h
  rw [hrow, ok_inj h]

/-- The retention row of an operation that required one. -/
theorem requiredStatus_ok (h : c.requiredStatus enabled = .ok status) :
    enabled = true ∧ status = c.retention.getD .absent ∧ admitted status = true := by
  unfold requiredStatus at h
  obtain ⟨_, henabled, h⟩ := bind_ok_iff.mp h
  have henabled : enabled = true := require_ok_iff.mp henabled
  unfold retentionStatus at h
  obtain ⟨_, hadmitted, h⟩ := bind_ok_iff.mp h
  rw [henabled, if_pos rfl] at hadmitted h
  have h := ok_inj h
  subst h
  exact ⟨henabled, rfl, require_ok_iff.mp hadmitted⟩

/-! ## Appending -/

/-- The message a draft records. -/
def Append.message (a : Append) (last : ℕ) : Message :=
  ⟨a.draft.id.getD a.fresh, last + 1, a.draft.author, a.draft.content, a.draft.category,
    a.draft.recipients, a.draft.refs, a.draft.evidence, a.draft.replyTo,
    a.draft.createdAt.getD a.stamp, a.draft.idempotencyKey⟩

/-- What an append inside its transaction comes to: a message recorded before
under its key, or a new one. -/
inductive Appended (host : Host) (enabled : Bool) (a : Append) (c : Conversation) :
    Conversation → Message → Prop
  | again (r : Row) (hkey : c.byKey a.draft.idempotencyKey = some r)
      (hrepeats : a.draft.repeats r.message = true) : Appended host enabled a c c r.message
  | fresh (c₁ : Conversation) (hkey : c.byKey a.draft.idempotencyKey = none)
      (hremoved : enabled = true → ∀ t ∈ c.tombstones,
        t.messageDigest ≠ identityDigest host (a.draft.id.getD a.fresh) ∧
        t.idempotencyDigest ≠ identityDigest host a.draft.idempotencyKey)
      (hreply : ∀ target ∈ a.draft.replyTo, ∃ r ∈ c.rows, r.message.id = target)
      (hinsert : c.insertIndexed (a.message c.lastSequence) = .ok c₁) :
      Appended host enabled a c { c₁ with lastSequence := c.lastSequence + 1 }
        (a.message c.lastSequence)

theorem appendInTransaction_ok (h : c.appendInTransaction host enabled a = .ok (c', m)) :
    Appended host enabled a c c' m := by
  unfold appendInTransaction at h
  obtain ⟨_, -, h⟩ := bind_ok_iff.mp h
  split at h
  · next r hkey =>
      obtain ⟨_, hrepeats, h⟩ := bind_ok_iff.mp h
      obtain ⟨rfl, rfl⟩ := Prod.mk.inj (ok_inj h)
      exact .again r hkey (require_ok_iff.mp hrepeats)
  · next hkey =>
      obtain ⟨_, hremoved, h⟩ := bind_ok_iff.mp h
      obtain ⟨_, -, h⟩ := bind_ok_iff.mp h
      obtain ⟨_, hreply, h⟩ := bind_ok_iff.mp h
      obtain ⟨c₁, hinsert, h⟩ := bind_ok_iff.mp h
      obtain ⟨rfl, rfl⟩ := Prod.mk.inj (ok_inj h)
      refine .fresh c₁ hkey (fun henabled t ht => ?_) (fun target htarget => ?_) hinsert
      · have hall := require_ok_iff.mp (Check.onlyIf_ok_iff.mp hremoved henabled)
        simpa using List.all_eq_true.1 hall t ht
      · have htarget : target ∈ a.draft.replyTo.toList := Option.mem_toList.2 htarget
        exact byId_isSome.1 (require_ok_iff.mp (Check.each_ok_iff.mp hreply target htarget))

/-- What an append does: the tables of `Appended`, with another retention row. -/
theorem append_ok (h : c.append host enabled conversation a = .ok (c', m, created)) :
    validateMessageFields host conversation a.draft = .ok () ∧
    created = decide (c.lastSequence < m.sequence) ∧
    ∃ c₁, Appended host enabled a c c₁ m ∧
      if created && enabled then c₁.recordActivityRow enabled a.clock = .ok c' else c' = c₁ := by
  unfold append at h
  obtain ⟨_, hvalid, h⟩ := bind_ok_iff.mp h
  obtain ⟨_, -, h⟩ := bind_ok_iff.mp h
  obtain ⟨⟨c₁, m'⟩, hinside, h⟩ := bind_ok_iff.mp h
  obtain ⟨_, -, h⟩ := bind_ok_iff.mp h
  obtain ⟨c₂, hactivity, h⟩ := bind_ok_iff.mp h
  obtain ⟨_, -, h⟩ := bind_ok_iff.mp h
  obtain ⟨rfl, hmessage, hcreated⟩ : c₂ = c' ∧ m' = m ∧ decide (c.lastSequence < m'.sequence) =
      created := by simpa using ok_inj h
  subst hmessage hcreated
  refine ⟨hvalid, rfl, c₁, appendInTransaction_ok hinside, ?_⟩
  split at hactivity
  · next hnew => rw [if_pos hnew]; exact hactivity
  · next hold => rw [if_neg hold]; exact (ok_inj hactivity).symm

/-! ## Archiving -/

/-- What a retention step is admitted with. -/
theorem retentionCas_ok (h : c.retentionCas enabled s = .ok status) :
    c.requiredStatus enabled = .ok status := by
  unfold retentionCas at h
  obtain ⟨_, -, h⟩ := bind_ok_iff.mp h
  obtain ⟨status', hstatus, h⟩ := bind_ok_iff.mp h
  obtain ⟨_, -, h⟩ := bind_ok_iff.mp h
  obtain ⟨_, -, h⟩ := bind_ok_iff.mp h
  rw [hstatus, ok_inj h]

/-- An archive writes the retention row only. -/
theorem archive_ok (h : c.archive enabled s = .ok c') :
    c' = c ∨ ∃ status, c.requiredStatus enabled = .ok status ∧ instant s.clock = true ∧
      ∃ retention, c' = { c with retention := some retention } ∧
        retention.archivedAt = some s.clock ∧
        retention.contentGeneration = status.contentGeneration ∧
        (status.lastActivityAt = none ∧ retention.lastActivityAt = some s.clock ∧
            retention.activityBasis = .archiveObservation ∨
          status.lastActivityAt.isSome = true ∧
            retention.lastActivityAt = status.lastActivityAt ∧
            retention.activityBasis = status.activityBasis) := by
  unfold archive at h
  obtain ⟨_, -, h⟩ := bind_ok_iff.mp h
  obtain ⟨status, hstatus, h⟩ := bind_ok_iff.mp h
  split at h
  · obtain ⟨_, -, h⟩ := bind_ok_iff.mp h
    exact .inl (ok_inj h).symm
  · obtain ⟨now, hnow, h⟩ := bind_ok_iff.mp h
    obtain ⟨_, hclock, hnow⟩ := bind_ok_iff.mp hnow
    have hnow := ok_inj hnow
    subst hnow
    obtain ⟨_, -, h⟩ := bind_ok_iff.mp h
    refine .inr ⟨status, retentionCas_ok hstatus, require_ok_iff.mp hclock, _, (ok_inj h).symm,
      rfl, ?_, ?_⟩
    · split <;> rfl
    · cases hactive : status.lastActivityAt with
      | none => exact .inl ⟨rfl, rfl, rfl⟩
      | some t => exact .inr ⟨rfl, by simp [hactive], by simp⟩

/-! ## Purging -/

/-- The batch of a purge is cut off the front of the rows. -/
theorem batchOf_ok {last maxBytes : ℕ} {rows : List Row} {batch' : List Message} {removed' : ℕ}
    (h : batchOf host conversation last maxBytes rows batch removed = .ok (batch', removed')) :
    ∃ front back, rows = front ++ back ∧ batch' = batch ++ front.map Row.message ∧
      ∀ r ∈ front, validateMessageFields host conversation r.message.draft = .ok () ∧
        1 ≤ r.message.sequence ∧ r.message.sequence ≤ last := by
  induction rows generalizing batch removed with
  | nil =>
      obtain ⟨rfl, rfl⟩ := Prod.mk.inj (ok_inj h)
      exact ⟨[], [], rfl, by simp, by simp⟩
  | cons r rows ih =>
      unfold batchOf at h
      obtain ⟨_, hsequence, h⟩ := bind_ok_iff.mp h
      obtain ⟨_, hvalid, h⟩ := bind_ok_iff.mp h
      obtain ⟨_, -, h⟩ := bind_ok_iff.mp h
      dsimp only at h
      split at h
      · split at h
        · cases h
        · obtain ⟨rfl, rfl⟩ := Prod.mk.inj (ok_inj h)
          exact ⟨[], r :: rows, rfl, by simp, by simp⟩
      · obtain ⟨front, back, rfl, rfl, hfront⟩ := ih h
        refine ⟨r :: front, back, rfl, by simp, ?_⟩
        intro s hs
        rcases List.mem_cons.1 hs with rfl | hs
        · exact ⟨hvalid, of_decide_eq_true (require_ok_iff.mp hsequence)⟩
        · exact hfront s hs

/-- What a purge has checked before it exports, and its batch. -/
theorem purgeBatch_ok (h : c.purgeBatch host enabled conversation p = .ok (batch, removed)) :
    ∃ status archived active, c.requiredStatus enabled = .ok status ∧
      status.archivedAt = some archived ∧ status.lastActivityAt = some active ∧
      retentionSeconds ≤ p.clock - active ∧ archived ≤ p.clock ∧
      ∃ front back, Newest.newestFirst (fun r => r.message.sequence) c.rows = front ++ back ∧
        batch = front.map Row.message ∧
        (∀ r ∈ front, validateMessageFields host conversation r.message.draft = .ok ()) ∧
        (batch ≠ [] → guarded p.exported = .ok ()) := by
  unfold purgeBatch at h
  obtain ⟨_, -, h⟩ := bind_ok_iff.mp h
  obtain ⟨_, -, h⟩ := bind_ok_iff.mp h
  obtain ⟨_, -, h⟩ := bind_ok_iff.mp h
  obtain ⟨status, hstatus, h⟩ := bind_ok_iff.mp h
  obtain ⟨now, hnow, h⟩ := bind_ok_iff.mp h
  obtain ⟨_, -, hnow⟩ := bind_ok_iff.mp hnow
  have hnow := ok_inj hnow
  subst hnow
  split at h
  · next archived active harchived hactive =>
      obtain ⟨_, hinactive, h⟩ := bind_ok_iff.mp h
      obtain ⟨hinactive, hpast⟩ := of_decide_eq_true (require_ok_iff.mp hinactive)
      obtain ⟨⟨batch', removed'⟩, hbatch, h⟩ := bind_ok_iff.mp h
      obtain ⟨front, back, hrows, hfront, hvalid⟩ := batchOf_ok hbatch
      have hguard : (batch' ≠ [] → guarded p.exported = .ok ()) ∧ batch' = batch := by
        dsimp only at h
        split at h
        · obtain ⟨_, hexport, h⟩ := bind_ok_iff.mp h
          obtain ⟨hbatch', -⟩ := Prod.mk.inj (ok_inj h)
          exact ⟨fun _ => hexport, hbatch'⟩
        · next hempty =>
            obtain ⟨hbatch', -⟩ := Prod.mk.inj (ok_inj h)
            exact ⟨fun hne => absurd hne hempty, hbatch'⟩
      obtain ⟨hguard, rfl⟩ := hguard
      have hsplit : Newest.newestFirst (fun r => r.message.sequence) c.rows =
          front ++ (back ++ (Newest.newestFirst (fun r => r.message.sequence) c.rows).drop
            p.maxMessages) := by
        rw [← append_assoc, ← hrows]
        exact (take_append_drop _ _).symm
      exact ⟨status, archived, active, retentionCas_ok hstatus, harchived, hactive, hinactive, hpast,
        front, _, hsplit, by simpa using hfront, fun r hr => (hvalid r hr).1, hguard⟩
  · cases h

/-- What a purge does. -/
theorem purgeArchived_ok {answer : Purged}
    (h : c.purgeArchived host enabled conversation p = .ok (c', answer)) :
    ∃ status batch removed c₁, c.requiredStatus enabled = .ok status ∧
      c.purgeBatch host enabled conversation p = .ok (batch, removed) ∧
      removeAll host conversation batch c = .ok c₁ ∧
      c' = (if batch = [] then c₁
        else { c₁ with retention := some { status with
          contentGeneration := status.contentGeneration + 1
          purgedMessages := status.purgedMessages + batch.length } }) ∧
      answer = ⟨batch.length, removed, !c'.rows.isEmpty⟩ := by
  unfold purgeArchived at h
  obtain ⟨status, hstatus, h⟩ := bind_ok_iff.mp h
  obtain ⟨⟨batch, removed⟩, hbatch, h⟩ := bind_ok_iff.mp h
  obtain ⟨c₁, hremove, h⟩ := bind_ok_iff.mp h
  obtain ⟨_, -, h⟩ := bind_ok_iff.mp h
  obtain ⟨hc, hanswer⟩ := Prod.mk.inj (ok_inj h)
  refine ⟨status, batch, removed, c₁, retentionCas_ok hstatus, hbatch, hremove, hc.symm, ?_⟩
  rw [← hc, hanswer]

/-- The copies a committed purge had accepted are its batch. -/
theorem accepted_eq (h : c.purgeBatch host enabled conversation p = .ok (batch, removed)) :
    c.accepted host enabled conversation p = batch := by
  unfold accepted
  rw [h]

/-- The rows without the messages of a batch. -/
def without (rows : List Row) (batch : List Message) : List Row :=
  rows.filter fun r => decide (r.message.id ∉ batch.map Message.id)

/-- **What removing a batch of rows does.** -/
theorem removeAll_ok (hindexed : Indexed c) (hmem : ∀ m ∈ batch, ∃ r ∈ c.rows, r.message = m)
    (hids : (batch.map Message.id).Nodup) (h : removeAll host conversation batch c = .ok c') :
    Indexed c' ∧ c'.rows = without c.rows batch ∧
      c'.tombstones = c.tombstones ++ batch.map (tombstoneFor host conversation) ∧
      c'.lastSequence = c.lastSequence ∧ c'.retention = c.retention := by
  induction batch generalizing c with
  | nil =>
      have h := ok_inj h
      subst h
      exact ⟨hindexed, by simp [without], by simp, rfl, rfl⟩
  | cons m batch ih =>
      unfold removeAll at h
      obtain ⟨c₁, hone, hrest⟩ := bind_ok_iff.mp h
      obtain ⟨r, hr, rfl⟩ := hmem m mem_cons_self
      obtain ⟨hnew, hids⟩ := List.nodup_cons.1 hids
      have hindexed₁ := hindexed.remove hr hone
      obtain ⟨-, -, counts, -, hc₁⟩ := removeIndexed_ok hone
      have hmem₁ : ∀ m ∈ batch, ∃ s ∈ c₁.rows, s.message = m := by
        intro m hm
        obtain ⟨s, hs, rfl⟩ := hmem m (mem_cons_of_mem _ hm)
        have hother : s.message.id ≠ r.message.id := fun heq =>
          hnew (heq ▸ List.mem_map.2 ⟨s.message, hm, rfl⟩)
        rw [hc₁]
        exact ⟨s, List.mem_filter.2 ⟨hs, decide_eq_true hother⟩, rfl⟩
      obtain ⟨hdone, hrows, htombstones, hlast, hretention⟩ := ih hindexed₁ hmem₁ hids hrest
      refine ⟨hdone, ?_, ?_, by rw [hlast, hc₁], by rw [hretention, hc₁]⟩
      · rw [hrows, hc₁]
        unfold without
        rw [filter_filter]
        refine filter_congr fun s _ => ?_
        simp only [map_cons, mem_cons, not_or]
        rw [Bool.eq_iff_iff]
        simp [and_comm]
      · rw [htombstones, hc₁, append_assoc]
        rfl

/-! ## Restoring -/

/-- What restoring one message comes to. -/
inductive Restored (host : Host) (conversation : String) (digests : Bool) (c : Conversation)
    (m : Message) : Conversation → Bool → Prop
  | present (r : Row) (hr : r ∈ c.rows) (hsequence : r.message.sequence = m.sequence)
      (hid : r.message.id = m.id) : Restored host conversation digests c m c false
  | back (t : Tombstone) (c₁ : Conversation) (hdigests : digests = true) (ht : t ∈ c.tombstones)
      (hnone : ∀ r ∈ c.rows, r.message.sequence ≠ m.sequence)
      (htomb : t = tombstoneFor host conversation m)
      (hreply : ∀ target ∈ m.replyTo, ∃ r ∈ c.rows, r.message.id = target)
      (hinsert : ({ c with tombstones := c.tombstones.filter fun t => t.sequence ≠ m.sequence } :
        Conversation).insertIndexed m = .ok c₁) : Restored host conversation digests c m c₁ true

theorem restoreOne_ok {restored : Bool}
    (h : restoreOne host conversation digests c m = .ok (c', restored)) :
    validateMessageFields host conversation m.draft = .ok () ∧
    1 ≤ m.sequence ∧ m.sequence ≤ c.lastSequence ∧
    Restored host conversation digests c m c' restored := by
  unfold restoreOne at h
  obtain ⟨_, hvalid, h⟩ := bind_ok_iff.mp h
  obtain ⟨_, hsequence, h⟩ := bind_ok_iff.mp h
  obtain ⟨hfirst, hlast⟩ := of_decide_eq_true (require_ok_iff.mp hsequence)
  refine ⟨hvalid, hfirst, hlast, ?_⟩
  split at h
  · next r hpresent =>
      obtain ⟨_, hid, h⟩ := bind_ok_iff.mp h
      obtain ⟨rfl, rfl⟩ := Prod.mk.inj (ok_inj h)
      obtain ⟨hr, hn⟩ := bySequence_eq_some hpresent
      exact .present r hr hn (of_decide_eq_true (require_ok_iff.mp hid))
  · next hnone =>
      dsimp only at h
      obtain ⟨_, hidentity, h⟩ := bind_ok_iff.mp h
      obtain ⟨_, hcontent, h⟩ := bind_ok_iff.mp h
      obtain ⟨_, hreply, h⟩ := bind_ok_iff.mp h
      obtain ⟨c₁, hinsert, h⟩ := bind_ok_iff.mp h
      obtain ⟨rfl, rfl⟩ := Prod.mk.inj (ok_inj h)
      have hidentity := require_ok_iff.mp hidentity
      have hcontent := require_ok_iff.mp hcontent
      cases hdigests : digests with
      | false => simp [hdigests] at hidentity
      | true =>
          rw [hdigests, if_pos rfl] at hidentity hcontent
          cases htomb : c.tombstoneOf m.sequence with
          | none => simp [htomb] at hidentity
          | some t =>
              rw [htomb, Option.any_some] at hidentity hcontent
              obtain ⟨hmessage, hkey⟩ := of_decide_eq_true hidentity
              have hcontent := of_decide_eq_true hcontent
              have ht : t ∈ c.tombstones := List.mem_of_find?_eq_some htomb
              have hn : t.sequence = m.sequence := by simpa using List.find?_some htomb
              have heq : t = tombstoneFor host conversation m := by
                cases t
                simp_all [tombstoneFor]
              refine .back t _ rfl ht (bySequence_eq_none hnone) heq (fun target htarget => ?_)
                hinsert
              have htarget : target ∈ m.replyTo.toList := Option.mem_toList.2 htarget
              exact byId_isSome.1 (require_ok_iff.mp (Check.each_ok_iff.mp hreply target htarget))

/-- What a restore does. -/
theorem restoreArchived_ok {r : Restore}
    (h : c.restoreArchived host enabled digests conversation r = .ok c') :
    ∃ status c₁ count, c.requiredStatus enabled = .ok status ∧
      restoreAll host conversation digests r.batch c = .ok (c₁, count) ∧
      (if count = 0 then c₁
        else { c₁ with retention := some { status with
          contentGeneration := status.contentGeneration + 1
          purgedMessages := status.purgedMessages - count } } : Conversation).recordActivityRow
        enabled r.clock = .ok c' := by
  unfold restoreArchived at h
  obtain ⟨_, -, h⟩ := bind_ok_iff.mp h
  obtain ⟨_, -, h⟩ := bind_ok_iff.mp h
  obtain ⟨_, -, h⟩ := bind_ok_iff.mp h
  obtain ⟨status, hstatus, h⟩ := bind_ok_iff.mp h
  obtain ⟨⟨c₁, count⟩, hall, h⟩ := bind_ok_iff.mp h
  obtain ⟨c₂, hactivity, h⟩ := bind_ok_iff.mp h
  obtain ⟨_, -, h⟩ := bind_ok_iff.mp h
  have h := ok_inj h
  subst h
  exact ⟨status, c₁, count, hstatus, hall, hactivity⟩

/-- **What every restored message of a batch keeps, and a row that is added
keeps, the batch keeps.** -/
theorem restoreAll_keeps {Inv : Conversation → Prop} {count : ℕ}
    (hstep : ∀ c m c' restored, m ∈ batch →
      validateMessageFields host conversation m.draft = .ok () → 1 ≤ m.sequence →
      m.sequence ≤ c.lastSequence → Restored host conversation digests c m c' restored →
      Inv c → Inv c') (h : restoreAll host conversation digests batch c = .ok (c', count))
    (hc : Inv c) : Inv c' := by
  induction batch generalizing c count with
  | nil =>
      obtain ⟨rfl, -⟩ := Prod.mk.inj (ok_inj h)
      exact hc
  | cons m batch ih =>
      unfold restoreAll at h
      obtain ⟨⟨c₁, restored⟩, hone, h⟩ := bind_ok_iff.mp h
      obtain ⟨⟨c₂, count'⟩, hrest, h⟩ := bind_ok_iff.mp h
      obtain ⟨rfl, -⟩ := Prod.mk.inj (ok_inj h)
      obtain ⟨hvalid, hfirst, hlast, hrestored⟩ := restoreOne_ok hone
      have hc₁ := hstep c m c₁ restored mem_cons_self hvalid hfirst hlast hrestored hc
      exact ih (fun c n c' restored hn => hstep c n c' restored (mem_cons_of_mem m hn))
        hrest hc₁

end Conversation

end ArchHub.History

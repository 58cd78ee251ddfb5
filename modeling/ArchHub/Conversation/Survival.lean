import Mathlib
import ArchHub.Conversation.Identity

/-!
# Repeats, purges and restores along a run

What the account of a conversation (`Accounted`) says about its next call, in
every state a run comes to:

* an append under the key of a live message is that message again, or refused;
  under the key of one that is gone it is refused,
* a purge takes the newest messages, so never one that a retained reply needs,
* restoring copies an archive has accepted, in any batches in which a reply
  comes with or after the message it replies to, brings back those messages and
  nothing else.
-/

namespace ArchHub.History

open Lib List Check

namespace Conversation

variable {host : Host} {id : String} {enabled digests : Bool}
variable {recorded exported : List Message} {c c' : Conversation} {m : Message} {a : Append}
  {batch : List Message}

/-! ## Repeated appends -/

/-- An append nothing but its identity can be refused for: its fields are valid,
it does not ask for a new message, no guard raises, and who it is written for
may read the message it replies to. -/
structure Welcome (host : Host) (id : String) (recorded : List Message) (a : Append) : Prop where
  valid : validateMessageFields host id a.draft = .ok ()
  access : ∀ access ∈ a.access, text access.principal "principal" 512 = .ok ()
  audible : ∀ access ∈ a.access, ∀ target ∈ a.draft.replyTo, ∀ n ∈ recorded, n.id = target →
    readable access.principal access.readAll n = true
  requireNew : a.requireNew = false
  guard : a.guard = none

/-- The message a welcome append replies to is heard, where it is live. -/
theorem Accounted.replyAudible (h : Accounted host id recorded exported c)
    (hwelcome : Welcome host id recorded a)
    (hlive : ∀ target ∈ a.draft.replyTo, ∃ s ∈ c.rows, s.message.id = target) :
    c.replyAudible a.draft.replyTo a.access = true := by
  unfold Conversation.replyAudible
  split
  · next target access htarget haccess =>
      obtain ⟨s, hs, hid⟩ := hlive target htarget
      have hread := hwelcome.audible access haccess target htarget _ (h.mem_of_row hs) hid
      rw [any_eq_true]
      refine ⟨s, hs, ?_⟩
      rw [h.fit.indexed.audible_eq hs, hread, Bool.and_true]
      exact decide_eq_true hid
  · rfl

/-- **A repeated append returns the first message**, and changes nothing. -/
theorem Accounted.append_again (h : Accounted host id recorded exported c) {r : Row}
    (hr : r ∈ c.rows) (hkey : a.draft.idempotencyKey = r.message.idempotencyKey)
    (hrepeats : a.draft.repeats r.message = true) (hwelcome : Welcome host id recorded a) :
    c.append host enabled id a = .ok (c, r.message, false) := by
  have hreply : a.draft.replyTo = r.message.replyTo :=
    (of_decide_eq_true hrepeats).2.2.2.2.2.2.1
  have haudible := h.replyAudible hwelcome fun target htarget =>
    h.live r hr target (hreply ▸ htarget)
  have haccess : Check.each (fun access : Access => text access.principal "principal" 512)
      a.access.toList = .ok () :=
    Check.each_ok_iff.mpr fun access hmem => hwelcome.access access (Option.mem_toList.1 hmem)
  have hold : decide (c.lastSequence < r.message.sequence) = false :=
    decide_eq_false (Nat.not_lt.2 (h.fit.bounded r hr))
  unfold Conversation.append appendInTransaction
  rw [hwelcome.valid, haccess]
  dsimp only
  rw [haudible, hkey, h.fit.indexed.byKey hr]
  dsimp only
  rw [hrepeats]
  simp only [require_true, ok_bind]
  rw [hold, hwelcome.requireNew, hwelcome.guard]
  rfl

/-- An append under the key of a live message it does not repeat is refused. -/
theorem Accounted.append_other (h : Accounted host id recorded exported c) {r : Row}
    (hr : r ∈ c.rows) (hkey : a.draft.idempotencyKey = r.message.idempotencyKey)
    (hother : a.draft.repeats r.message = false) : ∃ e, c.append host enabled id a = .error e := by
  cases hcall : c.append host enabled id a with
  | error e => exact ⟨e, rfl⟩
  | ok answer =>
      obtain ⟨c', m, created⟩ := answer
      obtain ⟨-, -, c₁, hinside, -⟩ := append_ok hcall
      have hfound := hkey ▸ h.fit.indexed.byKey hr
      cases hinside with
      | again s hs hrepeats =>
          rw [hfound] at hs
          injection hs with hs
          rw [hs, hrepeats] at hother
          cases hother
      | fresh c₂ hnone =>
          rw [hfound] at hnone
          cases hnone

/-- **An append under the key, or for the id, of a message that is gone is
refused.** -/
theorem append_gone (htomb : tombstoneFor host id m ∈ c.tombstones) (henabled : enabled = true)
    (hnone : c.byKey a.draft.idempotencyKey = none)
    (hsame : a.draft.idempotencyKey = m.idempotencyKey ∨ a.draft.id = some m.id) :
    ∃ e, c.append host enabled id a = .error e := by
  cases hcall : c.append host enabled id a with
  | error e => exact ⟨e, rfl⟩
  | ok answer =>
      obtain ⟨c', n, created⟩ := answer
      obtain ⟨-, -, c₁, hinside, -⟩ := append_ok hcall
      cases hinside with
      | again s hs =>
          rw [hnone] at hs
          cases hs
      | fresh c₂ _ hremoved =>
          obtain ⟨hid, hkey⟩ := hremoved henabled _ htomb
          rcases hsame with hsame | hsame
          · exact absurd (congrArg (identityDigest host) hsame.symm) hkey
          · rw [hsame] at hid
            exact absurd rfl hid

/-! ## Purges never orphan -/

/-- What `purge_archived` raises where a retained message replies to one of its
batch. -/
def orphans : String := "purge would orphan a retained reply"

theorem uncount_error {counts : Dict (Audience × String) ℕ} {keys : List (Audience × String)}
    {e : String} (h : uncount keys counts = .error e) :
    e = "conversation category counts are inconsistent" := by
  induction keys generalizing counts with
  | nil => cases h
  | cons key keys ih =>
      unfold uncount at h
      split at h
      · exact ih h
      · injection h with h
        exact h.symm

/-- Removing a message no row replies to does not fail because of a reply. -/
theorem removeIndexed_orphans (hreply : ∀ r ∈ c.rows, r.message.replyTo ≠ some m.id) :
    c.removeIndexed host id m ≠ .error orphans := by
  intro herror
  unfold removeIndexed at herror
  have hall : c.rows.all (fun r => decide (r.message.replyTo ≠ some m.id)) = true :=
    List.all_eq_true.2 fun r hr => decide_eq_true (hreply r hr)
  rw [hall, require_true, ok_bind] at herror
  dsimp only at herror
  unfold Check.require at herror
  split at herror
  · rw [ok_bind] at herror
    cases hcounts : uncount (countKeys m) c.counts with
    | ok counts =>
        rw [hcounts] at herror
        cases herror
    | error e =>
        rw [hcounts, error_bind] at herror
        injection herror with herror
        rw [uncount_error hcounts] at herror
        exact absurd herror (by decide)
  · rw [error_bind] at herror
    injection herror with herror
    exact absurd herror (by decide)

/-- **Removing the newest messages, newest first, never fails because of a
reply**: a reply is newer than what it replies to. -/
theorem removeAll_orphans (hids : (c.rows.map fun r => r.message.id).Nodup)
    (hreplies : ∀ r ∈ c.rows, ∀ s ∈ c.rows, r.message.replyTo = some s.message.id →
      s.message.sequence < r.message.sequence) (hmem : ∀ m ∈ batch, ∃ r ∈ c.rows, r.message = m)
    (hsorted : batch.Pairwise fun m n => n.sequence < m.sequence)
    (hrest : ∀ r ∈ c.rows, r.message ∈ batch ∨ ∀ m ∈ batch, r.message.sequence < m.sequence) :
    removeAll host id batch c ≠ .error orphans := by
  induction batch generalizing c with
  | nil => exact nofun
  | cons m batch ih =>
      obtain ⟨hnewest, hsorted⟩ := List.pairwise_cons.1 hsorted
      have hnone : ∀ r ∈ c.rows, r.message.replyTo ≠ some m.id := by
        intro r hr hreply
        obtain ⟨s, hs, rfl⟩ := hmem m mem_cons_self
        have hlt := hreplies r hr s hs hreply
        rcases hrest r hr with hr | hr
        · rcases List.mem_cons.1 hr with heq | hr
          · rw [heq] at hlt
            exact lt_irrefl _ hlt
          · have hnewer := hnewest _ hr
            omega
        · have hnewer := hr s.message mem_cons_self
          omega
      unfold removeAll
      cases hone : c.removeIndexed host id m with
      | error e =>
          rw [error_bind]
          exact hone ▸ removeIndexed_orphans hnone
      | ok c₁ =>
          rw [ok_bind]
          obtain ⟨-, -, counts, -, hc₁⟩ := removeIndexed_ok hone
          have hsub : ∀ r ∈ c₁.rows, r ∈ c.rows ∧ r.message.id ≠ m.id := by
            intro r hr
            rw [hc₁] at hr
            obtain ⟨hr, hid⟩ := List.mem_filter.1 hr
            exact ⟨hr, of_decide_eq_true hid⟩
          have hids₁ : (c₁.rows.map fun r => r.message.id).Nodup := by
            rw [hc₁]
            exact hids.sublist (List.filter_sublist.map _)
          refine ih hids₁ (fun r hr s hs => hreplies r (hsub r hr).1 s (hsub s hs).1) ?_ hsorted ?_
          · intro n hn
            obtain ⟨s, hs, rfl⟩ := hmem n (mem_cons_of_mem m hn)
            obtain ⟨r, hr, rfl⟩ := hmem m mem_cons_self
            have hother : s.message.id ≠ r.message.id := by
              intro heq
              have hnewer := hnewest _ hn
              rw [eq_of_column hids hs hr heq] at hnewer
              exact lt_irrefl _ hnewer
            refine ⟨s, ?_, rfl⟩
            rw [hc₁]
            exact List.mem_filter.2 ⟨hs, decide_eq_true hother⟩
          · intro r hr
            obtain ⟨hr, hid⟩ := hsub r hr
            rcases hrest r hr with hr | hr
            · rcases List.mem_cons.1 hr with heq | hr
              · exact absurd (congrArg Message.id heq) hid
              · exact .inl hr
            · exact .inr fun n hn => hr n (mem_cons_of_mem m hn)

/-- **A purge never orphans a reply**, whatever its batch is. -/
theorem Accounted.purge_orphans (h : Accounted host id recorded exported c) {p : Purge}
    {removed : ℕ} (hbatch : c.purgeBatch host enabled id p = .ok (batch, removed)) :
    removeAll host id batch c ≠ .error orphans := by
  obtain ⟨hmem, -⟩ := batch_rows h.fit.indexed hbatch
  obtain ⟨-, -, -, -, -, -, -, -, front, back, hsplit, rfl, -, -⟩ := purgeBatch_ok hbatch
  have hsorted := Newest.strict_newestFirst h.fit.indexed.sequences
  rw [hsplit] at hsorted
  obtain ⟨hfront, -, hacross⟩ := List.pairwise_append.1 hsorted
  have hperm : (front ++ back).Perm c.rows := hsplit ▸ Newest.perm_newestFirst _ c.rows
  refine removeAll_orphans h.fit.indexed.ids (fun r hr s hs => h.newer_of_reply hr hs) hmem
    (List.pairwise_map.2 hfront) fun r hr => ?_
  rcases List.mem_append.1 (hperm.symm.subset hr) with hr | hr
  · exact .inl (List.mem_map.2 ⟨r, hr, rfl⟩)
  · refine .inr fun m hm => ?_
    obtain ⟨s, hs, rfl⟩ := List.mem_map.1 hm
    exact hacross s hs r hr

/-! ## Restoring what was exported -/

/-- Whether a message is among the rows. -/
def Live (c : Conversation) (m : Message) : Prop := ∃ r ∈ c.rows, r.message = m

/-- **An exported message can be restored** once the message it replies to is
live. -/
theorem Accounted.exists_restoreOne (h : Accounted host id recorded exported c)
    (hdigests : c.tombstones ≠ [] → digests = true) (hm : m ∈ exported)
    (hreply : ¬ c.Live m → ∀ target ∈ m.replyTo, ∃ s ∈ c.rows, s.message.id = target) :
    ∃ c' restored, restoreOne host id digests c m = .ok (c', restored) ∧
      Accounted host id recorded exported c' ∧ c'.lastSequence = c.lastSequence ∧
      (c'.tombstones ≠ [] → c.tombstones ≠ []) ∧ ∀ n, c'.Live n ↔ c.Live n ∨ n = m := by
  obtain ⟨hrecorded, hvalid⟩ := h.exported m hm
  obtain ⟨hfirst, hlast⟩ := h.mem_sequence.1 ⟨m, hrecorded, rfl⟩
  have hgenuine : ∀ n ∈ recorded, m.sequence = n.sequence →
      m.contentDigest host id = n.contentDigest host id → m = n :=
    fun n hn heq _ => h.eq_of_sequence hrecorded hn heq
  have hrange : decide (1 ≤ m.sequence ∧ m.sequence ≤ c.lastSequence) = true :=
    decide_eq_true ⟨hfirst, hlast⟩
  rcases h.live_or_gone hrecorded with ⟨r, hr, rfl⟩ | ⟨hnone, htomb⟩
  · -- still there
    have hfound : c.bySequence r.message.sequence = some r := by
      cases hfind : c.bySequence r.message.sequence with
      | none => exact absurd rfl (bySequence_eq_none hfind r hr)
      | some s =>
          obtain ⟨hs, hsame⟩ := bySequence_eq_some hfind
          rw [eq_of_column h.fit.indexed.sequences hs hr hsame]
    have hcall : restoreOne host id digests c r.message = .ok (c, false) := by
      unfold restoreOne
      rw [hvalid, hrange, hfound]
      simp [Check.require]
    refine ⟨c, false, hcall, h, rfl, fun h => h, fun n => ?_⟩
    constructor
    · exact .inl
    · rintro (hn | rfl)
      · exact hn
      · exact ⟨r, hr, rfl⟩
  · -- gone: its tombstone is the only one of its sequence number
    have hfound : c.bySequence m.sequence = none := by
      cases hfind : c.bySequence m.sequence with
      | none => rfl
      | some s =>
          obtain ⟨hs, hsame⟩ := bySequence_eq_some hfind
          exact absurd hsame (hnone s hs)
    have hnotlive : ¬ c.Live m := by
      rintro ⟨r, hr, rfl⟩
      exact hnone r hr rfl
    obtain ⟨gone, hperm, htombs, hgone⟩ := h.gone
    have htombstone : c.tombstoneOf m.sequence = some (tombstoneFor host id m) := by
      cases hfind : c.tombstoneOf m.sequence with
      | none =>
          unfold tombstoneOf at hfind
          have hnot := List.find?_eq_none.1 hfind _ htomb
          exact absurd (decide_eq_true rfl) hnot
      | some t =>
          unfold tombstoneOf at hfind
          have ht : t ∈ c.tombstones := List.mem_of_find?_eq_some hfind
          have hsame : t.sequence = m.sequence := by simpa using List.find?_some hfind
          rw [htombs] at ht
          obtain ⟨n, hn, rfl⟩ := List.mem_map.1 ht
          rw [h.eq_of_sequence (hperm.symm.subset (mem_append_right _ hn)) hrecorded hsame]
    have hfresh : ∀ r ∈ c.rows, r.message.id ≠ m.id ∧ r.message.sequence ≠ m.sequence ∧
        r.message.idempotencyKey ≠ m.idempotencyKey := by
      intro r hr
      have hne : r.message ≠ m := fun heq => hnone r hr (by rw [heq])
      exact ⟨fun heq => hne (h.eq_of_id (h.mem_of_row hr) hrecorded heq), hnone r hr,
        fun heq => hne (h.eq_of_key (h.mem_of_row hr) hrecorded heq)⟩
    obtain ⟨c₁, hinsert⟩ : ∃ c₁, ({ c with tombstones := c.tombstones.filter fun t =>
        t.sequence ≠ m.sequence } : Conversation).insertIndexed m = .ok c₁ :=
      exists_insertIndexed hfresh
    have htargets : Check.each (fun target => Check.require (c.byId target).isSome
        "restore needs the replied-to message first") m.replyTo.toList = .ok () := by
      refine Check.each_ok_iff.mpr fun target htarget => Check.require_ok_iff.mpr ?_
      exact byId_isSome.2 (hreply hnotlive target (Option.mem_toList.1 htarget))
    have hcall : restoreOne host id digests c m = .ok (c₁, true) := by
      unfold restoreOne
      rw [hvalid, hrange, hfound, hdigests (ne_nil_of_mem htomb), if_pos rfl, htombstone,
        htargets, hinsert]
      simp [Check.require, tombstoneFor]
    obtain ⟨-, -, -, hrestored⟩ := restoreOne_ok hcall
    obtain ⟨-, hc₁⟩ := insertIndexed_ok hinsert
    refine ⟨c₁, true, hcall, h.restored hvalid hfirst hlast hgenuine hrestored, by rw [hc₁], ?_, ?_⟩
    · exact fun _ => ne_nil_of_mem htomb
    · intro n
      rw [hc₁]
      unfold Live
      simp only [mem_append, mem_singleton]
      constructor
      · rintro ⟨r, hr | rfl, rfl⟩
        · exact .inl ⟨r, hr, rfl⟩
        · exact .inr rfl
      · rintro (⟨r, hr, rfl⟩ | rfl)
        · exact ⟨r, .inl hr, rfl⟩
        · exact ⟨_, .inr rfl, rfl⟩

/-- **A batch of exported messages can be restored**, oldest first, where each
reply in it comes with the message it replies to or after it. -/
theorem Accounted.exists_restoreAll (h : Accounted host id recorded exported c)
    (hdigests : c.tombstones ≠ [] → digests = true) (hbatch : ∀ m ∈ batch, m ∈ exported)
    (hsorted : batch.Pairwise fun m n => m.sequence ≤ n.sequence)
    (hreply : ∀ m ∈ batch, ¬ c.Live m → ∀ target ∈ m.replyTo,
      (∃ s ∈ c.rows, s.message.id = target) ∨ ∃ n ∈ batch, n.id = target) :
    ∃ c' count, restoreAll host id digests batch c = .ok (c', count) ∧
      Accounted host id recorded exported c' ∧ c'.lastSequence = c.lastSequence ∧
      (c'.tombstones ≠ [] → c.tombstones ≠ []) ∧ ∀ n, c'.Live n ↔ c.Live n ∨ n ∈ batch := by
  induction batch generalizing c with
  | nil => exact ⟨c, 0, rfl, h, rfl, fun h => h, by simp⟩
  | cons m batch ih =>
      obtain ⟨holdest, hsorted⟩ := List.pairwise_cons.1 hsorted
      have hm := hbatch m mem_cons_self
      have hfirst : ¬ c.Live m → ∀ target ∈ m.replyTo, ∃ s ∈ c.rows, s.message.id = target := by
        intro hgone target htarget
        rcases hreply m mem_cons_self hgone target htarget with hlive | ⟨n, hn, hid⟩
        · exact hlive
        · -- what it replies to is older, so it is not in the rest of the batch
          obtain ⟨k, hk, hkid, hlt⟩ := h.replies m (h.exported m hm).1 target htarget
          have hsame := h.eq_of_id (h.exported n (hbatch n hn)).1 hk (hid.trans hkid.symm)
          subst hsame
          rcases List.mem_cons.1 hn with rfl | hn
          · exact absurd hlt (lt_irrefl _)
          · have hle := holdest n hn
            omega
      obtain ⟨c₁, restored, hone, h₁, hlast₁, htombs₁, hlive₁⟩ := h.exists_restoreOne hdigests hm hfirst
      have hreply₁ : ∀ k ∈ batch, ¬ c₁.Live k → ∀ target ∈ k.replyTo,
          (∃ s ∈ c₁.rows, s.message.id = target) ∨ ∃ n ∈ batch, n.id = target := by
        intro k hk hgone target htarget
        have hgone' : ¬ c.Live k := fun hlive => hgone ((hlive₁ k).2 (.inl hlive))
        rcases hreply k (mem_cons_of_mem m hk) hgone' target htarget with
          ⟨s, hs, hid⟩ | ⟨n, hn, hid⟩
        · obtain ⟨s', hs', heq⟩ := (hlive₁ s.message).2 (.inl ⟨s, hs, rfl⟩)
          exact .inl ⟨s', hs', by rw [heq, hid]⟩
        · rcases List.mem_cons.1 hn with rfl | hn
          · obtain ⟨s', hs', heq⟩ := (hlive₁ n).2 (.inr rfl)
            exact .inl ⟨s', hs', by rw [heq, hid]⟩
          · exact .inr ⟨n, hn, hid⟩
      obtain ⟨c₂, count, hrest, h₂, hlast₂, htombs₂, hlive₂⟩ :=
        ih h₁ (fun ht => hdigests (htombs₁ ht)) (fun n hn => hbatch n (mem_cons_of_mem m hn))
          hsorted hreply₁
      have hcall : restoreAll host id digests (m :: batch) c =
          .ok (c₂, (if restored = true then 1 else 0) + count) := by
        rw [restoreAll, hone, ok_bind]
        dsimp only
        rw [hrest, ok_bind]
      refine ⟨c₂, _, hcall, h₂, hlast₂.trans hlast₁, fun ht => htombs₁ (htombs₂ ht), fun n => ?_⟩
      rw [hlive₂, hlive₁, mem_cons]
      tauto

/-- A restore that no guard, limit or clock refuses. -/
structure Restore.Plain (r : Restore) : Prop where
  maxMessages : 1 ≤ r.maxMessages ∧ r.maxMessages ≤ 500
  length : r.messages.length ≤ r.maxMessages
  clock : instant r.clock = true
  entry : r.entry = none
  exit : r.exit = none

theorem mem_batch {r : Restore} : m ∈ r.batch ↔ m ∈ r.messages :=
  (perm_insertionSort _ r.messages).mem_iff

theorem sorted_batch (r : Restore) : r.batch.Pairwise fun m n => m.sequence ≤ n.sequence := by
  have htotal : Std.Total fun m n : Message => m.sequence ≤ n.sequence :=
    ⟨fun m n => le_total m.sequence n.sequence⟩
  have htrans : IsTrans Message fun m n => m.sequence ≤ n.sequence :=
    ⟨fun _ _ _ hmn hnk => hmn.trans hnk⟩
  exact pairwise_insertionSort _ r.messages

/-- A retention row of an admitted conversation. -/
theorem requiredStatus_of_admitted (h : Admitted c) :
    c.requiredStatus true = .ok (c.retention.getD .absent) := by
  have hrow : admitted (c.retention.getD .absent) = true := h
  unfold requiredStatus retentionStatus
  dsimp only
  rw [if_pos rfl, hrow]
  rfl

/-- A restore of exported messages succeeds. -/
theorem Accounted.exists_restore (h : Accounted host id recorded exported c) {r : Restore}
    (hadmitted : Admitted c) (hplain : r.Plain) (hdigests : c.tombstones ≠ [] → digests = true)
    (hmessages : ∀ m ∈ r.messages, m ∈ exported)
    (hreply : ∀ m ∈ r.messages, ¬ c.Live m → ∀ target ∈ m.replyTo,
      (∃ s ∈ c.rows, s.message.id = target) ∨ ∃ n ∈ r.messages, n.id = target) :
    ∃ c', c.restoreArchived host true digests id r = .ok c' ∧
      Accounted host id recorded exported c' ∧ (c'.tombstones ≠ [] → c.tombstones ≠ []) ∧
      ∀ n, c'.Live n ↔ c.Live n ∨ n ∈ r.messages := by
  obtain ⟨c₁, count, hall, h₁, -, htombs, hlive⟩ := h.exists_restoreAll hdigests
    (fun m hm => hmessages m (mem_batch.1 hm)) (sorted_batch r)
    (fun m hm hgone target htarget => by
      rcases hreply m (mem_batch.1 hm) hgone target htarget with hlive | ⟨n, hn, hid⟩
      · exact .inl hlive
      · exact .inr ⟨n, mem_batch.2 hn, hid⟩)
  have hretention : c₁.retention = c.retention := (restoreAll_frame hall).2
  let c₂ : Conversation := if count = 0 then c₁
    else { c₁ with retention := some { c.retention.getD .absent with
      contentGeneration := (c.retention.getD .absent).contentGeneration + 1
      purgedMessages := (c.retention.getD .absent).purgedMessages - count } }
  have hc₂ : ∃ retention, c₂ = { c₁ with retention := retention } ∧ Admitted c₂ := by
    by_cases hcount : count = 0
    · have heq : c₂ = c₁ := if_pos hcount
      refine ⟨c₁.retention, heq, ?_⟩
      rw [heq]
      unfold Admitted
      rwa [hretention]
    · have heq : c₂ = _ := if_neg hcount
      refine ⟨_, heq, ?_⟩
      rw [heq]
      exact admitted_counters hadmitted rfl rfl rfl
  obtain ⟨retention, hc₂, hadmitted₂⟩ := hc₂
  have hactivity : ∃ row, c₂.recordActivityRow true r.clock =
      .ok { c₂ with retention := some row } := by
    unfold recordActivityRow retentionNow
    rw [requiredStatus_of_admitted hadmitted₂, hplain.clock]
    exact ⟨_, rfl⟩
  obtain ⟨row, hactivity⟩ := hactivity
  have hcall : c.restoreArchived host true digests id r = .ok { c₂ with retention := some row } := by
    unfold restoreArchived
    rw [decide_eq_true hplain.maxMessages, decide_eq_true hplain.length, hplain.entry, hplain.exit,
      requiredStatus_of_admitted hadmitted, hall]
    simp only [require_true, ok_bind, guarded]
    change (c₂.recordActivityRow true r.clock >>= fun c => .ok c) = _
    rw [hactivity]
    rfl
  refine ⟨_, hcall, ?_, ?_, fun n => ?_⟩
  · rw [hc₂]
    exact h₁.retain _
  · rw [hc₂]
    exact htombs
  · rw [← mem_batch, ← hlive, hc₂]
    exact Iff.rfl

end Conversation

end ArchHub.History

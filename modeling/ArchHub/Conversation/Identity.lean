import Mathlib
import ArchHub.Conversation.Runs

/-!
# Identities survive retention

A recorded message is either among the rows or it is *gone*, and then it has a
tombstone.  `Accounted` says so of the messages appends have ever recorded,
whose ids, keys and sequence numbers are all different; every change of a
conversation keeps it.

A tombstone knows a message again by digests only.  What comes back by a restore
is the message that was recorded as long as the digests of the two do not
collide (`Genuine`).
-/

namespace ArchHub.History

open Lib List

namespace Conversation

variable {host : Host} {id : String} {recorded exported : List Message}
variable {c c' : Conversation} {m n : Message}

/-- Every recorded message is live or gone, and both know it. -/
structure Accounted (host : Host) (id : String) (recorded exported : List Message)
    (c : Conversation) : Prop where
  fit : Fit c
  /-- The n-th recorded message has the sequence number n. -/
  sequences : recorded.map Message.sequence = (List.range c.lastSequence).map Nat.succ
  ids : (recorded.map Message.id).Nodup
  keys : (recorded.map Message.idempotencyKey).Nodup
  /-- A reply comes after the message it replies to. -/
  replies : ∀ m ∈ recorded, ∀ target ∈ m.replyTo,
    ∃ n ∈ recorded, n.id = target ∧ n.sequence < m.sequence
  /-- The message a live reply replies to is live. -/
  live : ∀ r ∈ c.rows, ∀ target ∈ r.message.replyTo, ∃ s ∈ c.rows, s.message.id = target
  gone : ∃ gone, recorded.Perm (c.rows.map Row.message ++ gone) ∧
    c.tombstones = gone.map (tombstoneFor host id) ∧ ∀ m ∈ gone, m ∈ exported
  /-- What an archive has accepted was recorded, and is valid. -/
  exported : ∀ m ∈ exported, m ∈ recorded ∧ validateMessageFields host id m.draft = .ok ()

theorem accounted_new : Accounted host id [] [] .new :=
  { fit := fit_new
    sequences := rfl
    ids := nodup_nil
    keys := nodup_nil
    replies := by simp
    live := by simp [Conversation.new]
    gone := ⟨[], .refl _, rfl, by simp⟩
    exported := by simp }

namespace Accounted

variable (h : Accounted host id recorded exported c) {r : Row} {enabled : Bool}

include h

/-! ## Reading the account -/

theorem nodup_sequences : (recorded.map Message.sequence).Nodup := by
  rw [h.sequences]
  exact List.nodup_range.map Nat.succ_injective

theorem mem_of_row (hr : r ∈ c.rows) : r.message ∈ recorded := by
  obtain ⟨gone, hperm, -⟩ := h.gone
  exact hperm.symm.subset (mem_append_left _ (List.mem_map.2 ⟨r, hr, rfl⟩))

/-- A row that replies to a live message. -/
theorem live_append {row : Row}
    (hreply : ∀ target ∈ row.message.replyTo, ∃ s ∈ c.rows, s.message.id = target) :
    ∀ r ∈ c.rows ++ [row], ∀ target ∈ r.message.replyTo,
      ∃ s ∈ c.rows ++ [row], s.message.id = target := by
  intro r hr target htarget
  rcases List.mem_append.1 hr with hr | hr
  · obtain ⟨s, hs, hid⟩ := h.live r hr target htarget
    exact ⟨s, mem_append_left _ hs, hid⟩
  · rw [List.mem_singleton.1 hr] at htarget
    obtain ⟨s, hs, hid⟩ := hreply target htarget
    exact ⟨s, mem_append_left _ hs, hid⟩

/-- A recorded message has one of the sequence numbers so far. -/
theorem mem_sequence {k : ℕ} : (∃ m ∈ recorded, m.sequence = k) ↔ 1 ≤ k ∧ k ≤ c.lastSequence := by
  have hmem : k ∈ recorded.map Message.sequence ↔ 1 ≤ k ∧ k ≤ c.lastSequence := by
    rw [h.sequences, mem_map]
    constructor
    · rintro ⟨j, hj, rfl⟩
      rw [mem_range] at hj
      omega
    · rintro ⟨hfirst, hlast⟩
      exact ⟨k - 1, List.mem_range.2 (by omega), by omega⟩
  rw [← hmem, mem_map]

theorem eq_of_id (hm : m ∈ recorded) (hn : n ∈ recorded) (heq : m.id = n.id) : m = n :=
  inj_on_of_nodup_map h.ids hm hn heq

theorem eq_of_sequence (hm : m ∈ recorded) (hn : n ∈ recorded)
    (heq : m.sequence = n.sequence) : m = n :=
  inj_on_of_nodup_map h.nodup_sequences hm hn heq

theorem eq_of_key (hm : m ∈ recorded) (hn : n ∈ recorded)
    (heq : m.idempotencyKey = n.idempotencyKey) : m = n :=
  inj_on_of_nodup_map h.keys hm hn heq

/-- A recorded message is live, or it has a tombstone and is not. -/
theorem live_or_gone (hm : m ∈ recorded) :
    (∃ r ∈ c.rows, r.message = m) ∨
      (∀ r ∈ c.rows, r.message.sequence ≠ m.sequence) ∧ tombstoneFor host id m ∈ c.tombstones := by
  obtain ⟨gone, hperm, htombstones, -⟩ := h.gone
  rcases List.mem_append.1 (hperm.subset hm) with hlive | hgone
  · obtain ⟨r, hr, heq⟩ := List.mem_map.1 hlive
    exact .inl ⟨r, hr, heq⟩
  · refine .inr ⟨fun r hr hsame => ?_, ?_⟩
    · have heq := h.eq_of_sequence (h.mem_of_row hr) hm hsame
      have hnodup : (c.rows.map Row.message ++ gone).Nodup :=
        hperm.nodup_iff.1 (List.Nodup.of_map _ h.ids)
      exact disjoint_of_nodup_append hnodup (List.mem_map.2 ⟨r, hr, heq⟩) hgone
    · rw [htombstones]
      exact List.mem_map.2 ⟨m, hgone, rfl⟩

/-- **Every sequence number is that of one live message or of one tombstone.** -/
theorem one_of_each (k : ℕ) :
    (c.rows.countP fun r => decide (r.message.sequence = k)) +
        (c.tombstones.countP fun t => decide (t.sequence = k)) =
      if 1 ≤ k ∧ k ≤ c.lastSequence then 1 else 0 := by
  obtain ⟨gone, hperm, htombstones, -⟩ := h.gone
  have hcount : (recorded.map Message.sequence).count k =
      (c.rows.countP fun r => decide (r.message.sequence = k)) +
        (c.tombstones.countP fun t => decide (t.sequence = k)) := by
    rw [(hperm.map Message.sequence).count_eq, map_append, count_append, htombstones]
    unfold List.count
    rw [countP_map, countP_map, countP_map, countP_map]
    congr 1
  rw [← hcount]
  split
  · next hk =>
      obtain ⟨m, hm, hsequence⟩ := h.mem_sequence.2 hk
      exact count_eq_one_of_mem h.nodup_sequences (List.mem_map.2 ⟨m, hm, hsequence⟩)
  · next hk =>
      refine count_eq_zero_of_not_mem fun hmem => hk ?_
      obtain ⟨m, hm, hsequence⟩ := List.mem_map.1 hmem
      exact h.mem_sequence.1 ⟨m, hm, hsequence⟩

/-! ## What leaves it as it is -/

theorem retain (retention : Option Retention) :
    Accounted host id recorded exported { c with retention := retention } :=
  ⟨h.fit.retain retention, h.sequences, h.ids, h.keys, h.replies, h.live, h.gone, h.exported⟩

/-- More is exported of what is live. -/
theorem export_more {copies : List Message}
    (hcopies : ∀ m ∈ copies, (∃ r ∈ c.rows, r.message = m) ∧
      validateMessageFields host id m.draft = .ok ()) :
    Accounted host id recorded (exported ++ copies) c := by
  obtain ⟨gone, hperm, htombstones, hgone⟩ := h.gone
  refine ⟨h.fit, h.sequences, h.ids, h.keys, h.replies, h.live,
    ⟨gone, hperm, htombstones, fun m hm => mem_append_left _ (hgone m hm)⟩, fun m hm => ?_⟩
  rcases List.mem_append.1 hm with hm | hm
  · exact h.exported m hm
  · obtain ⟨⟨r, hr, rfl⟩, hvalid⟩ := hcopies m hm
    exact ⟨h.mem_of_row hr, hvalid⟩

/-! ## Appending -/

/-- **A recorded message is the next one, under an id and a key no message has had.** -/
theorem append {a : Append} (hnodup : a.draft.recipients.Nodup)
    (henabled : c.tombstones ≠ [] → enabled = true) (hinside : Appended host enabled a c c' m) :
    Accounted host id (recorded ++ if decide (c.lastSequence < m.sequence) then [m] else []) exported
      c' := by
  have hfit := h.fit.append hnodup hinside
  cases hinside with
  | again r hkey hrepeats =>
      obtain ⟨hr, -⟩ := byKey_eq_some hkey
      rw [decide_eq_false (Nat.not_lt.2 (h.fit.bounded r hr)), if_neg Bool.false_ne_true,
        append_nil]
      exact h
  | fresh c₁ hkey hremoved hreply hinsert =>
      have hcreated : decide (c.lastSequence < (a.message c.lastSequence).sequence) = true :=
        decide_eq_true (Nat.lt_succ_self _)
      rw [hcreated, if_pos rfl]
      obtain ⟨hfresh, rfl⟩ := insertIndexed_ok hinsert
      obtain ⟨gone, hperm, htombstones, hgone⟩ := h.gone
      -- no recorded message has the id or the key: a live one has not, and of
      -- one that is gone the tombstone would know them
      have hother : ∀ n ∈ recorded, n.id ≠ (a.message c.lastSequence).id ∧
          n.idempotencyKey ≠ (a.message c.lastSequence).idempotencyKey := by
        intro n hn
        rcases h.live_or_gone hn with ⟨r, hr, rfl⟩ | ⟨-, htomb⟩
        · exact ⟨(hfresh r hr).1, (hfresh r hr).2.2⟩
        · obtain ⟨hid, hkey⟩ := hremoved (henabled (ne_nil_of_mem htomb)) _ htomb
          exact ⟨fun heq => hid (congrArg (identityDigest host) heq),
            fun heq => hkey (congrArg (identityDigest host) heq)⟩
      refine
        { fit := hfit
          sequences := ?_
          ids := ?_
          keys := ?_
          replies := ?_
          live := ?_
          gone := ⟨gone, ?_, htombstones, hgone⟩
          exported := fun n hn => ⟨mem_append_left _ (h.exported n hn).1, (h.exported n hn).2⟩ }
      · rw [map_append, h.sequences]
        dsimp only
        rw [range_succ, map_append]
        rfl
      · rw [map_append, nodup_append]
        refine ⟨h.ids, nodup_singleton _, fun x hx y hy hxy => ?_⟩
        obtain ⟨n, hn, rfl⟩ := List.mem_map.1 hx
        exact (hother n hn).1 (hxy.trans (by simpa using hy))
      · rw [map_append, nodup_append]
        refine ⟨h.keys, nodup_singleton _, fun x hx y hy hxy => ?_⟩
        obtain ⟨n, hn, rfl⟩ := List.mem_map.1 hx
        exact (hother n hn).2 (hxy.trans (by simpa using hy))
      · intro n hn target htarget
        rcases List.mem_append.1 hn with hn | hn
        · obtain ⟨k, hk, hid, hlt⟩ := h.replies n hn target htarget
          exact ⟨k, mem_append_left _ hk, hid, hlt⟩
        · rw [List.mem_singleton.1 hn] at htarget ⊢
          obtain ⟨r, hr, hid⟩ := hreply target htarget
          exact ⟨r.message, mem_append_left _ (h.mem_of_row hr), hid,
            Nat.lt_succ_of_le (h.fit.bounded r hr)⟩
      · exact h.live_append hreply
      · dsimp only
        rw [map_append, append_assoc]
        have hcomm : (([⟨a.message c.lastSequence, (a.message c.lastSequence).recipients.isEmpty⟩] :
            List Row).map Row.message ++ gone).Perm (gone ++ [a.message c.lastSequence]) :=
          perm_append_comm
        refine (hperm.append_right _).trans ?_
        rw [append_assoc]
        exact hcomm.symm.append_left _

/-! ## Purging -/

/-- The rows of a batch and the others. -/
theorem perm_without {front back : List Row}
    (hrows : Newest.newestFirst (fun r => r.message.sequence) c.rows = front ++ back) :
    (without c.rows (front.map Row.message)).Perm back := by
  have hperm : (front ++ back).Perm c.rows := hrows ▸ Newest.perm_newestFirst _ c.rows
  have hids := (hperm.map fun r => r.message.id).nodup_iff.2 h.fit.indexed.ids
  rw [map_append, nodup_append] at hids
  have hfront : front.filter (fun r => decide (r.message.id ∉
      (front.map Row.message).map Message.id)) = [] := by
    refine List.filter_eq_nil_iff.2 fun r hr => ?_
    simp only [decide_eq_true_eq, not_not, map_map]
    exact List.mem_map.2 ⟨r, hr, rfl⟩
  have hback : back.filter (fun r => decide (r.message.id ∉
      (front.map Row.message).map Message.id)) = back := by
    refine List.filter_eq_self.2 fun r hr => decide_eq_true fun hmem => ?_
    rw [map_map] at hmem
    exact hids.2.2 _ hmem _ (List.mem_map.2 ⟨r, hr, rfl⟩) rfl
  have hfilter := hperm.filter fun r => decide (r.message.id ∉
    (front.map Row.message).map Message.id)
  rw [filter_append, hfront, hback, nil_append] at hfilter
  exact hfilter.symm

/-- A message is only replied to by newer ones. -/
theorem newer_of_reply {s : Row} (hr : r ∈ c.rows) (hs : s ∈ c.rows)
    (hreply : r.message.replyTo = some s.message.id) : s.message.sequence < r.message.sequence := by
  obtain ⟨n, hn, hid, hlt⟩ := h.replies _ (h.mem_of_row hr) _ hreply
  rwa [h.eq_of_id hn (h.mem_of_row hs) hid] at hlt

/-- **A purge makes its batch gone**: the newest of the live messages, of which
the archive has accepted the copies. -/
theorem purge {p : Purge} {answer : Purged}
    (hcall : c.purgeArchived host enabled id p = .ok (c', answer)) :
    Accounted host id recorded (exported ++ c.accepted host enabled id p) c' := by
  obtain ⟨batch, removed, hbatch, hindexed, hrows, htombstones, hlast, -⟩ :=
    purge_effect h.fit.indexed hcall
  obtain ⟨-, -, -, -, -, -, -, -, front, back, hsplit, hfront, hvalid, -⟩ := purgeBatch_ok hbatch
  rw [accepted_eq hbatch]
  have hsorted := Newest.strict_newestFirst h.fit.indexed.sequences
  rw [hsplit] at hsorted
  have hperm : (front ++ back).Perm c.rows := hsplit ▸ Newest.perm_newestFirst _ c.rows
  have hkept : c'.rows.Perm back := by
    rw [hrows, hfront]
    exact h.perm_without hsplit
  obtain ⟨gone, hrecorded, htombs, hgone⟩ := h.gone
  have hcopies : ∀ m ∈ batch, (∃ r ∈ c.rows, r.message = m) ∧
      validateMessageFields host id m.draft = .ok () := by
    intro m hm
    rw [hfront] at hm
    obtain ⟨r, hr, rfl⟩ := List.mem_map.1 hm
    exact ⟨⟨r, hperm.subset (mem_append_left _ hr), rfl⟩, hvalid r hr⟩
  refine
    { fit := ⟨hindexed, ?_, ?_⟩
      sequences := hlast ▸ h.sequences
      ids := h.ids
      keys := h.keys
      replies := h.replies
      live := ?_
      gone := ⟨gone ++ batch, ?_, ?_, ?_⟩
      exported := (h.export_more hcopies).exported }
  · exact fun r hr => h.fit.positive r (hperm.subset (mem_append_right _ (hkept.subset hr)))
  · intro r hr
    rw [hlast]
    exact h.fit.bounded r (hperm.subset (mem_append_right _ (hkept.subset hr)))
  · intro r hr target htarget
    have hr := hkept.subset hr
    have hr' := hperm.subset (mem_append_right front hr)
    obtain ⟨s, hs, rfl⟩ := h.live r hr' target htarget
    have hlt := h.newer_of_reply hr' hs htarget
    -- the target is older than the reply, so it is not in the batch either
    rcases List.mem_append.1 (hperm.symm.subset hs) with hs | hs
    · have hnewer := (List.pairwise_append.1 hsorted).2.2 s hs r hr
      omega
    · exact ⟨s, hkept.symm.subset hs, rfl⟩
  · have hlive : (c.rows.map Row.message).Perm (batch ++ back.map Row.message) := by
      rw [hfront, ← map_append]
      exact (hperm.map _).symm
    have hmoved : ((batch ++ back.map Row.message) ++ gone).Perm
        (back.map Row.message ++ (gone ++ batch)) := by
      refine (List.perm_append_comm.append_right gone).trans ?_
      rw [append_assoc]
      exact List.perm_append_comm.append_left _
    exact (hrecorded.trans (hlive.append_right gone)).trans
      (hmoved.trans ((hkept.map Row.message).symm.append_right _))
  · rw [htombstones, htombs, map_append]
  · intro m hm
    rcases List.mem_append.1 hm with hm | hm
    · exact mem_append_left _ (hgone m hm)
    · exact mem_append_right _ hm

/-! ## Restoring -/

/-- **A restored message is live again**, where it is the message that was
recorded. -/
theorem restored {digests restored : Bool} (hvalid : validateMessageFields host id m.draft = .ok ())
    (hfirst : 1 ≤ m.sequence) (hlast : m.sequence ≤ c.lastSequence)
    (hgenuine : ∀ n ∈ recorded, m.sequence = n.sequence →
      m.contentDigest host id = n.contentDigest host id → m = n)
    (hone : Restored host id digests c m c' restored) : Accounted host id recorded exported c' := by
  cases hone with
  | present => exact h
  | back t c₁ hdigests ht hnone htomb hreply hinsert =>
      obtain ⟨gone, hrecorded, htombs, hgone⟩ := h.gone
      have hm : m ∈ gone := by
        rw [htombs] at ht
        obtain ⟨n, hn, rfl⟩ := List.mem_map.1 ht
        have hn' : n ∈ recorded := hrecorded.symm.subset (mem_append_right _ hn)
        unfold tombstoneFor at htomb
        injection htomb with hsequence _ _ hcontent
        injection hcontent with hcontent
        rw [hgenuine n hn' hsequence.symm hcontent.symm]
        exact hn
      have hburied := h.fit.indexed.bury (c.tombstones.filter fun t => t.sequence ≠ m.sequence)
      have hindexed := hburied.insert (nodup_recipients hvalid) hinsert
      obtain ⟨-, rfl⟩ := insertIndexed_ok hinsert
      have hsequences : (gone.map Message.sequence).Nodup := by
        have hall := (hrecorded.map Message.sequence).nodup_iff.1 h.nodup_sequences
        rw [map_append, nodup_append] at hall
        exact hall.2.1
      have hsplit : gone.Perm (m :: gone.filter fun n => n.sequence ≠ m.sequence) := by
        have hsame : gone.filter (fun n => n.sequence ≠ m.sequence) = gone.erase m := by
          rw [(List.Nodup.of_map _ hsequences).erase_eq_filter]
          refine filter_congr fun n hn => ?_
          have hiff : n.sequence ≠ m.sequence ↔ n ≠ m :=
            not_congr ⟨fun heq => inj_on_of_nodup_map hsequences hn hm heq,
              fun heq => by rw [heq]⟩
          rw [Bool.eq_iff_iff, decide_eq_true_iff, bne_iff_ne]
          exact hiff
        rw [hsame]
        exact perm_cons_erase hm
      refine
        { fit := ⟨hindexed, ?_, ?_⟩
          sequences := h.sequences
          ids := h.ids
          keys := h.keys
          replies := h.replies
          live := ?_
          gone := ⟨gone.filter fun n => n.sequence ≠ m.sequence, ?_, ?_, ?_⟩
          exported := h.exported }
      · intro r hr
        rcases List.mem_append.1 hr with hr | hr
        · exact h.fit.positive r hr
        · rw [List.mem_singleton.1 hr]
          exact hfirst
      · intro r hr
        rcases List.mem_append.1 hr with hr | hr
        · exact h.fit.bounded r hr
        · rw [List.mem_singleton.1 hr]
          exact hlast
      · exact h.live_append hreply
      · refine (hrecorded.trans (hsplit.append_left _)).trans ?_
        dsimp only
        rw [map_append, append_assoc]
        exact .refl _
      · dsimp only
        rw [htombs, filter_map]
        rfl
      · exact fun n hn => hgone n (List.mem_filter.1 hn).1

end Accounted

/-- Messages of which the digests say truly whether they are those recorded:
no two different texts among them have the same digest. -/
def Genuine (host : Host) (id : String) (messages recorded : List Message) : Prop :=
  ∀ m ∈ messages, ∀ n ∈ recorded,
    host.sha256 (m.canonicalText id) = host.sha256 (n.canonicalText id) →
      m.canonicalText id = n.canonicalText id

/-- A restored batch is live again. -/
theorem Accounted.restoredAll (h : Accounted host id recorded exported c) {digests : Bool}
    {batch : List Message} {count : ℕ}
    (hgenuine : ∀ m ∈ batch, ∀ n ∈ recorded, m.sequence = n.sequence →
      m.contentDigest host id = n.contentDigest host id → m = n)
    (hall : restoreAll host id digests batch c = .ok (c', count)) :
    Accounted host id recorded exported c' :=
  restoreAll_keeps (fun _ m _ _ hm hvalid hfirst hlast hone hkept =>
    hkept.restored hvalid hfirst hlast (hgenuine m hm) hone) hall h

end Conversation

end ArchHub.History

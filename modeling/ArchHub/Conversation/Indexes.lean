import Mathlib
import ArchHub.Conversation.Store

/-!
# The indexes of a conversation

The recipient rows and the counters are kept beside the messages, by every
insert and every removal on its own.  `Indexed` says what they are at any time:
functions of the messages.  An insert and a removal keep it, and that is all a
reader of the indexes has to know.
-/

namespace ArchHub.History

open Lib List

namespace Conversation

variable {host : Host} {conversation : String} {c c' : Conversation} {m : Message} {r : Row}
  {rs : List Row} {key : String} {n : ℕ} {α : Type*} {f : Row → α}

/-- The audience rule: a public message, one written by or addressed to the
principal, or any. -/
def readable (principal : String) (readAll : Bool) (m : Message) : Bool :=
  readAll || decide (m.recipients = [] ∨ m.author = principal ∨ principal ∈ m.recipients)

/-- The indexes of a conversation are those of its messages. -/
structure Indexed (c : Conversation) : Prop where
  ids : (c.rows.map fun r => r.message.id).Nodup
  sequences : (c.rows.map fun r => r.message.sequence).Nodup
  keys : (c.rows.map fun r => r.message.idempotencyKey).Nodup
  isPublic : ∀ r ∈ c.rows, r.isPublic = r.message.recipients.isEmpty
  distinct : ∀ r ∈ c.rows, r.message.recipients.Nodup
  recipients : c.recipients = c.rows.flatMap fun r => recipientRows r.message
  counts : Tally.Counts c.counts (c.rows.flatMap fun r => countKeys r.message)

theorem indexed_new : Indexed .new :=
  ⟨nodup_nil, nodup_nil, nodup_nil, by simp [Conversation.new],
    by simp [Conversation.new], rfl, Tally.counts_empty⟩

/-! ## One row by its column -/

/-- Rows with one value in a column without repetition are one row. -/
theorem eq_of_column (h : (rs.map f).Nodup) {s : Row} (hr : r ∈ rs) (hs : s ∈ rs)
    (heq : f r = f s) : r = s :=
  inj_on_of_nodup_map h hr hs heq

theorem byKey_eq_some (h : c.byKey key = some r) : r ∈ c.rows ∧ r.message.idempotencyKey = key :=
  ⟨List.mem_of_find?_eq_some h, by simpa using List.find?_some h⟩

theorem byKey_eq_none (h : c.byKey key = none) : ∀ r ∈ c.rows, r.message.idempotencyKey ≠ key := by
  simpa [byKey] using h

theorem Indexed.byKey (h : Indexed c) (hr : r ∈ c.rows) :
    c.byKey r.message.idempotencyKey = some r := by
  cases hfind : c.byKey r.message.idempotencyKey with
  | none => exact absurd rfl (byKey_eq_none hfind r hr)
  | some s =>
      obtain ⟨hs, hkey⟩ := byKey_eq_some hfind
      rw [eq_of_column h.keys hs hr hkey]

theorem byId_isSome {id : String} : (c.byId id).isSome = true ↔ ∃ r ∈ c.rows, r.message.id = id := by
  simp [byId, List.find?_isSome]

theorem bySequence_eq_some (h : c.bySequence n = some r) : r ∈ c.rows ∧ r.message.sequence = n :=
  ⟨List.mem_of_find?_eq_some h, by simpa using List.find?_some h⟩

theorem bySequence_eq_none (h : c.bySequence n = none) : ∀ r ∈ c.rows, r.message.sequence ≠ n := by
  simpa [bySequence] using h

/-! ## Inserting -/

/-- What an insert does. -/
theorem insertIndexed_ok (h : c.insertIndexed m = .ok c') :
    (∀ r ∈ c.rows, r.message.id ≠ m.id ∧ r.message.sequence ≠ m.sequence ∧
      r.message.idempotencyKey ≠ m.idempotencyKey) ∧
    c' = { c with
      rows := c.rows ++ [⟨m, m.recipients.isEmpty⟩]
      recipients := c.recipients ++ recipientRows m
      counts := (countKeys m).foldl Tally.up c.counts } := by
  unfold insertIndexed at h
  obtain ⟨_, hfresh, h⟩ := Check.bind_ok_iff.mp h
  rw [Check.require_ok_iff, all_eq_true] at hfresh
  refine ⟨fun r hr => by simpa using hfresh r hr, ?_⟩
  injection h with h
  exact h.symm

/-- An insert of a message whose id, sequence and key are new succeeds. -/
theorem exists_insertIndexed (hfresh : ∀ r ∈ c.rows, r.message.id ≠ m.id ∧
    r.message.sequence ≠ m.sequence ∧ r.message.idempotencyKey ≠ m.idempotencyKey) :
    ∃ c', c.insertIndexed m = .ok c' := by
  have hall : c.rows.all (fun r => decide (r.message.id ≠ m.id ∧
      r.message.sequence ≠ m.sequence ∧ r.message.idempotencyKey ≠ m.idempotencyKey)) = true :=
    List.all_eq_true.2 fun r hr => decide_eq_true (hfresh r hr)
  exact ⟨_, by unfold insertIndexed; rw [hall]; rfl⟩

theorem nodup_column (h : (rs.map f).Nodup) (hfresh : ∀ s ∈ rs, f s ≠ f r) :
    ((rs ++ [r]).map f).Nodup := by
  rw [map_append, nodup_append]
  refine ⟨h, nodup_singleton _, fun a ha b hb hab => ?_⟩
  obtain ⟨s, hs, rfl⟩ := List.mem_map.1 ha
  have hb : b = f r := by simpa using hb
  exact hfresh s hs (hab.trans hb)

/-- **An insert keeps the indexes.** -/
theorem Indexed.insert (h : Indexed c) (hm : m.recipients.Nodup) (hc : c.insertIndexed m = .ok c') :
    Indexed c' := by
  obtain ⟨hfresh, rfl⟩ := insertIndexed_ok hc
  refine
    { ids := nodup_column h.ids fun s hs => (hfresh s hs).1
      sequences := nodup_column h.sequences fun s hs => (hfresh s hs).2.1
      keys := nodup_column h.keys fun s hs => (hfresh s hs).2.2
      isPublic := ?_
      distinct := ?_
      recipients := ?_
      counts := ?_ }
  · intro r hr
    rcases List.mem_append.1 hr with hr | hr
    · exact h.isPublic r hr
    · rw [List.mem_singleton.1 hr]
  · intro r hr
    rcases List.mem_append.1 hr with hr | hr
    · exact h.distinct r hr
    · rw [List.mem_singleton.1 hr]
      exact hm
  · simp [flatMap_append, h.recipients]
  · have hcounts := h.counts.ups (countKeys m)
    refine hcounts.perm ?_
    rw [flatMap_append]
    simpa using perm_append_comm

/-! ## Removing -/

/-- A row and the others. -/
theorem perm_cons_filter (h : (rs.map fun r => r.message.id).Nodup) (hr : r ∈ rs) :
    rs.Perm (r :: rs.filter fun s => s.message.id ≠ r.message.id) := by
  have hsame : rs.filter (fun s => s.message.id ≠ r.message.id) = rs.erase r := by
    rw [(List.Nodup.of_map _ h).erase_eq_filter]
    refine filter_congr fun s hs => ?_
    have hiff : s.message.id ≠ r.message.id ↔ s ≠ r :=
      not_congr ⟨fun heq => eq_of_column h hs hr heq, fun heq => by rw [heq]⟩
    rw [Bool.eq_iff_iff, decide_eq_true_iff, bne_iff_ne]
    exact hiff
  rw [hsame]
  exact perm_cons_erase hr

/-- The recipient rows of the rows without a message. -/
theorem filter_recipientRows (rs : List Row) (id : String) :
    (rs.flatMap fun r => recipientRows r.message).filter (fun e => e.messageId ≠ id) =
      (rs.filter fun r => r.message.id ≠ id).flatMap fun r => recipientRows r.message := by
  induction rs with
  | nil => rfl
  | cons r rs ih =>
      rw [flatMap_cons, filter_append, ih, filter_cons]
      by_cases hid : r.message.id = id
      · have hnone : (recipientRows r.message).filter (fun e => e.messageId ≠ id) = [] := by
          simp [recipientRows, filter_map, Function.comp_def, hid]
        rw [hnone, if_neg (by simp [hid]), nil_append]
      · have hall : (recipientRows r.message).filter (fun e => e.messageId ≠ id) =
            recipientRows r.message := by
          simp [recipientRows, filter_map, Function.comp_def, hid]
        rw [hall, if_pos (by simp [hid]), flatMap_cons]

/-- Taking a message out of the counters. -/
theorem uncount_counts {counts : Dict (Audience × String) ℕ} {keys xs : List (Audience × String)}
    (h : Tally.Counts counts (keys ++ xs)) :
    ∃ counts', uncount keys counts = .ok counts' ∧ Tally.Counts counts' xs := by
  induction keys generalizing counts with
  | nil => exact ⟨counts, rfl, h⟩
  | cons key keys ih =>
      have h : Tally.Counts counts (key :: (keys ++ xs)) := h
      obtain ⟨counts', hdown, hcounts⟩ := h.down
      obtain ⟨counts'', hrest, hdone⟩ := ih hcounts
      exact ⟨counts'', by rw [uncount, hdown]; exact hrest, hdone⟩

/-- The tombstone of a message. -/
def tombstoneFor (host : Host) (conversation : String) (m : Message) : Tombstone :=
  ⟨m.sequence, identityDigest host m.id, identityDigest host m.idempotencyKey,
    some (m.contentDigest host conversation)⟩

/-- What a removal does, where it succeeds. -/
theorem removeIndexed_ok (h : c.removeIndexed host conversation m = .ok c') :
    (∀ r ∈ c.rows, r.message.replyTo ≠ some m.id) ∧
    (∀ t ∈ c.tombstones, t.sequence ≠ m.sequence ∧
      t.messageDigest ≠ identityDigest host m.id ∧
      t.idempotencyDigest ≠ identityDigest host m.idempotencyKey) ∧
    ∃ counts, uncount (countKeys m) c.counts = .ok counts ∧
      c' = { c with
        tombstones := c.tombstones ++ [tombstoneFor host conversation m]
        counts := counts
        recipients := c.recipients.filter fun e => e.messageId ≠ m.id
        rows := c.rows.filter fun r => r.message.id ≠ m.id } := by
  unfold removeIndexed at h
  obtain ⟨_, hreply, h⟩ := Check.bind_ok_iff.mp h
  obtain ⟨_, hunique, h⟩ := Check.bind_ok_iff.mp h
  obtain ⟨counts, hcounts, h⟩ := Check.bind_ok_iff.mp h
  rw [Check.require_ok_iff, all_eq_true] at hreply hunique
  refine ⟨fun r hr => by simpa using hreply r hr, fun t ht => by simpa using hunique t ht,
    counts, hcounts, ?_⟩
  injection h with h
  exact h.symm

/-- **A removal keeps the indexes.** -/
theorem Indexed.remove (h : Indexed c) (hr : r ∈ c.rows)
    (hc : c.removeIndexed host conversation r.message = .ok c') : Indexed c' := by
  obtain ⟨-, -, counts, hcounts, rfl⟩ := removeIndexed_ok hc
  have hsub : (c.rows.filter fun s => s.message.id ≠ r.message.id).Sublist c.rows :=
    filter_sublist
  have hperm := perm_cons_filter h.ids hr
  refine
    { ids := h.ids.sublist (hsub.map _)
      sequences := h.sequences.sublist (hsub.map _)
      keys := h.keys.sublist (hsub.map _)
      isPublic := fun s hs => h.isPublic s (hsub.subset hs)
      distinct := fun s hs => h.distinct s (hsub.subset hs)
      recipients := ?_
      counts := ?_ }
  · rw [h.recipients]
    exact filter_recipientRows _ _
  · have hkeys := hperm.flatMap_right fun s => countKeys s.message
    have hcounted := h.counts.perm hkeys
    obtain ⟨counts', hdone, hleft⟩ := uncount_counts hcounted
    rw [hdone] at hcounts
    injection hcounts with hcounts
    subst hcounts
    exact hleft

/-! ## Reading the indexes -/

/-- **The audience query reads the audience rule.** -/
theorem Indexed.audible_eq (h : Indexed c) (hr : r ∈ c.rows) (principal : String)
    (readAll : Bool) : c.audible principal readAll r = readable principal readAll r.message := by
  have hrecipient : (c.recipients.any fun e =>
      decide (e.messageId = r.message.id ∧ e.principal = principal)) = true ↔
      principal ∈ r.message.recipients := by
    rw [h.recipients, any_eq_true]
    constructor
    · rintro ⟨e, he, hmatch⟩
      obtain ⟨s, hs, he⟩ := List.mem_flatMap.1 he
      obtain ⟨p, hp, rfl⟩ := List.mem_map.1 he
      obtain ⟨hid, rfl⟩ := of_decide_eq_true hmatch
      rwa [← eq_of_column h.ids hs hr hid]
    · intro hp
      exact ⟨⟨r.message.id, principal, r.message.sequence, r.message.category⟩,
        List.mem_flatMap.2 ⟨r, hr, List.mem_map.2 ⟨principal, hp, rfl⟩⟩, by simp⟩
  unfold audible readable
  rw [Bool.eq_iff_iff]
  simp only [Bool.or_eq_true, hrecipient, h.isPublic r hr, List.isEmpty_iff, decide_eq_true_eq]
  tauto

theorem nodup_audiences (m : Message) : (audiences m).Nodup := by
  unfold audiences
  split
  · simp
  · rw [nodup_cons]
    refine ⟨by simp, ?_⟩
    exact (nodup_dedup _).map fun _ _ hab => by injection hab

theorem nodup_countKeys (m : Message) : (countKeys m).Nodup :=
  (nodup_audiences m).map fun _ _ hab => (Prod.mk.inj hab).1

/-- Whether a message is counted in a counter. -/
theorem mem_countKeys {audience : Audience} {category : String} :
    (audience, category) ∈ countKeys m ↔ m.category = category ∧
      match audience with
      | .all => True
      | .everyone => m.recipients = []
      | .principal name => m.recipients ≠ [] ∧ (name ∈ m.recipients ∨ name = m.author) := by
  have hkeys : (audience, category) ∈ countKeys m ↔
      m.category = category ∧ audience ∈ audiences m := by
    unfold countKeys
    simp only [mem_map, Prod.mk.injEq]
    constructor
    · rintro ⟨a, ha, rfl, rfl⟩
      exact ⟨rfl, ha⟩
    · rintro ⟨rfl, ha⟩
      exact ⟨audience, ha, rfl, rfl⟩
  rw [hkeys]
  refine and_congr_right fun _ => ?_
  unfold audiences
  cases audience <;> by_cases hm : m.recipients = [] <;> simp [hm]

end Conversation

end ArchHub.History

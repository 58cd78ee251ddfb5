import Mathlib
import ArchHub.Workshop.Room

/-!
# Expiry keeps the room consistent

A retention takes one from the counters of everything and of what is public, whatever the
row that expires was counted in.

* `Aligned`: the tables of the room are those of its messages.  Appends keep it; an expiry
  keeps it where the row was public (`Aligned.expire`).
* `Exact`: and no counter stands at nothing.
* `room_consistent`: in every run whose retentions expire public messages only, the
  counters, the search index and the messages are what the readers are promised.
* `addressed_expiry`: a message with a recipient that expires stays counted.
-/

namespace ArchHub.Workshop

open Lib History List Function Nat

/-- A message, whatever it replied to. -/
def core (m : Message) : Message := { m with replyTo := none }

variable {room room' : Room} {host : Host} {r s : ℕ × Row} {id : String}

namespace Room

/-! ## The tables of the messages -/

/-- The tables of a room are those of its messages. -/
structure Aligned (room : Room) : Prop where
  ids : (room.conversation.rows.map fun r => r.message.id).Nodup
  sequences : (room.conversation.rows.map fun r => r.message.sequence).Nodup
  keys : (room.conversation.rows.map fun r => r.message.idempotencyKey).Nodup
  isPublic : ∀ r ∈ room.conversation.rows, r.isPublic = r.message.recipients.isEmpty
  distinct : ∀ r ∈ room.conversation.rows, r.message.recipients.Nodup
  recipients : room.recipients =
    room.conversation.rows.flatMap fun r => Conversation.recipientRows r.message
  amounts : Tally.Amounts room.counts
    (room.conversation.rows.flatMap fun r => Conversation.countKeys r.message)
  positive : ∀ r ∈ room.conversation.rows, 1 ≤ r.message.sequence
  bounded : ∀ r ∈ room.conversation.rows, r.message.sequence ≤ room.lastSequence
  numbers : (room.rows.map Prod.fst).Nodup
  search : room.search = room.rows.map fun r => (r.1, r.2.message.content)

/-- And no counter stands at nothing. -/
structure Exact (room : Room) : Prop extends Aligned room where
  counted : Tally.Nonzero room.counts

theorem exact_new : Exact .new where
  ids := nodup_nil
  sequences := nodup_nil
  keys := nodup_nil
  isPublic _ hr := nomatch hr
  distinct _ hr := nomatch hr
  recipients := rfl
  amounts := Tally.amounts_empty
  positive _ hr := nomatch hr
  bounded _ hr := nomatch hr
  numbers := nodup_nil
  search := rfl
  counted _ _ hn := nomatch hn

/-- **The counters of a room are those of a conversation of the history.** -/
theorem Exact.fit (h : Exact room) : Conversation.Fit room.conversation where
  indexed :=
    { ids := h.ids
      sequences := h.sequences
      keys := h.keys
      isPublic := h.isPublic
      distinct := h.distinct
      recipients := h.recipients
      counts := h.amounts.counts h.counted }
  positive := h.positive
  bounded := h.bounded

theorem Exact.counts_eq (h : Exact room) :
    room.counts.entries = room.conversation.counts.entries.map fun e => (e.1, (e.2 : ℤ)) :=
  h.amounts.entries_eq h.counted

/-! ## Appending -/

theorem lt_nextRow (room : Room) : ∀ r ∈ room.rows, r.1 < room.nextRow := by
  have hle : ∀ (ns : List ℕ) (a : ℕ), a ≤ ns.foldl max a ∧ ∀ n ∈ ns, n ≤ ns.foldl max a := by
    intro ns
    induction ns with
    | nil => exact fun a => ⟨le_rfl, fun _ hn => nomatch hn⟩
    | cons m ns ih =>
        intro a
        obtain ⟨hstart, hall⟩ := ih (max a m)
        refine ⟨(le_max_left a m).trans hstart, fun n hn => ?_⟩
        rcases List.mem_cons.1 hn with rfl | hn
        · exact (le_max_right a n).trans hstart
        · exact hall n hn
  intro r hr
  exact lt_succ_of_le ((hle _ 0).2 r.1 (mem_map_of_mem hr))

theorem insertIndexed_rows (room : Room) (m : Message) :
    (room.insertIndexed m).conversation.rows = room.conversation.rows ++ [⟨m, m.recipients.isEmpty⟩] := by
  show (room.rows ++ [(room.nextRow, (⟨m, m.recipients.isEmpty⟩ : Row))]).map Prod.snd = _
  rw [map_append]
  rfl

/-- **An append keeps the tables.** -/
theorem Exact.insert (h : Exact room) {m : Message} (hrecipients : m.recipients.Nodup)
    (hsequence : m.sequence = room.lastSequence + 1)
    (hfresh : ∀ r ∈ room.conversation.rows, r.message.id ≠ m.id ∧ r.message.sequence ≠ m.sequence ∧
      r.message.idempotencyKey ≠ m.idempotencyKey) : Exact (room.insertIndexed m) := by
  have hrows := insertIndexed_rows room m
  have hkeys : ((room.insertIndexed m).conversation.rows.flatMap fun r =>
      Conversation.countKeys r.message) = (room.conversation.rows.flatMap fun r =>
        Conversation.countKeys r.message) ++ Conversation.countKeys m := by
    rw [hrows, flatMap_append]
    simp
  refine
    { ids := ?_, sequences := ?_, keys := ?_, isPublic := ?_, distinct := ?_, recipients := ?_
      amounts := ?_, positive := ?_, bounded := ?_, numbers := ?_, search := ?_, counted := ?_ }
  · rw [hrows]
    exact Conversation.nodup_column h.ids fun s hs => (hfresh s hs).1
  · rw [hrows]
    exact Conversation.nodup_column h.sequences fun s hs => (hfresh s hs).2.1
  · rw [hrows]
    exact Conversation.nodup_column h.keys fun s hs => (hfresh s hs).2.2
  · intro r hr
    rw [hrows] at hr
    rcases List.mem_append.1 hr with hr | hr
    · exact h.isPublic r hr
    · rw [List.mem_singleton.1 hr]
  · intro r hr
    rw [hrows] at hr
    rcases List.mem_append.1 hr with hr | hr
    · exact h.distinct r hr
    · rw [List.mem_singleton.1 hr]
      exact hrecipients
  · rw [hrows, flatMap_append, ← h.recipients]
    simp [insertIndexed]
  · rw [hkeys]
    exact (h.amounts.ups _).perm perm_append_comm
  · intro r hr
    rw [hrows] at hr
    rcases List.mem_append.1 hr with hr | hr
    · exact h.positive r hr
    · rw [List.mem_singleton.1 hr, hsequence]
      exact succ_pos _
  · intro r hr
    rw [hrows] at hr
    show r.message.sequence ≤ room.lastSequence + 1
    rcases List.mem_append.1 hr with hr | hr
    · exact le_succ_of_le (h.bounded r hr)
    · rw [List.mem_singleton.1 hr, hsequence]
  · show ((room.rows ++ [(room.nextRow, _)]).map Prod.fst).Nodup
    rw [map_append, nodup_append]
    refine ⟨h.numbers, nodup_singleton _, fun a ha b hb hab => ?_⟩
    obtain ⟨r, hr, rfl⟩ := List.mem_map.1 ha
    have hlt := lt_nextRow room r hr
    have hb : b = room.nextRow := by simpa using hb
    omega
  · show room.search ++ _ = (room.rows ++ _).map _
    rw [map_append, ← h.search]
    rfl
  · exact h.counted.ups h.amounts _

/-- What an append does to the room. -/
theorem append_ok {a : Conversation.Append} {m : Message} {created : Bool} (h : Exact room)
    (hok : room.append host a = .ok (room', m, created)) :
    room' = room ∧ created = false ∨ room' = room.insertIndexed m ∧ created = true ∧ Exact room' := by
  unfold append at hok
  obtain ⟨⟨c', m', created'⟩, happend, hok⟩ := Check.bind_ok_iff.mp hok
  obtain ⟨hvalid, hcreated, c₁, happended, -⟩ := Conversation.append_ok happend
  cases happended with
  | again r hkey hrepeats =>
      rw [hkey] at hok
      cases hok
      obtain ⟨hr, -⟩ := Conversation.byKey_eq_some hkey
      have hle : r.message.sequence ≤ room.conversation.lastSequence := h.bounded r hr
      exact .inl ⟨rfl, hcreated.trans (decide_eq_false (not_lt_of_ge hle))⟩
  | fresh c₁ hkey hremoved hreply hinsert =>
      rw [hkey] at hok
      cases hok
      obtain ⟨hfresh, -⟩ := Conversation.insertIndexed_ok hinsert
      refine .inr ⟨rfl, hcreated.trans (decide_eq_true (lt_succ_self _)), ?_⟩
      exact h.insert (Conversation.nodup_recipients hvalid) rfl hfresh

/-! ## One row expires -/

theorem orphaned_core (id : String) (r : Row) : core (orphaned id r).message = core r.message ∧
    (orphaned id r).isPublic = r.isPublic := by
  unfold orphaned
  split
  · exact ⟨rfl, rfl⟩
  · exact ⟨rfl, rfl⟩

/-- What does not look at the message replied to is not changed. -/
theorem orphaned_eq {α : Type*} (f : Message → α) (hf : ∀ m, f m = f (core m)) (id : String)
    (r : Row) : f (orphaned id r).message = f r.message := by
  rw [hf, (orphaned_core id r).1, ← hf]

theorem expire_conversation (room : Room) (r : ℕ × Row) : (room.expire r).conversation.rows =
    (room.conversation.rows.filter fun s => s.message.id ≠ r.2.message.id).map
      (orphaned r.2.message.id) := by
  show ((room.rows.map fun s => (s.1, orphaned r.2.message.id s.2)).filter
    fun s => s.2.message.id ≠ r.2.message.id).map Prod.snd =
      ((room.rows.map Prod.snd).filter fun s => s.message.id ≠ r.2.message.id).map _
  rw [filter_map, filter_map, map_map, map_map]
  have hsame : ((fun s : ℕ × Row => decide (s.2.message.id ≠ r.2.message.id)) ∘
      fun s : ℕ × Row => (s.1, orphaned r.2.message.id s.2)) =
      (fun s : Row => decide (s.message.id ≠ r.2.message.id)) ∘ Prod.snd := by
    funext s
    simp only [comp_apply, orphaned_eq Message.id (fun _ => rfl)]
  rw [hsame]
  rfl

/-- The rows that are left, with their numbers. -/
theorem expire_rows (room : Room) (r : ℕ × Row) : (room.expire r).rows =
    (room.rows.filter fun s => s.2.message.id ≠ r.2.message.id).map
      fun s => (s.1, orphaned r.2.message.id s.2) := by
  show (room.rows.map fun s => (s.1, orphaned r.2.message.id s.2)).filter _ = _
  rw [filter_map]
  congr 1
  refine filter_congr fun s _ => ?_
  simp only [comp_apply, orphaned_eq Message.id (fun _ => rfl)]

/-- A row stands in the room, whatever it replied to. -/
def Holds (room : Room) (r : ℕ × Row) : Prop :=
  ∃ s ∈ room.rows, s.1 = r.1 ∧ core s.2.message = core r.2.message

theorem core_inj {α : Type*} (f : Message → α) (hf : ∀ m, f m = f (core m)) {m n : Message}
    (h : core m = core n) : f m = f n := by
  rw [hf, h, ← hf]

/-- **The expiry of a public row keeps the tables.** -/
theorem Aligned.expire (h : Aligned room) (hr : Holds room r) (hpublic : r.2.message.recipients = []) :
    Aligned (room.expire r) := by
  obtain ⟨s, hs, hnumber, hcore⟩ := hr
  have hid : s.2.message.id = r.2.message.id := core_inj Message.id (fun _ => rfl) hcore
  have hrow : s.2 ∈ room.conversation.rows := mem_map_of_mem hs
  have hrows := expire_conversation room r
  have hperm := Conversation.perm_cons_filter h.ids hrow
  rw [hid] at hperm
  have hcolumn : ∀ {α : Type} (f : Message → α), (∀ m, f m = f (core m)) →
      ((room.expire r).conversation.rows.map fun t => f t.message) =
        (room.conversation.rows.filter fun t => t.message.id ≠ r.2.message.id).map
          fun t => f t.message := by
    intro α f hf
    rw [hrows, map_map]
    exact map_congr_left fun t _ => orphaned_eq f hf _ t
  have hmem : ∀ t ∈ (room.expire r).conversation.rows,
      ∃ u ∈ room.conversation.rows, t = orphaned r.2.message.id u := by
    intro t ht
    rw [hrows] at ht
    obtain ⟨u, hu, rfl⟩ := List.mem_map.1 ht
    exact ⟨u, mem_of_mem_filter hu, rfl⟩
  have hflat : ∀ {α : Type} (f : Message → List α), (∀ m, f m = f (core m)) →
      ((room.expire r).conversation.rows.flatMap fun t => f t.message) =
        (room.conversation.rows.filter fun t => t.message.id ≠ r.2.message.id).flatMap
          fun t => f t.message := by
    intro α f hf
    rw [flatMap_def, flatMap_def, hcolumn f hf]
  have hsub : (room.conversation.rows.filter fun t => t.message.id ≠ r.2.message.id).Sublist
      room.conversation.rows := filter_sublist
  refine
    { ids := ?_, sequences := ?_, keys := ?_, isPublic := ?_, distinct := ?_, recipients := ?_
      amounts := ?_, positive := ?_, bounded := ?_, numbers := ?_, search := ?_ }
  · rw [hcolumn Message.id fun _ => rfl]
    exact h.ids.sublist (hsub.map _)
  · rw [hcolumn Message.sequence fun _ => rfl]
    exact h.sequences.sublist (hsub.map _)
  · rw [hcolumn Message.idempotencyKey fun _ => rfl]
    exact h.keys.sublist (hsub.map _)
  · intro t ht
    obtain ⟨u, hu, rfl⟩ := hmem t ht
    rw [(orphaned_core _ u).2, h.isPublic u hu,
      orphaned_eq (fun m => m.recipients.isEmpty) (fun _ => rfl)]
  · intro t ht
    obtain ⟨u, hu, rfl⟩ := hmem t ht
    rw [orphaned_eq Message.recipients fun _ => rfl]
    exact h.distinct u hu
  · rw [hflat Conversation.recipientRows fun _ => rfl]
    show room.recipients.filter (fun e => decide (e.messageId ≠ r.2.message.id)) = _
    rw [h.recipients]
    exact Conversation.filter_recipientRows _ _
  · have hkeys : Conversation.countKeys s.2.message =
        [(Audience.all, r.2.message.category), (.everyone, r.2.message.category)] := by
      have hsrecipients : s.2.message.recipients = [] :=
        (core_inj Message.recipients (fun _ => rfl) hcore).trans hpublic
      have hcategory := core_inj Message.category (fun _ => rfl) hcore
      unfold Conversation.countKeys Conversation.audiences
      rw [if_pos hsrecipients, hcategory]
      rfl
    have hamounts := h.amounts.perm (hperm.flatMap_right fun t => Conversation.countKeys t.message)
    rw [flatMap_cons, hkeys] at hamounts
    rw [hflat Conversation.countKeys fun _ => rfl]
    have hkey : ∀ key : Audience × String,
        key ∈ [(Audience.all, r.2.message.category), (.everyone, r.2.message.category)] ↔
          key.2 = r.2.message.category ∧ (key.1 = .all ∨ key.1 = .everyone) := by
      intro key
      rw [mem_cons, mem_singleton, Prod.ext_iff, Prod.ext_iff]
      tauto
    exact hamounts.downs (by simp) (fun key hin n => if_pos ((hkey key).1 hin))
      fun key hout n => if_neg fun hin => hout ((hkey key).2 hin)
  · intro t ht
    obtain ⟨u, hu, rfl⟩ := hmem t ht
    rw [orphaned_eq Message.sequence fun _ => rfl]
    exact h.positive u hu
  · intro t ht
    obtain ⟨u, hu, rfl⟩ := hmem t ht
    rw [orphaned_eq Message.sequence fun _ => rfl]
    exact h.bounded u hu
  · rw [expire_rows, map_map]
    exact h.numbers.sublist (List.filter_sublist.map _)
  · rw [expire_rows, map_map]
    show room.search.filter _ = _
    rw [h.search, filter_map]
    have hsame : room.rows.filter ((fun e => decide (e ≠ (r.1, r.2.message.content))) ∘
        fun t : ℕ × Row => (t.1, t.2.message.content)) =
        room.rows.filter fun t => t.2.message.id ≠ r.2.message.id := by
      refine filter_congr fun t ht => ?_
      rw [comp_apply, decide_eq_decide]
      refine not_congr ⟨fun heq => ?_, fun heq => ?_⟩
      · have hone : t.1 = s.1 := (congrArg Prod.fst heq).trans hnumber.symm
        rw [inj_on_of_nodup_map h.numbers ht hs hone, hid]
      · have hpair : t.2 = s.2 := Conversation.eq_of_column h.ids (mem_map_of_mem ht) hrow
          (heq.trans hid.symm)
        have hone : t = s := by
          have hnodup : (room.rows.map fun t => t.2.message.id).Nodup := by
            have hids := h.ids
            rw [show room.conversation.rows = room.rows.map Prod.snd from rfl, map_map] at hids
            exact hids
          exact inj_on_of_nodup_map hnodup ht hs (heq.trans hid.symm)
        rw [hone, hnumber, core_inj Message.content (fun _ => rfl) hcore]
    rw [hsame]
    refine map_congr_left fun t _ => ?_
    rw [comp_apply, orphaned_eq Message.content fun _ => rfl]

/-! ## A batch expires -/

theorem mem_expire_rows {t : ℕ × Row} : t ∈ (room.expire r).rows ↔
    ∃ u ∈ room.rows, u.2.message.id ≠ r.2.message.id ∧ t = (u.1, orphaned r.2.message.id u.2) := by
  rw [expire_rows, mem_map]
  constructor
  · rintro ⟨u, hu, rfl⟩
    obtain ⟨hmem, hne⟩ := List.mem_filter.1 hu
    exact ⟨u, hmem, of_decide_eq_true hne, rfl⟩
  · rintro ⟨u, hmem, hne, rfl⟩
    exact ⟨u, List.mem_filter.2 ⟨hmem, decide_eq_true hne⟩, rfl⟩

/-- The other rows that are to expire are still there. -/
theorem Holds.expire (h : Holds room s) (hne : s.2.message.id ≠ r.2.message.id) :
    Holds (room.expire r) s := by
  obtain ⟨t, ht, hnumber, hcore⟩ := h
  have hid : t.2.message.id = s.2.message.id := core_inj Message.id (fun _ => rfl) hcore
  have hmem : (t.1, orphaned r.2.message.id t.2) ∈ (room.expire r).rows :=
    mem_expire_rows.2 ⟨t, ht, by rwa [hid], rfl⟩
  exact ⟨_, hmem, hnumber, (orphaned_core _ _).1.trans hcore⟩

/-- The identities of some rows. -/
def idsOf (rs : List (ℕ × Row)) : List String := rs.map fun r => r.2.message.id

theorem Aligned.expireAll {rs : List (ℕ × Row)} (h : Aligned room) (hnodup : (idsOf rs).Nodup)
    (hrs : ∀ r ∈ rs, Holds room r ∧ r.2.message.recipients = []) :
    Aligned (rs.foldl Room.expire room) := by
  induction rs generalizing room with
  | nil => exact h
  | cons r rs ih =>
      obtain ⟨hnot, hrest⟩ := List.nodup_cons.1 hnodup
      obtain ⟨hholds, hpublic⟩ := hrs r mem_cons_self
      refine ih (h.expire hholds hpublic) hrest fun s hs => ?_
      obtain ⟨hsholds, hspublic⟩ := hrs s (mem_cons_of_mem _ hs)
      have hne : s.2.message.id ≠ r.2.message.id := fun heq =>
        hnot (List.mem_map.2 ⟨s, hs, heq⟩)
      exact ⟨hsholds.expire hne, hspublic⟩

/-- A row as it is kept: what it was, or a reply to nothing where its parent expired. -/
def KeptAs (ids : List String) (m m' : Message) : Prop :=
  m' = m ∨ ∃ parent ∈ ids, m.replyTo = some parent ∧ m' = core m

theorem KeptAs.trans {ids ids' : List String} {m m' m'' : Message} (h : KeptAs ids m m')
    (h' : KeptAs ids' m' m'') : KeptAs (ids ++ ids') m m'' := by
  rcases h with rfl | ⟨parent, hparent, hreply, rfl⟩
  · rcases h' with rfl | ⟨parent, hparent, hreply, rfl⟩
    · exact .inl rfl
    · exact .inr ⟨parent, mem_append_right _ hparent, hreply, rfl⟩
  · rcases h' with rfl | ⟨_, _, hnone, _⟩
    · exact .inr ⟨parent, mem_append_left _ hparent, hreply, rfl⟩
    · cases hnone

theorem orphaned_keptAs (id : String) (r : Row) : KeptAs [id] r.message (orphaned id r).message := by
  unfold orphaned
  split
  · next hreply => exact .inr ⟨id, mem_singleton_self _, hreply, rfl⟩
  · exact .inl rfl

/-- **What is left of the rows**: those that did not expire, and what became of them. -/
theorem expireAll_rows (rs : List (ℕ × Row)) (room : Room) :
    (∀ t ∈ (rs.foldl Room.expire room).rows, ∃ u ∈ room.rows,
        KeptAs (idsOf rs) u.2.message t.2.message) ∧
      ∀ u ∈ room.rows, u.2.message.id ∉ idsOf rs →
        ∃ t ∈ (rs.foldl Room.expire room).rows, t.2.message.id = u.2.message.id := by
  induction rs generalizing room with
  | nil => exact ⟨fun t ht => ⟨t, ht, .inl rfl⟩, fun u hu _ => ⟨u, hu, rfl⟩⟩
  | cons r rs ih =>
      obtain ⟨hleft, hsurvive⟩ := ih (room.expire r)
      refine ⟨fun t ht => ?_, fun u hu hnot => ?_⟩
      · obtain ⟨v, hv, hkept⟩ := hleft t ht
        obtain ⟨u, hu, -, rfl⟩ := mem_expire_rows.1 hv
        exact ⟨u, hu, (orphaned_keptAs r.2.message.id u.2).trans hkept⟩
      · have hids : idsOf (r :: rs) = r.2.message.id :: idsOf rs := rfl
        rw [hids, mem_cons, not_or] at hnot
        have hmem := mem_expire_rows.2 ⟨u, hu, hnot.1, rfl⟩
        have hid : (orphaned r.2.message.id u.2).message.id = u.2.message.id :=
          orphaned_eq Message.id (fun _ => rfl) _ _
        obtain ⟨t, ht, heq⟩ := hsurvive _ hmem (by rw [hid]; exact hnot.2)
        exact ⟨t, ht, heq.trans hid⟩

/-! ## A retention -/

variable {cutoff : String}

theorem mem_due (hr : r ∈ room.due cutoff) :
    r ∈ room.rows ∧ r.2.message.createdAt < cutoff ∧ r.2.message.id ∉ room.waiting := by
  obtain ⟨hmem, hdue⟩ := List.mem_filter.1 (Newest.mem_of_mem_newest hr)
  exact ⟨hmem, of_decide_eq_true hdue⟩

theorem nodup_due (h : Aligned room) : (idsOf (room.due cutoff)).Nodup := by
  have hids : (idsOf room.rows).Nodup := by
    have hcolumn := h.ids
    rw [show room.conversation.rows = room.rows.map Prod.snd from rfl, map_map] at hcolumn
    exact hcolumn
  unfold due Newest.newest idsOf
  refine List.Nodup.sublist ((take_sublist _ _).map _) ?_
  refine ((Newest.perm_newestFirst _ _).map _).nodup_iff.2 ?_
  exact hids.sublist (List.filter_sublist.map _)

/-- A retention is the expiry of its batch. -/
theorem retain_cases (cutoff : String) (room : Room) :
    room.retain cutoff = room ∨
      room.retain cutoff = { (room.due cutoff).foldl Room.expire room with
        counts := ((room.due cutoff).foldl Room.expire room).counts.filter fun e => e.2 ≠ 0 } := by
  unfold retain
  split
  · dsimp only
    split
    · next hnil =>
      rw [hnil]
      exact .inl rfl
    · exact .inr rfl
  · exact .inl rfl

/-- **A retention keeps the tables**, where what expires is public. -/
theorem Exact.retain (h : Exact room) (hpublic : ∀ r ∈ room.due cutoff, r.2.message.recipients = []) :
    Exact (room.retain cutoff) := by
  rcases retain_cases cutoff room with heq | heq
  · rw [heq]
    exact h
  · have hall := h.toAligned.expireAll (nodup_due h.toAligned) fun r hr =>
      ⟨⟨r, (mem_due hr).1, rfl, rfl⟩, hpublic r hr⟩
    obtain ⟨hamounts, hnonzero⟩ := hall.amounts.dropped
    rw [heq]
    exact ⟨⟨hall.ids, hall.sequences, hall.keys, hall.isPublic, hall.distinct, hall.recipients,
      hamounts, hall.positive, hall.bounded, hall.numbers, hall.search⟩, hnonzero⟩

theorem retain_rows (cutoff : String) (room : Room) :
    (∀ t ∈ (room.retain cutoff).rows, ∃ u ∈ room.rows,
        KeptAs (idsOf (room.due cutoff)) u.2.message t.2.message) ∧
      ∀ u ∈ room.rows, u.2.message.id ∉ idsOf (room.due cutoff) →
        ∃ t ∈ (room.retain cutoff).rows, t.2.message.id = u.2.message.id := by
  rcases retain_cases cutoff room with heq | heq
  · rw [heq]
    exact ⟨fun t ht => ⟨t, ht, .inl rfl⟩, fun u hu _ => ⟨u, hu, rfl⟩⟩
  · rw [heq]
    exact expireAll_rows _ _

/-- **A message that waits is not removed.** -/
theorem retain_waiting {u : ℕ × Row} (hu : u ∈ room.rows) (hwaits : u.2.message.id ∈ room.waiting) :
    ∃ t ∈ (room.retain cutoff).rows, t.2.message.id = u.2.message.id := by
  refine (retain_rows cutoff room).2 u hu fun hmem => ?_
  obtain ⟨r, hr, hid⟩ := List.mem_map.1 hmem
  exact (mem_due hr).2.2 (hid ▸ hwaits)

/-! ## What the readers are told -/

variable {principal : String} {readAll : Bool} {category : Option String}

theorem Exact.countRows_eq (h : Exact room) : room.countRows principal readAll category =
    (room.conversation.countRows principal readAll category).map fun row => (row.1, (row.2 : ℤ)) := by
  have hrange : ∀ audience, room.countRange audience category =
      (room.conversation.countRange audience category).map fun row => (row.1, (row.2 : ℤ)) := by
    intro audience
    unfold countRange Conversation.countRange
    rw [h.counts_eq, filter_map, map_map, map_map]
    rfl
  unfold countRows Conversation.countRows
  split
  · exact hrange _
  · rw [hrange, hrange, map_append]

theorem sum_casts (rows : List (String × ℕ)) :
    ((rows.map fun row => (row.1, (row.2 : ℤ))).map Prod.snd).sum = ((rows.map Prod.snd).sum : ℕ) := by
  induction rows with
  | nil => rfl
  | cons row rows ih =>
      rw [map_cons, map_cons, sum_cons, ih, map_cons, sum_cons]
      push_cast
      rfl

theorem groupByCategory_casts (rows : List (String × ℕ)) :
    groupByCategory (rows.map fun row => (row.1, (row.2 : ℤ))) =
      (Conversation.groupByCategory rows).map fun _ n => (n : ℤ) := by
  have hfold : ∀ (rows : List (String × ℕ)) (groups : Dict String ℕ),
      (rows.map fun row => (row.1, (row.2 : ℤ))).foldl
          (fun groups row => groups.set row.1 ((groups.get? row.1).getD 0 + row.2))
          (groups.map fun _ n => (n : ℤ)) =
        (rows.foldl (fun d row => Tally.raise d row.1 row.2) groups).map fun _ n => (n : ℤ) := by
    intro rows
    induction rows with
    | nil => exact fun _ => rfl
    | cons row rows ih =>
        intro groups
        have hraise : (groups.map fun _ n => (n : ℤ)).set row.1
            (((groups.map fun _ n => (n : ℤ)).get? row.1).getD 0 + (row.2 : ℤ)) =
            (Tally.raise groups row.1 row.2).map fun _ n => (n : ℤ) := by
          unfold Tally.raise
          rw [Dict.map_set, Dict.get?_map]
          cases groups.get? row.1 with
          | none => simp
          | some n => simp
        rw [map_cons, foldl_cons, foldl_cons, hraise]
        exact ih _
  exact hfold rows .empty

/-- **`counts` counts the readable messages.** -/
theorem Exact.countsFor (h : Exact room) {total : ℤ} {categories : Dict String ℤ}
    (hanswer : room.countsFor principal readAll = .ok (total, categories)) :
    total = (room.messagesFor principal readAll none).length ∧ ∀ name, categories.get? name =
      let n := (room.messagesFor principal readAll none).countP fun m => decide (m.category = name)
      if n = 0 then none else some (n : ℤ) := by
  have hindexed := h.fit.indexed
  unfold Room.countsFor at hanswer
  obtain ⟨_, -, hanswer⟩ := Check.bind_ok_iff.mp hanswer
  obtain ⟨groups, hgroups, hanswer⟩ := Check.bind_ok_iff.mp hanswer
  unfold categoriesAtSnapshot at hgroups
  obtain ⟨_, -, hgroups⟩ := Check.bind_ok_iff.mp hgroups
  cases hgroups
  cases hanswer
  rw [h.countRows_eq, groupByCategory_casts]
  refine ⟨?_, fun name => ?_⟩
  · have hvalues : ∀ groups : Dict String ℕ,
        (groups.map fun _ n => (n : ℤ)).values = (groups.values).map (Nat.cast : ℕ → ℤ) := by
      intro groups
      unfold Dict.values Dict.map
      rw [map_map, map_map]
      rfl
    unfold messagesFor
    rw [hvalues, ← hindexed.total, ← Tally.sum_groups, cast_list_sum]
    rfl
  · rw [Dict.get?_map, hindexed.categories]
    dsimp only
    unfold messagesFor
    split <;> rfl

/-- **The total of a page is the number of readable messages.** -/
theorem Exact.totalAt (h : Exact room) (water : ℕ) :
    room.totalAt principal readAll category water =
      ((room.messagesFor principal readAll category).countP fun m =>
        decide (m.sequence ≤ water) : ℕ) := by
  have htotal := h.fit.totalAt ⟨principal, readAll, 1, none, none, 1, false, false, none, category,
    none, false⟩ water
  unfold messagesFor
  rw [← htotal]
  unfold Room.totalAt Conversation.totalAt
  rw [h.countRows_eq, sum_casts]
  show (if water = room.lastSequence then _ else _) = ((if water = room.lastSequence then _ else _ : ℕ) : ℤ)
  split <;> rfl

end Room

/-! ## Runs -/

/-- What expires is public: no message with a recipient is in the batch. -/
def PublicExpiry (w : Watched) : RoomCall → Prop
  | .retain cutoff => ∀ r ∈ w.room.due cutoff, r.2.message.recipients = []
  | _ => True

instance (w : Watched) : (call : RoomCall) → Decidable (PublicExpiry w call)
  | .append _ => isTrue trivial
  | .retain cutoff =>
      inferInstanceAs (Decidable (∀ r ∈ w.room.due cutoff, r.2.message.recipients = []))
  | .wait _ => isTrue trivial
  | .settle _ => isTrue trivial

/-- The tables are exact, and every message is one that was appended. -/
structure Watchful (w : Watched) : Prop where
  exact' : w.room.Exact
  kept : ∀ r ∈ w.room.rows, ∃ m ∈ w.appended, Room.KeptAs w.expired m r.2.message

theorem Watchful.step {w : Watched} {call : RoomCall} (h : Watchful w) (hcall : PublicExpiry w call) :
    Watchful ((roomCalls host).step w call) := by
  cases call with
  | append a =>
      unfold roomCalls
      dsimp only
      cases happend : w.room.append host a with
      | error e => exact h
      | ok answer =>
          obtain ⟨room, message, created⟩ := answer
          rcases Room.append_ok h.exact' happend with ⟨rfl, rfl⟩ | ⟨rfl, rfl, hexact⟩
          · exact ⟨h.exact', h.kept⟩
          · refine ⟨hexact, fun r hr => ?_⟩
            rcases List.mem_append.1 hr with hr | hr
            · obtain ⟨m, hm, hkept⟩ := h.kept r hr
              exact ⟨m, mem_append_left _ hm, hkept⟩
            · rw [List.mem_singleton.1 hr]
              exact ⟨message, mem_append_right _ (mem_singleton_self _), .inl rfl⟩
  | retain cutoff =>
      refine ⟨h.exact'.retain hcall, fun r hr => ?_⟩
      obtain ⟨u, hu, hkept⟩ := (Room.retain_rows cutoff w.room).1 r hr
      obtain ⟨m, hm, hkept'⟩ := h.kept u hu
      exact ⟨m, hm, hkept'.trans hkept⟩
  | wait id =>
      exact ⟨⟨⟨h.exact'.ids, h.exact'.sequences, h.exact'.keys, h.exact'.isPublic, h.exact'.distinct,
        h.exact'.recipients, h.exact'.amounts, h.exact'.positive, h.exact'.bounded,
        h.exact'.numbers, h.exact'.search⟩, h.exact'.counted⟩, h.kept⟩
  | settle id =>
      exact ⟨⟨⟨h.exact'.ids, h.exact'.sequences, h.exact'.keys, h.exact'.isPublic, h.exact'.distinct,
        h.exact'.recipients, h.exact'.amounts, h.exact'.positive, h.exact'.bounded,
        h.exact'.numbers, h.exact'.search⟩, h.exact'.counted⟩, h.kept⟩

/-- **The room is consistent** in every run whose retentions expire public messages only:
counts and page totals are those of the messages that can be read, a counter is of messages
that are there, the search index lists the messages, what is kept is what was appended but
for a reply to what expired, and what waits is not removed. -/
theorem room_consistent (host : Host) {w : Watched}
    (hrun : (roomCalls host).Run PublicExpiry .new w) :
    (∀ principal readAll,
      (∀ total categories, w.room.countsFor principal readAll = .ok (total, categories) →
        total = (w.room.messagesFor principal readAll none).length ∧
          ∀ name, categories.get? name =
            let n := (w.room.messagesFor principal readAll none).countP fun m =>
              decide (m.category = name)
            if n = 0 then none else some (n : ℤ)) ∧
      ∀ category water, w.room.totalAt principal readAll category water =
        ((w.room.messagesFor principal readAll category).countP fun m =>
          decide (m.sequence ≤ water) : ℕ)) ∧
    (∀ key n, w.room.counts.get? key = some n → 0 < n ∧
      n = (w.room.rows.countP fun r => decide (key ∈ Conversation.countKeys r.2.message) : ℕ)) ∧
    w.room.search = w.room.rows.map (fun r => (r.1, r.2.message.content)) ∧
    (∀ r ∈ w.room.rows, ∃ m ∈ w.appended, r.2.message = m ∨
      ∃ parent ∈ w.expired, m.replyTo = some parent ∧ r.2.message = core m) ∧
    ∀ cutoff, ∀ r ∈ w.room.rows, r.2.message.id ∈ w.room.waiting →
      ∃ s ∈ (w.room.retain cutoff).rows, s.2.message.id = r.2.message.id := by
  have h : Watchful w := hrun.invariant (fun w call hcall h => h.step hcall)
    ⟨Room.exact_new, fun _ hr => nomatch hr⟩
  refine ⟨fun principal readAll => ⟨fun total categories hanswer => h.exact'.countsFor hanswer,
    fun category water => h.exact'.totalAt water⟩, fun key n hn => ?_, h.exact'.search, h.kept,
    fun cutoff r hr hwaits => Room.retain_waiting hr hwaits⟩
  have hget := h.exact'.amounts.get? h.exact'.counted key
  rw [hn] at hget
  split at hget
  · cases hget
  · next hne =>
    have hvalue := Option.some.inj hget
    rw [Tally.count_flatMap _ key fun r _ => Conversation.nodup_countKeys r.message] at hvalue hne
    have hrows : w.room.conversation.rows = w.room.rows.map Prod.snd := rfl
    rw [hrows, List.countP_map] at hvalue hne
    refine ⟨?_, hvalue.trans (congrArg _ (List.countP_congr fun r _ => ?_))⟩
    · rw [hvalue]
      exact Int.natCast_pos.2 (Nat.pos_of_ne_zero hne)
    · simp only [Function.comp_apply, decide_eq_true_eq]

/-- A message of the room, written at an early time. -/
def early (recipients : List String) : Conversation.Append :=
  ⟨⟨none, "dan", "words", "note", recipients, [], [], none, some "2020-01-01T00:00:00+00:00", "k"⟩,
    none, false, "m1", "2020-01-01T00:00:00+00:00", 0, none⟩

/-- Hashes are the texts, and every text is a time. -/
def plainHost : Host := ⟨fun s => s, fun _ => true⟩

/-- A message is appended and expires, while another one waits. -/
def expiring (recipients : List String) : List RoomCall :=
  [.append (early recipients), .wait "m2", .retain "2020-02-01T00:00:00+00:00"]

/-- The room after that. -/
def afterExpiry (recipients : List String) : Watched :=
  (expiring recipients).foldl (roomCalls plainHost).step .new

theorem room_consistent_after_expiry :
    (afterExpiry []).room.rows.length = 0 ∧
      ∀ total categories, (afterExpiry []).room.countsFor "ann" false = .ok (total, categories) →
        total = ((afterExpiry []).room.messagesFor "ann" false none).length :=
  ⟨by decide +kernel, fun total categories hanswer =>
    (((room_consistent plainHost (w := afterExpiry [])
      (.ofWalk (fun _ _ => of_decide_eq_true) (by decide +kernel))).1 "ann" false).1
        total categories hanswer).1⟩

/-- A message to Ann expires: Ann has nothing to read, and one message counted. -/
theorem addressed_expiry_miscounts :
    ((afterExpiry ["ann"]).room.messagesFor "ann" false none).length = 0 ∧
      ((afterExpiry ["ann"]).room.countsFor "ann" false).toOption.map Prod.fst = some 1 := by
  decide +kernel

end ArchHub.Workshop

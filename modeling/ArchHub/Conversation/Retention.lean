import Mathlib
import ArchHub.Conversation.Survival

/-!
# Retention keeps every identity

The account of a conversation along a run, with what the retention row says of
its activity, and from them what holds of every history whose restores are
genuine: each sequence number is that of one live message or of one tombstone,
no id or key is that of two messages, and whatever was purged comes back as it
was.
-/

namespace ArchHub.History

open Lib Conversation List

variable {host : Host} {id : String} {retention : Bool} {h h' : Held} {w : World}
  {c c' : Conversation} {batches : List Restore}

/-! ## The account along a run -/

/-- Restores of nothing that only looks like a recorded message. -/
def GenuineRestore (host : Host) (id : String) (h : Held) (r : Restore) : Prop :=
  Genuine host id r.messages h.recorded

/-- What is held of a conversation is accounted for, and a tombstone means that
retention has been initialized. -/
structure Kept (host : Host) (id : String) (h : Held) : Prop where
  account : Accounted host id h.recorded h.exported h.conversation
  enabled : h.conversation.tombstones ≠ [] → h.retention = true ∧ h.contentDigests = true

theorem kept_new (host : Host) (id : String) (retention contentDigests : Bool) :
    Kept host id ⟨.new, retention, contentDigests, [], [], []⟩ :=
  ⟨accounted_new, fun h => absurd rfl h⟩

/-- Restored messages only take tombstones away. -/
theorem tombstones_restoreAll {digests : Bool} {batch : List Message} {count : ℕ}
    (h : restoreAll host id digests batch c = .ok (c', count)) (hne : c'.tombstones ≠ []) :
    c.tombstones ≠ [] := by
  let Inv : Conversation → Prop := fun d => d.tombstones ≠ [] → c.tombstones ≠ []
  have hkeep : Inv c' := by
    refine restoreAll_keeps (fun d m d' restored _ _ _ _ hone hd => ?_) h fun h => h
    cases hone with
    | present => exact hd
    | back t d₁ hdigests ht hnone htomb hreply hinsert =>
        exact fun _ => hd (ne_nil_of_mem ht)
  exact hkeep hne

/-- Every change keeps the account. -/
theorem kept_step (hchanged : Changed host (GenuineRestore host id) id h h')
    (hkept : Kept host id h) : Kept host id h' := by
  obtain ⟨account, henabled⟩ := hkept
  cases hchanged with
  | elsewhere retention contentDigests hretention hdigests =>
      exact ⟨account, fun ht => ⟨hretention (henabled ht).1, hdigests (henabled ht).2⟩⟩
  | append a c m created hcall =>
      obtain ⟨c₁, hinside, hnodup, rfl, retention, rfl, -⟩ := append_effect hcall
      refine ⟨(account.append hnodup (fun ht => (henabled ht).1) hinside).retain _, fun ht => ?_⟩
      refine henabled ?_
      cases hinside with
      | again => exact ht
      | fresh c₂ hkey hremoved hreply hinsert =>
          obtain ⟨-, rfl⟩ := insertIndexed_ok hinsert
          exact ht
  | activity clock guard c hcall =>
      obtain ⟨retention, rfl, -⟩ := recordActivityRow_generation (recordActivity_ok hcall)
      exact ⟨account.retain _, henabled⟩
  | archive s c hcall =>
      obtain ⟨retention, rfl, -⟩ := archive_effect hcall
      exact ⟨account.retain _, henabled⟩
  | purge p c answer hcall =>
      refine ⟨account.purge hcall, fun ht => ?_⟩
      obtain ⟨status, batch, removed, c₁, hstatus, -⟩ := purgeArchived_ok hcall
      refine ⟨(requiredStatus_ok hstatus).1, ?_⟩
      obtain ⟨batch, removed, hbatch, -, -, htombs, -⟩ := purge_effect account.fit.indexed hcall
      rw [Bool.or_eq_true, accepted_eq hbatch]
      by_cases hempty : batch = []
      · rw [hempty, map_nil, append_nil] at htombs
        exact .inl (henabled (htombs ▸ ht)).2
      · exact .inr (by simp [hempty])
  | exported p =>
      refine ⟨account.export_more fun m hm => ?_, henabled⟩
      unfold accepted at hm
      split at hm
      · next batch removed hbatch =>
          obtain ⟨-, -, -, -, -, -, -, -, front, back, hsplit, rfl, hvalid, -⟩ := purgeBatch_ok hbatch
          obtain ⟨hmem, -⟩ := batch_rows account.fit.indexed hbatch
          refine ⟨hmem m hm, ?_⟩
          obtain ⟨r, hr, rfl⟩ := List.mem_map.1 hm
          exact hvalid r hr
      · cases hm
  | restore r c hclean hcall =>
      obtain ⟨c₁, count, hall, ⟨retention, rfl⟩, -, -⟩ := restore_effect hcall
      refine ⟨(account.restoredAll (fun m hm n hn _ hdigest => ?_) hall).retain _,
        fun ht => henabled (tombstones_restoreAll hall ht)⟩
      exact Message.eq_of_canonicalText (hclean m (mem_batch.1 hm) n hn hdigest)

theorem kept_of_run (hrun : (history host).Run (CleanCall (GenuineRestore host))
    (World.new retention) w) (hheld : w.held id = some h) : Kept host id h :=
  held_invariant (kept_new host) (fun _ _ _ => kept_step) hrun id h hheld

/-! ## Activity -/

/-- No recorded activity is later than the last activity of the retention row. -/
def ActivityKept (h : Held) : Prop :=
  ∀ t ∈ h.activity, ∃ last,
    (h.conversation.retention.getD .absent).lastActivityAt = some last ∧ t ≤ last

/-- Recorded activity is the last, or not later than the last. -/
theorem activity_recorded {enabled : Bool} {clock : ℚ} {times : List ℚ}
    (htimes : ∀ t ∈ times, ∃ last, (c.retention.getD .absent).lastActivityAt = some last ∧ t ≤ last)
    (h : c.recordActivityRow enabled clock = .ok c') :
    ∀ t ∈ times ++ [clock], ∃ last,
      (c'.retention.getD .absent).lastActivityAt = some last ∧ t ≤ last := by
  obtain ⟨status, hstatus, -, rfl⟩ := recordActivityRow_ok h
  obtain ⟨-, hread, -⟩ := requiredStatus_ok hstatus
  intro t ht
  refine ⟨_, rfl, ?_⟩
  rcases List.mem_append.1 ht with ht | ht
  · obtain ⟨last, hlast, hle⟩ := htimes t ht
    rw [← hread] at hlast
    rw [hlast, Option.getD_some]
    exact hle.trans (le_max_right _ _)
  · rw [List.mem_singleton.1 ht]
    exact le_max_left _ _

theorem activity_step {clean : Held → Restore → Prop} (hchanged : Changed host clean id h h')
    (hactivity : ActivityKept h) : ActivityKept h' := by
  cases hchanged with
  | elsewhere => exact hactivity
  | append a c m created hcall =>
      obtain ⟨-, -, c₁, hinside, hrow⟩ := append_ok hcall
      have hsame : c₁.retention = h.conversation.retention := by
        cases hinside with
        | again => rfl
        | fresh c₂ hkey hremoved hreply hinsert =>
            obtain ⟨-, rfl⟩ := insertIndexed_ok hinsert
            rfl
      unfold ActivityKept at hactivity ⊢
      rw [← hsame] at hactivity
      dsimp only
      split at hrow
      · next hnew =>
          rw [if_pos hnew]
          exact activity_recorded hactivity hrow
      · next hold =>
          rw [if_neg hold, append_nil, hrow]
          exact hactivity
  | activity clock guard c hcall => exact activity_recorded hactivity (recordActivity_ok hcall)
  | archive s c hcall =>
      rcases archive_ok hcall with rfl | ⟨status, hstatus, -, retention, rfl, -, -, hlast⟩
      · exact hactivity
      · intro t ht
        obtain ⟨last, hread, hle⟩ := hactivity t ht
        rw [← (requiredStatus_ok hstatus).2.1] at hread
        rcases hlast with ⟨hnone, -⟩ | ⟨-, hkept, -⟩
        · rw [hread] at hnone
          cases hnone
        · exact ⟨last, hkept.trans hread, hle⟩
  | purge p c answer hcall =>
      obtain ⟨status, batch, removed, c₁, hstatus, -, hremove, rfl, -⟩ := purgeArchived_ok hcall
      have hread := (requiredStatus_ok hstatus).2.1
      have hkept := removeAll_retention hremove
      intro t ht
      obtain ⟨last, hlast, hle⟩ := hactivity t ht
      refine ⟨last, ?_, hle⟩
      dsimp only
      split
      · rw [hkept]
        exact hlast
      · rw [Option.getD_some, hread]
        exact hlast
  | exported => exact hactivity
  | restore r c hclean hcall =>
      obtain ⟨status, c₁, count, hstatus, hall, hrow⟩ := restoreArchived_ok hcall
      refine activity_recorded (fun t ht => ?_) hrow
      obtain ⟨last, hlast, hle⟩ := hactivity t ht
      refine ⟨last, ?_, hle⟩
      split
      · rw [(restoreAll_frame hall).2]
        exact hlast
      · rw [Option.getD_some, (requiredStatus_ok hstatus).2.1]
        exact hlast

theorem activity_of_run {clean : String → Held → Restore → Prop}
    (hrun : (history host).Run (CleanCall clean) (World.new retention) w)
    (hheld : w.held id = some h) : ActivityKept h := by
  let Inv : String → Held → Prop := fun _ h => ActivityKept h
  have hnew : ∀ id retention contentDigests, Inv id ⟨.new, retention, contentDigests, [], [], []⟩ :=
    fun _ _ _ t ht => nomatch ht
  exact held_invariant hnew (fun _ _ _ => activity_step) hrun id h hheld

/-! ## Restoring batch after batch -/

/-- A history after batches have been restored into a conversation. -/
def restoreInto (host : Host) (id : String) (w : World) (batches : List Restore) : World :=
  batches.foldl (fun w r => (history host).step w (.restore id r)) w

/-- Batches in which every reply comes with the message it replies to, or after
it is there. -/
def InOrder : (String → Prop) → List Restore → Prop
  | _, [] => True
  | there, r :: batches =>
      (∀ m ∈ r.messages, ∀ target ∈ m.replyTo, there target ∨ ∃ n ∈ r.messages, n.id = target) ∧
        InOrder (fun target => there target ∨ ∃ n ∈ r.messages, n.id = target) batches

theorem InOrder.mono {there there' : String → Prop} (hmore : ∀ target, there target → there' target)
    (h : InOrder there batches) : InOrder there' batches := by
  induction batches generalizing there there' with
  | nil => trivial
  | cons r batches ih =>
      exact ⟨fun m hm target htarget => (h.1 m hm target htarget).imp_left (hmore target),
        ih (fun target => Or.imp_left (hmore target)) h.2⟩

/-- A message id is there. -/
def There (h : Held) (target : String) : Prop :=
  ∃ r ∈ h.conversation.rows, r.message.id = target

theorem there_iff {target : String} :
    There h target ↔ ∃ m, h.conversation.Live m ∧ m.id = target := by
  constructor
  · rintro ⟨r, hr, hid⟩
    exact ⟨r.message, ⟨r, hr, rfl⟩, hid⟩
  · rintro ⟨m, ⟨r, hr, rfl⟩, hid⟩
    exact ⟨r, hr, hid⟩

/-- One batch of exported messages. -/
theorem restore_batch (hkept : Kept host id h) (hadmitted : Admitted h.conversation)
    (henabled : h.retention = true) (hheld : w.held id = some h) {r : Restore} (hplain : r.Plain)
    (hmessages : ∀ m ∈ r.messages, m ∈ h.exported)
    (hreply : ∀ m ∈ r.messages, ∀ target ∈ m.replyTo,
      There h target ∨ ∃ n ∈ r.messages, n.id = target) :
    ∃ h', ((history host).step w (.restore id r)).held id = some h' ∧ Kept host id h' ∧
      Admitted h'.conversation ∧ h'.retention = true ∧ h'.recorded = h.recorded ∧
      h'.exported = h.exported ∧
      ∀ m, h'.conversation.Live m ↔ h.conversation.Live m ∨ m ∈ r.messages := by
  obtain ⟨c', hcall, haccount, htombs, hlive⟩ := hkept.account.exists_restore hadmitted hplain
    (fun ht => (hkept.enabled ht).2) hmessages fun m hm _ => hreply m hm
  obtain ⟨hknown, hretention, hdigests, hrecorded, hexported, hactivity⟩ := held_eq_some hheld
  obtain ⟨status, c₁, count, -, -, hrow⟩ := restoreArchived_ok hcall
  have hstep : ((history host).step w (.restore id r)).held id = some { h with
      conversation := c', activity := h.activity ++ [r.clock] } := by
    have hput := held_put (w := w) id c' w.store.retention w.store.contentDigests [] [] [r.clock] id
    rw [if_pos rfl, note_nil, note_nil, append_nil, append_nil, hretention, hdigests,
      hrecorded, hexported, hactivity] at hput
    have hresult : (w.store.known id >>= restoreArchived host w.store.retention
        w.store.contentDigests id r) = .ok c' := by
      rw [hknown, Check.ok_bind, hretention, hdigests, henabled]
      exact hcall
    change (World.step host w (.restore id r)).held id = _
    unfold World.step
    dsimp only
    rw [hresult]
    dsimp only [Store.put]
    rw [hretention, hdigests]
    exact hput
  exact ⟨_, hstep, ⟨haccount, fun ht => hkept.enabled (htombs ht)⟩,
    recordActivityRow_admitted hrow, henabled, rfl, rfl, hlive⟩

/-- **Restoring exported messages in order brings back exactly them.** -/
theorem restore_batches (hkept : Kept host id h) (hadmitted : Admitted h.conversation)
    (henabled : h.retention = true) (hheld : w.held id = some h) (hplain : ∀ r ∈ batches, r.Plain)
    (hmessages : ∀ r ∈ batches, ∀ m ∈ r.messages, m ∈ h.exported)
    (horder : InOrder (There h) batches) :
    ∃ h', (restoreInto host id w batches).held id = some h' ∧ h'.recorded = h.recorded ∧
      ∀ m, h'.conversation.Live m ↔ h.conversation.Live m ∨ ∃ r ∈ batches, m ∈ r.messages := by
  induction batches generalizing w h with
  | nil => exact ⟨h, hheld, rfl, by simp⟩
  | cons r batches ih =>
      obtain ⟨h₁, hheld₁, hkept₁, hadmitted₁, henabled₁, hrecorded₁, hexported₁, hlive₁⟩ :=
        restore_batch hkept hadmitted henabled hheld (hplain r mem_cons_self)
          (hmessages r mem_cons_self) horder.1
      have hthere : ∀ target, (There h target ∨ ∃ n ∈ r.messages, n.id = target) →
          There h₁ target := by
        intro target htarget
        rw [there_iff]
        rcases htarget with htarget | ⟨n, hn, hid⟩
        · obtain ⟨m, hm, hid⟩ := there_iff.1 htarget
          exact ⟨m, (hlive₁ m).2 (.inl hm), hid⟩
        · exact ⟨n, (hlive₁ n).2 (.inr hn), hid⟩
      obtain ⟨h₂, hheld₂, hrecorded₂, hlive₂⟩ := ih hkept₁ hadmitted₁ henabled₁ hheld₁
        (fun s hs => hplain s (mem_cons_of_mem r hs))
        (fun s hs => hexported₁ ▸ hmessages s (mem_cons_of_mem r hs)) (horder.2.mono hthere)
      refine ⟨h₂, hheld₂, hrecorded₂.trans hrecorded₁, fun m => ?_⟩
      rw [hlive₂, hlive₁]
      simp only [mem_cons, exists_eq_or_imp]
      tauto

/-! ## What survives -/

/-- What a purge takes away, and when. -/
theorem purge_takes (hkept : Kept host id h) (hactivity : ActivityKept h) {p : Purge}
    {answer : Purged}
    (hcall : h.conversation.purgeArchived host h.retention id p = .ok (c', answer)) :
    (∀ r ∈ h.conversation.rows, r ∉ c'.rows →
      r.message ∈ h.conversation.accepted host h.retention id p ∧ p.exported = none) ∧
    ∃ archived, (h.conversation.retention.getD .absent).archivedAt = some archived ∧
      archived ≤ p.clock ∧ ∀ t ∈ h.activity, retentionSeconds ≤ p.clock - t := by
  obtain ⟨batch, removed, hbatch, -, hrows, -⟩ := purge_effect hkept.account.fit.indexed hcall
  obtain ⟨hmem, -⟩ := batch_rows hkept.account.fit.indexed hbatch
  obtain ⟨status, archived, active, hstatus, harchived, hactive, hinactive, hpast, -, -, -, -, -,
    hexport⟩ := purgeBatch_ok hbatch
  have hread := (requiredStatus_ok hstatus).2.1
  refine ⟨fun r hr hgone => ?_, archived, hread ▸ harchived, hpast, fun t ht => ?_⟩
  · have hid : r.message.id ∈ batch.map Message.id := by
      by_contra hid
      exact hgone (hrows ▸ List.mem_filter.2 ⟨hr, decide_eq_true hid⟩)
    obtain ⟨m, hm, hid⟩ := List.mem_map.1 hid
    obtain ⟨s, hs, rfl⟩ := hmem m hm
    have hsame := eq_of_column hkept.account.fit.indexed.ids hs hr hid
    subst hsame
    refine ⟨(accepted_eq hbatch).symm ▸ hm, ?_⟩
    have hguard := hexport (ne_nil_of_mem hm)
    unfold guarded at hguard
    split at hguard
    · next hnone => exact hnone
    · cases hguard
  · obtain ⟨last, hlast, hle⟩ := hactivity t ht
    rw [← hread, hactive] at hlast
    injection hlast with hlast
    rw [← hlast] at hle
    linarith

/-- **Identities survive retention.**  In every run whose restores are genuine
every sequence number is that of one live message or of one tombstone; no id and
no key is that of two recorded messages; an append repeated while its message is
live returns it, and any other one under its key is refused, as is every one
after the message was purged; a purge takes only copies its archive accepted,
from an archived conversation without activity for the retention time, and no
reply keeps it from it; and exported messages restored in any order that
respects replies are back as they were recorded. -/
theorem identities_survive (hrun : (history host).Run (CleanCall (GenuineRestore host))
    (World.new retention) w) (hheld : w.held id = some h) :
    (∀ k, (h.conversation.rows.countP fun r => decide (r.message.sequence = k)) +
        (h.conversation.tombstones.countP fun t => decide (t.sequence = k)) =
      if 1 ≤ k ∧ k ≤ h.conversation.lastSequence then 1 else 0) ∧
    ((h.recorded.map Message.id).Nodup ∧ (h.recorded.map Message.idempotencyKey).Nodup ∧
      ∀ r ∈ h.conversation.rows, r.message ∈ h.recorded) ∧
    (∀ m ∈ h.recorded, ∀ a : Append, a.draft.idempotencyKey = m.idempotencyKey →
      (h.conversation.Live m → a.draft.repeats m = true → Welcome host id h.recorded a →
        h.conversation.append host h.retention id a = .ok (h.conversation, m, false)) ∧
      (¬ h.conversation.Live m ∨ a.draft.repeats m = false →
        ∃ e, h.conversation.append host h.retention id a = .error e)) ∧
    (∀ p c' answer, h.conversation.purgeArchived host h.retention id p = .ok (c', answer) →
      (∀ r ∈ h.conversation.rows, r ∉ c'.rows →
        r.message ∈ h.conversation.accepted host h.retention id p ∧ p.exported = none) ∧
      ∃ archived, (h.conversation.retention.getD .absent).archivedAt = some archived ∧
        archived ≤ p.clock ∧ ∀ t ∈ h.activity, retentionSeconds ≤ p.clock - t) ∧
    (∀ p batch removed, h.conversation.purgeBatch host h.retention id p = .ok (batch, removed) →
      removeAll host id batch h.conversation ≠ .error orphans) ∧
    ∀ batches : List Restore, h.retention = true → (∀ r ∈ batches, r.Plain) →
      (∀ r ∈ batches, ∀ m ∈ r.messages, m ∈ h.exported) → InOrder (There h) batches →
      ∃ h', (restoreInto host id w batches).held id = some h' ∧ h'.recorded = h.recorded ∧
        ∀ m, h'.conversation.Live m ↔ h.conversation.Live m ∨ ∃ r ∈ batches, m ∈ r.messages := by
  have hkept := kept_of_run hrun hheld
  have haccount := hkept.account
  have hactivity := activity_of_run hrun hheld
  have hadmitted := admitted_of_run (hrun.mono fun _ _ _ => trivial) hheld
  refine ⟨haccount.one_of_each, ⟨haccount.ids, haccount.keys, fun r hr => haccount.mem_of_row hr⟩,
    fun m hm a hkey => ⟨?_, ?_⟩, fun p c' answer => purge_takes hkept hactivity,
    fun p batch removed => haccount.purge_orphans, fun batches henabled hplain hmessages horder =>
      restore_batches hkept hadmitted henabled hheld hplain hmessages horder⟩
  · rintro ⟨r, hr, rfl⟩ hrepeats hwelcome
    exact haccount.append_again hr hkey hrepeats hwelcome
  · intro hcase
    rcases haccount.live_or_gone hm with ⟨r, hr, rfl⟩ | ⟨hnone, htomb⟩
    · rcases hcase with hgone | hother
      · exact absurd ⟨r, hr, rfl⟩ hgone
      · exact haccount.append_other hr hkey hother
    · have hfree : h.conversation.byKey a.draft.idempotencyKey = none := by
        cases hfound : h.conversation.byKey a.draft.idempotencyKey with
        | none => rfl
        | some r =>
            obtain ⟨hr, hsame⟩ := byKey_eq_some hfound
            have heq := haccount.eq_of_key (haccount.mem_of_row hr) hm (hsame.trans hkey)
            exact absurd (congrArg Message.sequence heq) (hnone r hr)
      exact append_gone htomb (hkept.enabled (List.ne_nil_of_mem htomb)).1 hfree (.inl hkey)

/-- SHA-256 of the texts of one message. -/
def digestsOfHello : String → String
  | "m1" => "ca0df2c95aa144c1d0ff2ff3c8f967fdc1de9ef0c4120b3726416701b519d619"
  | "k1" => "6ab9f1eb8f7d3388f4f9d586f66e99fd54080df2c446f0e58668b09c08a16dd0"
  | _ => "3e4f3684878ac4ff37abd70cb4eb7069dbedc241981e2c9b8fc759983a46fd90"

/-- A host that knows them, and when the message was written. -/
def helloHost : Host := ⟨digestsOfHello, fun stamp => stamp = "2026-01-01T00:00:00+00:00"⟩

/-- The append of the message. -/
def sayHello : Append :=
  ⟨⟨none, "ben", "hello", "chat", [], [], [], none, none, "k1"⟩, none, false, "m1",
    "2026-01-01T00:00:00+00:00", 1000000, none⟩

/-- A message is appended and, twenty days later, purged. -/
def helloPurged : List Call :=
  [.ensure "room", .activate none, .append "room" sayHello,
    .archive "room" ⟨false, ⟨1, 0, 1, 0⟩, true, 1000000, none, none⟩,
    .purge "room" ⟨⟨false, ⟨1, 1, 1, 0⟩, true, 1000000 + 20 * 86400, none, none⟩, 10, 1000, none⟩]

/-- The message. -/
def helloMessage : Message :=
  ⟨"m1", 1, "ben", "hello", "chat", [], [], [], none, "2026-01-01T00:00:00+00:00", "k1"⟩

/-- What is held after the purge. -/
theorem held_helloPurged :
    ((helloPurged.foldl (history helloHost).step (World.new false)).held "room").map (fun h =>
      (h.recorded, h.exported, h.conversation.rows, h.retention)) =
        some ([helloMessage], [helloMessage], [], true) := by decide +kernel

/-- Whether a call restores messages. -/
def Call.restores : Call → Bool
  | .restore _ _ => true
  | _ => false

theorem identities_survive_hello : ∃ h,
    (helloPurged.foldl (history helloHost).step (World.new false)).held "room" = some h ∧
    h.conversation.rows = [] ∧
    ∃ h', (restoreInto helloHost "room" (helloPurged.foldl (history helloHost).step (World.new false))
      [⟨[helloMessage], 100, 3000000, none, none⟩]).held "room" = some h' ∧
      h'.conversation.Live helloMessage := by
  obtain ⟨h, hheld, hread⟩ := Option.map_eq_some_iff.1 held_helloPurged
  simp only [Prod.mk.injEq] at hread
  obtain ⟨hrecorded, hexported, hrows, henabled⟩ := hread
  have hcheck : ∀ w call, call.restores = false →
      CleanCall (GenuineRestore helloHost) w call := by
    intro w call hcall
    cases call <;> simp_all [CleanCall, Call.restores]
  have hrun := @Machine.Run.ofWalk _ _ (history helloHost) (CleanCall (GenuineRestore helloHost))
    (World.new false) (fun _ call => !call.restores) (fun w call h => hcheck w call (by simpa using h))
    helloPurged rfl
  obtain ⟨-, -, -, -, -, hrestore⟩ := identities_survive hrun hheld
  obtain ⟨h', hheld', -, hlive⟩ := hrestore [⟨[helloMessage], 100, 3000000, none, none⟩] henabled
    (fun r hr => by
      rw [List.mem_singleton.1 hr]
      exact ⟨by decide, by decide, by decide +kernel, rfl, rfl⟩)
    (fun r hr m hm => by
      rw [List.mem_singleton.1 hr] at hm
      rw [hexported]
      exact hm)
    ⟨fun m hm target htarget => absurd htarget (by
      rw [List.mem_singleton.1 hm]
      exact (Option.some_ne_none target).symm), trivial⟩
  exact ⟨h, hheld, hrows, h', hheld', (hlive _).2 (.inr ⟨_, List.mem_singleton_self _,
    List.mem_singleton_self _⟩)⟩

/-- **An append repeated after its message was purged is refused**, with the same
key and the same fields. -/
theorem repeated_after_purge : ∃ h,
    (helloPurged.foldl (history helloHost).step (World.new false)).held "room" = some h ∧
    helloMessage ∈ h.recorded ∧ sayHello.draft.idempotencyKey = helloMessage.idempotencyKey ∧
    sayHello.draft.repeats helloMessage = true ∧ Welcome helloHost "room" h.recorded sayHello ∧
    ∀ answer, h.conversation.append helloHost h.retention "room" sayHello ≠ .ok answer := by
  obtain ⟨h, hheld, hread⟩ := Option.map_eq_some_iff.1 held_helloPurged
  simp only [Prod.mk.injEq] at hread
  obtain ⟨hrecorded, -, -, -⟩ := hread
  refine ⟨h, hheld, hrecorded ▸ List.mem_singleton_self _, rfl, by decide,
    ⟨by decide +kernel, nofun, nofun, rfl, rfl⟩, ?_⟩
  have hrefused : ((helloPurged.foldl (history helloHost).step (World.new false)).held "room").map
      (fun h => match h.conversation.append helloHost h.retention "room" sayHello with
        | .ok _ => ""
        | .error e => e) = some "message identity was removed by conversation retention" := by
    decide +kernel
  rw [hheld, Option.map_some] at hrefused
  injection hrefused with hrefused
  intro answer hanswer
  rw [hanswer] at hrefused
  dsimp only at hrefused
  exact absurd hrefused (by decide)

end ArchHub.History

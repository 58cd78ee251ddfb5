import Mathlib
import ArchHub.Conversation.Calls
import ArchHub.Conversation.Effects

/-!
# What every run keeps

Two facts about a conversation under any order of calls.  Its indexes are those
of its messages, none of which is behind the last sequence number (`Fit`).  And
between two states of one content generation it has only grown: every message
is still there, and whatever came is behind every sequence number there was
(`Grows`).
-/

namespace ArchHub.History

open Lib List

namespace Conversation

variable {host : Host} {conversation : String} {enabled digests : Bool}
variable {c c' : Conversation} {m : Message} {r : Retention} {batch : List Message} {count : ℕ}
  {clock active : ℚ} {s : Step} {a : Append} {p : Purge}

/-! ## Retention rows -/

/-- The retention row is none of the indexed tables. -/
theorem Indexed.retain (h : Indexed c) (retention : Option Retention) :
    Indexed { c with retention := retention } :=
  ⟨h.ids, h.sequences, h.keys, h.isPublic, h.distinct, h.recipients, h.counts⟩

/-- Neither are the tombstones. -/
theorem Indexed.bury (h : Indexed c) (tombstones : List Tombstone) :
    Indexed { c with tombstones := tombstones } :=
  ⟨h.ids, h.sequences, h.keys, h.isPublic, h.distinct, h.recipients, h.counts⟩

/-- Neither is the head. -/
theorem Indexed.head (h : Indexed c) (last : ℕ) : Indexed { c with lastSequence := last } :=
  ⟨h.ids, h.sequences, h.keys, h.isPublic, h.distinct, h.recipients, h.counts⟩

/-- The generation of the content of a conversation. -/
def generation (enabled : Bool) (c : Conversation) : ℕ :=
  (if enabled then c.retention.getD .absent else .absent).contentGeneration

/-- The generation of an operation that required retention. -/
theorem generation_required {status : Retention} (h : c.requiredStatus enabled = .ok status) :
    c.generation enabled = status.contentGeneration := by
  obtain ⟨henabled, hstatus, -⟩ := requiredStatus_ok h
  unfold generation
  rw [if_pos henabled, hstatus]

/-- Recorded activity is another retention row of the same generation. -/
theorem recordActivityRow_generation (h : c.recordActivityRow enabled clock = .ok c') :
    ∃ retention, c' = { c with retention := some retention } ∧
      c'.generation enabled = c.generation enabled := by
  obtain ⟨status, hstatus, -, rfl⟩ := recordActivityRow_ok h
  refine ⟨_, rfl, ?_⟩
  obtain ⟨henabled, hread, -⟩ := requiredStatus_ok hstatus
  unfold generation
  rw [if_pos henabled, if_pos henabled, Option.getD_some, hread]

/-- A retention row, or none, that the history may have written. -/
def Admitted (c : Conversation) : Prop := admitted (c.retention.getD .absent) = true

theorem admitted_new : Admitted .new := by
  unfold Admitted
  decide

/-- An admitted row with other counters is admitted. -/
theorem admitted_counters {r' : Retention} (h : admitted r = true)
    (hactivity : r'.lastActivityAt = r.lastActivityAt) (hbasis : r'.activityBasis = r.activityBasis)
    (harchived : r'.archivedAt = r.archivedAt) : admitted r' = true := by
  unfold admitted at h ⊢
  rwa [hactivity, hbasis, harchived]

/-- A retention row with activity of a known basis is admitted. -/
theorem admitted_active (hactivity : r.lastActivityAt = some active)
    (hactive : instant active = true) (hbasis : r.activityBasis ≠ .unknown)
    (harchived : ∀ archived ∈ r.archivedAt, instant archived = true) : admitted r = true := by
  unfold admitted
  rw [hactivity]
  simp only [Option.toList_some, singleton_append, all_cons, hactive, Bool.true_and,
    Bool.and_eq_true, decide_eq_true_eq, all_eq_true]
  refine ⟨fun archived h => harchived archived (Option.mem_toList.1 h), ?_, fun _ => nofun⟩
  exact ⟨nofun, fun h => absurd h hbasis⟩

theorem instant_of_admitted (h : admitted r = true) (hactivity : r.lastActivityAt = some active) :
    instant active = true := by
  unfold admitted at h
  rw [Bool.and_eq_true, all_eq_true] at h
  exact h.1 active (by simp [hactivity])

/-- Recorded activity writes an admitted row. -/
theorem recordActivityRow_admitted (h : c.recordActivityRow enabled clock = .ok c') :
    Admitted c' := by
  obtain ⟨status, hstatus, hclock, rfl⟩ := recordActivityRow_ok h
  obtain ⟨-, -, hadmitted⟩ := requiredStatus_ok hstatus
  refine admitted_active rfl ?_ nofun nofun
  cases hactive : status.lastActivityAt with
  | none =>
      unfold instant at hclock ⊢
      rw [Option.getD_none, max_eq_left (of_decide_eq_true hclock).1]
      exact hclock
  | some active =>
      rw [Option.getD_some]
      rcases max_choice clock active with hmax | hmax <;> rw [hmax]
      · exact hclock
      · exact instant_of_admitted hadmitted hactive

/-- So does an archive. -/
theorem archive_admitted (h : c.archive enabled s = .ok c') (hc : Admitted c) : Admitted c' := by
  rcases archive_ok h with rfl | ⟨status, hstatus, hclock, retention, rfl, harchived, -, hactivity⟩
  · exact hc
  obtain ⟨-, -, hadmitted⟩ := requiredStatus_ok hstatus
  have hnow : ∀ archived ∈ retention.archivedAt, instant archived = true := by
    intro archived h
    rw [harchived] at h
    injection h with h
    rwa [← h]
  change admitted retention = true
  rcases hactivity with ⟨-, hactive, hbasis⟩ | ⟨hsome, hactive, hbasis⟩
  · exact admitted_active hactive hclock (by rw [hbasis]; nofun) hnow
  · obtain ⟨active, hsome⟩ := Option.isSome_iff_exists.1 hsome
    refine admitted_active (hactive.trans hsome) (instant_of_admitted hadmitted hsome) ?_ hnow
    rw [hbasis]
    intro hunknown
    unfold admitted at hadmitted
    rw [Bool.and_eq_true] at hadmitted
    have hnone := (of_decide_eq_true hadmitted.2).1.2 hunknown
    rw [hsome] at hnone
    cases hnone

/-! ## One effect for each operation -/

/-- A new message of an append is the next one, with a retention row of the
same generation. -/
theorem append_effect {created : Bool}
    (h : c.append host enabled conversation a = .ok (c', m, created)) :
    ∃ c₁, Appended host enabled a c c₁ m ∧ a.draft.recipients.Nodup ∧
      created = decide (c.lastSequence < m.sequence) ∧
      ∃ retention, c' = { c₁ with retention := retention } ∧
        c'.generation enabled = c₁.generation enabled := by
  obtain ⟨hvalid, hcreated, c₁, hinside, hactivity⟩ := append_ok h
  refine ⟨c₁, hinside, nodup_recipients hvalid, hcreated, ?_⟩
  split at hactivity
  · obtain ⟨retention, hc, hgeneration⟩ := recordActivityRow_generation hactivity
    exact ⟨some retention, hc, hgeneration⟩
  · subst hactivity
    exact ⟨c'.retention, rfl, rfl⟩

/-- An archive is another retention row of the same generation. -/
theorem archive_effect (h : c.archive enabled s = .ok c') :
    ∃ retention, c' = { c with retention := retention } ∧
      c'.generation enabled = c.generation enabled := by
  rcases archive_ok h with rfl | ⟨status, hstatus, -, retention, rfl, -, hgeneration, -⟩
  · exact ⟨c'.retention, rfl, rfl⟩
  · refine ⟨some retention, rfl, ?_⟩
    rw [generation_required hstatus, ← hgeneration]
    unfold generation
    rw [if_pos (requiredStatus_ok hstatus).1, Option.getD_some]

/-- The rows of the batch of a purge. -/
theorem batch_rows {removed : ℕ} (hindexed : Indexed c)
    (h : c.purgeBatch host enabled conversation p = .ok (batch, removed)) :
    (∀ m ∈ batch, ∃ r ∈ c.rows, r.message = m) ∧ (batch.map Message.id).Nodup := by
  obtain ⟨-, -, -, -, -, -, -, -, front, back, hrows, rfl, -, -⟩ := purgeBatch_ok h
  have hperm : (front ++ back).Perm c.rows := hrows ▸ Newest.perm_newestFirst _ c.rows
  constructor
  · intro m hm
    obtain ⟨r, hr, rfl⟩ := List.mem_map.1 hm
    exact ⟨r, hperm.subset (mem_append_left back hr), rfl⟩
  · have hids := (hperm.map fun r => r.message.id).nodup_iff.2 hindexed.ids
    rw [map_append] at hids
    rw [map_map]
    exact (List.nodup_append.1 hids).1

/-- **What a purge does**: the rows of its batch are tombstones, and the
generation is another one unless the batch is empty. -/
theorem purge_effect {answer : Purged} (hindexed : Indexed c)
    (h : c.purgeArchived host enabled conversation p = .ok (c', answer)) :
    ∃ batch removed, c.purgeBatch host enabled conversation p = .ok (batch, removed) ∧
      Indexed c' ∧ c'.rows = without c.rows batch ∧
      c'.tombstones = c.tombstones ++ batch.map (tombstoneFor host conversation) ∧
      c'.lastSequence = c.lastSequence ∧
      c'.generation enabled = c.generation enabled + if batch = [] then 0 else 1 := by
  obtain ⟨status, batch, removed, c₁, hstatus, hbatch, hremove, hc', -⟩ := purgeArchived_ok h
  obtain ⟨hmem, hids⟩ := batch_rows hindexed hbatch
  obtain ⟨hindexed₁, hrows, htombstones, hlast, hretention⟩ :=
    removeAll_ok hindexed hmem hids hremove
  refine ⟨batch, removed, hbatch, ?_⟩
  rw [generation_required hstatus]
  obtain ⟨henabled, hread, -⟩ := requiredStatus_ok hstatus
  by_cases hempty : batch = []
  · rw [if_pos hempty] at hc'
    subst hc'
    refine ⟨hindexed₁, hrows, htombstones, hlast, ?_⟩
    unfold generation
    rw [if_pos henabled, hretention, ← hread, if_pos hempty, Nat.add_zero]
  · rw [if_neg hempty] at hc'
    subst hc'
    refine ⟨hindexed₁.retain _, hrows, htombstones, hlast, ?_⟩
    unfold generation
    rw [if_pos henabled, Option.getD_some, if_neg hempty]

/-- Removing rows leaves the retention row. -/
theorem removeAll_retention (h : removeAll host conversation batch c = .ok c') :
    c'.retention = c.retention := by
  induction batch generalizing c with
  | nil => rw [ok_inj h]
  | cons m batch ih =>
      unfold removeAll at h
      obtain ⟨c₁, hone, hrest⟩ := Check.bind_ok_iff.mp h
      obtain ⟨-, -, counts, -, hc₁⟩ := removeIndexed_ok hone
      rw [ih hrest, hc₁]

/-- Restoring nothing changes nothing. -/
theorem restoreAll_none (hcount : count = 0)
    (h : restoreAll host conversation digests batch c = .ok (c', count)) : c' = c := by
  induction batch generalizing c count with
  | nil => exact (Prod.mk.inj (ok_inj h)).1.symm
  | cons m batch ih =>
      unfold restoreAll at h
      obtain ⟨⟨c₁, restored⟩, hone, h⟩ := Check.bind_ok_iff.mp h
      obtain ⟨⟨c₂, rest⟩, hrest, h⟩ := Check.bind_ok_iff.mp h
      obtain ⟨rfl, hsum⟩ := Prod.mk.inj (ok_inj h)
      obtain ⟨-, -, -, hrestored⟩ := restoreOne_ok hone
      cases hrestored with
      | present r => exact ih (by omega) hrest
      | back t => rw [if_pos rfl] at hsum; omega

/-- Restored messages move neither the head nor the retention row. -/
theorem restoreAll_frame (h : restoreAll host conversation digests batch c = .ok (c', count)) :
    c'.lastSequence = c.lastSequence ∧ c'.retention = c.retention := by
  let Inv : Conversation → Prop := fun d =>
    d.lastSequence = c.lastSequence ∧ d.retention = c.retention
  have hkeep : Inv c' := by
    refine restoreAll_keeps (fun d m d' restored _ _ _ _ hone hd => ?_) h ⟨rfl, rfl⟩
    cases hone with
    | present => exact hd
    | back t d₁ hdigests ht hnone htomb hreply hinsert =>
        obtain ⟨-, rfl⟩ := insertIndexed_ok hinsert
        exact hd
  exact hkeep

/-- Restored messages are rows again, and no row is lost. -/
theorem restore_effect {r : Restore}
    (h : c.restoreArchived host enabled digests conversation r = .ok c') :
    ∃ c₁ count, restoreAll host conversation digests r.batch c = .ok (c₁, count) ∧
      (∃ retention, c' = { c₁ with retention := some retention }) ∧
      (count = 0 → c₁ = c) ∧
      c'.generation enabled = c.generation enabled + if count = 0 then 0 else 1 := by
  obtain ⟨status, c₁, count, hstatus, hall, hactivity⟩ := restoreArchived_ok h
  have hnone : count = 0 → c₁ = c := fun hcount => restoreAll_none hcount hall
  obtain ⟨retention, hc', hgeneration⟩ := recordActivityRow_generation hactivity
  refine ⟨c₁, count, hall, ⟨retention, ?_⟩, hnone, ?_⟩
  · rw [hc']
    split <;> rfl
  · rw [hgeneration, generation_required hstatus]
    by_cases hcount : count = 0
    · rw [if_pos hcount, if_pos hcount, hnone hcount, generation_required hstatus, Nat.add_zero]
    · rw [if_neg hcount, if_neg hcount]
      unfold generation
      rw [if_pos (requiredStatus_ok hstatus).1, Option.getD_some]

/-! ## The indexes fit -/

/-- The indexes of a conversation are those of its messages, of which none is
behind the last sequence number. -/
structure Fit (c : Conversation) : Prop where
  indexed : Indexed c
  positive : ∀ r ∈ c.rows, 1 ≤ r.message.sequence
  bounded : ∀ r ∈ c.rows, r.message.sequence ≤ c.lastSequence

theorem fit_new : Fit .new :=
  ⟨indexed_new, by simp [Conversation.new], by simp [Conversation.new]⟩

theorem Fit.retain (h : Fit c) (retention : Option Retention) :
    Fit { c with retention := retention } := ⟨h.indexed.retain retention, h.positive, h.bounded⟩

/-- An appended message fits. -/
theorem Fit.append (h : Fit c) (hnodup : a.draft.recipients.Nodup)
    (hinside : Appended host enabled a c c' m) : Fit c' := by
  cases hinside with
  | again => exact h
  | fresh c₁ hkey hremoved hreply hinsert =>
      refine ⟨(h.indexed.insert hnodup hinsert).head _, fun r hr => ?_, fun r hr => ?_⟩
      all_goals
        obtain ⟨-, rfl⟩ := insertIndexed_ok hinsert
        rcases List.mem_append.1 hr with hr | hr
      · exact h.positive r hr
      · rw [List.mem_singleton.1 hr]
        exact Nat.le_add_left 1 _
      · exact (h.bounded r hr).trans (Nat.le_succ _)
      · rw [List.mem_singleton.1 hr]
        exact le_rfl

/-- A restored message fits. -/
theorem Fit.restoreAll (h : Fit c)
    (hall : restoreAll host conversation digests batch c = .ok (c', count)) : Fit c' := by
  refine restoreAll_keeps (fun c m c' restored _ hvalid hfirst hlast hone h => ?_) hall h
  cases hone with
  | present => exact h
  | back t c₁ hdigests ht hnone htomb hreply hinsert =>
      have hburied := h.indexed.bury (c.tombstones.filter fun t => t.sequence ≠ m.sequence)
      refine ⟨hburied.insert (nodup_recipients hvalid) hinsert, fun r hr => ?_, fun r hr => ?_⟩
      all_goals
        obtain ⟨-, rfl⟩ := insertIndexed_ok hinsert
        rcases List.mem_append.1 hr with hr | hr
      · exact h.positive r hr
      · rw [List.mem_singleton.1 hr]
        exact hfirst
      · exact h.bounded r hr
      · rw [List.mem_singleton.1 hr]
        exact hlast

end Conversation

open Conversation

variable {host : Host} {clean : String → Held → Restore → Prop} {id : String} {h h' k : Held}
variable {w w' : World} {retention : Bool}

/-- Every change keeps the indexes. -/
theorem fit_step (hchanged : Changed host (clean id) id h h') (hfit : Fit h.conversation) :
    Fit h'.conversation := by
  cases hchanged with
  | elsewhere => exact hfit
  | append a c m created hcall =>
      obtain ⟨c₁, hinside, hnodup, -, retention, rfl, -⟩ := append_effect hcall
      exact (hfit.append hnodup hinside).retain retention
  | activity clock guard c hcall =>
      obtain ⟨retention, rfl, -⟩ := recordActivityRow_generation (recordActivity_ok hcall)
      exact hfit.retain _
  | archive s c hcall =>
      obtain ⟨retention, rfl, -⟩ := archive_effect hcall
      exact hfit.retain _
  | purge p c answer hcall =>
      obtain ⟨batch, removed, -, hindexed, hrows, -, hlast, -⟩ := purge_effect hfit.indexed hcall
      have hkept : ∀ r ∈ c.rows, r ∈ h.conversation.rows := fun r hr =>
        (List.mem_filter.1 (hrows ▸ hr)).1
      exact ⟨hindexed, fun r hr => hfit.positive r (hkept r hr),
        fun r hr => hlast ▸ hfit.bounded r (hkept r hr)⟩
  | exported => exact hfit
  | restore r c hclean hcall =>
      obtain ⟨c₁, count, hall, ⟨retention, rfl⟩, -, -⟩ := restore_effect hcall
      exact (hfit.restoreAll hall).retain _

/-- Every order of calls is one of clean restores, where every restore is clean. -/
theorem anyCall (hrun : (history host).Run Machine.Any w w') :
    (history host).Run (CleanCall fun _ _ _ => True) w w' :=
  hrun.mono fun _ call _ => by cases call <;> simp [CleanCall]

/-- **The indexes of every conversation fit, whatever is called.** -/
theorem fit_of_run (hrun : (history host).Run Machine.Any (World.new retention) w)
    (hheld : w.held id = some h) : Fit h.conversation := by
  let Inv : String → Held → Prop := fun _ h => Fit h.conversation
  have hnew : ∀ id retention contentDigests,
      Inv id ⟨.new, retention, contentDigests, [], [], []⟩ := fun _ _ _ => fit_new
  exact held_invariant hnew (fun id h h' hchanged => fit_step hchanged) (anyCall hrun) id h hheld

/-- **Every retention row is one the history admits.** -/
theorem admitted_of_run (hrun : (history host).Run Machine.Any (World.new retention) w)
    (hheld : w.held id = some h) : Admitted h.conversation := by
  let Inv : String → Held → Prop := fun _ h => Admitted h.conversation
  have hnew : ∀ id retention contentDigests,
      Inv id ⟨.new, retention, contentDigests, [], [], []⟩ := fun _ _ _ => admitted_new
  refine held_invariant hnew (fun id h h' hchanged hinv => ?_) (anyCall hrun) id h hheld
  cases hchanged with
  | elsewhere => exact hinv
  | append a c m created hcall =>
      obtain ⟨-, -, c₁, hinside, hactivity⟩ := append_ok hcall
      split at hactivity
      · exact recordActivityRow_admitted hactivity
      · subst hactivity
        cases hinside with
        | again => exact hinv
        | fresh c₂ hkey hremoved hreply hinsert =>
            obtain ⟨-, rfl⟩ := insertIndexed_ok hinsert
            exact hinv
  | activity clock guard c hcall => exact recordActivityRow_admitted (recordActivity_ok hcall)
  | archive s c hcall => exact archive_admitted hcall hinv
  | purge p c answer hcall =>
      obtain ⟨status, batch, removed, c₁, hstatus, -, hremove, hc, -⟩ := purgeArchived_ok hcall
      obtain ⟨-, -, hadmitted⟩ := requiredStatus_ok hstatus
      have hkept : c₁.retention = h.conversation.retention := removeAll_retention hremove
      change Admitted c
      rw [hc]
      split
      · unfold Admitted
        rwa [hkept]
      · exact admitted_counters hadmitted rfl rfl rfl
  | exported => exact hinv
  | restore r c hclean hcall =>
      obtain ⟨status, c₁, count, -, -, hactivity⟩ := restoreArchived_ok hcall
      exact recordActivityRow_admitted hactivity

/-! ## A generation only grows -/

/-- The generation of what is held. -/
def Held.generation (h : Held) : ℕ := h.conversation.generation h.retention

/-- A conversation before and after: within one generation it has only grown,
behind its head. -/
structure Grows (h h' : Held) : Prop where
  generation : h.generation ≤ h'.generation
  head : h.conversation.lastSequence ≤ h'.conversation.lastSequence
  rows : h.generation = h'.generation → ∃ more, h'.conversation.rows = h.conversation.rows ++ more ∧
    ∀ r ∈ more, h.conversation.lastSequence < r.message.sequence

theorem Grows.refl (h : Held) : Grows h h := ⟨le_rfl, le_rfl, fun _ => ⟨[], by simp, by simp⟩⟩

theorem Grows.trans (h₁ : Grows h h') (h₂ : Grows h' k) : Grows h k := by
  refine ⟨h₁.generation.trans h₂.generation, h₁.head.trans h₂.head, fun heq => ?_⟩
  have hsame : h.generation = h'.generation :=
    le_antisymm h₁.generation (heq ▸ h₂.generation)
  obtain ⟨more₁, hrows₁, hbehind₁⟩ := h₁.rows hsame
  obtain ⟨more₂, hrows₂, hbehind₂⟩ := h₂.rows (hsame.symm.trans heq)
  refine ⟨more₁ ++ more₂, by rw [hrows₂, hrows₁, append_assoc], fun r hr => ?_⟩
  rcases List.mem_append.1 hr with hr | hr
  · exact hbehind₁ r hr
  · exact h₁.head.trans_lt (hbehind₂ r hr)

/-- A change of nothing but the retention row, or of a later generation. -/
theorem Grows.of_eq (hgeneration : h.generation ≤ h'.generation)
    (hhead : h'.conversation.lastSequence = h.conversation.lastSequence)
    (hrows : h.generation = h'.generation → h'.conversation.rows = h.conversation.rows) :
    Grows h h' :=
  ⟨hgeneration, hhead.ge, fun heq => ⟨[], by rw [hrows heq, append_nil], by simp⟩⟩

/-- Every change grows a conversation, or is one to a later generation. -/
theorem grows_step (hfit : Fit h.conversation) (hchanged : Changed host (clean id) id h h') :
    Grows h h' := by
  cases hchanged with
  | elsewhere retention contentDigests hretention hdigests =>
      refine Grows.of_eq ?_ rfl fun _ => rfl
      unfold Held.generation Conversation.generation
      cases hr : h.retention with
      | false => exact Nat.zero_le _
      | true => rw [hretention hr]
  | append a c m created hcall =>
      obtain ⟨c₁, hinside, -, -, retention, rfl, hgeneration⟩ := append_effect hcall
      cases hinside with
      | again r hkey hrepeats => exact Grows.of_eq hgeneration.ge rfl fun _ => rfl
      | fresh c₂ hkey hremoved hreply hinsert =>
          obtain ⟨-, rfl⟩ := insertIndexed_ok hinsert
          refine ⟨hgeneration.ge, Nat.le_succ _, fun _ => ⟨_, rfl, fun r hr => ?_⟩⟩
          rw [List.mem_singleton.1 hr]
          exact Nat.lt_succ_self _
  | activity clock guard c hcall =>
      obtain ⟨retention, rfl, hgeneration⟩ := recordActivityRow_generation (recordActivity_ok hcall)
      exact Grows.of_eq hgeneration.ge rfl fun _ => rfl
  | archive s c hcall =>
      obtain ⟨retention, rfl, hgeneration⟩ := archive_effect hcall
      exact Grows.of_eq hgeneration.ge rfl fun _ => rfl
  | purge p c answer hcall =>
      obtain ⟨batch, removed, -, -, hrows, -, hlast, hgeneration⟩ :=
        purge_effect hfit.indexed hcall
      refine Grows.of_eq (by unfold Held.generation; dsimp only; omega) hlast fun heq => ?_
      unfold Held.generation at heq
      dsimp only at heq ⊢
      have hempty : batch = [] := by
        by_contra hne
        rw [if_neg hne] at hgeneration
        omega
      rw [hrows, hempty]
      simp [without]
  | exported => exact Grows.of_eq le_rfl rfl fun _ => rfl
  | restore r c hclean hcall =>
      obtain ⟨c₁, count, hall, ⟨retention, hc⟩, hnone, hgeneration⟩ := restore_effect hcall
      have hhead : c.lastSequence = h.conversation.lastSequence := by
        have hkept := (restoreAll_frame hall).1
        rwa [hc]
      refine Grows.of_eq (by unfold Held.generation; dsimp only; omega) hhead fun heq => ?_
      unfold Held.generation at heq
      dsimp only at heq ⊢
      have hcount : count = 0 := by
        by_contra hne
        rw [if_neg hne] at hgeneration
        omega
      rw [hc, hnone hcount]

/-- **Between two states of a run a conversation has grown**, or is of a later
generation. -/
theorem grows_of_run (hfit : Fit h.conversation) (hheld : w.held id = some h)
    (hrun : (history host).Run Machine.Any w w') :
    ∃ h', w'.held id = some h' ∧ Grows h h' := by
  let R : Held → Held → Prop := fun h h' =>
    Fit h.conversation → Fit h'.conversation ∧ Grows h h'
  have htrans : ∀ {h k l}, R h k → R k l → R h l := by
    intro h k l h₁ h₂ hfit
    obtain ⟨hk, hgrows₁⟩ := h₁ hfit
    obtain ⟨hl, hgrows₂⟩ := h₂ hk
    exact ⟨hl, hgrows₁.trans hgrows₂⟩
  let free : String → Held → Restore → Prop := fun _ _ _ => True
  have hstep : ∀ id h h', Changed host (free id) id h h' → R h h' :=
    fun id h h' hchanged hfit => ⟨fit_step hchanged hfit, grows_step hfit hchanged⟩
  have hrefl : ∀ h, R h h := fun h hfit => ⟨hfit, Grows.refl h⟩
  obtain ⟨h', hheld', hR⟩ := held_relates hrefl htrans hstep (anyCall hrun) hheld
  exact ⟨h', hheld', (hR hfit).2⟩

end ArchHub.History

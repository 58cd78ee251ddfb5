import Mathlib
import ArchHub.Conversation.Page

/-!
# The counters are exact

Whatever is appended, purged and restored, the two index ranges a principal
reads sum up to the messages the audience rule lets it read: a public message is
in the one, any other it may read in the other, and none in both.

A page that is told its head and generation answers `unchanged` only where
nothing it could show has changed: between two states of one generation a
conversation has only grown, and whatever it grew by came behind every head that
was ever given.
-/

namespace ArchHub.History

open Lib List

namespace Conversation

variable {c : Conversation} {principal : String} {readAll : Bool} {category : Option String}
  {groups : Dict String ℕ}

/-! ## The counters of an audience -/

/-- The counters of a message in one range. -/
theorem countKeys_any (m : Message) (audience : Audience) (p : String → Bool) :
    ((countKeys m).any fun key => decide (key.1 = audience) && p key.2) =
      (decide ((audience, m.category) ∈ countKeys m) && p m.category) := by
  rw [Bool.eq_iff_iff, any_eq_true, Bool.and_eq_true, decide_eq_true_iff]
  constructor
  · rintro ⟨key, hkey, hmatch⟩
    obtain ⟨a, ha, rfl⟩ := List.mem_map.1 hkey
    obtain ⟨haudience, hp⟩ := Bool.and_eq_true_iff.1 hmatch
    have haudience : a = audience := of_decide_eq_true haudience
    subst haudience
    exact ⟨hkey, hp⟩
  · rintro ⟨hkey, hp⟩
    exact ⟨_, hkey, by simpa using hp⟩

theorem countKeys_one (m : Message) (audience : Audience) (p : String → Bool) :
    ((countKeys m).filter fun key => decide (key.1 = audience) && p key.2).length ≤ 1 := by
  have hsub : ((countKeys m).filter fun key => decide (key.1 = audience) && p key.2) ⊆
      [(audience, m.category)] := by
    intro key hkey
    obtain ⟨hkey, hmatch⟩ := List.mem_filter.1 hkey
    obtain ⟨a, -, rfl⟩ := List.mem_map.1 hkey
    have haudience : a = audience := of_decide_eq_true (Bool.and_eq_true_iff.1 hmatch).1
    rw [haudience]
    exact List.mem_singleton.2 rfl
  exact ((nodup_countKeys m).filter _).length_le_of_subset hsub

/-- **A range of the counters sums up to the messages counted in it.** -/
theorem Indexed.sum_range (h : Indexed c) (audience : Audience) (p : String → Bool) :
    ((c.counts.entries.filter fun e => decide (e.1.1 = audience) && p e.1.2).map Prod.snd).sum =
      c.rows.countP fun r => decide ((audience, r.message.category) ∈ countKeys r.message) &&
        p r.message.category := by
  rw [h.counts.sum_filter fun key => decide (key.1 = audience) && p key.2,
    Tally.countP_flatMap _ _ fun r _ => countKeys_one r.message audience p]
  exact countP_congr fun r _ => by rw [countKeys_any]

/-- The same for the rows of a range the reader selects. -/
theorem Indexed.sum_countRange (h : Indexed c) (audience : Audience) (category : Option String)
    (p : String → Bool) :
    (((c.countRange audience category).filter fun row => p row.1).map Prod.snd).sum =
      c.rows.countP fun r => decide ((audience, r.message.category) ∈ countKeys r.message) &&
        (inCategory category r.message.category && p r.message.category) := by
  rw [← h.sum_range audience fun name => inCategory category name && p name]
  unfold countRange
  rw [filter_map, map_map, filter_filter]
  have hsame : (fun e : (Audience × String) × ℕ => ((fun row : String × ℕ => p row.1) ∘
      fun e : (Audience × String) × ℕ => (e.1.2, e.2)) e &&
        (decide (e.1.1 = audience) && inCategory category e.1.2)) =
      fun e => decide (e.1.1 = audience) && (inCategory category e.1.2 && p e.1.2) := by
    funext e
    simp only [Function.comp_apply]
    cases p e.1.2 <;> simp
  rw [hsame]
  rfl

/-- Two kinds of row, of which a row is one at most. -/
theorem countP_add {α : Type*} {p q r : α → Bool} (xs : List α)
    (h : ∀ x ∈ xs, r x = (p x || q x) ∧ (p x && q x) = false) :
    xs.countP p + xs.countP q = xs.countP r := by
  induction xs with
  | nil => rfl
  | cons x xs ih =>
      have hrest := ih fun y hy => h y (mem_cons_of_mem x hy)
      obtain ⟨hor, hand⟩ := h x mem_cons_self
      rw [countP_cons, countP_cons, countP_cons, ← hrest, hor]
      cases hp : p x <;> cases hq : q x <;> simp_all <;> omega

/-- **The rows `_count_rows` selects sum up to the readable messages.** -/
theorem Indexed.sum_countRows (h : Indexed c) (principal : String) (readAll : Bool)
    (category : Option String) (p : String → Bool) :
    (((c.countRows principal readAll category).filter fun row => p row.1).map Prod.snd).sum =
      c.rows.countP fun r => readableIn principal readAll category r && p r.message.category := by
  unfold countRows
  cases readAll with
  | true =>
      rw [if_pos rfl, h.sum_countRange]
      refine countP_congr fun r _ => ?_
      simp [readableIn, readable, mem_countKeys]
  | false =>
      rw [if_neg Bool.false_ne_true, filter_append, map_append, sum_append,
        h.sum_countRange, h.sum_countRange]
      -- a public message is in the one range, another readable one in the other
      refine countP_add _ fun r _ => ?_
      have hauthor : principal = r.message.author ↔ r.message.author = principal := eq_comm
      rw [Bool.eq_iff_iff, Bool.eq_false_iff]
      simp only [readableIn, readable, Bool.and_eq_true, Bool.or_eq_true, decide_eq_true_eq,
        mem_countKeys, ne_eq, Bool.false_eq_true, false_or, true_and, hauthor]
      tauto

/-- Whether a counter row is there at all. -/
theorem Indexed.mem_countRows (h : Indexed c) {name : String}
    (hname : name ∈ (c.countRows principal readAll category).map Prod.fst) :
    0 < c.rows.countP fun r => readableIn principal readAll category r &&
      decide (r.message.category = name) := by
  rw [← h.sum_countRows principal readAll category fun other => decide (other = name)]
  obtain ⟨⟨name', n⟩, hrow, rfl⟩ := List.mem_map.1 hname
  have hpos : 0 < n := by
    have hrange : ∃ audience, (name', n) ∈ c.countRange audience category := by
      unfold countRows at hrow
      split at hrow
      · exact ⟨_, hrow⟩
      · rcases List.mem_append.1 hrow with hrow | hrow
        · exact ⟨_, hrow⟩
        · exact ⟨_, hrow⟩
    obtain ⟨audience, hrange⟩ := hrange
    obtain ⟨e, he, heq⟩ := List.mem_map.1 hrange
    have hentry : (e.1, e.2) ∈ c.counts.entries := (List.mem_filter.1 he).1
    have hget := Dict.mem_entries_iff.1 hentry
    rw [h.counts e.1] at hget
    split at hget
    · cases hget
    · next hne =>
        injection hget with hget
        have hn : e.2 = n := (Prod.mk.inj heq).2
        omega
  have hmem : n ∈ ((c.countRows principal readAll category).filter fun row =>
      decide (row.1 = name')).map Prod.snd :=
    List.mem_map.2 ⟨(name', n), List.mem_filter.2 ⟨hrow, decide_eq_true rfl⟩, rfl⟩
  exact lt_of_lt_of_le hpos (le_sum_of_mem hmem)

/-- The readable messages of a kind, counted among the rows. -/
theorem countP_messagesFor (c : Conversation) (principal : String) (readAll : Bool)
    (category : Option String) (p : String → Bool) :
    (c.messagesFor principal readAll category).countP (fun m => p m.category) =
      c.rows.countP fun r => readableIn principal readAll category r && p r.message.category := by
  unfold messagesFor
  rw [countP_map, countP_filter]
  exact countP_congr fun r _ => by simp [and_comm]

/-- **A category summary says how many messages of each category are readable**,
and names no category without one. -/
theorem Indexed.categories (h : Indexed c) (principal : String) (readAll : Bool)
    (category : Option String) (name : String) :
    (groupByCategory (c.countRows principal readAll category)).get? name =
      let n := (c.messagesFor principal readAll category).countP fun m => decide (m.category = name)
      if n = 0 then none else some n := by
  rw [countP_messagesFor c principal readAll category fun other => decide (other = name)]
  have hsum : ((groupByCategory (c.countRows principal readAll category)).get? name).getD 0 =
      c.rows.countP fun r => readableIn principal readAll category r &&
        decide (r.message.category = name) := by
    unfold groupByCategory
    rw [Tally.getD_groups, h.sum_countRows principal readAll category
      fun other => decide (other = name)]
  cases hget : (groupByCategory (c.countRows principal readAll category)).get? name with
  | none =>
      rw [hget, Option.getD_none] at hsum
      simp [← hsum]
  | some n =>
      have hkey : name ∈ (c.countRows principal readAll category).map Prod.fst :=
        (Tally.mem_keys_groups _ name).1 (Dict.mem_keys_of_get? hget)
      have hpos := h.mem_countRows hkey
      rw [hget, Option.getD_some] at hsum
      rw [← hsum] at hpos ⊢
      exact (if_neg (Nat.pos_iff_ne_zero.1 hpos)).symm

/-- The total of the counters. -/
theorem Indexed.total (h : Indexed c) (principal : String) (readAll : Bool)
    (category : Option String) :
    ((c.countRows principal readAll category).map Prod.snd).sum =
      (c.messagesFor principal readAll category).length := by
  have hsum := h.sum_countRows principal readAll category fun _ => true
  have hcount := c.countP_messagesFor principal readAll category fun _ => true
  simpa using hsum.trans hcount.symm

/-! ## Summaries and totals -/

/-- A summary of messages by category. -/
def Summarizes (groups : Dict String ℕ) (messages : List Message) : Prop :=
  ∀ name, groups.get? name =
    let n := messages.countP fun m => decide (m.category = name)
    if n = 0 then none else some n

/-- The summary of a query, where it is not too long. -/
theorem Indexed.categoriesAtSnapshot (h : Indexed c)
    (hgroups : c.categoriesAtSnapshot principal readAll category = .ok groups) :
    groups = groupByCategory (c.countRows principal readAll category) ∧
      Summarizes groups (c.messagesFor principal readAll category) := by
  unfold Conversation.categoriesAtSnapshot at hgroups
  obtain ⟨_, -, hgroups⟩ := Check.bind_ok_iff.mp hgroups
  have hgroups := ok_inj hgroups
  subst hgroups
  exact ⟨rfl, h.categories principal readAll category⟩

/-- `counts` counts the readable messages. -/
theorem Indexed.countsFor (h : Indexed c) {answer : Counts}
    (hanswer : c.countsFor principal readAll = .ok answer) :
    answer.total = (c.messagesFor principal readAll none).length ∧
      Summarizes answer.categories (c.messagesFor principal readAll none) := by
  unfold Conversation.countsFor at hanswer
  obtain ⟨_, -, hanswer⟩ := Check.bind_ok_iff.mp hanswer
  obtain ⟨groups, hgroups, hanswer⟩ := Check.bind_ok_iff.mp hanswer
  have hanswer := ok_inj hanswer
  subst hanswer
  obtain ⟨rfl, hsummary⟩ := h.categoriesAtSnapshot hgroups
  refine ⟨?_, hsummary⟩
  dsimp only
  unfold groupByCategory
  rw [Tally.sum_groups, h.total]

/-- A summary has a row for every category there is a readable message of. -/
theorem size_of_summarizes {messages : List Message} (h : Summarizes groups messages) :
    groups.size = (messages.map Message.category).dedup.length := by
  have hperm : groups.keys.Perm (messages.map Message.category).dedup := by
    rw [perm_ext_iff_of_nodup groups.nodup_keys (nodup_dedup _)]
    intro name
    rw [Dict.mem_keys, h name, mem_dedup, mem_map]
    have hpos : (messages.countP fun m => decide (m.category = name)) ≠ 0 ↔
        ∃ m ∈ messages, m.category = name := by
      rw [Nat.ne_zero_iff_zero_lt, countP_pos_iff]
      simp
    rw [← hpos]
    dsimp only
    split <;> simp_all
  rw [← Dict.length_keys]
  exact hperm.length_eq

/-- `counts` answers wherever there are no more categories than its budget. -/
theorem Indexed.exists_countsFor (h : Indexed c) (htext : text principal "principal" 512 = .ok ())
    (hcategories : ((c.messagesFor principal readAll none).map Message.category).dedup.length ≤ 1024)
    :
    ∃ answer, c.countsFor principal readAll = .ok answer := by
  have hsize : (groupByCategory (c.countRows principal readAll none)).size ≤ 1024 := by
    rw [size_of_summarizes (h.categories principal readAll none)]
    exact hcategories
  unfold Conversation.countsFor Conversation.categoriesAtSnapshot
  dsimp only
  rw [htext, decide_eq_true hsize]
  exact ⟨_, rfl⟩

/-- The total of a page, at the head and below it. -/
theorem Fit.totalAt (h : Fit c) (q : Query) (water : ℕ) :
    c.totalAt q water = (c.messagesFor q.principal q.readAll q.category).countP fun m =>
      decide (m.sequence ≤ water) := by
  unfold Conversation.totalAt
  split
  · next hwater =>
      rw [h.indexed.total]
      unfold messagesFor
      rw [countP_map, List.countP_eq_length.2, length_map]
      intro r hr
      simpa [hwater] using h.bounded r (List.mem_filter.1 hr).1
  · unfold visibleBelow messagesFor
    rw [h.indexed.filter_audible, countP_map, countP_filter, countP_eq_length_filter]
    rfl

/-! ## What a page answers -/

/-- The head and the generation an answer gives. -/
def Answer.gives : Answer → ℕ → ℕ → Prop
  | .unchanged head generation, head', generation' => head = head' ∧ generation = generation'
  | .page p, head', generation' => p.visibleHead = some head' ∧ p.contentGeneration = generation'

variable {enabled : Bool} {conversation : String} {q : Query} {answer : Answer}
  {head generation : ℕ}

theorem fitting_ok {a : Answer} {maxBytes : ℕ} (h : fitting conversation maxBytes a = .ok answer) :
    answer = a ∧ (a.json conversation).bytes ≤ maxBytes := by
  unfold fitting at h
  obtain ⟨_, hfits, h⟩ := Check.bind_ok_iff.mp h
  exact ⟨(ok_inj h).symm, of_decide_eq_true (Check.require_ok_iff.mp hfits)⟩

/-- What a page is, and when it says that nothing has changed. -/
theorem page_ok (h : c.page enabled conversation q = .ok answer) :
    let visible := c.visibleHead q.principal q.readAll q.headCategory
    let generation := c.generation enabled
    q.unchanged visible generation = true ∧ answer = .unchanged visible generation ∨
      q.unchanged visible generation = false ∧ ∃ messages older categories,
        q.highWater.getD c.lastSequence ≤ c.lastSequence ∧
        c.summary q = .ok categories ∧
        (q.includeCategories = true → q.highWater.getD c.lastSequence = c.lastSequence) ∧
        collect conversation q.limit q.maxBytes (c.pageRows q.principal q.readAll q.category
          (match q.before with
            | some before => min (q.highWater.getD c.lastSequence) (before - 1)
            | none => q.highWater.getD c.lastSequence) q.limit) [] 2 = .ok (messages, older) ∧
        answer = .page
          { messages := messages.reverse
            highWater := q.highWater.getD c.lastSequence
            nextBefore := if older then messages.getLast?.map Message.sequence else none
            total := c.totalAt q (q.highWater.getD c.lastSequence)
            hasOlder := older
            contentGeneration := generation
            categories := categories
            visibleHead := if q.includeVisibleHead then some visible else none } := by
  unfold Conversation.page at h
  obtain ⟨_, -, h⟩ := Check.bind_ok_iff.mp h
  obtain ⟨status, hstatus, h⟩ := Check.bind_ok_iff.mp h
  have hgeneration : status.contentGeneration = c.generation enabled := by
    unfold retentionStatus at hstatus
    obtain ⟨_, -, hstatus⟩ := Check.bind_ok_iff.mp hstatus
    have hstatus := ok_inj hstatus
    subst hstatus
    rfl
  rw [hgeneration] at h
  unfold pageAt at h
  dsimp only at h ⊢
  split at h
  · next hunchanged => exact .inl ⟨hunchanged, (fitting_ok h).1⟩
  · next hchanged =>
      obtain ⟨_, hwater, h⟩ := Check.bind_ok_iff.mp h
      obtain ⟨_, hsnapshot, h⟩ := Check.bind_ok_iff.mp h
      obtain ⟨⟨messages, older⟩, hcollect, h⟩ := Check.bind_ok_iff.mp h
      obtain ⟨categories, hcategories, h⟩ := Check.bind_ok_iff.mp h
      refine .inr ⟨by simpa using hchanged, messages, older, categories,
        of_decide_eq_true (Check.require_ok_iff.mp hwater), hcategories, fun hinclude => ?_,
        hcollect, (fitting_ok h).1⟩
      simpa [hinclude] using Check.require_ok_iff.mp hsnapshot

/-- The total and the summary of a page. -/
theorem Fit.page (h : Fit c) {p : Page} (hpage : c.page enabled conversation q = .ok (.page p)) :
    p.total = (c.messagesFor q.principal q.readAll q.category).countP (fun m =>
        decide (m.sequence ≤ p.highWater)) ∧
      (p.highWater = c.lastSequence →
        p.total = (c.messagesFor q.principal q.readAll q.category).length) ∧
      ∀ groups, p.categories = some groups →
        Summarizes groups (c.messagesFor q.principal q.readAll q.category) := by
  rcases page_ok hpage with ⟨-, hanswer⟩ | ⟨-, messages, older, categories, -, hsummary, -, -, hanswer⟩
  · cases hanswer
  · injection hanswer with hanswer
    subst hanswer
    refine ⟨h.totalAt q _, fun hhead => ?_, fun groups hgroups => ?_⟩
    · dsimp only at hhead ⊢
      unfold Conversation.totalAt
      rw [if_pos hhead, h.indexed.total]
    · dsimp only at hgroups
      subst hgroups
      unfold summary at hsummary
      split at hsummary
      · obtain ⟨groups', hgroups', hsummary⟩ := Check.bind_ok_iff.mp hsummary
        have hsummary := ok_inj hsummary
        injection hsummary with hsummary
        subst hsummary
        exact (h.indexed.categoriesAtSnapshot hgroups').2
      · cases hsummary

/-- The head an answer gives is the visible head, its generation the one of the
content. -/
theorem gives_of_page (h : c.page enabled conversation q = .ok answer)
    (hgives : answer.gives head generation) :
    head = c.visibleHead q.principal q.readAll q.headCategory ∧
      generation = c.generation enabled := by
  rcases page_ok h with ⟨-, rfl⟩ | ⟨-, messages, older, categories, -, -, -, -, rfl⟩
  · exact ⟨hgives.1.symm, hgives.2.symm⟩
  · obtain ⟨hhead, hgeneration⟩ := hgives
    dsimp only at hhead hgeneration
    split at hhead
    · injection hhead with hhead
      exact ⟨hhead.symm, hgeneration.symm⟩
    · cases hhead

/-- A query that is told nothing has changed has named the visible head, and
the generation of the content unless that is the first. -/
theorem named_of_unchanged (h : c.page enabled conversation q = .ok (.unchanged head generation)) :
    q.ifVisibleHead = some (c.visibleHead q.principal q.readAll q.headCategory) ∧
      (q.ifContentGeneration = some (c.generation enabled) ∨
        q.ifContentGeneration = none ∧ c.generation enabled = 0) := by
  rcases page_ok h with ⟨hunchanged, -⟩ | ⟨-, _, _, _, -, -, -, -, hanswer⟩
  · unfold Query.unchanged at hunchanged
    simp only [Bool.and_eq_true, decide_eq_true_eq] at hunchanged
    exact ⟨hunchanged.1.2, hunchanged.2⟩
  · cases hanswer

end Conversation

/-! ## Along a run -/

open Conversation

variable {host : Host} {retention : Bool} {w : World} {id : String} {h : Held}

/-- **Counters are exact, and `unchanged` is the truth.**  After any calls, what
`counts` and `page` count is what the audience rule lets the principal read; and
a later page that is told its head and generation, as an earlier answer of the
same audience gave them, answers `unchanged` only if that audience sees the same
messages. -/
theorem counts_exact (hrun : (history host).Run Machine.Any (World.new retention) w)
    (hheld : w.held id = some h) :
    (∀ principal readAll, text principal "principal" 512 = .ok () →
      ((h.conversation.messagesFor principal readAll none).map Message.category).dedup.length ≤ 1024 →
      ∃ answer, h.conversation.countsFor principal readAll = .ok answer) ∧
    (∀ principal readAll answer, h.conversation.countsFor principal readAll = .ok answer →
      answer.total = (h.conversation.messagesFor principal readAll none).length ∧
        Summarizes answer.categories (h.conversation.messagesFor principal readAll none)) ∧
    (∀ q p, h.conversation.page h.retention id q = .ok (.page p) →
      p.total = (h.conversation.messagesFor q.principal q.readAll q.category).countP (fun m =>
          decide (m.sequence ≤ p.highWater)) ∧
        (p.highWater = h.conversation.lastSequence →
          p.total = (h.conversation.messagesFor q.principal q.readAll q.category).length) ∧
        ∀ groups, p.categories = some groups →
          Summarizes groups (h.conversation.messagesFor q.principal q.readAll q.category)) ∧
    ∀ q answer head generation, h.conversation.page h.retention id q = .ok answer →
      answer.gives head generation →
      ∀ w' h', (history host).Run Machine.Any w w' → w'.held id = some h' →
      ∀ q' : Query, q'.principal = q.principal → q'.readAll = q.readAll →
        q'.headCategory = q.headCategory → q'.ifVisibleHead = some head →
        (q'.ifContentGeneration = some generation ∨ q'.ifContentGeneration = none) →
      ∀ head' generation',
        h'.conversation.page h'.retention id q' = .ok (.unchanged head' generation') →
        h'.conversation.messagesFor q.principal q.readAll q.headCategory =
          h.conversation.messagesFor q.principal q.readAll q.headCategory := by
  have hfit := fit_of_run hrun hheld
  refine ⟨fun principal readAll => hfit.indexed.exists_countsFor,
    fun principal readAll answer => hfit.indexed.countsFor, fun q p => hfit.page, ?_⟩
  intro q answer head generation hpage hgives w' h' hrun' hheld' q' hprincipal hreadAll hcategory
    hhead hnamed head' generation' hunchanged
  obtain ⟨h'', hheld'', hgrows⟩ := grows_of_run hfit hheld hrun'
  have hsame := hheld'.symm.trans hheld''
  injection hsame with hsame
  subst hsame
  have hfit' := fit_of_run (hrun.trans hrun') hheld'
  obtain ⟨rfl, rfl⟩ := gives_of_page hpage hgives
  obtain ⟨hvisible, hcontent⟩ := named_of_unchanged hunchanged
  rw [hprincipal, hreadAll, hcategory, hhead] at hvisible
  injection hvisible with hvisible
  have hgeneration : h.generation = h'.generation := by
    have hle : h.generation ≤ h'.generation := hgrows.generation
    unfold Held.generation at hle ⊢
    rcases hcontent with hcontent | ⟨-, hzero⟩
    · rcases hnamed with hnamed | hnamed
      · exact Option.some.inj (hnamed.symm.trans hcontent)
      · rw [hnamed] at hcontent
        cases hcontent
    · omega
  exact messagesFor_of_grows hfit hfit' hgrows hgeneration hvisible.symm

/-- A draft of a few words. -/
def words (author key content : String) (recipients : List String) : Append :=
  ⟨⟨none, author, content, "chat", recipients, [], [], none, none, key⟩, none, false, key, "now", 0,
    none⟩

/-- A public message, one to somebody, and one among others. -/
def threeWords : List Call :=
  [.ensure "room", .append "room" (words "ben" "k1" "hello" []),
    .append "room" (words "ben" "k2" "for you" ["anna"]),
    .append "room" (words "ben" "k3" "not for you" ["carl"])]

/-- A host no call above asks anything of. -/
def silentHost : Host := ⟨fun _ => "", fun _ => false⟩

theorem counts_exact_room : ∃ h,
    (threeWords.foldl (history silentHost).step (World.new false)).held "room" = some h ∧
      ∃ answer, h.conversation.countsFor "anna" false = .ok answer ∧ answer.total = 2 := by
  have hlengths : ((threeWords.foldl (history silentHost).step (World.new false)).held "room").map
      (fun h => ((h.conversation.messagesFor "anna" false none).length,
        ((h.conversation.messagesFor "anna" false none).map Message.category).dedup.length)) =
      some (2, 1) := by decide +kernel
  obtain ⟨h, hheld, hlength⟩ := Option.map_eq_some_iff.1 hlengths
  obtain ⟨htotal, hcategories⟩ := Prod.mk.inj hlength
  obtain ⟨hanswers, hcounts, -⟩ :=
    counts_exact (Machine.Run.ofActions (World.new false) threeWords) hheld
  obtain ⟨answer, hanswer⟩ := hanswers "anna" false (by decide) (by omega)
  exact ⟨h, hheld, answer, hanswer, (hcounts "anna" false answer hanswer).1.trans htotal⟩

end ArchHub.History

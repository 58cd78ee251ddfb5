import Mathlib
import ArchHub.Conversation.Paging

/-!
# Walking a conversation

A walk asks for one page after another, from a pinned high water down, each
before the oldest message of the page before it.  Other principals append
meanwhile: each page is read from another state of the history.

What a page is cut from is the rest of the messages that were visible at the
high water, whenever it is read.  So the walk is the cut of one list into
blocks, and it comes to the end of it unless a block does not fit with the
envelope of its page.
-/

namespace ArchHub.History

open Lib List Check

namespace Conversation

variable {host : Host} {conversation : String} {enabled : Bool} {c : Conversation} {m : Message}

/-! ## What is asked for -/

/-- The arguments of a walk. -/
structure Reading where
  principal : String
  readAll : Bool
  limit : ℕ
  maxBytes : ℕ
  category : Option String
  highWater : ℕ

namespace Reading

/-- One page of a walk. -/
def query (v : Reading) (before : Option ℕ) : Query :=
  ⟨v.principal, v.readAll, v.limit, before, some v.highWater, v.maxBytes, false, false, none,
    v.category, none, false⟩

/-- Where a page begins. -/
def ceiling (v : Reading) : Option ℕ → ℕ
  | some before => min v.highWater (before - 1)
  | none => v.highWater

/-- A page with its envelope: a block of messages, newest first, and whether
there are older ones. -/
def pageWith (v : Reading) (total generation : ℕ) (block : List Message) (older : Bool) : Page :=
  { messages := block.reverse
    highWater := v.highWater
    nextBefore := if older then block.getLast?.map Message.sequence else none
    total := total
    hasOlder := older
    contentGeneration := generation
    categories := none
    visibleHead := none }

/-- Whether a block fits with its envelope. -/
def FitsWith (v : Reading) (conversation : String) (total generation : ℕ) (block : List Message)
    (older : Bool) : Prop :=
  ((Answer.page (v.pageWith total generation block older)).json conversation).bytes ≤ v.maxBytes

instance (v : Reading) (conversation : String) (total generation : ℕ) (block : List Message)
    (older : Bool) : Decidable (v.FitsWith conversation total generation block older) :=
  inferInstanceAs (Decidable (_ ≤ _))

/-- The size of a page without messages. -/
def envelope (v : Reading) (conversation : String) (total generation : ℕ) (next : Option ℕ)
    (older : Bool) : ℕ :=
  ((Answer.page ⟨[], v.highWater, next, total, older, generation, none, none⟩).json
    conversation).bytes

variable {v : Reading}

/-- A block fits with its envelope if its list and the envelope do. -/
theorem fitsWith_iff {conversation : String} {total generation : ℕ} {block : List Message}
    {older : Bool} :
    v.FitsWith conversation total generation block older ↔
      listBytes conversation block.reverse + v.envelope conversation total generation
        (if older then block.getLast?.map Message.sequence else none) older ≤ v.maxBytes + 2 := by
  unfold FitsWith
  have hsize := Json.bytes_obj_first "messages"
    (.arr (block.reverse.map (Message.json conversation))) (.arr [])
    ([("high_water", .num v.highWater),
        ("next_before", numberOrNull (if older then block.getLast?.map Message.sequence else none)),
        ("total", .num total), ("has_older", .bool older),
        ("content_generation", .num generation)] ++ [] ++ [])
  rw [Json.bytes_arr_nil] at hsize
  change ((Answer.page (v.pageWith total generation block older)).json conversation).bytes + 2 =
    v.envelope conversation total generation
      (if older then block.getLast?.map Message.sequence else none) older +
      listBytes conversation block.reverse at hsize
  omega

/-- **The pages of a list all fit**: cut from the newest into the longest blocks
within the limit and the byte budget, every block fits with its envelope. -/
inductive PagesFit (v : Reading) (conversation : String) (total generation : ℕ) :
    List Message → Prop
  | last (L : List Message) (hall : fitLength conversation v.limit v.maxBytes L = L.length)
      (hfits : v.FitsWith conversation total generation L false) :
      PagesFit v conversation total generation L
  | more (L : List Message) (hsome : 0 < fitLength conversation v.limit v.maxBytes L)
      (holder : fitLength conversation v.limit v.maxBytes L < L.length)
      (hfits : v.FitsWith conversation total generation
        (L.take (fitLength conversation v.limit v.maxBytes L)) true)
      (hrest : PagesFit v conversation total generation
        (L.drop (fitLength conversation v.limit v.maxBytes L))) :
      PagesFit v conversation total generation L

/-- The arguments of the first page are those of every page. -/
theorem check_before (h : (v.query none).check = .ok ()) {before : ℕ} (hbefore : 1 ≤ before)
    (hwater : before ≤ v.highWater) : (v.query (some before)).check = .ok () := by
  unfold Query.check query at h ⊢
  simp only [seq_ok_iff, require_ok_iff, Option.all_some, decide_eq_true_eq] at h ⊢
  obtain ⟨h₁, h₂, h₃, h₄, h₅, h₆, h₇, h₈, h₉, h₁₀⟩ := h
  exact ⟨h₁, h₂, h₃, h₄, h₅, h₆, h₇, h₈, ⟨hbefore, by omega⟩, h₁₀⟩

theorem limit_of_check {before : Option ℕ} (h : (v.query before).check = .ok ()) : 1 ≤ v.limit := by
  unfold Query.check query at h
  obtain ⟨_, h, -⟩ := Check.bind_ok_iff.mp h
  exact (of_decide_eq_true (Check.require_ok_iff.mp h)).1

end Reading

/-! ## One page -/

/-- What is left below a ceiling, newest first. -/
def messagesBelow (c : Conversation) (v : Reading) (ceiling : ℕ) : List Message :=
  (c.rowsBelow v.principal v.readAll v.category ceiling).map Row.message

/-- **What is visible to a principal at a high water**, newest first. -/
def visibleAt (c : Conversation) (v : Reading) : List Message := c.messagesBelow v v.highWater

variable {v : Reading}

theorem pageAt_eq {before : Option ℕ} (generation : ℕ) (hwater : v.highWater ≤ c.lastSequence) :
    c.pageAt conversation (v.query before) generation =
      collect conversation v.limit v.maxBytes
        (c.pageRows v.principal v.readAll v.category (v.ceiling before) v.limit) [] 2 >>=
      fun collected => fitting conversation v.maxBytes (.page
        (v.pageWith (c.totalAt (v.query none) v.highWater) generation collected.1 collected.2)) := by
  have hwater' : decide (v.highWater ≤ c.lastSequence) = true := decide_eq_true hwater
  unfold pageAt
  cases before with
  | none =>
      dsimp only [Reading.query, Option.getD_some]
      rw [hwater']
      rfl
  | some before =>
      dsimp only [Reading.query, Option.getD_some]
      rw [hwater']
      rfl

/-- **A page is a block of what is left.** -/
theorem page_eq (hfit : Fit c) (hadmitted : Admitted c) {before : Option ℕ}
    (hvalid : (v.query before).check = .ok ()) (hwater : v.highWater ≤ c.lastSequence) :
    c.page enabled conversation (v.query before) =
      let L := c.messagesBelow v (v.ceiling before)
      let k := fitLength conversation v.limit v.maxBytes L
      if k = 0 ∧ L ≠ [] then .error "single message exceeds output byte budget"
      else fitting conversation v.maxBytes (.page (v.pageWith (c.totalAt (v.query none) v.highWater)
        (c.generation enabled) (L.take k) (decide (k < L.length)))) := by
  have hstatus : ∃ status, c.retentionStatus enabled = .ok status ∧
      status.contentGeneration = c.generation enabled := by
    unfold retentionStatus generation
    cases enabled with
    | false => exact ⟨.absent, rfl, rfl⟩
    | true =>
        have hrow : admitted (c.retention.getD .absent) = true := hadmitted
        dsimp only
        rw [if_pos rfl, hrow]
        exact ⟨_, rfl, rfl⟩
  obtain ⟨status, hstatus, hgeneration⟩ := hstatus
  unfold Conversation.page
  rw [hvalid, hstatus, ok_bind, ok_bind, hgeneration, pageAt_eq _ hwater,
    hfit.indexed.collect_pageRows (Reading.limit_of_check hvalid)]
  unfold messagesBelow
  dsimp only
  split
  · rfl
  · rfl

/-! ## What is left -/

/-- What is left falls in sequence numbers. -/
theorem Fit.pairwise_below (h : Fit c) (v : Reading) (ceiling : ℕ) :
    (c.messagesBelow v ceiling).Pairwise fun m n => n.sequence < m.sequence :=
  List.pairwise_map.2 (Newest.strict_newestFirst (h.indexed.nodup_selected _))

theorem mem_messagesBelow {ceiling : ℕ} :
    m ∈ c.messagesBelow v ceiling ↔
      m ∈ c.messagesFor v.principal v.readAll v.category ∧ m.sequence ≤ ceiling := by
  unfold messagesBelow messagesFor
  simp only [mem_map, mem_rowsBelow, mem_filter]
  constructor
  · rintro ⟨r, ⟨hr, hle, hreadable⟩, rfl⟩
    exact ⟨⟨r, ⟨hr, hreadable⟩, rfl⟩, hle⟩
  · rintro ⟨⟨r, ⟨hr, hreadable⟩, rfl⟩, hle⟩
    exact ⟨r, ⟨hr, hle, hreadable⟩, rfl⟩

/-- A lower ceiling leaves a part of what is left. -/
theorem Fit.filter_below (h : Fit c) (v : Reading) {low high : ℕ} (hle : low ≤ high) :
    c.messagesBelow v low = (c.messagesBelow v high).filter fun m => decide (m.sequence ≤ low) := by
  unfold messagesBelow rowsBelow
  rw [filter_map, ← Newest.newestFirst_filter (h.indexed.nodup_selected _), filter_filter]
  congr 2
  refine filter_congr fun r _ => ?_
  rw [Bool.eq_iff_iff]
  simp only [Function.comp_apply, Bool.and_eq_true, decide_eq_true_eq]
  constructor
  · rintro ⟨hlow, hreadable⟩
    exact ⟨hlow, hlow.trans hle, hreadable⟩
  · rintro ⟨hlow, -, hreadable⟩
    exact ⟨hlow, hreadable⟩

/-- **Before the oldest message of a block the rest of the list is left.** -/
theorem Fit.below_last (h : Fit c) {before : Option ℕ} {k : ℕ}
    (hm : ((c.messagesBelow v (v.ceiling before)).take k).getLast? = some m) :
    c.messagesBelow v (v.ceiling (some m.sequence)) =
      (c.messagesBelow v (v.ceiling before)).drop k := by
  have hsorted := h.pairwise_below v (v.ceiling before)
  have hmem := mem_of_mem_take (List.mem_of_getLast? hm)
  obtain ⟨hread, hceiling⟩ := mem_messagesBelow.1 hmem
  have hpositive : 1 ≤ m.sequence := by
    obtain ⟨r, hr, rfl⟩ := List.mem_map.1 hread
    exact h.positive r (List.mem_filter.1 hr).1
  have hwater : v.ceiling before ≤ v.highWater := by
    cases before with
    | none => exact le_rfl
    | some b => exact min_le_left _ _
  have hbelow : v.ceiling (some m.sequence) = m.sequence - 1 := by
    unfold Reading.ceiling
    exact min_eq_right (by omega)
  have hlower : m.sequence - 1 ≤ v.ceiling before := by omega
  rw [hbelow, h.filter_below v hlower]
  generalize c.messagesBelow v (v.ceiling before) = L at hm hsorted ⊢
  -- everything of the block is at least its last, everything behind it is below
  rw [← take_append_drop k L] at hsorted
  obtain ⟨hblock, -, hacross⟩ := List.pairwise_append.1 hsorted
  have hkept : (L.take k).filter (fun n => decide (n.sequence ≤ m.sequence - 1)) = [] := by
    refine List.filter_eq_nil_iff.2 fun n hn hle => ?_
    have hle : n.sequence ≤ m.sequence - 1 := of_decide_eq_true hle
    have hge : m.sequence ≤ n.sequence := by
      obtain ⟨block, hblock'⟩ := List.getLast?_eq_some_iff.1 hm
      rw [hblock'] at hn hblock
      rcases List.mem_append.1 hn with hn | hn
      · exact ((List.pairwise_append.1 hblock).2.2 n hn m (mem_singleton_self m)).le
      · rw [List.mem_singleton.1 hn]
    omega
  have hdropped : (L.drop k).filter (fun n => decide (n.sequence ≤ m.sequence - 1)) = L.drop k := by
    refine List.filter_eq_self.2 fun n hn => decide_eq_true ?_
    have hlt := hacross m (List.mem_of_getLast? hm) n hn
    omega
  calc L.filter (fun n => decide (n.sequence ≤ m.sequence - 1))
      = (L.take k ++ L.drop k).filter fun n => decide (n.sequence ≤ m.sequence - 1) := by
        rw [take_append_drop]
    _ = L.drop k := by rw [filter_append, hkept, hdropped, nil_append]

end Conversation

/-! ## A walk -/

open Conversation

variable {host : Host} {retention : Bool} {id : String} {h : Held} {a : Answer} {v : Reading}
  {m : Message}

/-- A walk through the pages of a conversation, each of them read from the next
of the states the history has come to meanwhile. -/
def walk (id : String) (v : Reading) (later : ℕ → Held) :
    ℕ → ℕ → Option ℕ → Except String (List (List Message))
  | 0, _, _ => .error "the walk goes on"
  | fuel + 1, n, before => do
      let answer ← (later n).conversation.page (later n).retention id (v.query before)
      match answer with
      | .unchanged _ _ => .error "no page"
      | .page p =>
          match p.nextBefore with
          | none => .ok [p.messages]
          | some next => do
              let pages ← walk id v later fuel (n + 1) (some next)
              .ok (p.messages :: pages)

/-- What the states of a walk have in common. -/
structure Steady (v : Reading) (total generation : ℕ) (L : List Message) (h : Held) : Prop where
  fit : Fit h.conversation
  admitted : Admitted h.conversation
  water : v.highWater ≤ h.conversation.lastSequence
  visible : h.conversation.visibleAt v = L
  total : h.conversation.totalAt (v.query none) v.highWater = total
  generation : h.generation = generation

/-- What is left below a ceiling is the same in all of them. -/
theorem Steady.below {total generation : ℕ} {L : List Message} {k : Held}
    (hh : Steady v total generation L h) (hk : Steady v total generation L k) (before : Option ℕ) :
    h.conversation.messagesBelow v (v.ceiling before) =
      k.conversation.messagesBelow v (v.ceiling before) := by
  have hceiling : v.ceiling before ≤ v.highWater := by
    cases before with
    | none => exact le_rfl
    | some b => exact min_le_left _ _
  rw [hh.fit.filter_below v hceiling, hk.fit.filter_below v hceiling]
  have hsame : h.conversation.visibleAt v = k.conversation.visibleAt v :=
    hh.visible.trans hk.visible.symm
  unfold visibleAt at hsame
  rw [hsame]

section Step

variable {v : Reading} {total generation : ℕ} {later : ℕ → Held} {visible L : List Message}
variable {fuel n : ℕ} {before : Option ℕ} {conversation : String}

/-- The page a walk reads next. -/
theorem page_of_steady (h : Steady v total generation visible (later n))
    (hL : (later n).conversation.messagesBelow v (v.ceiling before) = L)
    (hbefore : (v.query before).check = .ok ()) :
    (later n).conversation.page (later n).retention id (v.query before) =
      if fitLength id v.limit v.maxBytes L = 0 ∧ L ≠ [] then
        .error "single message exceeds output byte budget"
      else fitting id v.maxBytes (.page (v.pageWith total generation
        (L.take (fitLength id v.limit v.maxBytes L))
        (decide (fitLength id v.limit v.maxBytes L < L.length)))) := by
  have hgeneration : (later n).conversation.generation (later n).retention = generation :=
    h.generation
  rw [page_eq h.fit h.admitted hbefore h.water, h.total, hgeneration, hL]

/-- An answer that fits is the answer. -/
theorem fitting_eq {maxBytes : ℕ} (h : (a.json conversation).bytes ≤ maxBytes) :
    fitting conversation maxBytes a = .ok a := by
  unfold fitting
  rw [decide_eq_true h]
  rfl

theorem fitting_error {maxBytes : ℕ} (h : ¬ (a.json conversation).bytes ≤ maxBytes) :
    fitting conversation maxBytes a = .error "page envelope exceeds output byte budget" := by
  unfold fitting
  rw [decide_eq_false h]
  rfl

/-- Where the block is empty but there is something left, or where it does not
fit with its envelope, the walk fails. -/
theorem walk_error (h : Steady v total generation visible (later n))
    (hL : (later n).conversation.messagesBelow v (v.ceiling before) = L)
    (hbefore : (v.query before).check = .ok ())
    (hfails : (fitLength id v.limit v.maxBytes L = 0 ∧ L ≠ []) ∨
      ¬ v.FitsWith id total generation (L.take (fitLength id v.limit v.maxBytes L))
        (decide (fitLength id v.limit v.maxBytes L < L.length))) :
    ∃ e, walk id v later (fuel + 1) n before = .error e := by
  rw [walk, page_of_steady h hL hbefore]
  split
  · exact ⟨_, rfl⟩
  · next hnone =>
      rw [fitting_error (hfails.resolve_left hnone)]
      exact ⟨_, rfl⟩

/-- The last page of a walk. -/
theorem walk_last (h : Steady v total generation visible (later n))
    (hL : (later n).conversation.messagesBelow v (v.ceiling before) = L)
    (hbefore : (v.query before).check = .ok ())
    (hall : fitLength id v.limit v.maxBytes L = L.length)
    (hfits : v.FitsWith id total generation L false) :
    walk id v later (fuel + 1) n before = .ok [L.reverse] := by
  have hnone : ¬ (L.length = 0 ∧ L ≠ []) := fun h => h.2 (List.length_eq_zero_iff.1 h.1)
  rw [walk, page_of_steady h hL hbefore, hall, if_neg hnone, take_length,
    decide_eq_false (lt_irrefl _), fitting_eq hfits]
  rfl

/-- A page of a walk that is not the last. -/
theorem walk_more (h : Steady v total generation visible (later n))
    (hL : (later n).conversation.messagesBelow v (v.ceiling before) = L)
    (hbefore : (v.query before).check = .ok ()) (hsome : 0 < fitLength id v.limit v.maxBytes L)
    (holder : fitLength id v.limit v.maxBytes L < L.length)
    (hfits : v.FitsWith id total generation (L.take (fitLength id v.limit v.maxBytes L)) true)
    (hm : (L.take (fitLength id v.limit v.maxBytes L)).getLast? = some m) :
    walk id v later (fuel + 1) n before =
      (walk id v later fuel (n + 1) (some m.sequence) >>= fun pages =>
        .ok ((L.take (fitLength id v.limit v.maxBytes L)).reverse :: pages)) := by
  have hnone : ¬ (fitLength id v.limit v.maxBytes L = 0 ∧ L ≠ []) := fun h => by omega
  have hnext : (v.pageWith total generation (L.take (fitLength id v.limit v.maxBytes L))
      true).nextBefore = some m.sequence := by
    unfold Reading.pageWith
    rw [hm]
    rfl
  rw [walk, page_of_steady h hL hbefore, if_neg hnone, decide_eq_true holder, fitting_eq hfits,
    ok_bind]
  dsimp only
  rw [hnext]
  rfl

end Step

/-- **A walk returns everything that is left, in order, if and only if its pages
fit.** -/
theorem walk_iff {total generation : ℕ} {later : ℕ → Held} {visible : List Message}
    (hsteady : ∀ n, Steady v total generation visible (later n))
    (hvalid : (v.query none).check = .ok ()) (fuel n : ℕ) (before : Option ℕ) (L : List Message)
    (hL : (later n).conversation.messagesBelow v (v.ceiling before) = L)
    (hbefore : (v.query before).check = .ok ()) (hfuel : L.length < fuel) :
    (∃ pages, walk id v later fuel n before = .ok pages ∧ pages.flatMap List.reverse = L) ↔
      v.PagesFit id total generation L := by
  induction fuel generalizing n before L with
  | zero => exact absurd hfuel (Nat.not_lt_zero _)
  | succ fuel ih =>
      by_cases hfails : (fitLength id v.limit v.maxBytes L = 0 ∧ L ≠ []) ∨
          ¬ v.FitsWith id total generation (L.take (fitLength id v.limit v.maxBytes L))
            (decide (fitLength id v.limit v.maxBytes L < L.length))
      · obtain ⟨e, herror⟩ := @walk_error id v total generation later visible L fuel n before
          (hsteady n) hL hbefore hfails
        constructor
        · rintro ⟨pages, hpages, -⟩
          rw [herror] at hpages
          cases hpages
        · rintro (⟨_, hall, hfits⟩ | ⟨_, hsome, holder, hfits, -⟩)
          · rcases hfails with ⟨hzero, hne⟩ | hfails
            · exact absurd (List.length_eq_zero_iff.1 (hall.symm.trans hzero)) hne
            · rw [hall, take_length, decide_eq_false (lt_irrefl _)] at hfails
              exact absurd hfits hfails
          · rcases hfails with ⟨hzero, -⟩ | hfails
            · omega
            · rw [decide_eq_true holder] at hfails
              exact absurd hfits hfails
      · rw [not_or, not_not] at hfails
        obtain ⟨hnone, hfits⟩ := hfails
        have hlength : fitLength id v.limit v.maxBytes L ≤ L.length := fitLength_le_length
        rcases hlength.lt_or_eq with holder | hall
        · -- a block with older messages behind it
          rw [decide_eq_true holder] at hfits
          have hne : L ≠ [] := by
            rintro rfl
            exact absurd holder (Nat.not_lt_zero _)
          have hsome : 0 < fitLength id v.limit v.maxBytes L :=
            Nat.pos_of_ne_zero fun hzero => hnone ⟨hzero, hne⟩
          obtain ⟨m, hm⟩ : ∃ m, (L.take (fitLength id v.limit v.maxBytes L)).getLast? = some m := by
            rw [← Option.isSome_iff_exists, List.getLast?_isSome, ← length_pos_iff, length_take]
            omega
          have hrest : (later (n + 1)).conversation.messagesBelow v (v.ceiling (some m.sequence)) =
              L.drop (fitLength id v.limit v.maxBytes L) := by
            have hsame := (hsteady (n + 1)).below (hsteady n) before
            rw [hL] at hsame
            rw [← hsame] at hm
            rw [(hsteady (n + 1)).fit.below_last hm, hsame]
          have hmem : m ∈ (later n).conversation.messagesBelow v (v.ceiling before) :=
            hL ▸ mem_of_mem_take (List.mem_of_getLast? hm)
          have hnext : (v.query (some m.sequence)).check = .ok () := by
            obtain ⟨hread, hceiling⟩ := mem_messagesBelow.1 hmem
            obtain ⟨r, hr, rfl⟩ := List.mem_map.1 hread
            refine Reading.check_before hvalid
              ((hsteady n).fit.positive r (List.mem_filter.1 hr).1) (hceiling.trans ?_)
            cases before with
            | none => exact le_rfl
            | some b => exact min_le_left _ _
          have hih := ih (n + 1) (some m.sequence) _ hrest hnext (by rw [length_drop]; omega)
          rw [walk_more (hsteady n) hL hbefore hsome holder hfits hm]
          constructor
          · rintro ⟨pages, hpages, hflat⟩
            obtain ⟨older, hwalk, hpages⟩ := Check.bind_ok_iff.mp hpages
            have hpages := ok_inj hpages
            subst hpages
            rw [flatMap_cons, reverse_reverse] at hflat
            have hdrop : older.flatMap List.reverse = L.drop (fitLength id v.limit v.maxBytes L) :=
              append_cancel_left (hflat.trans (take_append_drop _ _).symm)
            exact .more L hsome holder hfits (hih.1 ⟨older, hwalk, hdrop⟩)
          · rintro (⟨_, hall, -⟩ | ⟨_, -, -, -, hrestfits⟩)
            · omega
            · obtain ⟨older, hwalk, hdrop⟩ := hih.2 hrestfits
              refine ⟨_, by rw [hwalk]; rfl, ?_⟩
              rw [flatMap_cons, reverse_reverse, hdrop, take_append_drop]
        · -- the last block
          rw [hall, take_length, decide_eq_false (lt_irrefl _)] at hfits
          rw [walk_last (hsteady n) hL hbefore hall hfits]
          refine ⟨fun _ => .last L hall hfits, fun _ => ⟨_, rfl, ?_⟩⟩
          rw [flatMap_cons, reverse_reverse, flatMap_nil, append_nil]

/-! ## Appends meanwhile -/

/-- Whatever is appended. -/
def Appending (_ : World) : Call → Prop
  | .append _ _ => True
  | _ => False

variable {w w' : World}

/-- An append leaves the generation of every conversation. -/
theorem generation_append {other : String} {h : Held} (hheld : w.held other = some h) (id : String)
    (a : Append) : ∃ h', (w.step host (.append id a)).held other = some h' ∧
      h'.generation = h.generation := by
  dsimp only [World.step]
  split
  · next c m created hcall =>
      obtain ⟨c₀, hknown, hcall⟩ := Check.bind_ok_iff.mp hcall
      obtain ⟨c₁, hinside, -, -, retention, rfl, hgeneration⟩ := append_effect hcall
      rw [← note_nil w.exported id]
      have hput := held_put (w := w) id { c₁ with retention := retention } w.store.retention
        w.store.contentDigests (if created then [m] else []) []
        (if created && w.store.retention then [a.clock] else []) other
      by_cases hid : other = id
      · subst hid
        rw [if_pos rfl] at hput
        refine ⟨_, hput, ?_⟩
        have hsame := hheld.symm.trans (held_of_known hknown)
        injection hsame with hsame
        subst hsame
        refine hgeneration.trans ?_
        cases hinside with
        | again => rfl
        | fresh c₂ hkey hremoved hreply hinsert =>
            obtain ⟨-, rfl⟩ := insertIndexed_ok hinsert
            rfl
      · rw [if_neg hid, hheld, Option.map_some] at hput
        obtain ⟨-, hretention, -⟩ := held_eq_some hheld
        refine ⟨_, hput, ?_⟩
        unfold Held.generation
        rw [hretention]
  · exact ⟨h, hheld, rfl⟩

theorem generation_appending {other : String} (hheld : w.held other = some h)
    (hrun : (history host).Run Appending w w') :
    ∃ h', w'.held other = some h' ∧ h'.generation = h.generation := by
  induction hrun with
  | refl => exact ⟨h, hheld, rfl⟩
  | tail _ hlast ih =>
      obtain ⟨call, happend, rfl⟩ := hlast
      obtain ⟨k, hk, hgeneration⟩ := ih
      cases call with
      | append id a =>
          obtain ⟨h', hheld', hsame⟩ := @generation_append host _ other k hk id a
          exact ⟨h', hheld', hsame.trans hgeneration⟩
      | ensure | activate | activity | archive | purge | restore => cases happend

/-- **Appends do not reach below a high water that was given.** -/
theorem steady_appending {v : Reading} {h h' : Held}
    (hrun : (history host).Run Machine.Any (World.new retention) w) (hheld : w.held id = some h)
    (hwater : v.highWater ≤ h.conversation.lastSequence)
    (happends : (history host).Run Appending w w') (hheld' : w'.held id = some h') :
    Steady v (h.conversation.visibleAt v).length h.generation (h.conversation.visibleAt v) h' := by
  have hfit := fit_of_run hrun hheld
  have hany : (history host).Run Machine.Any w w' := happends.mono fun _ _ _ => trivial
  have hfit' := fit_of_run (hrun.trans hany) hheld'
  obtain ⟨k, hk, hgrows⟩ := grows_of_run hfit hheld hany
  obtain ⟨k', hk', hgeneration⟩ := generation_appending hheld happends
  have hsame := hheld'.symm.trans hk
  injection hsame with hsame
  subst hsame
  have hsame := hheld'.symm.trans hk'
  injection hsame with hsame
  subst hsame
  obtain ⟨more, hrows, hbehind⟩ := hgrows.rows hgeneration.symm
  have hvisible : h'.conversation.visibleAt v = h.conversation.visibleAt v := by
    have hnone : more.filter (fun r => decide (r.message.sequence ≤ v.highWater) &&
        readableIn v.principal v.readAll v.category r) = [] := by
      refine List.filter_eq_nil_iff.2 fun r hr hmatch => ?_
      have hle : r.message.sequence ≤ v.highWater :=
        of_decide_eq_true (Bool.and_eq_true_iff.1 hmatch).1
      have hlt := hbehind r hr
      omega
    unfold visibleAt messagesBelow rowsBelow
    rw [hrows, filter_append, hnone, append_nil]
  refine ⟨hfit', admitted_of_run (hrun.trans hany) hheld', hwater.trans hgrows.head, hvisible, ?_,
    hgeneration⟩
  rw [hfit'.totalAt, ← hvisible]
  unfold visibleAt messagesBelow rowsBelow messagesFor
  rw [countP_map, countP_filter, length_map,
    (Newest.perm_newestFirst _ _).length_eq, countP_eq_length_filter]
  rfl

/-- **What a walk returns.**  Whatever is appended between its pages, a walk from
a pinned high water returns exactly the messages visible at that high water,
each once, newest page first and oldest first within a page, if and only if the
pages fit.  Whenever a page is read, its scans find what a filter of the
conversation finds. -/
theorem walk_reaches_iff {worlds : ℕ → World} {later : ℕ → Held} {v : Reading}
    (hrun : (history host).Run Machine.Any (World.new retention) (worlds 0))
    (happends : ∀ n, (history host).Run Appending (worlds n) (worlds (n + 1)))
    (hheld : ∀ n, (worlds n).held id = some (later n))
    (hvalid : (v.query none).check = .ok ())
    (hwater : v.highWater ≤ (later 0).conversation.lastSequence) :
    (∀ n principal readAll category ceiling limit,
      (later n).conversation.pageRows principal readAll category ceiling limit =
        Newest.newest (fun r => r.message.sequence) (limit + 1)
          ((later n).conversation.rows.filter fun r => decide (r.message.sequence ≤ ceiling) &&
            readableIn principal readAll category r)) ∧
    ((later 0).conversation.visibleAt v).Pairwise (fun m n => n.sequence < m.sequence) ∧
    (∀ m, m ∈ (later 0).conversation.visibleAt v ↔
      m ∈ (later 0).conversation.messagesFor v.principal v.readAll v.category ∧
        m.sequence ≤ v.highWater) ∧
    ∀ fuel, ((later 0).conversation.visibleAt v).length < fuel →
      ((∃ pages, walk id v later fuel 0 none = .ok pages ∧
          pages.flatMap List.reverse = (later 0).conversation.visibleAt v) ↔
        v.PagesFit id ((later 0).conversation.visibleAt v).length (later 0).generation
          ((later 0).conversation.visibleAt v)) := by
  have hmeanwhile : ∀ n, (history host).Run Appending (worlds 0) (worlds n) := by
    intro n
    induction n with
    | zero => exact Machine.Run.refl _
    | succ n ih => exact ih.trans (happends n)
  have hsteady := fun n => steady_appending hrun (hheld 0) hwater (hmeanwhile n) (hheld n)
  refine ⟨fun n principal readAll category ceiling limit =>
      (hsteady n).fit.indexed.pageRows_eq principal readAll category ceiling limit,
    (hsteady 0).fit.pairwise_below v v.highWater, fun m => mem_messagesBelow, fun fuel hfuel => ?_⟩
  exact walk_iff hsteady hvalid fuel 0 none _ rfl hvalid hfuel

/-- Two public messages. -/
def twoWords : List Call :=
  [.ensure "room", .append "room" (words "ben" "k1" "hello" []),
    .append "room" (words "ben" "k2" "again" [])]

/-- The first of them. -/
def hello : Message := ⟨"k1", 1, "ben", "hello", "chat", [], [], [], none, "now", "k1"⟩

/-- The second one. -/
def again : Message := ⟨"k2", 2, "ben", "again", "chat", [], [], [], none, "now", "k2"⟩

/-- A walk through both of them under a byte budget. -/
def readRoom (maxBytes : ℕ) : Reading := ⟨"anna", false, 10, maxBytes, none, 2⟩

/-- The history with both of them, and with a third one from the second page on. -/
def roomAt : ℕ → World
  | 0 => twoWords.foldl (history silentHost).step (World.new false)
  | _ + 1 => (history silentHost).step (twoWords.foldl (history silentHost).step (World.new false))
      (.append "room" (words "carl" "k3" "meanwhile" []))

/-- What is visible of them. -/
theorem room_visible (maxBytes : ℕ) : ∃ h, (roomAt 0).held "room" = some h ∧
    h.conversation.lastSequence = 2 ∧ h.generation = 0 ∧
    h.conversation.visibleAt (readRoom maxBytes) = [again, hello] := by
  have hread : ((roomAt 0).held "room").map (fun h => (h.conversation.lastSequence, h.generation,
      h.conversation.visibleAt (readRoom 0))) = some (2, 0, [again, hello]) := by decide +kernel
  obtain ⟨h, hh, hread⟩ := Option.map_eq_some_iff.1 hread
  obtain ⟨hlast, hread⟩ := Prod.mk.inj hread
  obtain ⟨hgeneration, hvisible⟩ := Prod.mk.inj hread
  exact ⟨h, hh, hlast, hgeneration, hvisible⟩

theorem bytes_hello : hello.bytes "room" = 198 := by decide +kernel

theorem bytes_again : again.bytes "room" = 198 := by decide +kernel

theorem envelope_room (maxBytes : ℕ) :
    (readRoom maxBytes).envelope "room" 2 0 none false = 100 ∧
      (readRoom maxBytes).envelope "room" 2 0 (some 2) true = 96 ∧
      (readRoom maxBytes).envelope "room" 2 0 (some 1) true = 96 := by
  have hsizes : (readRoom 0).envelope "room" 2 0 none false = 100 ∧
      (readRoom 0).envelope "room" 2 0 (some 2) true = 96 ∧
      (readRoom 0).envelope "room" 2 0 (some 1) true = 96 := by decide +kernel
  exact hsizes

/-- The size of the list of one of the messages, or both. -/
theorem listBytes_room : listBytes "room" [again] = 200 ∧ listBytes "room" [hello] = 200 ∧
    listBytes "room" [again, hello] = 399 ∧ listBytes "room" [hello, again] = 399 := by
  have hone : ∀ m, listBytes "room" [m] = 2 + m.bytes "room" := fun m => listBytes_concat [] m
  have hboth : ∀ m n, listBytes "room" [m, n] = 2 + m.bytes "room" + (n.bytes "room" + 1) := by
    intro m n
    rw [← hone]
    exact listBytes_concat [m] n
  refine ⟨?_, ?_, ?_, ?_⟩
  · rw [hone, bytes_again]
  · rw [hone, bytes_hello]
  · rw [hboth, bytes_again, bytes_hello]
  · rw [hboth, bytes_again, bytes_hello]

/-- A page of one of the messages fits into 300 bytes. -/
theorem fits_room {maxBytes : ℕ} (hbytes : 300 ≤ maxBytes) (hm : m = again ∨ m = hello)
    (older : Bool) : (readRoom maxBytes).FitsWith "room" 2 0 [m] older := by
  obtain ⟨hlast, htwo, hone⟩ := envelope_room maxBytes
  obtain ⟨hagain, hhello, -⟩ := listBytes_room
  have hlist : listBytes "room" [m] = 200 := by
    rcases hm with rfl | rfl
    · exact hagain
    · exact hhello
  rw [Reading.fitsWith_iff, reverse_singleton, hlist]
  have hroom : (readRoom maxBytes).maxBytes = maxBytes := rfl
  cases older with
  | false =>
      rw [if_neg Bool.false_ne_true, hlast]
      omega
  | true =>
      rw [if_pos rfl, List.getLast?_singleton, Option.map_some]
      rcases hm with rfl | rfl
      · rw [show again.sequence = 2 from rfl, htwo]
        omega
      · rw [show hello.sequence = 1 from rfl, hone]
        omega

theorem walk_reaches_room : ∃ later : ℕ → Held, (∀ n, (roomAt n).held "room" = some (later n)) ∧
    ∃ pages, walk "room" (readRoom 330) later 3 0 none = .ok pages ∧
      pages.flatMap List.reverse = (later 0).conversation.visibleAt (readRoom 330) := by
  obtain ⟨h, hh, hlast, hgeneration, hvisible⟩ := room_visible 330
  obtain ⟨k, hk⟩ := Option.isSome_iff_exists.1
    (show ((roomAt 1).held "room").isSome = true by decide +kernel)
  let later : ℕ → Held := fun n => match n with
    | 0 => h
    | _ + 1 => k
  have hheld : ∀ n, (roomAt n).held "room" = some (later n) := by
    intro n
    cases n with
    | zero => exact hh
    | succ n => exact hk
  have happends : ∀ n, (history silentHost).Run Appending (roomAt n) (roomAt (n + 1)) := by
    intro n
    cases n with
    | zero => exact Machine.Run.step (Call.append "room" (words "carl" "k3" "meanwhile" [])) trivial
    | succ n => exact Machine.Run.refl _
  obtain ⟨-, -, -, hwalk⟩ := walk_reaches_iff
    (Machine.Run.ofActions (World.new false) twoWords) happends hheld
    (show ((readRoom 330).query none).check = .ok () by decide +kernel)
    (show 2 ≤ h.conversation.lastSequence by omega)
  refine ⟨later, hheld, (hwalk 3 ?_).2 ?_⟩
  · change (h.conversation.visibleAt (readRoom 330)).length < 3
    rw [hvisible]
    decide
  · change (readRoom 330).PagesFit "room" (h.conversation.visibleAt (readRoom 330)).length
      h.generation (h.conversation.visibleAt (readRoom 330))
    rw [hvisible, hgeneration]
    obtain ⟨hagain, hhello, hboth, -⟩ := listBytes_room
    -- one message a page: the list of both of them is too long
    have hfirst : fitLength "room" 10 330 [again, hello] = 1 :=
      fitLength_eq (by omega) (by decide) (.inr (by change listBytes "room" [again] ≤ 330; omega))
        (.inr (.inr (by change 330 < listBytes "room" [again, hello]; omega)))
    have hsecond : fitLength "room" 10 330 [hello] = 1 :=
      fitLength_eq (by omega) (by decide) (.inr (by change listBytes "room" [hello] ≤ 330; omega))
        (.inr (.inl rfl))
    refine .more _ (by change 0 < fitLength "room" 10 330 _; omega)
      (by change fitLength "room" 10 330 _ < 2; omega) ?_ ?_
    · change (readRoom 330).FitsWith "room" 2 0 ([again, hello].take
        (fitLength "room" 10 330 [again, hello])) true
      rw [hfirst]
      exact fits_room (by omega) (.inl rfl) true
    · change (readRoom 330).PagesFit "room" 2 0 ([again, hello].drop
        (fitLength "room" 10 330 [again, hello]))
      rw [hfirst]
      exact .last _ hsecond (fits_room (by omega) (.inr rfl) false)

/-- **A page that fits as a list and not with its envelope is refused**: each of
two messages fits with the envelope on its own, and the walk fails at its first
page. -/
theorem walk_refused : ∃ h, (roomAt 0).held "room" = some h ∧
    ((readRoom 400).query none).check = .ok () ∧
    (readRoom 400).highWater ≤ h.conversation.lastSequence ∧
    (∀ m ∈ h.conversation.visibleAt (readRoom 400), ∀ older,
      (readRoom 400).FitsWith "room" (h.conversation.visibleAt (readRoom 400)).length h.generation
        [m] older) ∧
    ∀ fuel, walk "room" (readRoom 400) (fun _ => h) (fuel + 1) 0 none =
      .error "page envelope exceeds output byte budget" := by
  obtain ⟨h, hh, hlast, hgeneration, hvisible⟩ := room_visible 400
  have hcheck : ((readRoom 400).query none).check = .ok () := by decide +kernel
  have hwater : (readRoom 400).highWater ≤ h.conversation.lastSequence := hlast.ge
  refine ⟨h, hh, hcheck, hwater, fun m hm older => ?_, fun fuel => ?_⟩
  · rw [hvisible, hgeneration]
    rw [hvisible] at hm
    exact fits_room (by omega) (by simpa using hm) older
  · have hsteady := @steady_appending silentHost false "room" (roomAt 0) (roomAt 0) (readRoom 400) h h
      (Machine.Run.ofActions (World.new false) twoWords) hh hwater (Machine.Run.refl _) hh
    rw [hvisible, hgeneration] at hsteady
    have hpage := @page_of_steady "room" (readRoom 400) _ _ (fun _ => h) _ [again, hello] 0 none
      hsteady hvisible hcheck
    obtain ⟨-, -, hboth, hpage'⟩ := listBytes_room
    obtain ⟨henvelope, -⟩ := envelope_room 400
    have hall : fitLength "room" (readRoom 400).limit (readRoom 400).maxBytes [again, hello] = 2 :=
      fitLength_eq (by decide) (by decide)
        (.inr (by change listBytes "room" [again, hello] ≤ 400; omega)) (.inr (.inl rfl))
    have hover : ¬ (readRoom 400).FitsWith "room" 2 0 [again, hello] false := by
      rw [Reading.fitsWith_iff, if_neg Bool.false_ne_true, henvelope]
      change ¬ listBytes "room" [hello, again] + 100 ≤ 400 + 2
      omega
    rw [hall, if_neg (by decide)] at hpage
    have herror : h.conversation.page h.retention "room" ((readRoom 400).query none) =
        .error "page envelope exceeds output byte budget" := hpage.trans (fitting_error hover)
    rw [walk, herror]
    rfl

end ArchHub.History

import Mathlib
import ArchHub.Conversation.Indexes
import ArchHub.Conversation.Runs

/-!
# Reading a conversation

`counts` and `page`, as queries over the tables of one conversation: the
counters by two index ranges, the newest visible sequence by three seeks, and a
page by three bounded scans whose sequences are joined before any body is read.

The messages the audience rule lets a principal read, and the three index
ranges through which a page and the visible head come to them: a message is in
one of the ranges if and only if the rule lets it be read, however many of them
it is in.
-/

namespace ArchHub.History

open Lib

namespace Conversation

/-! ## Counters -/

/-- `AND category=?`, where a category is asked for. -/
def inCategory (category : Option String) (name : String) : Bool :=
  category.all fun wanted => decide (name = wanted)

/-- The rows of one index range of `category_counts`. -/
def countRange (c : Conversation) (audience : Audience) (category : Option String) :
    List (String × ℕ) :=
  (c.counts.entries.filter fun e =>
    decide (e.1.1 = audience) && inCategory category e.1.2).map fun e => (e.1.2, e.2)

/-- `_count_rows`. -/
def countRows (c : Conversation) (principal : String) (readAll : Bool)
    (category : Option String) : List (String × ℕ) :=
  if readAll then c.countRange .all category
  else c.countRange .everyone category ++ c.countRange (.principal principal) category

/-- `GROUP BY category`. -/
def groupByCategory (rows : List (String × ℕ)) : Dict String ℕ := Tally.groups rows

/-- `_categories_at_snapshot`. -/
def categoriesAtSnapshot (c : Conversation) (principal : String) (readAll : Bool)
    (category : Option String) : Except String (Dict String ℕ) := do
  let groups := groupByCategory (c.countRows principal readAll category)
  Check.require (decide (groups.size ≤ 1024)) "category count output exceeds budget"
  .ok groups

/-- What `counts` answers. -/
structure Counts where
  total : ℕ
  categories : Dict String ℕ

/-- `counts`. -/
def countsFor (c : Conversation) (principal : String) (readAll : Bool) : Except String Counts := do
  text principal "principal" 512
  let categories ← c.categoriesAtSnapshot principal readAll none
  .ok ⟨categories.values.sum, categories⟩

/-! ## The newest visible message -/

/-- The sequences of the rows of a kind in a category. -/
def sequencesOf (c : Conversation) (category : Option String) (kind : Row → Bool) : List ℕ :=
  (c.rows.filter fun r => kind r && inCategory category r.message.category).map
    fun r => r.message.sequence

/-- The sequences of the recipient rows of a principal in a category. -/
def recipientSequences (c : Conversation) (principal : String) (category : Option String) :
    List ℕ :=
  (c.recipients.filter fun e =>
    decide (e.principal = principal) && inCategory category e.category).map Recipient.sequence

/-- The three index ranges of an audience: public, written by, addressed to. -/
def branches (c : Conversation) (principal : String) (category : Option String) :
    List (List ℕ) :=
  [c.sequencesOf category fun r => r.isPublic,
    c.sequencesOf category fun r => decide (r.message.author = principal),
    c.recipientSequences principal category]

/-- `ORDER BY sequence DESC LIMIT 1`, and nothing where there is none. -/
def newestOf (sequences : List ℕ) : ℕ := (Newest.newest id 1 sequences).headD 0

/-- `_visible_head`. -/
def visibleHead (c : Conversation) (principal : String) (readAll : Bool)
    (category : Option String) : ℕ :=
  if readAll then
    if category.isNone then c.lastSequence else newestOf (c.sequencesOf category fun _ => true)
  else (c.branches principal category).foldl (fun visible range => max visible (newestOf range)) 0

/-! ## Pages -/

/-- Everything `page` is called with. -/
structure Query where
  principal : String
  readAll : Bool
  limit : ℕ
  before : Option ℕ
  highWater : Option ℕ
  maxBytes : ℕ
  includeCategories : Bool
  includeVisibleHead : Bool
  ifVisibleHead : Option ℕ
  category : Option String
  ifContentGeneration : Option ℕ
  headAnyCategory : Bool

/-- The category whose newest message a query names. -/
def Query.headCategory (q : Query) : Option String := if q.headAnyCategory then none else q.category

/-- A page. -/
structure Page where
  /-- Oldest first. -/
  messages : List Message
  highWater : ℕ
  nextBefore : Option ℕ
  total : ℕ
  hasOlder : Bool
  contentGeneration : ℕ
  categories : Option (Dict String ℕ)
  visibleHead : Option ℕ

/-- What `page` answers. -/
inductive Answer
  | unchanged (visibleHead contentGeneration : ℕ)
  | page (p : Page)

/-- A number, or null. -/
def numberOrNull : Option ℕ → Json
  | none => .null
  | some n => .num n

/-- The answer as it is sent. -/
def Answer.json (conversation : String) : Answer → Json
  | .unchanged visibleHead contentGeneration =>
      .obj [("unchanged", .bool true), ("visible_head", .num visibleHead),
        ("content_generation", .num contentGeneration)]
  | .page p =>
      .obj ([("messages", .arr (p.messages.map (Message.json conversation))),
        ("high_water", .num p.highWater), ("next_before", numberOrNull p.nextBefore),
        ("total", .num p.total), ("has_older", .bool p.hasOlder),
        ("content_generation", .num p.contentGeneration)] ++
        p.categories.toList.map (fun groups =>
          ("categories", .obj (groups.entries.map fun e => (e.1, .num e.2)))) ++
        p.visibleHead.toList.map fun head => ("visible_head", .num head))

/-- An answer within the byte budget. -/
def fitting (conversation : String) (maxBytes : ℕ) (a : Answer) : Except String Answer := do
  Check.require (decide ((a.json conversation).bytes ≤ maxBytes))
    "page envelope exceeds output byte budget"
  .ok a

/-- `_collect`: the messages of a cursor within the limit and the byte budget,
and whether there are more. -/
def collect (conversation : String) (limit maxBytes : ℕ) :
    List Row → List Message → ℕ → Except String (List Message × Bool)
  | [], result, _ => .ok (result, false)
  | r :: rows, result, size =>
      if result.length = limit then .ok (result, true)
      else
        let cost := r.message.bytes conversation + if result = [] then 0 else 1
        if maxBytes < size + cost then
          if result = [] then .error "single message exceeds output byte budget"
          else .ok (result, true)
        else collect conversation limit maxBytes rows (result ++ [r.message]) (size + cost)

/-- The rows of `newest` joined with the messages. -/
def joined (c : Conversation) (sequences : List ℕ) : List Row :=
  sequences.flatMap fun n => c.rows.filter fun r => decide (r.message.sequence = n)

/-- The cursor of a page: its newest rows below the ceiling, and one more. -/
def pageRows (c : Conversation) (principal : String) (readAll : Bool) (category : Option String)
    (ceiling limit : ℕ) : List Row :=
  if readAll then
    Newest.newest (fun r => r.message.sequence) (limit + 1) (c.rows.filter fun r =>
      inCategory category r.message.category && decide (r.message.sequence ≤ ceiling))
  else
    let below := (c.branches principal category).map fun range => range.filter (· ≤ ceiling)
    let visible := (below.flatMap fun range => Newest.newest id (limit + 1) range).dedup
    c.joined (Newest.newest id (limit + 1) visible)

/-- The messages below a high water that a query may read. -/
def visibleBelow (c : Conversation) (principal : String) (readAll : Bool)
    (category : Option String) (water : ℕ) : List Row :=
  c.rows.filter fun r => decide (r.message.sequence ≤ water) &&
    inCategory category r.message.category && c.audible principal readAll r

/-- `_limits`, and what else `page` checks before it reads. -/
def Query.check (q : Query) : Except String Unit := do
  Check.require (decide (1 ≤ q.limit ∧ q.limit ≤ 500)) "invalid limit"
  Check.require (decide (1 ≤ q.maxBytes ∧ q.maxBytes ≤ 16 * 1024 * 1024)) "invalid byte budget"
  Check.each (fun category => text category "category" 512) q.category.toList
  Check.require (q.ifVisibleHead.all fun head => decide (head < 2 ^ 63)) "invalid visible head"
  Check.require (q.ifVisibleHead.isNone || q.includeVisibleHead)
    "conditional refresh requires the visible head"
  Check.require (q.ifContentGeneration.all fun generation => decide (generation < 2 ^ 63))
    "invalid content generation"
  Check.require (!(q.includeVisibleHead && q.highWater.isSome))
    "visible head requires the current content snapshot"
  text q.principal "principal" 512
  Check.require (q.before.all fun before => decide (1 ≤ before ∧ before < 2 ^ 63)) "invalid before"
  Check.require (q.highWater.all fun water => decide (water < 2 ^ 63)) "invalid high water"

/-- Whether a query is told that nothing has changed. -/
def Query.unchanged (q : Query) (visibleHead contentGeneration : ℕ) : Bool :=
  q.includeVisibleHead && decide (q.ifVisibleHead = some visibleHead) &&
    decide (q.ifContentGeneration = some contentGeneration ∨
      q.ifContentGeneration = none ∧ contentGeneration = 0)

/-- The total of a page: the counters at the head, a count below it. -/
def totalAt (c : Conversation) (q : Query) (water : ℕ) : ℕ :=
  if water = c.lastSequence then
    ((c.countRows q.principal q.readAll q.category).map Prod.snd).sum
  else (c.visibleBelow q.principal q.readAll q.category water).length

/-- The category summary of a page, where it is asked for. -/
def summary (c : Conversation) (q : Query) : Except String (Option (Dict String ℕ)) :=
  if q.includeCategories then do
    let groups ← c.categoriesAtSnapshot q.principal q.readAll q.category
    .ok (some groups)
  else .ok none

/-- `page` of a conversation at one content generation. -/
def pageAt (conversation : String) (q : Query) (generation : ℕ) (c : Conversation) :
    Except String Answer := do
  let visible := c.visibleHead q.principal q.readAll q.headCategory
  if q.unchanged visible generation then
    fitting conversation q.maxBytes (.unchanged visible generation)
  else do
    let water := q.highWater.getD c.lastSequence
    Check.require (decide (water ≤ c.lastSequence)) "high water exceeds conversation head"
    Check.require (!q.includeCategories || decide (water = c.lastSequence))
      "category summary requires the current content snapshot"
    let ceiling := match q.before with
      | some before => min water (before - 1)
      | none => water
    let (messages, older) ← collect conversation q.limit q.maxBytes
      (c.pageRows q.principal q.readAll q.category ceiling q.limit) [] 2
    let categories ← c.summary q
    fitting conversation q.maxBytes (.page
      { messages := messages.reverse
        highWater := water
        nextBefore := if older then messages.getLast?.map Message.sequence else none
        total := c.totalAt q water
        hasOlder := older
        contentGeneration := generation
        categories := categories
        visibleHead := if q.includeVisibleHead then some visible else none })

/-- `page`. -/
def page (enabled : Bool) (conversation : String) (q : Query) (c : Conversation) :
    Except String Answer := do
  q.check
  let status ← c.retentionStatus enabled
  c.pageAt conversation q status.contentGeneration

end Conversation

end ArchHub.History

namespace ArchHub.History

open Lib

namespace Conversation

variable {c : Conversation} {principal : String} {readAll : Bool} {category : Option String} {n : ℕ}
  {xs : List ℕ} {bound : ℕ} {ranges : List (List ℕ)}

/-- Whether a message is one a principal may read in a category. -/
def readableIn (principal : String) (readAll : Bool) (category : Option String) (r : Row) : Bool :=
  inCategory category r.message.category && readable principal readAll r.message

/-- **What the audience rule lets a principal read** of a conversation. -/
def messagesFor (c : Conversation) (principal : String) (readAll : Bool)
    (category : Option String) : List Message :=
  (c.rows.filter (readableIn principal readAll category)).map Row.message

/-! ## The three ranges -/

theorem mem_sequencesOf {kind : Row → Bool} :
    n ∈ c.sequencesOf category kind ↔ ∃ r ∈ c.rows, r.message.sequence = n ∧
      kind r = true ∧ inCategory category r.message.category = true := by
  unfold sequencesOf
  simp only [List.mem_map, List.mem_filter, Bool.and_eq_true]
  constructor
  · rintro ⟨r, ⟨hr, hkind, hin⟩, rfl⟩
    exact ⟨r, hr, rfl, hkind, hin⟩
  · rintro ⟨r, hr, rfl, hkind, hin⟩
    exact ⟨r, ⟨hr, hkind, hin⟩, rfl⟩

theorem Indexed.mem_recipientSequences (h : Indexed c) :
    n ∈ c.recipientSequences principal category ↔ ∃ r ∈ c.rows, r.message.sequence = n ∧
      principal ∈ r.message.recipients ∧ inCategory category r.message.category = true := by
  unfold recipientSequences
  rw [h.recipients]
  simp only [List.mem_map, List.mem_filter, Bool.and_eq_true, decide_eq_true_eq]
  constructor
  · rintro ⟨e, ⟨he, hprincipal, hin⟩, rfl⟩
    obtain ⟨r, hr, he⟩ := List.mem_flatMap.1 he
    obtain ⟨name, hname, rfl⟩ := List.mem_map.1 he
    subst hprincipal
    exact ⟨r, hr, rfl, hname, hin⟩
  · rintro ⟨r, hr, rfl, hprincipal, hin⟩
    refine ⟨⟨r.message.id, principal, r.message.sequence, r.message.category⟩, ⟨?_, rfl, hin⟩, rfl⟩
    exact List.mem_flatMap.2 ⟨r, hr, List.mem_map.2 ⟨principal, hprincipal, rfl⟩⟩

/-- **The three ranges together are the readable messages.** -/
theorem Indexed.mem_branches (h : Indexed c) :
    n ∈ (c.branches principal category).flatten ↔
      ∃ r ∈ c.rows, r.message.sequence = n ∧ readableIn principal false category r = true := by
  have hrule : ∀ r ∈ c.rows, (readableIn principal false category r = true ↔
      inCategory category r.message.category = true ∧
        (r.isPublic = true ∨ r.message.author = principal ∨ principal ∈ r.message.recipients)) := by
    intro r hr
    unfold readableIn readable
    rw [h.isPublic r hr]
    simp
  have hflat : n ∈ (c.branches principal category).flatten ↔
      n ∈ c.sequencesOf category (fun r => r.isPublic) ∨
        n ∈ c.sequencesOf category (fun r => decide (r.message.author = principal)) ∨
          n ∈ c.recipientSequences principal category := by
    simp [branches]
  rw [hflat, mem_sequencesOf, mem_sequencesOf, h.mem_recipientSequences]
  constructor
  · rintro (⟨r, hr, hn, hkind, hin⟩ | ⟨r, hr, hn, hkind, hin⟩ | ⟨r, hr, hn, hkind, hin⟩)
    · exact ⟨r, hr, hn, (hrule r hr).2 ⟨hin, .inl hkind⟩⟩
    · exact ⟨r, hr, hn, (hrule r hr).2 ⟨hin, .inr (.inl (of_decide_eq_true hkind))⟩⟩
    · exact ⟨r, hr, hn, (hrule r hr).2 ⟨hin, .inr (.inr hkind)⟩⟩
  · rintro ⟨r, hr, hn, hreadable⟩
    obtain ⟨hin, hkind | hkind | hkind⟩ := (hrule r hr).1 hreadable
    · exact .inl ⟨r, hr, hn, hkind, hin⟩
    · exact .inr (.inl ⟨r, hr, hn, decide_eq_true hkind, hin⟩)
    · exact .inr (.inr ⟨r, hr, hn, hkind, hin⟩)

/-- The rows a principal may read are those the query selects. -/
theorem Indexed.filter_audible (h : Indexed c) (p : Row → Bool) :
    c.rows.filter (fun r => p r && inCategory category r.message.category &&
        c.audible principal readAll r) =
      c.rows.filter fun r => p r && readableIn principal readAll category r := by
  refine List.filter_congr fun r hr => ?_
  rw [h.audible_eq hr, readableIn, Bool.and_assoc]

/-! ## The newest visible message -/

/-- Nothing of a range is newer than its newest. -/
theorem le_newestOf (h : n ∈ xs) : n ≤ newestOf xs := by
  have hsorted := Newest.pairwise_newestFirst id xs
  have hmem : n ∈ Newest.newestFirst id xs := Newest.mem_newestFirst.2 h
  unfold newestOf Newest.newest
  cases hxs : Newest.newestFirst id xs with
  | nil => rw [hxs] at hmem; cases hmem
  | cons x rest =>
      rw [hxs] at hmem hsorted
      rcases List.mem_cons.1 hmem with rfl | hmem
      · exact le_rfl
      · exact (List.pairwise_cons.1 hsorted).1 n hmem

/-- The newest of a range is one of it, or zero. -/
theorem newestOf_le (h : ∀ n ∈ xs, n ≤ bound) : newestOf xs ≤ bound := by
  unfold newestOf
  cases hxs : Newest.newest id 1 xs with
  | nil => exact Nat.zero_le _
  | cons x rest =>
      exact h x (Newest.mem_of_mem_newest (f := id) (k := 1) (hxs ▸ List.mem_cons_self))

/-- The greatest of several numbers, from one of them up. -/
theorem foldl_max_le {start : ℕ} (hstart : start ≤ bound)
    (h : ∀ range ∈ ranges, newestOf range ≤ bound) :
    ranges.foldl (fun visible range => max visible (newestOf range)) start ≤ bound := by
  induction ranges generalizing start with
  | nil => exact hstart
  | cons range ranges ih =>
      exact ih (max_le hstart (h range List.mem_cons_self)) fun other hother =>
        h other (List.mem_cons_of_mem range hother)

theorem le_foldl_max (start : ℕ) :
    start ≤ ranges.foldl (fun visible range => max visible (newestOf range)) start ∧
    ∀ range ∈ ranges, newestOf range ≤
      ranges.foldl (fun visible range => max visible (newestOf range)) start := by
  induction ranges generalizing start with
  | nil => exact ⟨le_rfl, by simp⟩
  | cons range ranges ih =>
      obtain ⟨hstart, hrest⟩ := ih (max start (newestOf range))
      refine ⟨(le_max_left _ _).trans hstart, fun other hother => ?_⟩
      rcases List.mem_cons.1 hother with rfl | hother
      · exact (le_max_right _ _).trans hstart
      · exact hrest other hother

/-- **The visible head is not behind the last message.** -/
theorem Fit.visibleHead_le (h : Fit c) :
    c.visibleHead principal readAll category ≤ c.lastSequence := by
  unfold visibleHead
  split
  · split
    · exact le_rfl
    · refine newestOf_le fun n hn => ?_
      obtain ⟨r, hr, rfl, -⟩ := mem_sequencesOf.1 hn
      exact h.bounded r hr
  · refine foldl_max_le (Nat.zero_le _) fun range hrange => newestOf_le fun n hn => ?_
    obtain ⟨r, hr, rfl, -⟩ := h.indexed.mem_branches.1 (List.mem_flatten.2 ⟨range, hrange, hn⟩)
    exact h.bounded r hr

/-- **No message a principal may read is newer than its visible head.** -/
theorem Fit.le_visibleHead (h : Fit c) {r : Row} (hr : r ∈ c.rows)
    (hreadable : readableIn principal readAll category r = true) :
    r.message.sequence ≤ c.visibleHead principal readAll category := by
  unfold visibleHead
  cases hall : readAll with
  | true =>
      rw [if_pos rfl]
      split
      · exact h.bounded r hr
      · exact le_newestOf (mem_sequencesOf.2 ⟨r, hr, rfl, rfl, (Bool.and_eq_true_iff.1 hreadable).1⟩)
  | false =>
      rw [if_neg Bool.false_ne_true]
      rw [hall] at hreadable
      have hmem := h.indexed.mem_branches.2 ⟨r, hr, rfl, hreadable⟩
      obtain ⟨range, hrange, hn⟩ := List.mem_flatten.1 hmem
      exact (le_newestOf hn).trans ((le_foldl_max 0).2 range hrange)

end Conversation

/-- **An unmoved head of an unmoved generation shows what it showed.** -/
theorem messagesFor_of_grows {h h' : Held} {principal : String} {readAll : Bool}
    {category : Option String} (hfit : Conversation.Fit h.conversation)
    (hfit' : Conversation.Fit h'.conversation) (hgrows : Grows h h')
    (hgeneration : h.generation = h'.generation)
    (hhead : h'.conversation.visibleHead principal readAll category =
      h.conversation.visibleHead principal readAll category) :
    h'.conversation.messagesFor principal readAll category =
      h.conversation.messagesFor principal readAll category := by
  obtain ⟨more, hrows, hbehind⟩ := hgrows.rows hgeneration
  unfold Conversation.messagesFor
  -- whatever came is behind the head, so none of it can be read
  have hnone : more.filter (Conversation.readableIn principal readAll category) = [] := by
    refine List.filter_eq_nil_iff.2 fun r hr hreadable => ?_
    have hr' : r ∈ h'.conversation.rows := hrows ▸ List.mem_append_right _ hr
    have hle := hfit'.le_visibleHead hr' hreadable
    have hhead' : h.conversation.visibleHead principal readAll category ≤
        h.conversation.lastSequence := hfit.visibleHead_le
    have hlt := hbehind r hr
    omega
  rw [hrows, List.filter_append, hnone, List.append_nil]

end ArchHub.History

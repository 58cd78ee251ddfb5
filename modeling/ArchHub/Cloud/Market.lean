import Mathlib
import ArchHub.Lib.Check
import ArchHub.Lib.Paging
import ArchHub.Accounts.TestAccounts

/-!
# The listing of the marketplace

`list_packs` shows the packs that a filter lets pass.  The newest-first listing is read page by
page: a page has at most `limit` packs, and its `next_cursor` is the second in which the last of
them was created.

* `listPacks`: a page.
* `follow`: the pages from the first one until there is no cursor.
* `paging_complete_iff`: **when the pages show every pack just once**.
* `paging_loses`: two packs of one second, of which one is never shown.
-/

namespace ArchHub.Marketplace

open Lib List

/-! ## The table -/

/-- A row of `marketplace_packs`; `rest` are the columns that are only shown. -/
structure Pack where
  id : String
  slug : String
  title : String
  description : String
  category : String
  status : String
  source : String
  packType : String
  upVotes : ℤ
  downVotes : ℤ
  createdAt : ℤ
  rest : List (String × String)
deriving DecidableEq

/-- A row of `marketplace_pack_votes`. -/
structure Vote where
  packId : String
  voterUserId : String
  vote : ℤ

/-- The tables that are read. -/
structure Tables where
  packs : List Pack
  votes : List Vote

/-- Who is signed in. -/
structure User where
  id : String
  isAdmin : Bool

/-- The orders of a listing. -/
inductive Sorting
  | new
  | top
deriving DecidableEq

/-- The score and the second of a pack. -/
def Pack.rank (p : Pack) : ℤ ×ₗ ℤ := toLex (p.upVotes - p.downVotes, p.createdAt)

/-- What `ORDER BY` asks of two rows, one before the other. -/
def Sorting.precedes : Sorting → Pack → Pack → Prop
  | .new, a, b => b.createdAt ≤ a.createdAt
  | .top, a, b => b.rank ≤ a.rank

/-- The functions of Python that are used, and the order in which SQLite returns rows: which of
two rows comes first that `ORDER BY` does not tell apart is open. -/
structure Host where
  strip : String → String
  lower : String → String
  int : String → Option ℤ
  order : Sorting → List Pack → List Pack
  int_str : ∀ n : ℤ, int (toString n) = some n
  int_empty : int "" = none
  order_perm : ∀ sorting rows, (order sorting rows).Perm rows
  order_sorted : ∀ sorting rows, (order sorting rows).Pairwise sorting.precedes

/-! ## The endpoint -/

/-- The parameters of the query; a page has one pack at least. -/
structure Listing where
  query : String
  category : String
  source : String
  packType : String
  sort : String
  verifiedOnly : Bool
  limit : ℕ
  limit_pos : 0 < limit

/-- What is returned: the packs, each with the vote of the user who is signed in. -/
structure Page where
  packs : List (Pack × Option ℤ)
  nextCursor : Option String
  sort : Sorting

/-- `SOURCE_FILTERS`. -/
def sourceFilters : List String := ["user", "agent", "official", "all"]

/-- `VALID_PACK_TYPES`. -/
def validPackTypes : List String := ["skill", "connector", "node", "widget"]

variable (host : Host)

/-- `src`. -/
def Listing.src (q : Listing) : String := host.lower (host.strip q.source)

/-- `ptype`. -/
def Listing.ptype (q : Listing) : String := host.lower (host.strip q.packType)

/-- `sort_mode`, if it is valid. -/
def Listing.sorting (q : Listing) : Option Sorting :=
  let mode := host.lower (host.strip (if q.sort = "" then "new" else q.sort))
  if mode = "new" then some .new else if mode = "top" then some .top else none

/-- `title LIKE ? OR description LIKE ? OR slug LIKE ?`. -/
def named (query : String) (p : Pack) : Bool :=
  let pattern := '%' :: query.toList ++ ['%']
  Accounts.like pattern p.title.toList || Accounts.like pattern p.description.toList ||
    Accounts.like pattern p.slug.toList

/-- The conditions of `WHERE` but the one of the cursor. -/
def Listing.wheres (user : Option User) (q : Listing) (p : Pack) : Bool :=
  (!(q.verifiedOnly || !user.any User.isAdmin) || p.status = "approved") &&
    (q.query = "" || named q.query p) &&
    (q.category = "" || p.category = q.category) &&
    (q.src host = "" || q.src host = "all" || p.source = q.src host) &&
    (q.ptype host = "" || p.packType = q.ptype host)

/-- The packs that match a filter. -/
def Listing.matched (user : Option User) (q : Listing) (t : Tables) : List Pack :=
  t.packs.filter (q.wheres host user)

/-- The second that a cursor names. -/
def capOf (cursor : String) : Except String (Option ℤ) :=
  if cursor = "" then .ok none
  else match host.int cursor with
    | none => .error "bad_cursor"
    | some second => .ok (some second)

/-- `created_at < ?`, in the order that has a cursor. -/
def below (sorting : Sorting) (cap : Option ℤ) (p : Pack) : Bool :=
  match sorting, cap with
  | .new, some second => p.createdAt < second
  | _, _ => true

/-- `pack_votes_for_user`, for one pack; a user has one vote at most on a pack. -/
def packVote (votes : List Vote) (user : User) (p : Pack) : ℤ :=
  ((votes.find? fun v => v.voterUserId = user.id && v.packId = p.id).map Vote.vote).getD 0

/-- The page that the rows give, of which there may be one more than is shown. -/
def pageOf (t : Tables) (user : Option User) (limit : ℕ) (sorting : Sorting) (rows : List Pack) :
    Page where
  packs := (rows.take limit).map fun p => (p, user.map fun u => packVote t.votes u p)
  nextCursor :=
    if limit < rows.length && sorting = .new then
      (rows.take limit).getLast?.map fun p => toString p.createdAt
    else none
  sort := sorting

/-- `list_packs`. -/
def listPacks (t : Tables) (user : Option User) (q : Listing) (cursor : String) :
    Except String Page := do
  Check.require (q.src host = "" || sourceFilters.contains (q.src host)) "invalid_source"
  Check.require (q.ptype host = "" || validPackTypes.contains (q.ptype host)) "invalid_pack_type"
  let sorting ← (q.sorting host).elim (.error "invalid_sort") .ok
  let cap ← capOf host cursor
  let rows := (host.order sorting ((q.matched host user t).filter (below sorting cap))).take
    (q.limit + 1)
  .ok (pageOf t user q.limit sorting rows)

/-- The pages from a cursor on, until there is no cursor: at most `n`. -/
def follow (t : Tables) (user : Option User) (q : Listing) : ℕ → String → Except String (List Page)
  | 0, _ => .ok []
  | n + 1, cursor => do
      let page ← listPacks host t user q cursor
      match page.nextCursor with
      | none => .ok [page]
      | some next => do
          let pages ← follow t user q n next
          .ok (page :: pages)

/-! ## What is shown -/

/-- The packs on some pages. -/
def shown (pages : List Page) : List Pack := pages.flatMap fun page => page.packs.map Prod.fst

/-- The filter is valid, and asks for the newest packs first. -/
structure Listing.Newest (q : Listing) : Prop where
  source : q.src host = "" ∨ q.src host ∈ sourceFilters
  packType : q.ptype host = "" ∨ q.ptype host ∈ validPackTypes
  sorting : q.sorting host = some .new

instance (q : Listing) : Decidable (q.Newest host) :=
  decidable_of_iff ((q.src host = "" ∨ q.src host ∈ sourceFilters) ∧
    (q.ptype host = "" ∨ q.ptype host ∈ validPackTypes) ∧ q.sorting host = some .new)
    ⟨fun ⟨hs, hp, ho⟩ => ⟨hs, hp, ho⟩, fun h => ⟨h.source, h.packType, h.sorting⟩⟩

variable {host} {t : Tables} {user : Option User} {q : Listing}

/-! ## A page -/

theorem arranges (host : Host) : Paging.Arranges Pack.createdAt (host.order .new) where
  perm rows := host.order_perm .new rows
  descending rows := host.order_sorted .new rows

/-- A cursor that a page gave names the second it was made of. -/
theorem capOf_str (n : ℤ) : capOf host (toString n) = .ok (some n) := by
  have hne : toString n ≠ "" := by
    intro h
    have hint := host.int_str n
    rw [h, host.int_empty] at hint
    cases hint
  unfold capOf
  rw [if_neg hne, host.int_str]

theorem listPacks_eq (h : q.Newest host) {cursor : String} {cap : Option ℤ}
    (hcap : capOf host cursor = .ok cap) : listPacks host t user q cursor =
      .ok (pageOf t user q.limit .new ((host.order .new
        ((q.matched host user t).filter (below .new cap))).take (q.limit + 1))) := by
  have hsource : (q.src host = "" || sourceFilters.contains (q.src host)) = true := by
    simpa using h.source
  have htype : (q.ptype host = "" || validPackTypes.contains (q.ptype host)) = true := by
    simpa using h.packType
  unfold listPacks
  rw [hsource, htype, h.sorting, hcap]
  rfl

/-- The packs of a page. -/
theorem packs_pageOf (limit : ℕ) (rows : List Pack) :
    (pageOf t user limit .new (rows.take (limit + 1))).packs.map Prod.fst = rows.take limit := by
  unfold pageOf
  rw [map_map, take_take, Nat.min_eq_left (Nat.le_succ limit)]
  exact map_id _

/-- The cursor of a page. -/
theorem cursor_pageOf (limit : ℕ) (rows : List Pack) :
    (pageOf t user limit .new (rows.take (limit + 1))).nextCursor =
      if limit < rows.length then (rows.take limit).getLast?.map fun p => toString p.createdAt
      else none := by
  have hmore : limit < (rows.take (limit + 1)).length ↔ limit < rows.length := by
    rw [length_take]
    omega
  unfold pageOf
  dsimp only
  rw [take_take, Nat.min_eq_left (Nat.le_succ limit)]
  by_cases hlt : limit < rows.length
  · rw [if_pos hlt, if_pos (by simpa using hmore.2 hlt)]
  · have hless : ¬limit < (rows.take (limit + 1)).length := fun h => hlt (hmore.1 h)
    rw [if_neg hlt, if_neg (by simpa using hless)]

/-- The packs below a cursor that was made of one of them. -/
theorem filter_below {rows : List Pack} {cap : Option ℤ} {last : Pack}
    (hlast : last ∈ rows.filter (below .new cap)) :
    (rows.filter (below .new cap)).filter (fun p => p.createdAt < last.createdAt) =
      rows.filter (below .new (some last.createdAt)) := by
  rw [filter_filter]
  refine filter_congr fun p _ => ?_
  cases cap with
  | none => exact Bool.and_true _
  | some second =>
    have hlt : last.createdAt < second := of_decide_eq_true (List.mem_filter.1 hlast).2
    show (decide (p.createdAt < last.createdAt) && decide (p.createdAt < second)) =
      decide (p.createdAt < last.createdAt)
    by_cases hp : p.createdAt < last.createdAt
    · rw [decide_eq_true hp, decide_eq_true (hp.trans hlt)]
      rfl
    · rw [decide_eq_false hp]
      rfl

/-! ## The pages -/

/-- The pages of the listing are the pages of the packs that match, and the last one has no
cursor. -/
theorem follow_pages (h : q.Newest host) (n : ℕ) {cursor : String} {cap : Option ℤ}
    (hcap : capOf host cursor = .ok cap) : ∃ pages,
      follow host t user q n cursor = .ok pages ∧
      pages.map (fun page => page.packs.map Prod.fst) = Paging.pages Pack.createdAt
        (host.order .new) q.limit n ((q.matched host user t).filter (below .new cap)) ∧
      (((q.matched host user t).filter (below .new cap)).length < n →
        ∃ last, pages.getLast? = some last ∧ last.nextCursor = none) := by
  induction n generalizing cursor cap with
  | zero => exact ⟨[], rfl, rfl, fun hlt => absurd hlt (Nat.not_lt_zero _)⟩
  | succ n ih =>
    have hpage := @listPacks_eq host t user q h cursor cap hcap
    rw [Paging.pages_succ]
    unfold follow
    rw [hpage, Check.ok_bind, cursor_pageOf]
    let listed := host.order .new ((q.matched host user t).filter (below .new cap))
    let page := pageOf t user q.limit .new (listed.take (q.limit + 1))
    by_cases hlt : q.limit < listed.length
    · rw [if_pos hlt, if_pos hlt]
      obtain ⟨last, hlast, hget⟩ := Paging.exists_last q.limit_pos hlt
      rw [hlast]
      have hmem : last ∈ (q.matched host user t).filter (below .new cap) :=
        (host.order_perm .new _).mem_iff.1 (mem_of_getElem? hget)
      obtain ⟨pages, hfollow, hpages, hended⟩ := ih (capOf_str last.createdAt)
      refine ⟨page :: pages, ?_, ?_, fun hn => ?_⟩
      · show (do
          let pages ← follow host t user q n (toString last.createdAt)
          Except.ok _) = _
        rw [hfollow]
        rfl
      · rw [map_cons, packs_pageOf, hpages, ← filter_below hmem]
      · have hless : ((q.matched host user t).filter
            (below .new (some last.createdAt))).length < n := by
          rw [← filter_below hmem]
          have hdrop : ((((q.matched host user t).filter (below .new cap)).filter
              fun p => p.createdAt < last.createdAt)).length <
              ((q.matched host user t).filter (below .new cap)).length :=
            List.length_filter_lt_length_iff_exists.2 ⟨last, hmem, by simp⟩
          omega
        obtain ⟨final, hfinal, hnone⟩ := hended hless
        exact ⟨final, by rw [List.getLast?_cons, hfinal]; rfl, hnone⟩
    · rw [if_neg hlt, if_neg hlt]
      refine ⟨[page], rfl, ?_, fun _ => ⟨page, rfl, ?_⟩⟩
      · rw [map_cons, packs_pageOf]
        rfl
      · rw [cursor_pageOf, if_neg hlt]

/-- **When the pages show every pack just once.**  For every table and filter, following the
cursors of the newest-first listing comes to a page without a cursor, and what the pages show is in
order; they show every pack that matches just once if and only if no cut after every `limit` packs
falls between packs that were created in the same second. -/
theorem paging_complete_iff (t : Tables) (user : Option User) (q : Listing) (h : q.Newest host) :
    ∃ pages, follow host t user q (t.packs.length + 1) "" = .ok pages ∧
      (∃ last, pages.getLast? = some last ∧ last.nextCursor = none) ∧
      ((shown pages).Perm (q.matched host user t) ∧
          (shown pages).Pairwise (fun a b => b.createdAt ≤ a.createdAt) ↔
        Paging.Apart q.limit (Paging.keys Pack.createdAt (q.matched host user t))) := by
  have hfirst : capOf host "" = .ok none := rfl
  have hall : (q.matched host user t).filter (below .new none) = q.matched host user t :=
    List.filter_eq_self.2 fun _ _ => rfl
  have hlength : (q.matched host user t).length < t.packs.length + 1 :=
    Nat.lt_succ_of_le (List.length_filter_le _ _)
  obtain ⟨pages, hfollow, hpages, hended⟩ :=
    @follow_pages host t user q h (t.packs.length + 1) "" none hfirst
  rw [hall] at hpages hended
  have hshown : shown pages = (Paging.pages Pack.createdAt (host.order .new) q.limit
      (t.packs.length + 1) (q.matched host user t)).flatten := by
    rw [← hpages]
    rfl
  refine ⟨pages, hfollow, hended hlength, ?_⟩
  rw [hshown, ← Paging.pages_perm_iff (arranges host) q.limit_pos hlength]
  exact and_iff_left (Paging.pages_descending (arranges host) q.limit_pos _ _)

/-! ## Packs of one second -/

theorem toInt?_empty : "".toInt? = none := by
  rw [String.toInt?_eq_none_iff, Bool.eq_false_iff]
  intro hint
  rcases String.isInt_iff.1 hint with hnat | ⟨t, ht, -⟩
  · simp [String.isNat_iff] at hnat
  · have hlist := congrArg String.toList ht
    simp at hlist

/-- Functions that do as Python's and SQLite's do on what is used here. -/
def plainHost : Host where
  strip s := s
  lower s := s
  int := String.toInt?
  order
    | .new, rows => rows.mergeSort fun a b => decide (b.createdAt ≤ a.createdAt)
    | .top, rows => rows.mergeSort fun a b => decide (b.rank ≤ a.rank)
  int_str := Int.toInt?_repr
  int_empty := toInt?_empty
  order_perm
    | .new, rows => List.mergeSort_perm rows _
    | .top, rows => List.mergeSort_perm rows _
  order_sorted
    | .new, rows => Paging.mergeSort_descending Pack.createdAt rows
    | .top, rows => Paging.mergeSort_descending Pack.rank rows

/-- A pack that was created in a second. -/
def packAt (id : String) (second : ℤ) : Pack where
  id := id
  slug := id
  title := id
  description := ""
  category := ""
  status := "approved"
  source := "user"
  packType := "skill"
  upVotes := 0
  downVotes := 0
  createdAt := second
  rest := []

/-- Everything, newest first, by pages of one pack. -/
def oneByOne : Listing where
  query := ""
  category := ""
  source := ""
  packType := ""
  sort := "new"
  verifiedOnly := false
  limit := 1
  limit_pos := Nat.one_pos

theorem newest_oneByOne : oneByOne.Newest plainHost where
  source := .inl rfl
  packType := .inl rfl
  sorting := rfl

/-- Everything that is in a table matches. -/
theorem matched_oneByOne (a b : ℤ) :
    oneByOne.matched plainHost none ⟨[packAt "a" a, packAt "b" b], []⟩ =
      [packAt "a" a, packAt "b" b] := rfl

/-- Two packs of different seconds are shown, one on each page. -/
theorem paging_complete_sample :
    ∃ pages, follow plainHost ⟨[packAt "a" 2, packAt "b" 1], []⟩ none oneByOne 3 "" = .ok pages ∧
      (shown pages).Perm [packAt "a" 2, packAt "b" 1] := by
  obtain ⟨pages, hfollow, -, hiff⟩ := @paging_complete_iff plainHost
    ⟨[packAt "a" 2, packAt "b" 1], []⟩ none oneByOne newest_oneByOne
  have hkeys : Paging.keys Pack.createdAt [packAt "a" 2, packAt "b" 1] = [2, 1] :=
    List.mergeSort_of_pairwise (by decide)
  have hapart : Paging.Apart 1 ([2, 1] : List ℤ) := by decide
  rw [matched_oneByOne, hkeys] at hiff
  exact ⟨pages, hfollow, (hiff.2 hapart).1⟩

/-- **A pack that is never shown**: of two packs of one second, by pages of one pack, one is on
the first page and none on the second. -/
theorem paging_loses :
    ∃ pages, follow plainHost ⟨[packAt "a" 1, packAt "b" 1], []⟩ none oneByOne 3 "" = .ok pages ∧
      (∃ last, pages.getLast? = some last ∧ last.nextCursor = none) ∧
      oneByOne.matched plainHost none ⟨[packAt "a" 1, packAt "b" 1], []⟩ =
        [packAt "a" 1, packAt "b" 1] ∧
      packAt "b" 1 ∉ shown pages := by
  have hfirst : (plainHost.order .new [packAt "a" 1, packAt "b" 1]) =
      [packAt "a" 1, packAt "b" 1] := List.mergeSort_of_pairwise (by decide)
  have hnone : plainHost.order .new [] = [] := List.mergeSort_nil
  have hpages : Paging.pages Pack.createdAt (plainHost.order .new) 1 3
      [packAt "a" 1, packAt "b" 1] = [[packAt "a" 1], []] := by
    rw [Paging.pages_succ, hfirst]
    show [packAt "a" 1] :: Paging.pages Pack.createdAt (plainHost.order .new) 1 2 [] = _
    rw [Paging.pages_succ, hnone]
    rfl
  obtain ⟨pages, hfollow, heq, hended⟩ := @follow_pages plainHost
    ⟨[packAt "a" 1, packAt "b" 1], []⟩ none oneByOne newest_oneByOne 3 "" none rfl
  refine ⟨pages, hfollow, hended (by decide), rfl, ?_⟩
  have hshown : shown pages = [packAt "a" 1] := by
    have hflat := congrArg List.flatten (heq.trans hpages)
    exact hflat
  rw [hshown]
  decide

end ArchHub.Marketplace

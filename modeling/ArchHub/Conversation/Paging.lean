import Mathlib
import ArchHub.Conversation.Counting

/-!
# Paging reaches everything once

A page is cut from the newest readable messages below its cursor: the three
bounded index scans find the same messages as a filter of the whole
conversation, and the cut is the longest block within the limit whose list fits
the byte budget.

The cut does not look at the envelope that is written around the list.  A walk
from a pinned high water therefore reaches every visible message once if and
only if each of these blocks still fits with its envelope (`PagesFit`), whatever
is appended meanwhile.
-/

namespace ArchHub.History

open Lib List

namespace Conversation

variable {c : Conversation} {principal : String} {readAll : Bool} {category : Option String}
variable {ceiling limit : ℕ}

/-! ## The three scans -/

/-- The sequence numbers of a principal among the recipients of a message. -/
theorem recipientRows_sequences {m : Message} (hm : m.recipients.Nodup) (principal : String)
    (category : Option String) :
    ((recipientRows m).filter fun e => decide (e.principal = principal) &&
        inCategory category e.category).map Recipient.sequence =
      if principal ∈ m.recipients ∧ inCategory category m.category = true then [m.sequence]
      else [] := by
  unfold recipientRows
  rw [filter_map, map_map]
  have hfilter : m.recipients.filter ((fun e : Recipient => decide (e.principal = principal) &&
        inCategory category e.category) ∘ fun name => ⟨m.id, name, m.sequence, m.category⟩) =
      if principal ∈ m.recipients ∧ inCategory category m.category = true then [principal]
      else [] := by
    by_cases hin : inCategory category m.category = true
    · have hsame : ((fun e : Recipient => decide (e.principal = principal) &&
          inCategory category e.category) ∘ fun name => ⟨m.id, name, m.sequence, m.category⟩) =
          fun name => decide (name = principal) := by
        funext name
        simp [hin]
      rw [hsame, filter_eq]
      by_cases hmem : principal ∈ m.recipients
      · rw [count_eq_one_of_mem hm hmem, if_pos ⟨hmem, hin⟩]
        rfl
      · rw [count_eq_zero_of_not_mem hmem, if_neg fun h => hmem h.1]
        rfl
    · rw [if_neg fun h => hin h.2, filter_eq_nil_iff]
      intro name _ hmatch
      exact hin (Bool.and_eq_true_iff.1 hmatch).2
  rw [hfilter]
  split <;> rfl

/-- The rows of a principal in the recipients index are those of the messages
addressed to it, each once. -/
theorem Indexed.recipientSequences (h : Indexed c) (principal : String) (category : Option String) :
    c.recipientSequences principal category =
      (c.rows.filter fun r => decide (principal ∈ r.message.recipients ∧
        inCategory category r.message.category = true)).map fun r => r.message.sequence := by
  unfold Conversation.recipientSequences
  rw [h.recipients]
  have hdistinct := h.distinct
  generalize c.rows = rows at hdistinct ⊢
  induction rows with
  | nil => rfl
  | cons r rows ih =>
      have hrest := ih fun s hs => hdistinct s (mem_cons_of_mem r hs)
      rw [flatMap_cons, filter_append, map_append, hrest,
        recipientRows_sequences (hdistinct r mem_cons_self), filter_cons]
      by_cases hmem : principal ∈ r.message.recipients ∧
          inCategory category r.message.category = true
      · rw [if_pos hmem, if_pos (decide_eq_true hmem)]
        rfl
      · rw [if_neg hmem, if_neg (by simpa using hmem)]
        rfl

/-- Each of the three ranges has a sequence number once. -/
theorem Indexed.nodup_branches (h : Indexed c) {range : List ℕ}
    (hrange : range ∈ c.branches principal category) : range.Nodup := by
  have hselect : ∀ p : Row → Bool, ((c.rows.filter p).map fun r => r.message.sequence).Nodup :=
    fun p => h.sequences.sublist (List.filter_sublist.map _)
  unfold branches at hrange
  simp only [mem_cons, not_mem_nil, or_false] at hrange
  rcases hrange with rfl | rfl | rfl
  · exact hselect _
  · exact hselect _
  · rw [h.recipientSequences]
    exact hselect _

/-- Rows are found again by their sequence numbers. -/
theorem Indexed.joined (h : Indexed c) {rs : List Row} (hrs : ∀ r ∈ rs, r ∈ c.rows) :
    c.joined (rs.map fun r => r.message.sequence) = rs := by
  unfold Conversation.joined
  induction rs with
  | nil => rfl
  | cons r rs ih =>
      have hr := hrs r mem_cons_self
      have hone : c.rows.filter (fun s => decide (s.message.sequence = r.message.sequence)) = [r] := by
        have hsame : c.rows.filter (fun s => decide (s.message.sequence = r.message.sequence)) =
            c.rows.filter fun s => decide (s = r) := by
          refine filter_congr fun s hs => ?_
          rw [Bool.eq_iff_iff, decide_eq_true_iff, decide_eq_true_iff]
          exact ⟨fun heq => eq_of_column h.sequences hs hr heq, fun heq => by rw [heq]⟩
        rw [hsame, filter_eq, count_eq_one_of_mem (List.Nodup.of_map _ h.ids) hr]
        rfl
      rw [map_cons, flatMap_cons, hone, ih fun s hs => hrs s (mem_cons_of_mem r hs)]
      rfl

/-- The rows a page below a ceiling is cut from. -/
def rowsBelow (c : Conversation) (principal : String) (readAll : Bool) (category : Option String)
    (ceiling : ℕ) : List Row :=
  Newest.newestFirst (fun r => r.message.sequence) (c.rows.filter fun r =>
    decide (r.message.sequence ≤ ceiling) && readableIn principal readAll category r)

theorem mem_rowsBelow {r : Row} : r ∈ c.rowsBelow principal readAll category ceiling ↔
    r ∈ c.rows ∧ r.message.sequence ≤ ceiling ∧ readableIn principal readAll category r = true := by
  unfold rowsBelow
  rw [Newest.mem_newestFirst, mem_filter, Bool.and_eq_true, decide_eq_true_eq]

theorem Indexed.nodup_selected (h : Indexed c) (p : Row → Bool) :
    ((c.rows.filter p).map fun r => r.message.sequence).Nodup :=
  h.sequences.sublist (List.filter_sublist.map _)

/-- **The scans of a page find what a filter of the conversation finds**: the
newest of the messages below the ceiling that the audience rule lets the
principal read. -/
theorem Indexed.pageRows_eq (h : Indexed c) (principal : String) (readAll : Bool)
    (category : Option String) (ceiling limit : ℕ) :
    c.pageRows principal readAll category ceiling limit =
      (c.rowsBelow principal readAll category ceiling).take (limit + 1) := by
  unfold pageRows
  cases readAll with
  | true =>
      rw [if_pos rfl]
      have hrule : (fun r : Row => inCategory category r.message.category &&
          decide (r.message.sequence ≤ ceiling)) = fun r =>
          decide (r.message.sequence ≤ ceiling) && readableIn principal true category r := by
        funext r
        simp [readableIn, readable, Bool.and_comm]
      rw [hrule]
      rfl
  | false =>
      rw [if_neg Bool.false_ne_true]
      let below := (c.branches principal category).map fun range => range.filter (· ≤ ceiling)
      let selected := c.rows.filter fun r =>
        decide (r.message.sequence ≤ ceiling) && readableIn principal false category r
      have hnodup : ∀ range ∈ below, range.Nodup := by
        intro range hrange
        obtain ⟨branch, hbranch, rfl⟩ := List.mem_map.1 hrange
        exact (h.nodup_branches hbranch).filter _
      have hselected : (selected.map fun r => r.message.sequence).Nodup := h.nodup_selected _
      have hperm : below.flatten.dedup.Perm (selected.map fun r => r.message.sequence) := by
        rw [perm_ext_iff_of_nodup (nodup_dedup _) hselected]
        intro n
        have hflat : n ∈ below.flatten ↔
            n ∈ (c.branches principal category).flatten ∧ n ≤ ceiling := by
          simp only [below, mem_flatten, mem_map]
          constructor
          · rintro ⟨_, ⟨range, hrange, rfl⟩, hn⟩
            obtain ⟨hn, hle⟩ := List.mem_filter.1 hn
            exact ⟨⟨range, hrange, hn⟩, of_decide_eq_true hle⟩
          · rintro ⟨⟨range, hrange, hn⟩, hle⟩
            exact ⟨_, ⟨range, hrange, rfl⟩, List.mem_filter.2 ⟨hn, decide_eq_true hle⟩⟩
        rw [mem_dedup, hflat, h.mem_branches, mem_map]
        constructor
        · rintro ⟨⟨r, hr, rfl, hreadable⟩, hle⟩
          exact ⟨r, List.mem_filter.2 ⟨hr, by simp [hle, hreadable]⟩, rfl⟩
        · rintro ⟨r, hr, rfl⟩
          obtain ⟨hr, hmatch⟩ := List.mem_filter.1 hr
          obtain ⟨hle, hreadable⟩ := Bool.and_eq_true_iff.1 hmatch
          exact ⟨⟨r, hr, rfl, hreadable⟩, of_decide_eq_true hle⟩
      have hnewest : Newest.newest id (limit + 1)
            (below.flatMap fun range => Newest.newest id (limit + 1) range).dedup =
          ((Newest.newestFirst (fun r => r.message.sequence) selected).take (limit + 1)).map
            fun r => r.message.sequence := by
        rw [Newest.newest_union below hnodup]
        unfold Newest.newest
        rw [Newest.newestFirst_perm (by simpa using nodup_dedup below.flatten) hperm,
          Newest.newestFirst_map hselected, map_take]
      have hrows : ∀ r ∈ (Newest.newestFirst (fun r => r.message.sequence) selected).take (limit + 1),
          r ∈ c.rows := by
        intro r hr
        have hr := Newest.mem_newestFirst.1 (mem_of_mem_take hr)
        exact (List.mem_filter.1 hr).1
      calc c.joined (Newest.newest id (limit + 1)
              (below.flatMap fun range => Newest.newest id (limit + 1) range).dedup)
          = c.joined (((Newest.newestFirst (fun r => r.message.sequence) selected).take
              (limit + 1)).map fun r => r.message.sequence) := by rw [hnewest]
        _ = (c.rowsBelow principal false category ceiling).take (limit + 1) := h.joined hrows

/-! ## The cut of a page -/

/-- The size of the list of a page. -/
def listBytes (conversation : String) (messages : List Message) : ℕ :=
  (Json.arr (messages.map (Message.json conversation))).bytes

variable {conversation : String} {maxBytes : ℕ} {xs ys L : List Message} {k : ℕ} {rows : List Row}

theorem listBytes_concat (xs : List Message) (m : Message) :
    listBytes conversation (xs ++ [m]) =
      listBytes conversation xs + (m.bytes conversation + if xs = [] then 0 else 1) := by
  unfold listBytes
  cases xs with
  | nil => simp [Json.bytes_arr, Json.bytes_arr_nil, Message.bytes]
  | cons x xs =>
      simp only [cons_append, map_cons, map_append, map_nil, Json.bytes_arr,
        sum_append, sum_cons, sum_nil, Message.bytes, if_neg (cons_ne_nil x xs)]
      omega

theorem listBytes_append (xs ys : List Message) :
    listBytes conversation xs ≤ listBytes conversation (xs ++ ys) := by
  induction ys generalizing xs with
  | nil => rw [append_nil]
  | cons y ys ih =>
      have hone : listBytes conversation (xs ++ [y]) = _ := listBytes_concat xs y
      have hrest := ih (xs ++ [y])
      rw [append_assoc, singleton_append] at hrest
      omega

/-- How long a block of the newest messages fits into the limit and the byte
budget, as a list. -/
def fitLength (conversation : String) (limit maxBytes : ℕ) (messages : List Message) : ℕ :=
  Nat.findGreatest (fun k => k ≤ messages.length ∧
    listBytes conversation (messages.take k) ≤ maxBytes) limit

theorem fitLength_le : fitLength conversation limit maxBytes L ≤ limit := Nat.findGreatest_le limit

theorem fitLength_le_length : fitLength conversation limit maxBytes L ≤ L.length := by
  by_cases hzero : fitLength conversation limit maxBytes L = 0
  · omega
  · exact (Nat.findGreatest_of_ne_zero rfl hzero).1

/-- A block that fits and cannot be longer is as long as fits. -/
theorem fitLength_eq (hlimit : k ≤ limit) (hlength : k ≤ L.length)
    (hfits : k = 0 ∨ listBytes conversation (L.take k) ≤ maxBytes)
    (hnext : k = limit ∨ k = L.length ∨ maxBytes < listBytes conversation (L.take (k + 1))) :
    fitLength conversation limit maxBytes L = k := by
  refine Nat.findGreatest_eq_iff.2 ⟨hlimit, fun hne => ⟨hlength, hfits.resolve_left hne⟩, ?_⟩
  rintro n hkn hn ⟨hnlength, hbytes⟩
  have hgrow : listBytes conversation (L.take (k + 1)) ≤ listBytes conversation (L.take n) := by
    have hsplit : L.take n = L.take (k + 1) ++ (L.drop (k + 1)).take (n - (k + 1)) := by
      rw [← take_add]
      congr 1
      omega
    rw [hsplit]
    exact listBytes_append _ _
  rcases hnext with hnext | hnext | hnext <;> omega

/-- The messages behind the next one do not matter to a block. -/
theorem fitLength_take :
    fitLength conversation limit maxBytes (L.take (limit + 1)) =
      fitLength conversation limit maxBytes L := by
  have hle : fitLength conversation limit maxBytes L ≤ limit := fitLength_le
  have hlength : fitLength conversation limit maxBytes L ≤ L.length := fitLength_le_length
  refine fitLength_eq hle (by rw [length_take]; omega) ?_ ?_
  · by_cases hzero : fitLength conversation limit maxBytes L = 0
    · exact .inl hzero
    · rw [take_take, Nat.min_eq_left (by omega)]
      exact .inr (Nat.findGreatest_of_ne_zero rfl hzero).2
  · by_cases hlimit : fitLength conversation limit maxBytes L = limit
    · exact .inl hlimit
    · by_cases hend : fitLength conversation limit maxBytes L = L.length
      · exact .inr (.inl (by rw [length_take]; omega))
      · refine .inr (.inr ?_)
        have hover := Nat.findGreatest_is_greatest (Nat.lt_succ_self
          (fitLength conversation limit maxBytes L)) (by omega)
        rw [take_take, Nat.min_eq_left (by omega)]
        by_contra hfits
        exact hover ⟨by omega, Nat.le_of_not_lt hfits⟩

/-- `_collect` from what it has collected. -/
theorem collect_from (hlimit : 1 ≤ limit) (hxs : xs.length ≤ limit)
    (hfits : xs = [] ∨ listBytes conversation xs ≤ maxBytes) :
    collect conversation limit maxBytes rows xs (listBytes conversation xs) =
      let L := xs ++ rows.map Row.message
      let k := fitLength conversation limit maxBytes L
      if k = 0 ∧ L ≠ [] then .error "single message exceeds output byte budget"
      else .ok (L.take k, decide (k < L.length)) := by
  induction rows generalizing xs with
  | nil =>
      have hk : fitLength conversation limit maxBytes (xs ++ [].map Row.message) = xs.length := by
        rw [map_nil, append_nil]
        refine fitLength_eq hxs le_rfl ?_ (.inr (.inl rfl))
        rw [take_length]
        exact hfits.imp_left fun h => by rw [h]; rfl
      dsimp only
      rw [hk, if_neg, map_nil, append_nil, take_length, collect]
      · simp
      · rw [map_nil, append_nil]
        rintro ⟨hzero, hne⟩
        exact hne (List.length_eq_zero_iff.1 hzero)
  | cons r rows ih =>
      have hL : xs ++ (r :: rows).map Row.message =
          (xs ++ [r.message]) ++ rows.map Row.message := by simp
      have htake : (xs ++ (r :: rows).map Row.message).take xs.length = xs := take_left
      have hmore : xs.length < (xs ++ (r :: rows).map Row.message).length := by simp
      have hne : xs ++ (r :: rows).map Row.message ≠ [] := by simp
      rw [collect]
      dsimp only
      split
      · next hfull =>
          have hxs' : xs ≠ [] := by
            rintro rfl
            rw [length_nil] at hfull
            omega
          have hk : fitLength conversation limit maxBytes (xs ++ (r :: rows).map Row.message) =
              xs.length :=
            fitLength_eq hxs hmore.le (.inr (by rw [htake]; exact hfits.resolve_left hxs')) (.inl hfull)
          rw [hk, if_neg fun h => hxs' (List.length_eq_zero_iff.1 h.1), htake, decide_eq_true hmore]
      · next hroom =>
          rw [← listBytes_concat]
          by_cases hover : maxBytes < listBytes conversation (xs ++ [r.message])
          · have hk : fitLength conversation limit maxBytes (xs ++ (r :: rows).map Row.message) =
                xs.length := by
              refine fitLength_eq hxs hmore.le ?_ (.inr (.inr ?_))
              · rw [htake]
                exact hfits.imp_left fun h => by rw [h]; rfl
              · have hnext : (xs ++ (r :: rows).map Row.message).take (xs.length + 1) =
                    xs ++ [r.message] := by
                  rw [hL]
                  exact take_left' (by simp)
                rw [hnext]
                exact hover
            rw [if_pos hover, hk, htake, decide_eq_true hmore]
            by_cases hxs' : xs = []
            · rw [if_pos hxs', if_pos ⟨by rw [hxs']; rfl, hne⟩]
            · rw [if_neg hxs', if_neg fun h => hxs' (List.length_eq_zero_iff.1 h.1)]
          · rw [if_neg hover, hL]
            exact ih (by rw [length_append, length_singleton]; omega)
              (.inr (Nat.le_of_not_lt hover))

/-- **What `_collect` cuts off**: the longest block that fits as a list. -/
theorem collect_eq (hlimit : 1 ≤ limit) :
    collect conversation limit maxBytes rows [] 2 =
      let L := rows.map Row.message
      let k := fitLength conversation limit maxBytes L
      if k = 0 ∧ L ≠ [] then .error "single message exceeds output byte budget"
      else .ok (L.take k, decide (k < L.length)) :=
  collect_from hlimit (Nat.zero_le _) (.inl rfl)

/-- The same from a cursor that is cut one behind the limit. -/
theorem collect_take (hlimit : 1 ≤ limit) :
    collect conversation limit maxBytes (rows.take (limit + 1)) [] 2 =
      let L := rows.map Row.message
      let k := fitLength conversation limit maxBytes L
      if k = 0 ∧ L ≠ [] then .error "single message exceeds output byte budget"
      else .ok (L.take k, decide (k < L.length)) := by
  rw [collect_eq hlimit, map_take]
  dsimp only
  rw [fitLength_take]
  generalize rows.map Row.message = L
  have hk : fitLength conversation limit maxBytes L ≤ limit := fitLength_le
  generalize fitLength conversation limit maxBytes L = k at hk ⊢
  have hempty : L.take (limit + 1) ≠ [] ↔ L ≠ [] := by
    simp only [ne_eq, take_eq_nil_iff]
    tauto
  have hmore : k < (L.take (limit + 1)).length ↔ k < L.length := by
    rw [length_take]
    omega
  rw [take_take, Nat.min_eq_left (by omega)]
  simp only [hempty, hmore]

/-- What a page collects. -/
theorem Indexed.collect_pageRows (h : Indexed c) (hlimit : 1 ≤ limit) :
    collect conversation limit maxBytes (c.pageRows principal readAll category ceiling limit) [] 2 =
      let L := (c.rowsBelow principal readAll category ceiling).map Row.message
      let k := fitLength conversation limit maxBytes L
      if k = 0 ∧ L ≠ [] then .error "single message exceeds output byte budget"
      else .ok (L.take k, decide (k < L.length)) := by
  rw [h.pageRows_eq]
  exact collect_take hlimit

end Conversation

end ArchHub.History

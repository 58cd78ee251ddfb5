import ArchHub.Work.Document

/-!
# Lists that meet in a node

A node may be fed several lists, and each wire says how its list is aligned with the others:
as it is, cut to the shortest, filled up to the longest, or crossed with them.

* `matchFeeds`: the alignment, for items of any kind.
* `lengthwise_shortest`, `lengthwise_longest_iff`, `crossed_iff`: what it gives.
* `feeds_match_iff`: **when the aligned lists match**.
* `feeds_mismatch`: lists that do not.
-/

namespace ArchHub.Work

open Lib List

/-! ## The alignment -/

/-- The choices that a wire has under a name. -/
def menu (name : String) : List String := (Assoc.find wireMenus name).getD []

/-- `wire_choice`. -/
def wireChoice (w : Wire) (name : String) : Except String String :=
  match field? w.rest name with
  | none | some .null | some (.str "") => .ok ((menu name).headD "")
  | some (.str held) =>
      if (menu name).contains held then .ok held
      else .error ("Wire " ++ name ++ " must be one of: " ++ ", ".intercalate (menu name))
  | some _ => .error ("Wire " ++ name ++ " must be one of: " ++ ", ".intercalate (menu name))

/-- What a wire carries. -/
inductive Carried (α : Type)
  | single (item : α)
  | list (items : List α)

/-- A row of the feeds: a wire, the socket that it feeds and what it carries. -/
structure Feed (α : Type) where
  wire : Wire
  target : String
  value : Carried α

/-- The lists among the feeds. -/
def lists {α : Type} : List (Feed α) → List (List α)
  | [] => []
  | row :: rows =>
      match row.value with
      | .single _ => lists rows
      | .list items => items :: lists rows

/-- A list among lists of some lengths, as its wire wants it. -/
def realigned {α : Type} (lengths : List ℕ) (mode : String) (original : List α) : List α :=
  let length := original.length
  let longest := lengths.max?.getD 0
  if mode = "Shortest" then original.take (lengths.min?.getD 0)
  else if mode = "Longest" && length ≠ 0 && length < longest then
    original ++ original.getLast?.toList.flatMap (List.replicate (longest - length))
  else if mode = "Cross" && length ≠ 0 then
    original.flatMap (List.replicate (lengths.prod / length))
  else original

/-- One row of `_match_feeds`. -/
def matchFeed {α : Type} (lengths : List ℕ) (row : Feed α) : Except String (Feed α) :=
  match row.value with
  | .single _ => .ok row
  | .list original => do
      let mode ← wireChoice row.wire "matching"
      .ok { row with value := .list (realigned lengths mode original) }

/-- `_match_feeds`. -/
def matchFeeds {α : Type} (rows : List (Feed α)) : Except String (List (Feed α)) :=
  if (lists rows).length < 2 then .ok rows
  else Check.collect (matchFeed ((lists rows).map List.length)) rows

/-! ## What is asked of it -/

variable {α β : Type} {lengths : List ℕ} {c : List α} {l : List α} {a : α} {i : ℕ}

/-- The lists that are zipped have one length, and index `i` of each is the item `i` of its
list, or the last one when it is exhausted. -/
def Lengthwise (ls outs : List (List α)) : Prop :=
  ∃ n, List.Forall₂ (fun l out => out.length = n ∧ ∀ i < n, out[i]? = (l[i]? <|> l.getLast?))
    ls outs

/-- The lists that are zipped have the length of the product, and every combination of one item
of each list is met just once. -/
def Crossed (ls outs : List (List α)) : Prop :=
  (∀ out ∈ outs, out.length = (ls.map List.length).prod) ∧
    ∀ c, List.Forall₂ (fun a l => a ∈ l) c ls →
      ∃! i : ℕ, List.Forall₂ (fun a out => out[i]? = some a) c outs

/-- What is carried, with every item changed. -/
def Carried.map (f : α → β) : Carried α → Carried β
  | .single item => .single (f item)
  | .list items => .list (items.map f)

/-- The occurrences of what is carried: items with their places. -/
def Carried.placed : Carried α → Carried (α × ℕ)
  | .single item => .single (item, 0)
  | .list items => .list items.zipIdx

/-- A row with what is carried changed. -/
def Feed.withValue (row : Feed α) (value : Carried β) : Feed β := ⟨row.wire, row.target, value⟩

/-- A row with the occurrences of its items. -/
def Feed.placed (row : Feed α) : Feed (α × ℕ) := row.withValue row.value.placed

/-- A row with the items of its occurrences. -/
def Feed.items (row : Feed (α × β)) : Feed α := row.withValue (row.value.map Prod.fst)

/-- When the aligned lists match. -/
def Matching (mode : String) (ls : List (List α)) : Prop :=
  (mode = "Longest" → [] ∉ ls ∨ ∀ l ∈ ls, l = []) ∧
    (mode = "Cross" → [] ∈ ls ∨ (ls.map List.length).countP (2 ≤ ·) ≤ 1)

/-! ## One list -/

section

variable {ls : List (List α)} {lengths : List ℕ} {l : List α}

theorem realigned_shortest (lengths : List ℕ) (l : List α) :
    realigned lengths "Shortest" l = l.take (lengths.min?.getD 0) := by
  unfold realigned
  exact if_pos rfl

theorem realigned_longest (lengths : List ℕ) (l : List α) :
    realigned lengths "Longest" l =
      if l.length ≠ 0 ∧ l.length < lengths.max?.getD 0 then
        l ++ l.getLast?.toList.flatMap (List.replicate (lengths.max?.getD 0 - l.length))
      else l := by
  unfold realigned
  simp

theorem realigned_cross (lengths : List ℕ) (l : List α) :
    realigned lengths "Cross" l = l.flatMap (List.replicate (lengths.prod / l.length)) := by
  unfold realigned
  cases l with
  | nil => rfl
  | cons a l => simp

/-- The alignment does not look at the items. -/
theorem realigned_map (f : α → β) (mode : String) :
    realigned lengths mode (l.map f) = (realigned lengths mode l).map f := by
  have hflatMap : ∀ (n : ℕ) (l : List α),
      (l.map f).flatMap (List.replicate n) = (l.flatMap (List.replicate n)).map f := by
    intro n l
    rw [flatMap_map, map_flatMap]
    refine flatMap_congr fun a _ => ?_
    rw [map_replicate]
  unfold realigned
  rw [length_map]
  dsimp only
  split
  · rw [map_take]
  · split
    · cases hlast : l.getLast? with
      | none => simp [hlast]
      | some a => simp [hlast]
    · split
      · rw [hflatMap]
      · rfl

end

/-! ## Shortest and longest -/

section

variable {ls : List (List α)}

theorem lengthwise_shortest :
    Lengthwise ls (ls.map (realigned (ls.map List.length) "Shortest")) := by
  refine ⟨(ls.map List.length).min?.getD 0, List.forall₂_map_right_iff.2 ?_⟩
  refine List.forall₂_same.2 fun l hl => ?_
  have hle : (ls.map List.length).min?.getD 0 ≤ l.length :=
    List.min?_getD_le_of_mem (mem_map_of_mem hl)
  rw [realigned_shortest]
  refine ⟨length_take_of_le hle, fun i hi => ?_⟩
  rw [List.getElem?_take_of_lt hi, List.getElem?_eq_getElem (lt_of_lt_of_le hi hle)]
  rfl

/-- A list that holds something is filled up with its last item. -/
theorem realigned_longest_spec (hl : l ∈ ls) (hne : l ≠ []) :
    (realigned (ls.map List.length) "Longest" l).length = (ls.map List.length).max?.getD 0 ∧
      ∀ i < (ls.map List.length).max?.getD 0,
        (realigned (ls.map List.length) "Longest" l)[i]? = (l[i]? <|> l.getLast?) := by
  have hle : l.length ≤ (ls.map List.length).max?.getD 0 :=
    List.le_max?_getD_of_mem (mem_map_of_mem hl)
  obtain ⟨a, hlast⟩ : ∃ a, l.getLast? = some a := ⟨_, List.getLast?_eq_some_getLast hne⟩
  have hpos : l.length ≠ 0 := fun h => hne (List.length_eq_zero_iff.1 h)
  rw [realigned_longest]
  generalize (ls.map List.length).max?.getD 0 = longest at hle ⊢
  by_cases hlt : l.length < longest
  · rw [if_pos ⟨hpos, hlt⟩, hlast, Option.toList_some, flatMap_cons, flatMap_nil, append_nil]
    refine ⟨by rw [length_append, length_replicate]; omega, fun i hi => ?_⟩
    rcases Nat.lt_or_ge i l.length with hin | hout
    · rw [List.getElem?_append_left hin, List.getElem?_eq_getElem hin]
      rfl
    · rw [List.getElem?_append_right hout, List.getElem?_replicate_of_lt (by omega),
        List.getElem?_eq_none hout]
      rfl
  · rw [if_neg fun h => hlt h.2]
    obtain rfl : l.length = longest := le_antisymm hle (not_lt.1 hlt)
    refine ⟨rfl, fun i hi => ?_⟩
    rw [List.getElem?_eq_getElem hi]
    rfl

/-- **The longest lists match** if and only if none is empty beside one that is not. -/
theorem lengthwise_longest_iff :
    Lengthwise ls (ls.map (realigned (ls.map List.length) "Longest")) ↔
      [] ∉ ls ∨ ∀ l ∈ ls, l = [] := by
  constructor
  · rintro ⟨n, hall⟩
    rw [forall₂_map_right_iff, forall₂_same] at hall
    by_cases hmem : [] ∈ ls
    · right
      intro l hl
      -- the empty list stays empty, and so the others are as long as it
      have hempty := (hall [] hmem).1
      rw [realigned_longest, if_neg fun h => h.1 rfl] at hempty
      by_contra hne
      have hlength := (hall l hl).1
      rw [(realigned_longest_spec hl hne).1, ← hempty] at hlength
      have hle : l.length ≤ (ls.map List.length).max?.getD 0 :=
        List.le_max?_getD_of_mem (mem_map_of_mem hl)
      exact hne (List.length_eq_zero_iff.1 (Nat.le_zero.1 (hle.trans_eq hlength)))
    · exact .inl hmem
  · rintro (hne | hempty)
    · refine ⟨(ls.map List.length).max?.getD 0, List.forall₂_map_right_iff.2
        (List.forall₂_same.2 fun l hl => ?_)⟩
      exact realigned_longest_spec hl fun h => hne (h ▸ hl)
    · refine ⟨0, List.forall₂_map_right_iff.2 (List.forall₂_same.2 fun l hl => ?_)⟩
      obtain rfl := hempty l hl
      rw [realigned_longest, if_neg fun h => h.1 rfl]
      exact ⟨rfl, fun i hi => absurd hi (Nat.not_lt_zero i)⟩

end

/-! ## Products of lengths -/

section

variable {ns : List ℕ}

/-- Where at most one length is more than one, each of the others is one. -/
theorem length_cases (hpos : ∀ n ∈ ns, 1 ≤ n) (hcount : ns.countP (2 ≤ ·) ≤ 1) :
    ∀ n ∈ ns, n = 1 ∨ n = ns.prod := by
  induction ns with
  | nil => exact fun n hn => absurd hn not_mem_nil
  | cons m ns ih =>
    rw [forall_mem_cons] at hpos
    by_cases hm : 2 ≤ m
    · rw [countP_cons_of_pos (by simpa using hm)] at hcount
      have hones : ∀ n ∈ ns, n = 1 := by
        intro n hn
        have hnone := List.countP_eq_zero.1 (Nat.le_zero.1 (Nat.le_of_succ_le_succ hcount)) n hn
        have := hpos.2 n hn
        simp only [decide_eq_true_eq] at hnone
        omega
      rw [prod_cons, prod_eq_one hones, mul_one, forall_mem_cons]
      exact ⟨.inr rfl, fun n hn => .inl (hones n hn)⟩
    · rw [countP_cons_of_neg (by simpa using hm)] at hcount
      obtain rfl : m = 1 := by omega
      rw [prod_cons, one_mul, forall_mem_cons]
      exact ⟨.inl rfl, ih hpos.2 hcount⟩

theorem le_prod (hpos : ∀ n ∈ ns, 1 ≤ n) {n : ℕ} (hn : n ∈ ns) : n ≤ ns.prod :=
  Nat.le_of_dvd (prod_pos fun m hm => hpos m hm) (dvd_prod hn)

/-- Where two lengths are more than one, the product is at least twice each of them. -/
theorem two_mul_le_prod (hpos : ∀ n ∈ ns, 1 ≤ n) (hcount : 2 ≤ ns.countP (2 ≤ ·)) :
    ∀ n ∈ ns, 2 * n ≤ ns.prod := by
  induction ns with
  | nil => exact fun n hn => absurd hn not_mem_nil
  | cons m ns ih =>
    rw [forall_mem_cons] at hpos
    rw [prod_cons, forall_mem_cons]
    by_cases hm : 2 ≤ m
    · rw [countP_cons_of_pos (by simpa using hm)] at hcount
      obtain ⟨k, hk, htwo⟩ := List.countP_pos_iff.1 (Nat.le_of_succ_le_succ hcount)
      rw [decide_eq_true_iff] at htwo
      have hprod : 2 ≤ ns.prod := htwo.trans (le_prod hpos.2 hk)
      refine ⟨?_, fun n hn => Nat.mul_le_mul hm (le_prod hpos.2 hn)⟩
      rw [mul_comm]
      exact Nat.mul_le_mul_left m hprod
    · rw [countP_cons_of_neg (by simpa using hm)] at hcount
      obtain rfl : m = 1 := by omega
      rw [one_mul]
      refine ⟨?_, ih hpos.2 hcount⟩
      obtain ⟨k, hk, htwo⟩ := List.countP_pos_iff.1 (lt_of_lt_of_le Nat.zero_lt_two hcount)
      rw [decide_eq_true_iff] at htwo
      exact htwo.trans (le_prod hpos.2 hk)

end

/-! ## Crossing -/

section

variable {ls : List (List α)} {l : List α} {n : ℕ}

theorem length_flatMap_replicate (l : List α) (k : ℕ) :
    (l.flatMap (List.replicate k)).length = l.length * k := by
  induction l with
  | nil => rw [flatMap_nil, length_nil, zero_mul]
  | cons a l ih =>
    rw [flatMap_cons, length_append, length_replicate, ih, length_cons]
    ring

theorem length_realigned_cross (hl : l.length ∈ lengths) :
    (realigned lengths "Cross" l).length = lengths.prod := by
  rw [realigned_cross, length_flatMap_replicate, Nat.mul_div_cancel' (dvd_prod hl)]

/-- A list of one item gives it everywhere. -/
theorem getElem?_single (hi : i < n) :
    ([a].flatMap (List.replicate (n / [a].length)))[i]? = some a := by
  simp [hi]

/-- A list of the full length stays. -/
theorem flatMap_full (hpos : 0 < l.length) :
    l.flatMap (List.replicate (l.length / l.length)) = l := by
  rw [Nat.div_self hpos]
  exact flatMap_singleton' l

/-- Where every list has one item, all are met at any place. -/
theorem met_of_singles (hc : List.Forall₂ (fun a l => a ∈ l) c ls) (hone : ∀ l ∈ ls, l.length = 1)
    (hi : i < lengths.prod) :
    List.Forall₂ (fun a out => out[i]? = some a) c (ls.map (realigned lengths "Cross")) := by
  induction hc with
  | nil => exact .nil
  | @cons a l c ls ha hc ih =>
    rw [forall_mem_cons] at hone
    obtain ⟨b, rfl⟩ := List.length_eq_one_iff.1 hone.1
    obtain rfl := List.mem_singleton.1 ha
    refine .cons ?_ (ih hone.2)
    rw [realigned_cross]
    exact getElem?_single hi

/-- With one list of the full length beside single items, a combination is met where its item
stands in that list. -/
theorem met_of_one_long (hc : List.Forall₂ (fun a l => a ∈ l) c ls) (htwo : 2 ≤ lengths.prod)
    (hcases : ∀ l ∈ ls, l.length = 1 ∨ l.length = lengths.prod)
    (hcount : (ls.map List.length).countP (2 ≤ ·) = 1) :
    ∃ i < lengths.prod, List.Forall₂ (fun a out => out[i]? = some a) c
      (ls.map (realigned lengths "Cross")) := by
  induction hc with
  | nil => cases hcount
  | @cons a l c ls ha hc ih =>
    rw [forall_mem_cons] at hcases
    rw [map_cons] at hcount
    rcases hcases.1 with hone | hfull
    · obtain ⟨b, rfl⟩ := List.length_eq_one_iff.1 hone
      obtain rfl := List.mem_singleton.1 ha
      rw [countP_cons_of_neg (by simp)] at hcount
      obtain ⟨i, hlt, hi⟩ := ih hcases.2 hcount
      refine ⟨i, hlt, .cons ?_ hi⟩
      rw [realigned_cross]
      exact getElem?_single hlt
    · rw [countP_cons_of_pos (by simpa using hfull ▸ htwo), Nat.add_eq_right] at hcount
      have hone : ∀ l ∈ ls, l.length = 1 := by
        intro l hl
        have hnot := List.countP_eq_zero.1 hcount _ (mem_map_of_mem hl)
        rcases hcases.2 l hl with hone | hfull
        · exact hone
        · exact absurd (decide_eq_true (hfull ▸ htwo)) hnot
      obtain ⟨i, hi⟩ := mem_iff_getElem?.1 ha
      have hlt : i < lengths.prod := hfull ▸ (List.getElem?_eq_some_iff.1 hi).1
      refine ⟨i, hlt, .cons ?_ (met_of_singles hc hone hlt)⟩
      rw [realigned_cross, ← hfull, flatMap_full (by omega)]
      exact hi

/-- What the first two places of a list hold that is repeated. -/
theorem realigned_cross_twice (htwo : 2 * (a :: l).length ≤ lengths.prod) :
    (realigned lengths "Cross" (a :: l))[0]? = some a ∧
      (realigned lengths "Cross" (a :: l))[1]? = some a := by
  obtain ⟨k, hk⟩ : ∃ k, lengths.prod / (a :: l).length = k + 2 :=
    ⟨_, (Nat.sub_add_cancel ((Nat.le_div_iff_mul_le (Nat.succ_pos _)).2 htwo)).symm⟩
  rw [realigned_cross, hk, flatMap_cons, replicate_succ, replicate_succ]
  exact ⟨rfl, rfl⟩

/-- Where the product is twice as long as each list, a combination stands at the places 0 and 1. -/
theorem met_twice (hempty : [] ∉ ls) (htwo : ∀ l ∈ ls, 2 * l.length ≤ lengths.prod) :
    ∃ c, List.Forall₂ (fun a l => a ∈ l) c ls ∧ ∀ i < 2,
      List.Forall₂ (fun a out => out[i]? = some a) c (ls.map (realigned lengths "Cross")) := by
  induction ls with
  | nil => exact ⟨[], .nil, fun _ _ => .nil⟩
  | cons l ls ih =>
    rw [mem_cons, not_or] at hempty
    rw [forall_mem_cons] at htwo
    obtain ⟨c, hmem, hmet⟩ := ih hempty.2 htwo.2
    cases l with
    | nil => exact absurd rfl hempty.1
    | cons a l =>
      obtain ⟨hzero, hone⟩ := realigned_cross_twice htwo.1
      refine ⟨a :: c, .cons mem_cons_self hmem, fun i hi => .cons ?_ (hmet i hi)⟩
      obtain rfl | rfl : i = 0 ∨ i = 1 := by omega
      · exact hzero
      · exact hone

theorem exists_of_forall₂ {R S : α → β → Prop} {xs : List β} {x : β} (hR : List.Forall₂ R c xs)
    (hS : List.Forall₂ S c xs) (hx : x ∈ xs) : ∃ a, R a x ∧ S a x := by
  induction hR with
  | nil => exact absurd hx not_mem_nil
  | cons hr _ ih =>
    cases hS with
    | cons hs hS =>
      rcases List.mem_cons.1 hx with rfl | hx
      · exact ⟨_, hr, hs⟩
      · exact ih hS hx

/-- With at most one list of more than one item, every combination is met at one place. -/
theorem met_once (hne : ls ≠ []) (hnodup : ∀ l ∈ ls, l.Nodup)
    (hpos : ∀ n ∈ ls.map List.length, 1 ≤ n) (hcount : (ls.map List.length).countP (2 ≤ ·) ≤ 1)
    (hc : List.Forall₂ (fun a l => a ∈ l) c ls) :
    ∃! i : ℕ, List.Forall₂ (fun a out => out[i]? = some a) c
      (ls.map (realigned (ls.map List.length) "Cross")) := by
  have hcases := length_cases hpos hcount
  rw [forall_mem_map] at hcases
  rcases Nat.lt_or_ge (ls.map List.length).prod 2 with hlt | htwo
  · -- all lists have one item
    have hprod : (ls.map List.length).prod = 1 :=
      le_antisymm (Nat.le_of_lt_succ hlt) (prod_pos fun n hn => hpos n hn)
    have hone : ∀ l ∈ ls, l.length = 1 := fun l hl => (hcases l hl).elim id fun h => h.trans hprod
    refine ⟨0, met_of_singles hc hone (by omega), fun j hj => ?_⟩
    obtain ⟨l, hl⟩ := exists_mem_of_ne_nil _ hne
    obtain ⟨a, ha, -⟩ := exists_of_forall₂ hj hj (mem_map_of_mem hl)
    have hlength := length_realigned_cross (mem_map_of_mem (f := List.length) hl)
    have := (List.getElem?_eq_some_iff.1 ha).1
    omega
  · -- one list is as long as the product, and it stays
    obtain ⟨l, hl, hfull⟩ : ∃ l ∈ ls, l.length = (ls.map List.length).prod := by
      by_contra hnone
      have hone : ∀ n ∈ ls.map List.length, n = 1 := by
        rw [forall_mem_map]
        exact fun l hl => (hcases l hl).resolve_right fun h => hnone ⟨l, hl, h⟩
      rw [prod_eq_one hone] at htwo
      omega
    have hcount' : (ls.map List.length).countP (2 ≤ ·) = 1 := by
      refine le_antisymm hcount (List.countP_pos_iff.2 ⟨_, mem_map_of_mem hl, ?_⟩)
      exact decide_eq_true (hfull ▸ htwo)
    obtain ⟨i, -, hi⟩ := met_of_one_long hc htwo hcases hcount'
    refine ⟨i, hi, fun j hj => ?_⟩
    obtain ⟨a, hai, haj⟩ := exists_of_forall₂ hi hj (mem_map_of_mem hl)
    rw [realigned_cross, ← hfull, flatMap_full (by omega)] at hai haj
    obtain ⟨hlt, hgeti⟩ := List.getElem?_eq_some_iff.1 hai
    obtain ⟨_, hgetj⟩ := List.getElem?_eq_some_iff.1 haj
    exact ((hnodup l hl).getElem_inj_iff.1 (hgeti.trans hgetj.symm)).symm

/-- **The crossed lists give every combination just once** if and only if one list is empty, or at
most one has more than one item. -/
theorem crossed_iff (hne : ls ≠ []) (hnodup : ∀ l ∈ ls, l.Nodup) :
    Crossed ls (ls.map (realigned (ls.map List.length) "Cross")) ↔
      [] ∈ ls ∨ (ls.map List.length).countP (2 ≤ ·) ≤ 1 := by
  have hlengths : ∀ out ∈ ls.map (realigned (ls.map List.length) "Cross"),
      out.length = (ls.map List.length).prod := by
    rw [forall_mem_map]
    exact fun l hl => length_realigned_cross (mem_map_of_mem hl)
  by_cases hempty : [] ∈ ls
  · refine iff_of_true ⟨hlengths, fun c hc => ?_⟩ (.inl hempty)
    -- there are no combinations
    obtain ⟨a, ha, -⟩ := exists_of_forall₂ hc hc hempty
    exact absurd ha not_mem_nil
  have hpos : ∀ n ∈ ls.map List.length, 1 ≤ n := by
    rw [forall_mem_map]
    intro l hl
    exact List.length_pos_iff.2 fun h => hempty (h ▸ hl)
  rw [or_iff_right hempty]
  constructor
  · rintro ⟨-, honce⟩
    by_contra hmany
    have htwo := two_mul_le_prod hpos (not_le.1 hmany)
    rw [forall_mem_map] at htwo
    obtain ⟨c, hc, hmet⟩ := met_twice hempty htwo
    have heq := (honce c hc).unique (hmet 0 Nat.zero_lt_two) (hmet 1 Nat.one_lt_two)
    exact absurd heq Nat.zero_ne_one
  · exact fun hcount => ⟨hlengths, fun c hc => met_once hne hnodup hpos hcount hc⟩

end

/-! ## The rows -/

section

variable {rows : List (Feed α)} {mode : String}

/-- What a row with a list becomes. -/
def Feed.realigned (lengths : List ℕ) (mode : String) (row : Feed α) : Feed α :=
  match row.value with
  | .single _ => row
  | .list items => { row with value := .list (Work.realigned lengths mode items) }

theorem collect_realigned (hmode : ∀ row ∈ rows, ∀ l, row.value = .list l →
    wireChoice row.wire "matching" = .ok mode) :
    Check.collect (matchFeed lengths) rows = .ok (rows.map (Feed.realigned lengths mode)) := by
  rw [Check.collect_ok_iff, forall₂_map_right_iff, forall₂_same]
  intro row hrow
  unfold matchFeed Feed.realigned
  cases hvalue : row.value with
  | single item => rfl
  | list items =>
    show (do
      let mode ← wireChoice row.wire "matching"
      Except.ok _) = _
    rw [hmode row hrow items hvalue]
    rfl

theorem matchFeeds_eq (hlists : 2 ≤ (lists rows).length)
    (hmode : ∀ row ∈ rows, ∀ l, row.value = .list l →
      wireChoice row.wire "matching" = .ok mode) :
    matchFeeds rows = .ok (rows.map (Feed.realigned ((lists rows).map List.length) mode)) := by
  unfold matchFeeds
  rw [if_neg (not_lt.2 hlists), collect_realigned hmode]

theorem lists_realigned (lengths : List ℕ) (mode : String) (rows : List (Feed α)) :
    lists (rows.map (Feed.realigned lengths mode)) = (lists rows).map (realigned lengths mode) := by
  induction rows with
  | nil => rfl
  | cons row rows ih =>
    obtain ⟨wire, target, value⟩ := row
    cases value with
    | single item => exact ih
    | list items => exact congrArg (realigned lengths mode items :: ·) ih

theorem lists_placed (rows : List (Feed α)) :
    lists (rows.map Feed.placed) = (lists rows).map (List.zipIdx ·) := by
  induction rows with
  | nil => rfl
  | cons row rows ih =>
    obtain ⟨wire, target, value⟩ := row
    cases value with
    | single item => exact ih
    | list items => exact congrArg (items.zipIdx :: ·) ih

theorem lengths_placed (rows : List (Feed α)) :
    (lists (rows.map Feed.placed)).map List.length = (lists rows).map List.length := by
  rw [lists_placed, map_map]
  exact map_congr_left fun l _ => length_zipIdx

/-- The occurrences are aligned as the items are. -/
theorem items_realigned_placed (lengths : List ℕ) (mode : String) (row : Feed α) :
    (row.placed.realigned lengths mode).items = row.realigned lengths mode := by
  obtain ⟨wire, target, value⟩ := row
  cases value with
  | single item => rfl
  | list items =>
    show Feed.mk wire target (.list ((realigned lengths mode items.zipIdx).map Prod.fst)) =
      Feed.mk wire target (.list (realigned lengths mode items))
    rw [← realigned_map, zipIdx_map_fst]

/-- **When the aligned lists match.**  Where two lists or more meet in a node and all their wires
choose the same mode, `Shortest`, `Longest` or `Cross`, the lists are zipped as the mode says if and
only if they are `Matching`: no list is empty beside one that is not, for `Longest`; one is empty
or at most one has more than one item, for `Cross`.  A combination is one of occurrences, that is
of items with their places. -/
theorem feeds_match_iff (hlists : 2 ≤ (lists rows).length)
    (hmode : ∀ row ∈ rows, ∀ l, row.value = .list l →
      wireChoice row.wire "matching" = .ok mode) :
    ∃ outs, matchFeeds (rows.map Feed.placed) = .ok outs ∧
      matchFeeds rows = .ok (outs.map Feed.items) ∧
      ((mode = "Shortest" ∨ mode = "Longest" →
          Lengthwise (lists rows) (lists (outs.map Feed.items))) ∧
        (mode = "Cross" → Crossed (lists (rows.map Feed.placed)) (lists outs)) ↔
        Matching mode (lists rows)) := by
  have hplaced := lengths_placed rows
  have hlists' : 2 ≤ (lists (rows.map Feed.placed)).length := by
    rwa [← List.length_map (f := List.length), hplaced, List.length_map]
  have hmode' : ∀ row ∈ rows.map Feed.placed, ∀ l, row.value = .list l →
      wireChoice row.wire "matching" = .ok mode := by
    rw [List.forall_mem_map]
    rintro ⟨wire, target, value⟩ hrow l hl
    cases value with
    | single item => cases hl
    | list items => exact hmode _ hrow items rfl
  refine ⟨_, matchFeeds_eq hlists' hmode', ?_, ?_⟩
  · rw [matchFeeds_eq hlists hmode, hplaced, List.map_map, List.map_map]
    exact congrArg _ (List.map_congr_left fun row _ => (items_realigned_placed _ mode row).symm)
  have hitems : (((rows.map Feed.placed).map (Feed.realigned
      ((lists (rows.map Feed.placed)).map List.length) mode)).map Feed.items) =
      rows.map (Feed.realigned ((lists rows).map List.length) mode) := by
    rw [hplaced, List.map_map, List.map_map]
    exact List.map_congr_left fun row _ => items_realigned_placed _ mode row
  rw [hitems, lists_realigned, lists_realigned]
  have hnodup : ∀ l ∈ lists (rows.map Feed.placed), l.Nodup := by
    rw [lists_placed, List.forall_mem_map]
    intro l _
    refine List.Nodup.of_map Prod.snd ?_
    rw [List.zipIdx_map_snd]
    exact List.nodup_range'
  have hne : lists (rows.map Feed.placed) ≠ [] := by
    intro hnil
    rw [hnil] at hlists'
    cases hlists'
  have hempty : [] ∈ lists (rows.map Feed.placed) ↔ [] ∈ lists rows := by
    rw [lists_placed, List.mem_map]
    constructor
    · rintro ⟨l, hl, hnil⟩
      rwa [List.zipIdx_eq_nil_iff.1 hnil] at hl
    · exact fun h => ⟨[], h, rfl⟩
  have hlongest := @lengthwise_longest_iff α (lists rows)
  have hcross := crossed_iff hne hnodup
  rw [hempty, hplaced] at hcross
  rw [hplaced]
  constructor
  · rintro ⟨hwise, hcrossed⟩
    constructor
    · rintro rfl
      exact hlongest.1 (hwise (.inr rfl))
    · rintro rfl
      exact hcross.1 (hcrossed rfl)
  · rintro ⟨hwise, hcrossed⟩
    constructor
    · rintro (rfl | rfl)
      · exact lengthwise_shortest
      · exact hlongest.2 (hwise rfl)
    · rintro rfl
      exact hcross.2 (hcrossed rfl)

/-- A wire that crosses, fills up or cuts. -/
def matchingWire (mode : String) : Wire where
  id := "w"
  source := ⟨"a", "value"⟩
  target := ⟨"b", "in"⟩
  inferred := none
  agentOwner := none
  rest := [("matching", .str mode)]

/-- Two lists that meet. -/
def twoFeeds (mode : String) (l m : List ℕ) : List (Feed ℕ) :=
  [⟨matchingWire mode, "a", .list l⟩, ⟨matchingWire mode, "b", .list m⟩]

theorem twoFeeds_mode {mode : String} (hmode : wireChoice (matchingWire mode) "matching" = .ok mode)
    (l m : List ℕ) : ∀ row ∈ twoFeeds mode l m, ∀ l', row.value = .list l' →
      wireChoice row.wire "matching" = .ok mode := by
  intro row hrow l' _
  rcases List.mem_pair.1 hrow with rfl | rfl
  · exact hmode
  · exact hmode

/-- Three items crossed with one. -/
theorem feeds_match_sample : ∃ outs,
    matchFeeds ((twoFeeds "Cross" [1, 2, 3] [4]).map Feed.placed) = .ok outs ∧
      Crossed (lists ((twoFeeds "Cross" [1, 2, 3] [4]).map Feed.placed)) (lists outs) := by
  obtain ⟨outs, houts, -, hiff⟩ := @feeds_match_iff ℕ
    (twoFeeds "Cross" [1, 2, 3] [4]) "Cross" (by decide) (twoFeeds_mode rfl _ _)
  exact ⟨outs, houts, (hiff.2 ⟨fun h => absurd h (by decide), fun _ => .inr (by decide)⟩).2 rfl⟩

/-- **Lists that do not match**: two of two items are crossed so that no first item meets the
second item of the other list, and an empty list is not filled up. -/
theorem feeds_mismatch :
    (∃ outs, matchFeeds (twoFeeds "Cross" [1, 2] [3, 4]) = .ok outs ∧
      lists outs = [[1, 1, 2, 2], [3, 3, 4, 4]] ∧
      ¬Crossed (lists (twoFeeds "Cross" [1, 2] [3, 4])) (lists outs)) ∧
    ∃ outs, matchFeeds (twoFeeds "Longest" [1] []) = .ok outs ∧ lists outs = [[1], []] ∧
      ¬Lengthwise (lists (twoFeeds "Longest" [1] [])) (lists outs) := by
  refine ⟨⟨_, rfl, rfl, ?_⟩, _, rfl, rfl, ?_⟩
  · rintro ⟨-, honce⟩
    -- no place has the first item of one list and the second of the other
    obtain ⟨i, hi, -⟩ := honce [1, 4] (.cons (by decide) (.cons (by decide) .nil))
    have hone : ([1, 1, 2, 2] : List ℕ)[i]? = some 1 := (List.forall₂_cons.1 hi).1
    have hfour : ([3, 3, 4, 4] : List ℕ)[i]? = some 4 :=
      (List.forall₂_cons.1 (List.forall₂_cons.1 hi).2).1
    rcases i with _ | _ | _ | _ | i
    · cases hfour
    · cases hfour
    · cases hone
    · cases hone
    · cases hone
  · rintro ⟨n, hall⟩
    have hone : ([1] : List ℕ).length = n := (List.forall₂_cons.1 hall).1.1
    have hnil : ([] : List ℕ).length = n :=
      (List.forall₂_cons.1 (List.forall₂_cons.1 hall).2).1.1
    cases hone.trans hnil.symm

end

end ArchHub.Work

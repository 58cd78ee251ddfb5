import Mathlib
import ArchHub.Lib.Dict
import ArchHub.Lib.Newest

/-!
# Rows under a key

A table is the list of its rows, oldest first, and `key` is its primary key.  The statements on
one row (`select`, `update`, `delete`) and the two clauses of a query that order its answer and
cut it (`orderBy`, `take`) are functions of the list.

A dictionary *mirrors* a table when it holds the rows of the table under their keys, in the order
of the rows (`Mirrors`).  Each statement on one row has its dictionary operation, and the two
stay mirrored (`Mirrors.insert`, `Mirrors.update`, `Mirrors.delete`); this is what remains to be
said of a store that is written once over tables and once over dictionaries.

An iteration of the dictionary answers the table's query only when its rows came in the order
that the query asks for (`take_orderBy_iff`).
-/

namespace Lib

open List

namespace Rows

universe u v w

variable {ρ : Type u} {κ : Type v} {ν : Type w} [DecidableEq κ] {key : ρ → κ} {val : ρ → ν}
  {rows : List ρ} {d : Dict κ ν} {k : κ} {r x : ρ}

/-! ## Statements on one row -/

/-- `SELECT * WHERE key = k`. -/
def select (key : ρ → κ) (k : κ) (rows : List ρ) : Option ρ := rows.find? fun r => key r = k

/-- `UPDATE SET f WHERE key = k`. -/
def update (key : ρ → κ) (k : κ) (f : ρ → ρ) (rows : List ρ) : List ρ :=
  rows.map fun r => if key r = k then f r else r

/-- `DELETE WHERE key = k`. -/
def delete (key : ρ → κ) (k : κ) (rows : List ρ) : List ρ := rows.filter fun r => key r ≠ k

theorem key_of_select (h : select key k rows = some r) : key r = k := by
  have hkey := List.find?_some h
  exact of_decide_eq_true hkey

theorem mem_of_select (h : select key k rows = some r) : r ∈ rows :=
  List.mem_of_find?_eq_some h

theorem select_eq_none : select key k rows = none ↔ ∀ r ∈ rows, key r ≠ k := by
  simp [select]

/-- A row is the one under its key. -/
theorem select_of_mem (hnodup : (rows.map key).Nodup) (hr : r ∈ rows) :
    select key (key r) rows = some r := by
  induction rows with
  | nil => cases hr
  | cons x rows ih =>
      obtain ⟨hx, hrows⟩ := List.nodup_cons.1 hnodup
      rcases List.mem_cons.1 hr with rfl | hmem
      · simp [select]
      · have hne : key x ≠ key r := fun heq => hx (List.mem_map.2 ⟨r, hmem, heq.symm⟩)
        have hrest := ih hrows hmem
        unfold select at hrest ⊢
        rw [List.find?_cons_of_neg (by simpa using hne)]
        exact hrest

/-- Under keys without repetition the row of a key is the one that has it. -/
theorem select_eq_some (hnodup : (rows.map key).Nodup) :
    select key k rows = some r ↔ r ∈ rows ∧ key r = k :=
  ⟨fun h => ⟨mem_of_select h, key_of_select h⟩, fun ⟨hr, hk⟩ => hk ▸ select_of_mem hnodup hr⟩

/-- A selection of the rows keeps a row or loses it. -/
theorem select_filter (hnodup : (rows.map key).Nodup) (q : ρ → Bool) (k : κ) :
    select key k (rows.filter q) = (select key k rows).filter q := by
  have hfilter : ((rows.filter q).map key).Nodup := hnodup.sublist (List.filter_sublist.map _)
  ext r
  rw [select_eq_some hfilter, Option.filter_eq_some_iff, select_eq_some hnodup, mem_filter]
  tauto

@[simp] theorem select_nil (k : κ) : select key k [] = none := rfl

/-- A new row is found under its key. -/
theorem select_append (r : ρ) (h : select key (key r) rows = none) (k : κ) :
    select key k (rows ++ [r]) = if k = key r then some r else select key k rows := by
  by_cases hk : k = key r
  · subst hk
    unfold select at h ⊢
    rw [List.find?_append, h, if_pos rfl]
    simp
  · have hne : ¬key r = k := fun heq => hk heq.symm
    unfold select
    rw [List.find?_append, if_neg hk]
    simp [hne]

/-- An updated row is found under its key, the others as before. -/
theorem select_update {f : ρ → ρ} (hf : ∀ r, key r = k → key (f r) = k) (k' : κ) :
    select key k' (update key k f rows) =
      if k' = k then (select key k rows).map f else select key k' rows := by
  have hcomp : (fun r => decide (key (if key r = k then f r else r) = k')) =
      fun r => decide (key r = k') := by
    funext r
    by_cases hr : key r = k
    · rw [if_pos hr, hf r hr, hr]
    · rw [if_neg hr]
  unfold select update
  rw [List.find?_map]
  simp only [Function.comp_def, hcomp]
  by_cases hk : k' = k
  · subst hk
    rw [if_pos rfl]
    cases hfind : rows.find? fun r => decide (key r = k') with
    | none => rfl
    | some r => simp [key_of_select hfind]
  · rw [if_neg hk]
    cases hfind : rows.find? fun r => decide (key r = k') with
    | none => rfl
    | some r =>
        have hne : key r ≠ k := fun heq => hk ((key_of_select hfind).symm.trans heq)
        simp [hne]

/-- A row of an updated table was updated, or is as it was. -/
theorem cases_update {f : ρ → ρ} (hx : x ∈ update key k f rows) :
    (∃ r ∈ rows, key r = k ∧ x = f r) ∨ (x ∈ rows ∧ key x ≠ k) := by
  obtain ⟨r, hr, rfl⟩ := List.mem_map.1 hx
  by_cases hk : key r = k
  · exact .inl ⟨r, hr, hk, if_pos hk⟩
  · rw [if_neg hk]
    exact .inr ⟨hr, hk⟩

theorem mem_update_of_ne {f : ρ → ρ} (hx : x ∈ rows) (hk : key x ≠ k) :
    x ∈ update key k f rows := List.mem_map.2 ⟨x, hx, if_neg hk⟩

theorem mem_update_of_eq {f : ρ → ρ} (hx : x ∈ rows) (hk : key x = k) :
    f x ∈ update key k f rows := List.mem_map.2 ⟨x, hx, if_pos hk⟩

/-- An update that leaves the key leaves the keys. -/
theorem map_key_update {f : ρ → ρ} (hf : ∀ r, key (f r) = key r) :
    (update key k f rows).map key = rows.map key := by
  unfold update
  rw [map_map]
  refine map_congr_left fun r _ => ?_
  rw [Function.comp_apply]
  split
  · exact hf r
  · rfl

theorem select_delete (k k' : κ) :
    select key k' (delete key k rows) = if k' = k then none else select key k' rows := by
  unfold select delete
  rw [List.find?_filter]
  by_cases hk : k' = k
  · subst hk
    rw [if_pos rfl, List.find?_eq_none]
    intro r _ hr
    simp at hr
  · rw [if_neg hk]
    congr 1
    funext r
    by_cases hr : key r = k'
    · simp [hr, hk]
    · simp [hr]

/-! ## Tables mirrored by dictionaries -/

/-- The dictionary holds the rows under their keys, in the order of the rows. -/
def Mirrors (key : ρ → κ) (val : ρ → ν) (rows : List ρ) (d : Dict κ ν) : Prop :=
  d.entries = rows.map fun r => (key r, val r)

omit [DecidableEq κ] in
theorem mirrors_nil : Mirrors key val [] (Dict.empty : Dict κ ν) := rfl

namespace Mirrors

omit [DecidableEq κ] in
theorem nodup (h : Mirrors key val rows d) : (rows.map key).Nodup := by
  have hkeys := d.nodup
  rw [h, map_map] at hkeys
  exact hkeys

omit [DecidableEq κ] in
theorem values (h : Mirrors key val rows d) : d.values = rows.map val := by
  unfold Dict.values
  rw [h, map_map]
  rfl

/-- The dictionary is read as the table is selected from. -/
theorem get? (h : Mirrors key val rows d) (k : κ) : d.get? k = (select key k rows).map val := by
  unfold Dict.get?
  rw [h]
  unfold select
  clear h
  induction rows with
  | nil => rfl
  | cons r rows ih =>
      rw [map_cons, Assoc.find_cons]
      by_cases hk : key r = k
      · simp [hk]
      · simp [hk, ih]

theorem insert (h : Mirrors key val rows d) (hnew : select key (key r) rows = none) :
    Mirrors key val (rows ++ [r]) (d.set (key r) (val r)) := by
  have hnone : d.get? (key r) = none := by rw [h.get?, hnew, Option.map_none]
  unfold Mirrors
  rw [Dict.entries_set_of_new hnone, h, map_append, map_singleton]

/-- An assignment to a present key is an update of its row. -/
theorem update (h : Mirrors key val rows d) {f : ρ → ρ} (hr : select key k rows = some r)
    (hkey : key (f r) = k) : Mirrors key val (Rows.update key k f rows) (d.set k (val (f r))) := by
  have hnodup := h.nodup
  unfold Mirrors at h ⊢
  unfold Dict.set Rows.update
  simp only [h, map_map]
  clear h
  induction rows with
  | nil => cases hr
  | cons x rows ih =>
      obtain ⟨hx, hrows⟩ := List.nodup_cons.1 hnodup
      unfold select at hr
      by_cases hk : key x = k
      · rw [List.find?_cons_of_pos (by simpa using hk)] at hr
        cases hr
        have hrest : ∀ y ∈ rows, ¬key y = k := fun y hy heq =>
          hx (List.mem_map.2 ⟨y, hy, heq.trans hk.symm⟩)
        have hsame : rows.map ((fun r => (key r, val r)) ∘ fun r => if key r = k then f r else r) =
            rows.map fun r => (key r, val r) :=
          map_congr_left fun y hy => by
            rw [Function.comp_apply, if_neg (hrest y hy)]
        rw [map_cons, map_cons, Function.comp_apply, if_pos hk, hsame, hkey]
        simp [Assoc.put, hk]
      · rw [List.find?_cons_of_neg (by simpa using hk)] at hr
        rw [map_cons, map_cons, Function.comp_apply, if_neg hk, ← ih hr hrows]
        simp [Assoc.put, hk]

theorem delete (h : Mirrors key val rows d) (k : κ) :
    Mirrors key val (Rows.delete key k rows) (d.erase k) := by
  unfold Mirrors at h ⊢
  unfold Dict.erase Rows.delete Assoc.drop
  simp only [h, filter_map]
  rfl

/-- The rows of some keys are deleted one after another. -/
theorem deleteAll (h : Mirrors key val rows d) (chosen : List ρ) :
    Mirrors key val (rows.filter fun r => decide (key r ∉ chosen.map key))
      (chosen.foldl (fun d r => d.erase (key r)) d) := by
  induction chosen generalizing rows d with
  | nil => simpa using h
  | cons c chosen ih =>
      have hrest := ih (h.delete (key c))
      rw [foldl_cons]
      have hfilter : (Rows.delete key (key c) rows).filter
          (fun r => decide (key r ∉ chosen.map key)) =
            rows.filter fun r => decide (key r ∉ (c :: chosen).map key) := by
        unfold Rows.delete
        rw [filter_filter]
        congr 1
        funext r
        rw [Bool.eq_iff_iff]
        simp only [map_cons, mem_cons, Bool.and_eq_true, decide_eq_true_eq, not_or]
        exact and_comm
      rw [← hfilter]
      exact hrest

end Mirrors

omit [DecidableEq κ] in
/-- Rows are told apart by their keys. -/
theorem eq_of_key (hnodup : (rows.map key).Nodup) {s : ρ} (hr : r ∈ rows) (hs : s ∈ rows)
    (h : key r = key s) : r = s := inj_on_of_nodup_map hnodup hr hs h

/-- An update of one row changes the total of a column by what it changes of that row. -/
theorem sum_update {A : Type w} [AddCommGroup A] (hnodup : (rows.map key).Nodup) (hr : r ∈ rows)
    (f : ρ → ρ) (g : ρ → A) :
    ((update key (key r) f rows).map g).sum = (rows.map g).sum + (g (f r) - g r) := by
  induction rows with
  | nil => cases hr
  | cons x rows ih =>
      obtain ⟨hx, hrows⟩ := List.nodup_cons.1 hnodup
      rcases List.mem_cons.1 hr with rfl | hmem
      · have hrest : update key (key r) f rows = rows := by
          refine (map_congr_left fun y hy => ?_).trans rows.map_id
          have hne : key y ≠ key r := fun heq => hx (List.mem_map.2 ⟨y, hy, heq⟩)
          rw [if_neg hne, id]
        have hcons : update key (key r) f (r :: rows) = f r :: update key (key r) f rows := by
          simp [update]
        rw [hcons, hrest]
        simp only [map_cons, sum_cons]
        abel
      · have hne : key x ≠ key r := fun heq => hx (List.mem_map.2 ⟨r, hmem, heq.symm⟩)
        have hcons : update key (key r) f (x :: rows) = x :: update key (key r) f rows := by
          simp [update, hne]
        rw [hcons]
        simp only [map_cons, sum_cons]
        rw [ih hrows hmem]
        abel

/-- An update keeps the values of a column apart that it sets to a new one. -/
theorem nodup_update {β : Type w} {g : ρ → β} {f : ρ → ρ} {x : β} (hkeys : (rows.map key).Nodup)
    (hg : (rows.map g).Nodup) (hx : ∀ r ∈ rows, g r ≠ x) (hf : ∀ r, g (f r) = x) :
    ((update key k f rows).map g).Nodup := by
  unfold update
  rw [map_map]
  refine List.Nodup.map_on ?_ (List.Nodup.of_map _ hkeys)
  intro r hr s hs heq
  simp only [Function.comp_apply] at heq
  by_cases hrk : key r = k
  · by_cases hsk : key s = k
    · exact eq_of_key hkeys hr hs (hrk.trans hsk.symm)
    · rw [if_pos hrk, if_neg hsk, hf] at heq
      exact absurd heq.symm (hx s hs)
  · by_cases hsk : key s = k
    · rw [if_neg hrk, if_pos hsk, hf] at heq
      exact absurd heq (hx r hr)
    · rw [if_neg hrk, if_neg hsk] at heq
      exact eq_of_key hg hr hs heq

/-! ## Ordered answers -/

variable {β : Type w} [LinearOrder β] {f : ρ → β} {limit : ℕ}

/-- `ORDER BY f`. -/
def orderBy (f : ρ → β) (rows : List ρ) : List ρ := rows.insertionSort fun a b => f a ≤ f b

@[simp] theorem orderBy_nil (f : ρ → β) : orderBy f [] = [] := rfl

theorem perm_orderBy (f : ρ → β) (rows : List ρ) : (orderBy f rows).Perm rows :=
  perm_insertionSort _ rows

omit [LinearOrder β] in
private theorem nodup_dual (h : (rows.map f).Nodup) :
    (rows.map fun r => OrderDual.toDual (f r)).Nodup := by
  rw [List.Nodup, pairwise_map] at h ⊢
  exact h.imp fun hne heq => hne (OrderDual.toDual.injective heq)

/-- Keys without repetition rise strictly. -/
theorem strict_orderBy (h : (rows.map f).Nodup) : (orderBy f rows).Pairwise fun a b => f a < f b :=
  Newest.strict_newestFirst (nodup_dual h)

/-- A list whose keys rise is the only such one of its rows. -/
theorem eq_orderBy {xs : List ρ} (hxs : xs.Pairwise fun a b => f a < f b) (hperm : xs.Perm rows) :
    xs = orderBy f rows :=
  Newest.eq_newestFirst (f := fun r => OrderDual.toDual (f r)) hxs hperm

theorem orderBy_filter (h : (rows.map f).Nodup) (p : ρ → Bool) :
    orderBy f (rows.filter p) = (orderBy f rows).filter p :=
  Newest.newestFirst_filter (nodup_dual h) p

/-- The order does not look at how the rows were written down. -/
theorem orderBy_map {σ : Type v} {g : ρ → σ} {e : σ → β} (h : (rows.map (e ∘ g)).Nodup) :
    orderBy e (rows.map g) = (orderBy (e ∘ g) rows).map g := by
  have hrise : ((orderBy (e ∘ g) rows).map g).Pairwise fun a b => e a < e b :=
    List.pairwise_map.2 (strict_orderBy h)
  exact (eq_orderBy hrise ((perm_orderBy (e ∘ g) rows).map g)).symm

/-- In a list whose keys rise, the rows up to the last of the first ones are the first ones. -/
theorem le_getLast_take (h : rows.Pairwise fun a b => f a < f b) (hr : r ∈ rows) (k : ℕ) :
    (∃ e ∈ (rows.take k).getLast?, f r ≤ f e) ↔ r ∈ rows.take k := by
  have hsplit := h
  rw [← take_append_drop k rows, pairwise_append] at hsplit
  obtain ⟨hfront, -, hbehind⟩ := hsplit
  constructor
  · rintro ⟨e, he, hle⟩
    rw [← take_append_drop k rows, mem_append] at hr
    refine hr.resolve_right fun hdrop => ?_
    exact absurd (hbehind e (List.mem_of_getLast? he) r hdrop) (not_lt.2 hle)
  · intro hmem
    rcases eq_nil_or_concat (rows.take k) with hnil | ⟨init, e, hconcat⟩
    · rw [hnil] at hmem
      cases hmem
    · rw [hconcat] at hmem hfront ⊢
      refine ⟨e, by simp, ?_⟩
      rcases List.mem_append.1 (concat_eq_append ▸ hmem) with hinit | hlast
      · rw [concat_eq_append, pairwise_append] at hfront
        exact (hfront.2.2 r hinit e mem_cons_self).le
      · rw [List.mem_singleton.1 hlast]

/-- The first rows came in order, before all that follow. -/
def Leading (f : ρ → β) (limit : ℕ) (rows : List ρ) : Prop :=
  (rows.take limit).Pairwise (fun a b => f a < f b) ∧
    ∀ a ∈ rows.take limit, ∀ b ∈ rows.drop limit, f a < f b

instance (f : ρ → β) (limit : ℕ) (rows : List ρ) : Decidable (Leading f limit rows) :=
  inferInstanceAs (Decidable (_ ∧ _))

/-- **The first rows of a table are the first of its ordered rows exactly when they came in that
order.** -/
theorem take_orderBy_iff (h : (rows.map f).Nodup) :
    rows.take limit = (orderBy f rows).take limit ↔ Leading f limit rows := by
  have hstrict := strict_orderBy h
  constructor
  · intro heq
    have hperm : (rows.drop limit).Perm ((orderBy f rows).drop limit) := by
      have hall : (rows.take limit ++ rows.drop limit).Perm
          (rows.take limit ++ (orderBy f rows).drop limit) := by
        conv_rhs => rw [heq]
        rw [take_append_drop, take_append_drop]
        exact (perm_orderBy f rows).symm
      exact (perm_append_left_iff _).1 hall
    rw [← take_append_drop limit (orderBy f rows), pairwise_append] at hstrict
    refine ⟨heq ▸ hstrict.1, fun a ha b hb => ?_⟩
    exact hstrict.2.2 a (heq ▸ ha) b (hperm.mem_iff.1 hb)
  · rintro ⟨hfront, hbehind⟩
    have hrest : ((rows.drop limit).map f).Nodup := h.sublist ((drop_sublist ..).map f)
    have hsplit : rows.take limit ++ orderBy f (rows.drop limit) = orderBy f rows := by
      refine eq_orderBy (List.pairwise_append.2 ⟨hfront, strict_orderBy hrest, ?_⟩) ?_
      · exact fun a ha b hb => hbehind a ha b ((perm_orderBy f _).mem_iff.1 hb)
      · calc (rows.take limit ++ orderBy f (rows.drop limit)).Perm
              (rows.take limit ++ rows.drop limit) := (perm_orderBy f _).append_left _
          _ = rows := take_append_drop limit rows
    rw [← hsplit]
    by_cases hlimit : limit ≤ rows.length
    · have hlength : (rows.take limit).length = limit := by
        rw [length_take, Nat.min_eq_left hlimit]
      rw [take_left' hlength]
    · have hnone : rows.drop limit = [] := drop_eq_nil_of_le (by omega)
      rw [hnone, orderBy_nil, append_nil, take_take, Nat.min_self]

end Rows

end Lib

import Mathlib
import ArchHub.Lib.Linked
import ArchHub.Cells.Relation

/-!
# Where a relation lies

A relation with members is a linked list in the store: its chain cells, each with the
incidence of one member.  `Relation s root ss` says that the relation of a root lies in
the cells of `ss`.

* `readRelation_eq`, `relationChainIds_eq`, `lastChain_eq`: what the walks along a
  relation return, within their budget and beyond it.
* `Relation.frame`: a relation is as it was while its own cells are.
* `Relation.edited`: a commit that writes over chain cells of a relation leaves it where
  its new cells are linked.
-/

namespace ArchHub.Cells

open Lib Lib.Heap List

/-- The links of a store. -/
def Store.links (s : Store) : Heap String String := fun id =>
  (s.get id).map fun c => (c.link0, c.link1)

/-- A chain cell, and the incidence it leads to. -/
def Slot.entry (x : Slot) : String × String := (x.chain, x.member.incidence)

/-- The chain of a relation, and where it leads: without members its root, and to
nothing. -/
def entries (root : String) (ss : List Slot) : List (String × String) :=
  if ss = [] then [(root, nullId)] else ss.map Slot.entry

/-- The chain cells of a relation. -/
def chainOf (root : String) (ss : List Slot) : List String := (entries root ss).map Prod.fst

/-- The incidences of a relation. -/
def incidencesOf (ss : List Slot) : List String := ss.map fun x => x.member.incidence

/-- The members of a relation. -/
def membersOf (ss : List Slot) : List Member := ss.map Slot.member

/-- The cells that are a relation's own. -/
def owned (root : String) (ss : List Slot) : List String := chainOf root ss ++ incidencesOf ss

/-- The relation of a root lies in some cells. -/
structure Relation (s : Store) (root : String) (ss : List Slot) : Prop where
  start : first nullId (entries root ss) = root
  linked : Linked s.links nullId (entries root ss)
  nodup : (owned root ss).Nodup
  notNull : nullId ∉ owned root ss
  incidence : ∀ x ∈ ss, ∃ c, s.get x.member.incidence = some c ∧ c.link0 = x.member.role ∧
    c.link1 = x.member.participant

theorem entries_nil (root : String) : entries root [] = [(root, nullId)] := rfl

theorem entries_cons (root : String) (x : Slot) (ss : List Slot) :
    entries root (x :: ss) = (x :: ss).map Slot.entry := rfl

theorem entries_of_ne_nil {root : String} {ss : List Slot} (h : ss ≠ []) :
    entries root ss = ss.map Slot.entry := if_neg h

theorem chainOf_of_ne_nil {root : String} {ss : List Slot} (h : ss ≠ []) :
    chainOf root ss = ss.map Slot.chain := by
  unfold chainOf
  rw [entries_of_ne_nil h, map_map]
  rfl

theorem first_entries (ss : List Slot) : first nullId (ss.map Slot.entry) = nextChain ss := by
  cases ss with
  | nil => rfl
  | cons x ss => rfl

/-- A chain has as many cells as the relation has members, and one at least. -/
theorem length_entries (root : String) (ss : List Slot) :
    (entries root ss).length = max 1 ss.length := by
  cases ss with
  | nil => rfl
  | cons x ss =>
      rw [entries_cons, length_map, length_cons]
      omega

namespace Relation

variable {s t : Store} {root : String} {ss : List Slot} {id : String}

section

variable (h : Relation s root ss)

include h

theorem chain_notNull : ∀ e ∈ entries root ss, e.1 ≠ nullId := by
  intro e he hnull
  exact h.notNull (mem_append_left _ (List.mem_map.2 ⟨e, he, hnull⟩))

theorem chain_nodup : (chainOf root ss).Nodup :=
  h.nodup.sublist (sublist_append_left _ _)

theorem incidences_nodup : (incidencesOf ss).Nodup :=
  h.nodup.sublist (sublist_append_right _ _)

/-- No chain cell is an incidence. -/
theorem apart (hchain : id ∈ chainOf root ss) :
    id ∉ incidencesOf ss := disjoint_of_nodup_append h.nodup hchain

theorem root_mem : root ∈ chainOf root ss := by
  have hroot := h.start
  unfold chainOf
  cases hentries : entries root ss with
  | nil =>
      rw [hentries] at hroot
      have hlength := length_entries root ss
      rw [hentries, length_nil] at hlength
      omega
  | cons e es =>
      rw [hentries] at hroot
      rw [map_cons]
      exact hroot ▸ mem_cons_self

/-- Every cell of a relation is in the store. -/
theorem held (hid : id ∈ owned root ss) : (s.get id).isSome := by
  rcases List.mem_append.1 hid with hid | hid
  · obtain ⟨e, he, rfl⟩ := List.mem_map.1 hid
    obtain ⟨xs, ys, hsplit⟩ := append_of_mem he
    have hget := (hsplit ▸ h.linked).get
    unfold Store.links at hget
    exact Option.isSome_map.symm.trans (by rw [hget]; rfl)
  · obtain ⟨x, hx, rfl⟩ := List.mem_map.1 hid
    obtain ⟨c, hc, -⟩ := h.incidence x hx
    rw [hc]
    rfl

/-- **A relation is as it was while its own cells are.** -/
theorem frame (hkeep : ∀ id ∈ owned root ss, t.get id = s.get id) :
    Relation t root ss where
  start := h.start
  linked := h.linked.frame fun e he => by
    unfold Store.links
    rw [hkeep e.1 (mem_append_left _ (List.mem_map.2 ⟨e, he, rfl⟩))]
  nodup := h.nodup
  notNull := h.notNull
  incidence x hx := by
    obtain ⟨c, hc, hlinks⟩ := h.incidence x hx
    refine ⟨c, ?_, hlinks⟩
    rw [hkeep _ (mem_append_right _ (List.mem_map.2 ⟨x, hx, rfl⟩)), hc]

end

end Relation

/-! ## Walking along a relation -/

section Walks

variable {s : Store} {budget : ℤ} {id : String}

theorem links_eq_some {a b : String} (h : s.links id = some (a, b)) :
    ∃ c, s.get id = some c ∧ c.id = id ∧ c.link0 = a ∧ c.link1 = b := by
  unfold Store.links at h
  obtain ⟨c, hc, hlinks⟩ := Option.map_eq_some_iff.1 h
  exact ⟨c, hc, s.graph.keyed id c hc, congrArg Prod.fst hlinks, congrArg Prod.snd hlinks⟩

/-- No link of a cell dangles. -/
theorem links_there {c : Cell} (h : s.get id = some c) :
    (s.get c.link0).isNone = false ∧ (s.get c.link1).isNone = false := by
  obtain ⟨h0, h1⟩ := s.graph.links id c h
  refine ⟨?_, ?_⟩ <;> rw [Option.isNone_eq_false_iff]
  · exact h0
  · exact h1

/-- The chain from a cell on, as long as the budget lasts. -/
theorem chainWalk_eq {es : List (String × String)} {fuel : ℕ} {seen : List String}
    (hlinked : Linked s.links nullId es) (hnull : ∀ e ∈ es, e.1 ≠ nullId)
    (hnodup : (es.map Prod.fst).Nodup) (hseen : ∀ e ∈ es, e.1 ∉ seen) :
    chainWalk s budget fuel seen (first nullId es) =
      if es.length ≤ fuel then .ok (es.map Prod.fst)
      else .error (.budgetExceeded "relation traversal exceeded chain cells" budget) := by
  induction es generalizing fuel seen with
  | nil => cases fuel <;> simp [chainWalk]
  | cons e es ih =>
      have hid : e.1 ≠ nullId := hnull e mem_cons_self
      cases fuel with
      | zero => simp [chainWalk, hid]
      | succ fuel =>
          obtain ⟨c, hc, -, -, hnext⟩ := links_eq_some hlinked.1
          rw [map_cons, nodup_cons] at hnodup
          have hrest := @ih fuel (e.1 :: seen) hlinked.2
            (fun e' he' => hnull e' (mem_cons_of_mem e he')) hnodup.2 fun e' he' hmem => by
              rcases List.mem_cons.1 hmem with heq | hmem
              · exact hnodup.1 (List.mem_map.2 ⟨e', he', heq⟩)
              · exact hseen e' (mem_cons_of_mem e he') hmem
          unfold chainWalk
          rw [first_cons, if_neg hid]
          dsimp only
          rw [if_neg (hseen e mem_cons_self)]
          simp only [cellAt, hc, bind, Except.bind, hnext]
          rw [hrest]
          by_cases hfuel : es.length ≤ fuel
          · simp [hfuel, pure, Except.pure]
          · simp [hfuel]

/-- The members from a chain cell on, as long as the budget lasts. -/
theorem readWalk_eq {ss : List Slot} {fuel : ℕ} {seen : List String}
    (hlinked : Linked s.links nullId (ss.map Slot.entry)) (hchain : ∀ x ∈ ss, x.chain ≠ nullId)
    (hincidence : ∀ x ∈ ss, x.member.incidence ≠ nullId ∧ ∃ c, s.get x.member.incidence = some c ∧
      c.link0 = x.member.role ∧ c.link1 = x.member.participant)
    (hnodup : (ss.map Slot.chain).Nodup) (hseen : ∀ x ∈ ss, x.chain ∉ seen) :
    readWalk s budget fuel seen (nextChain ss) =
      if ss.length ≤ fuel then .ok (membersOf ss)
      else .error (.budgetExceeded "relation projection exceeded chain cells" budget) := by
  induction ss generalizing fuel seen with
  | nil => cases fuel <;> simp [readWalk, nextChain, membersOf]
  | cons x ss ih =>
      have hid : x.chain ≠ nullId := hchain x mem_cons_self
      cases fuel with
      | zero => simp [readWalk, nextChain, hid]
      | succ fuel =>
          obtain ⟨c, hc, -, hlead, hnext⟩ := links_eq_some hlinked.1
          obtain ⟨hne, i, hi, hrole, hparticipant⟩ := hincidence x mem_cons_self
          rw [map_cons, nodup_cons] at hnodup
          have hrest := @ih fuel (x.chain :: seen) hlinked.2
            (fun x' hx' => hchain x' (mem_cons_of_mem x hx'))
            (fun x' hx' => hincidence x' (mem_cons_of_mem x hx')) hnodup.2 fun x' hx' hmem => by
              rcases List.mem_cons.1 hmem with heq | hmem
              · exact hnodup.1 (List.mem_map.2 ⟨x', hx', heq⟩)
              · exact hseen x' (mem_cons_of_mem x hx') hmem
          rw [first_entries] at hnext
          have hc : s.get x.chain = some c := hc
          have hlead : c.link0 = x.member.incidence := hlead
          unfold readWalk
          rw [show nextChain (x :: ss) = x.chain from rfl, if_neg hid]
          dsimp only
          rw [if_neg (hseen x mem_cons_self)]
          obtain ⟨h0, h1⟩ := links_there hi
          simp only [hc, hlead, if_neg hne, hi, h0, h1, Bool.false_eq_true, or_self, if_false, hnext,
            bind, Except.bind]
          rw [hrest]
          have hmember : (⟨i.id, i.link0, i.link1⟩ : Member) = x.member := by
            rw [hrole, hparticipant, s.graph.keyed _ i hi]
          by_cases hfuel : ss.length ≤ fuel
          · simp [hfuel, pure, Except.pure, membersOf, hmember]
          · simp [hfuel]

/-- The last chain cell from a cell on, as long as the budget lasts. -/
theorem lastChain_walk {xs : List (String × String)} {last : String × String} {fuel : ℕ}
    {seen : List String} (hlinked : Linked s.links nullId (xs ++ [last]))
    (hleads : ∀ e ∈ xs, e.2 ≠ nullId) (hnull : ∀ e ∈ xs ++ [last], e.1 ≠ nullId)
    (hnodup : ((xs ++ [last]).map Prod.fst).Nodup) (hseen : ∀ e ∈ xs ++ [last], e.1 ∉ seen) :
    lastChain s budget fuel seen (first nullId (xs ++ [last])) =
      if xs.length < fuel then cellAt s last.1
      else .error (.budgetExceeded "relation append exceeded chain cells" budget) := by
  induction xs generalizing fuel seen with
  | nil =>
      cases fuel with
      | zero => simp [lastChain]
      | succ fuel =>
          obtain ⟨c, hc, -, -, hnext⟩ := links_eq_some hlinked.1
          have hnext : c.link1 = nullId := hnext
          unfold lastChain
          rw [nil_append, first_cons, if_neg (hseen last (by simp))]
          simp only [cellAt, hc, hnext, bind, Except.bind, pure, Except.pure]
          split <;> simp
  | cons e xs ih =>
      cases fuel with
      | zero => simp [lastChain]
      | succ fuel =>
          obtain ⟨c, hc, -, hlead, hnext⟩ := links_eq_some hlinked.1
          have hnext : c.link1 = first nullId (xs ++ [last]) := hnext
          rw [cons_append, map_cons, nodup_cons] at hnodup
          have hmemcons : ∀ e' ∈ xs ++ [last], e' ∈ e :: xs ++ [last] :=
            fun e' he' => mem_cons_of_mem e he'
          have hrest := @ih fuel (e.1 :: seen) hlinked.2
            (fun e' he' => hleads e' (mem_cons_of_mem e he'))
            (fun e' he' => hnull e' (hmemcons e' he')) hnodup.2 fun e' he' hmem => by
              rcases List.mem_cons.1 hmem with heq | hmem
              · exact hnodup.1 (List.mem_map.2 ⟨e', he', heq⟩)
              · exact hseen e' (hmemcons e' he') hmem
          -- the chain goes on, since something comes after
          have hon : first nullId (xs ++ [last]) ≠ nullId := by
            cases xs with
            | nil => exact hnull last (by simp)
            | cons e' xs => exact hnull e' (by simp)
          unfold lastChain
          rw [cons_append, first_cons, if_neg (hseen e (by simp))]
          simp only [cellAt, hc, bind, Except.bind, hlead, if_neg (hleads e mem_cons_self), hnext,
            if_neg hon]
          rw [hrest]
          simp [length_cons, cellAt]

variable {root : String} {ss : List Slot}

/-- **What reading a relation returns.** -/
theorem readRelation_eq (h : Relation s root ss) (budget : ℤ) :
    readRelation s root budget =
      if budget < 1 then .error (.budgetExceeded "relation projection budget must be positive" budget)
      else if ((max 1 ss.length : ℕ) : ℤ) ≤ budget then .ok (membersOf ss)
      else .error (.budgetExceeded "relation projection exceeded chain cells" budget) := by
  unfold readRelation
  have hthere := h.held (mem_append_left _ h.root_mem)
  rw [Option.isSome_iff_exists] at hthere
  obtain ⟨c, hc⟩ := hthere
  split
  · rfl
  · next hbudget =>
    rw [hc, if_neg (by simp)]
    cases ss with
    | nil =>
        obtain ⟨c, hc, -, h0, h1⟩ := links_eq_some h.linked.1
        have hc : s.get root = some c := hc
        have h0 : c.link0 = nullId := h0
        have h1 : c.link1 = nullId := h1
        have hroot : root ≠ nullId := h.chain_notNull (root, nullId) mem_cons_self
        obtain ⟨n, hn⟩ := Int.eq_ofNat_of_zero_le (show 0 ≤ budget - 1 by omega)
        have hfuel : budget.toNat = n + 1 := by omega
        rw [hfuel, if_pos (by simp; omega)]
        unfold readWalk
        simp [hroot, hc, h0, h1, membersOf]
    | cons x ss =>
        have hchain : ∀ y ∈ x :: ss, y.chain ∈ chainOf root (x :: ss) := by
          intro y hy
          rw [chainOf_of_ne_nil (cons_ne_nil x ss)]
          exact List.mem_map.2 ⟨y, hy, rfl⟩
        have hwalk := @readWalk_eq s budget (x :: ss) budget.toNat [] h.linked
          (fun y hy hnull => h.notNull (mem_append_left _ (hnull ▸ hchain y hy)))
          (fun y hy => ⟨fun hnull => h.notNull (mem_append_right _
            (hnull ▸ List.mem_map.2 ⟨y, hy, rfl⟩)), h.incidence y hy⟩)
          (@chainOf_of_ne_nil root _ (cons_ne_nil x ss) ▸ h.chain_nodup)
          (fun y _ => not_mem_nil)
        have hstart : nextChain (x :: ss) = root := h.start
        rw [hstart] at hwalk
        rw [hwalk]
        refine if_congr ?_ rfl rfl
        rw [length_cons]
        omega

/-- The chain cells of a relation, as long as the budget lasts. -/
theorem relationChainIds_eq (h : Relation s root ss) (budget : ℤ) :
    relationChainIds s root budget =
      if ((max 1 ss.length : ℕ) : ℤ) ≤ budget then .ok (chainOf root ss)
      else .error (.budgetExceeded "relation traversal exceeded chain cells" budget) := by
  unfold relationChainIds
  have hthere := h.held (mem_append_left _ h.root_mem)
  rw [Option.isSome_iff_exists] at hthere
  obtain ⟨c, hc⟩ := hthere
  rw [hc, if_neg (by simp)]
  have hwalk := @chainWalk_eq s budget (entries root ss) budget.toNat [] h.linked h.chain_notNull
    h.chain_nodup (fun _ _ => not_mem_nil)
  rw [h.start] at hwalk
  rw [hwalk, length_entries]
  refine if_congr ?_ rfl rfl
  omega

/-- The last chain cell of a relation, as long as the budget lasts. -/
theorem lastChain_eq (h : Relation s root ss) {xs : List (String × String)}
    {last : String × String} (hlast : entries root ss = xs ++ [last]) (budget : ℤ) :
    lastChain s budget budget.toNat [] root =
      if ((max 1 ss.length : ℕ) : ℤ) ≤ budget then cellAt s last.1
      else .error (.budgetExceeded "relation append exceeded chain cells" budget) := by
  have hleads : ∀ e ∈ xs, e.2 ≠ nullId := by
    intro e he hnull
    cases ss with
    | nil =>
        rw [entries_nil] at hlast
        have hlength := congrArg List.length hlast
        rw [length_append, length_singleton, length_singleton] at hlength
        obtain rfl := List.length_eq_zero_iff.1 (show xs.length = 0 by omega)
        cases he
    | cons x ss =>
        have hmem : e ∈ (x :: ss).map Slot.entry := by
          rw [← entries_cons root, hlast]
          exact mem_append_left _ he
        obtain ⟨y, hy, rfl⟩ := List.mem_map.1 hmem
        exact h.notNull (mem_append_right _ (hnull ▸ List.mem_map.2 ⟨y, hy, rfl⟩))
  have hlinked := h.linked
  have hnull := h.chain_notNull
  have hnodup := h.chain_nodup
  unfold chainOf at hnodup
  have hlength := length_entries root ss
  have hroot := h.start
  rw [hlast] at hlinked hnull hnodup hlength hroot
  have hwalk := @lastChain_walk s budget xs last budget.toNat [] hlinked hleads hnull hnodup
    (fun _ _ => not_mem_nil)
  rw [hroot] at hwalk
  rw [hwalk]
  refine if_congr ?_ rfl rfl
  rw [length_append, length_singleton] at hlength
  omega

end Walks

/-! ## Commits -/

section Commits

variable {s t : Store} {root : String} {ss ss' : List Slot} {create replace : List Cell}

/-- A cell that is no chain cell of a relation, and is held, is not written by a commit
that replaces chain cells of it. -/
theorem Relation.not_written (hc : Committed s create replace t)
    (hreplace : ∀ c ∈ replace, c.id ∈ chainOf root ss) {id : String} (hheld : (s.get id).isSome)
    (hid : id ∉ chainOf root ss) : t.get id = s.get id := by
  refine hc.get_other fun hmem => ?_
  rw [map_append, mem_append] at hmem
  rcases hmem with hmem | hmem
  · exact hc.not_created hheld hmem
  · obtain ⟨c, hc', rfl⟩ := List.mem_map.1 hmem
    exact hid (hreplace c hc')

/-- **A relation after an edit.**  A commit replaces chain cells of a relation; after it
the relation lies where its new chain is linked.  Its cells are some it had and the ones
that are created, its members some it had and ones whose incidences are created. -/
theorem Relation.edited (h : Relation s root ss) (hc : Committed s create replace t)
    (hreplace : ∀ c ∈ replace, c.id ∈ chainOf root ss)
    (hstart : first nullId (entries root ss') = root)
    (hlinked : Linked t.links nullId (entries root ss')) {kept : List String}
    (hkept : kept.Subperm (owned root ss))
    (howned : (owned root ss').Perm (kept ++ create.map Cell.id))
    (hmembers : ∀ m ∈ membersOf ss', m ∈ membersOf ss ∨ m.cell ∈ create) :
    Relation t root ss' where
  start := hstart
  linked := hlinked
  nodup := by
    have hcreated : (create.map Cell.id).Nodup := by
      have hboth := hc.nodup
      rw [map_append] at hboth
      exact hboth.sublist (sublist_append_left _ _)
    obtain ⟨sub, hperm, hsub⟩ := hkept
    have hkept' : kept.Nodup := hperm.nodup_iff.1 (h.nodup.sublist hsub)
    refine howned.nodup_iff.2 (hkept'.append hcreated fun id hid => ?_)
    exact hc.not_created (h.held (hsub.subset (hperm.mem_iff.2 hid)))
  notNull hmem := by
    rcases List.mem_append.1 (howned.mem_iff.1 hmem) with hmem | hmem
    · exact h.notNull (hkept.subset hmem)
    · refine hc.not_created ?_ hmem
      rw [Store.get, Graph.get, s.graph.null]
      rfl
  incidence x hx := by
    rcases hmembers x.member (List.mem_map.2 ⟨x, hx, rfl⟩) with hold | hnew
    · obtain ⟨y, hy, hmember⟩ := List.mem_map.1 hold
      obtain ⟨c, hget, hlinks⟩ := h.incidence y hy
      have hincidence : y.member.incidence ∈ incidencesOf ss := List.mem_map.2 ⟨y, hy, rfl⟩
      rw [← hmember]
      refine ⟨c, ?_, hlinks⟩
      rw [Relation.not_written hc hreplace (by rw [hget]; rfl)
        (fun hchain => h.apart hchain hincidence), hget]
    · refine ⟨x.member.cell, ?_, rfl, rfl⟩
      exact hc.get_mem (mem_append_left _ hnew)

/-- The cells of a relation that another one does not own are as they were. -/
theorem Relation.others {root' : String} {others : List Slot} (h : Relation s root' others)
    (hc : Committed s create replace t) (hreplace : ∀ c ∈ replace, c.id ∈ chainOf root ss)
    (hapart : ∀ id ∈ owned root' others, id ∉ owned root ss) : Relation t root' others :=
  h.frame fun id hid => Relation.not_written hc hreplace (h.held hid)
    fun hchain => hapart id hid (mem_append_left _ hchain)

/-- The chain cells and the incidences of new members. -/
theorem linkCells_ids (ss : List Slot) :
    ((linkCells ss).map Cell.id).Perm (ss.map Slot.chain ++ incidencesOf ss) := by
  induction ss with
  | nil => exact List.Perm.refl _
  | cons x ss ih =>
      have hswap := (List.Perm.cons x.member.incidence (List.Perm.cons x.chain ih)).trans
        (List.Perm.swap _ _ _)
      refine hswap.trans (List.Perm.cons _ ?_)
      exact List.perm_middle.symm

/-- The cells of new members are linked once they are written. -/
theorem linked_linkCells (hget : ∀ c ∈ linkCells ss, t.get c.id = some c) :
    Linked t.links nullId (ss.map Slot.entry) := by
  induction ss with
  | nil => trivial
  | cons x ss ih =>
      refine ⟨?_, ih fun c hc => hget c (by simp [linkCells, hc])⟩
      have hchain := hget ⟨x.chain, x.member.incidence, nextChain ss, []⟩ (by simp [linkCells])
      unfold Store.links
      rw [show t.get x.entry.1 = _ from hchain, first_entries]
      rfl

theorem cell_mem_linkCells {x : Slot} (hx : x ∈ ss) : x.member.cell ∈ linkCells ss := by
  induction ss with
  | nil => cases hx
  | cons y ss ih =>
      rcases List.mem_cons.1 hx with rfl | hx
      · simp [linkCells]
      · simp [linkCells, ih hx]

end Commits

end ArchHub.Cells

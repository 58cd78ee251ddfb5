import Mathlib
import ArchHub.Lib.Check
import ArchHub.Cells.Layout

/-!
# Edits of a relation

An edit of a relation is an operation on the list of its members.

* `Edit.onList`: what an edit is on a list.
* `Edit.apply`: what it is in the store.
* `Edited`: what an accepted edit leaves: the relation, and every relation that owns
  other cells.
* `apply_edited`: an accepted edit is the operation on the list.
-/

namespace ArchHub.Cells

open Lib Lib.Heap List

/-- An edit. -/
inductive Edit
  | append (pairs : List Pair)
  | insert (role participant : String) (before after : Option String)
  | remove (ids : List String)
  | reorder (order : List String)

/-! ## On lists -/

/-- The members that pairs become. -/
def newMembers (uuid : ℕ → String) (pairs : List Pair) : List Member :=
  List.zipWith (fun p i => ⟨newId uuid "incidence" i, p.1, p.2⟩) pairs (List.range pairs.length)

/-- A member is put before another. -/
def insertBefore (anchor : String) (new : Member) : List Member → Option (List Member)
  | [] => none
  | m :: ms =>
      if m.incidence = anchor then some (new :: m :: ms)
      else (insertBefore anchor new ms).map (m :: ·)

/-- A member is put after another. -/
def insertAfter (anchor : String) (new : Member) : List Member → Option (List Member)
  | [] => none
  | m :: ms =>
      if m.incidence = anchor then some (m :: new :: ms)
      else (insertAfter anchor new ms).map (m :: ·)

/-- What an edit is on the members of a relation; `none` where it is refused. -/
def Edit.onList (uuid : ℕ → String) (ms : List Member) : Edit → Option (List Member)
  | .append pairs => if pairs = [] then none else some (ms ++ newMembers uuid pairs)
  | .insert role participant before after =>
      let new : Member := ⟨newId uuid "incidence" 0, role, participant⟩
      match before, after with
      | some _, some _ => none
      | some anchor, none => insertBefore anchor new ms
      | none, some anchor => insertAfter anchor new ms
      | none, none => some (ms ++ [new])
  | .remove ids =>
      if ids ≠ [] ∧ ∀ id ∈ ids, id ∈ ms.map Member.incidence then
        some (ms.filter fun m => m.incidence ∉ ids)
      else none
  | .reorder order =>
      if order.Perm (ms.map Member.incidence) then
        some (order.filterMap fun id => ms.find? (·.incidence = id))
      else none

/-- An anchor is the identity of a cell. -/
def Edit.Anchored : Edit → Prop
  | .insert _ _ before _ => before ≠ some ""
  | _ => True

/-! ## In the store -/

/-- An edit of the relation of a root. -/
def Edit.apply (s : Store) (refusal : Option CellError) (root : String) (budget : ℤ)
    (uuid : ℕ → String) : Edit → Except CellError Store
  | .append pairs => appendRelationMembers s refusal root pairs budget uuid
  | .insert role participant before after =>
      insertRelationMember s refusal root role participant before after budget uuid
  | .remove ids => removeRelationMembers s refusal root ids budget
  | .reorder order => reorderRelationMembers s refusal root order budget

/-- What an accepted edit leaves. -/
structure Edited (s : Store) (root : String) (ss : List Slot) (t : Store) (ss' : List Slot) :
    Prop where
  relation : Relation t root ss'
  owned : ∀ id ∈ owned root ss', id ∈ owned root ss ∨ s.get id = none
  others : ∀ {root' others}, Relation s root' others →
    (∀ id ∈ ArchHub.Cells.owned root' others, id ∉ ArchHub.Cells.owned root ss) →
      Relation t root' others

variable {s t : Store} {root : String} {ss : List Slot} {refusal : Option CellError} {budget : ℤ}
  {uuid : ℕ → String} {create replace : List Cell} {id anchor : String} {c : Cell}
  {xs rest : List Slot} {p : Slot} {x : Slot} {ids : List String} {role participant : String}

theorem edited_of_committed {ss' : List Slot} (h : Relation s root ss)
    (hc : Committed s create replace t) (hreplace : ∀ c ∈ replace, c.id ∈ chainOf root ss)
    (hstart : first nullId (entries root ss') = root)
    (hlinked : Linked t.links nullId (entries root ss')) {kept : List String}
    (hkept : kept.Subperm (owned root ss))
    (howned : (owned root ss').Perm (kept ++ create.map Cell.id))
    (hmembers : ∀ m ∈ membersOf ss', m ∈ membersOf ss ∨ m.cell ∈ create) :
    Edited s root ss t ss' where
  relation := h.edited hc hreplace hstart hlinked hkept howned hmembers
  owned id hid := by
    rcases List.mem_append.1 (howned.mem_iff.1 hid) with hid | hid
    · exact Or.inl (hkept.subset hid)
    · obtain ⟨c, hc', rfl⟩ := List.mem_map.1 hid
      exact Or.inr (hc.fresh c hc')
  others hother hapart := hother.others hc hreplace hapart

/-- An edit that writes nothing. -/
theorem Edited.refl (h : Relation s root ss) : Edited s root ss s ss :=
  ⟨h, fun _ hid => Or.inl hid, fun hother _ => hother⟩

/-- The chain leads on as it did, where the commit has not written. -/
theorem links_kept (h : Relation s root ss) (hc : Committed s create replace t)
    (hid : id ∈ chainOf root ss) (hother : ∀ c ∈ replace, c.id ≠ id) : t.links id = s.links id := by
  unfold Store.links
  rw [hc.get_other fun hmem => ?_]
  rw [map_append, mem_append] at hmem
  rcases hmem with hmem | hmem
  · exact hc.not_created (h.held (mem_append_left _ hid)) hmem
  · obtain ⟨c, hc', heq⟩ := List.mem_map.1 hmem
    exact hother c hc' heq

theorem links_written (hc : Committed s create replace t) (hmem : c ∈ create ++ replace) :
    t.links c.id = some (c.link0, c.link1) := by
  unfold Store.links
  rw [hc.get_mem hmem]
  rfl

/-! ## Members are put in -/

theorem owned_of_ne_nil (root : String) (h : ss ≠ []) :
    owned root ss = ss.map Slot.chain ++ incidencesOf ss := by
  unfold owned
  rw [chainOf_of_ne_nil h]

/-- The cells of a relation with members put in are its own and those of the new
members. -/
theorem owned_spliced (root : String) (xs new rest : List Slot) (h : xs ++ rest ≠ []) :
    (owned root (xs ++ (new ++ rest))).Perm
      (owned root (xs ++ rest) ++ (new.map Slot.chain ++ incidencesOf new)) := by
  have hne : xs ++ (new ++ rest) ≠ [] := by
    intro hnil
    simp only [append_eq_nil_iff] at hnil
    exact h (by rw [hnil.1, hnil.2.2, append_nil])
  rw [owned_of_ne_nil root h, owned_of_ne_nil root hne, ← Multiset.coe_eq_coe]
  unfold incidencesOf
  simp only [map_append, ← Multiset.coe_add]
  abel

/-- **Members are put in after one**: its chain cell leads to the first new one, the last
new one to where it led. -/
theorem edited_spliced {new : List Slot} (h : Relation s root (xs ++ p :: rest))
    (hc : Committed s create [c] t) (hid : c.id = p.chain) (hlead : c.link0 = p.member.incidence)
    (hnext : c.link1 = nextChain (new ++ rest))
    (hnew : Linked t.links (nextChain rest) (new.map Slot.entry))
    (hcreate : (create.map Cell.id).Perm (new.map Slot.chain ++ incidencesOf new))
    (hcells : ∀ x ∈ new, x.member.cell ∈ create) :
    Edited s root (xs ++ p :: rest) t (xs ++ p :: (new ++ rest)) := by
  have hne : xs ++ p :: rest ≠ [] := by simp
  have hne' : xs ++ p :: (new ++ rest) ≠ [] := by simp
  have hchain : chainOf root (xs ++ p :: rest) =
      xs.map Slot.chain ++ p.chain :: rest.map Slot.chain := by
    rw [chainOf_of_ne_nil hne, map_append, map_cons]
  have hnodup := h.chain_nodup
  rw [hchain] at hnodup
  -- the other chain cells are not written
  have hkept : ∀ id ∈ xs.map Slot.chain ++ rest.map Slot.chain, t.links id = s.links id := by
    intro id hmem
    refine links_kept h hc ?_ fun c' hc' heq => ?_
    · rw [hchain]
      simp only [mem_append, mem_cons] at hmem ⊢
      tauto
    · obtain rfl := List.mem_singleton.1 hc'
      exact (List.nodup_cons.1 (List.perm_middle.nodup_iff.1 hnodup)).1 (hid ▸ heq ▸ hmem)
  have hlinked := h.linked
  rw [entries_of_ne_nil hne, map_append, map_cons] at hlinked
  have hrest : Linked t.links nullId (rest.map Slot.entry) :=
    (linked_append.1 hlinked).2.2.frame fun e he => by
      obtain ⟨x, hx, rfl⟩ := List.mem_map.1 he
      exact hkept _ (mem_append_right _ (List.mem_map.2 ⟨x, hx, rfl⟩))
  have hgrafted : Linked t.links nullId (entries root (xs ++ p :: (new ++ rest))) := by
    rw [entries_of_ne_nil hne', map_append, map_cons]
    refine hlinked.graft (fun e he => ?_) ?_ ?_
    · obtain ⟨x, hx, rfl⟩ := List.mem_map.1 he
      exact hkept _ (mem_append_left _ (List.mem_map.2 ⟨x, hx, rfl⟩))
    · rw [first_entries, ← hid, ← hnext, ← hlead]
      exact links_written hc (by simp)
    · rw [map_append, linked_append, first_entries]
      exact ⟨hnew, hrest⟩
  refine edited_of_committed h hc ?_ ?_ hgrafted (List.Subperm.refl _) ?_ ?_
  · intro c' hc'
    obtain rfl := List.mem_singleton.1 hc'
    rw [hid, hchain]
    simp
  · have hstart := h.start
    rw [entries_of_ne_nil hne] at hstart
    rw [entries_of_ne_nil hne']
    cases xs with
    | nil => exact hstart
    | cons x xs => exact hstart
  · have hperm := owned_spliced root (xs ++ [p]) new rest (by simp)
    rw [append_assoc, append_assoc] at hperm
    exact hperm.trans (hcreate.symm.append_left _)
  · intro m hm
    obtain ⟨x, hx, rfl⟩ := List.mem_map.1 hm
    simp only [mem_append, mem_cons] at hx
    have hold : ∀ {y}, y ∈ xs ++ p :: rest → y.member ∈ membersOf (xs ++ p :: rest) :=
      fun hy => List.mem_map.2 ⟨_, hy, rfl⟩
    rcases hx with hx | rfl | hx | hx
    · exact Or.inl (hold (by simp [hx]))
    · exact Or.inl (hold (by simp))
    · exact Or.inr (hcells x hx)
    · exact Or.inl (hold (by simp [hx]))

/-- **Members are put into a relation without members**: the root takes the first. -/
theorem edited_filled {new : List Slot} (h : Relation s root []) (hc : Committed s create [c] t)
    (hid : c.id = root) (hchain : x.chain = root) (hlead : c.link0 = x.member.incidence)
    (hnext : c.link1 = nextChain new) (hnew : Linked t.links nullId (new.map Slot.entry))
    (hcreate : (create.map Cell.id).Perm
      (x.member.incidence :: (new.map Slot.chain ++ incidencesOf new)))
    (hcells : ∀ y ∈ x :: new, y.member.cell ∈ create) : Edited s root [] t (x :: new) := by
  refine edited_of_committed h hc ?_ hchain ⟨?_, hnew⟩ (List.Subperm.refl _) ?_ ?_
  · intro c' hc'
    obtain rfl := List.mem_singleton.1 hc'
    rw [hid]
    exact mem_cons_self
  · rw [first_entries, ← hnext, show x.entry.2 = c.link0 from hlead.symm,
      show x.entry.1 = c.id from hchain.trans hid.symm]
    exact links_written hc (by simp)
  · refine List.Perm.trans ?_ (List.Perm.append_left _ hcreate.symm)
    rw [owned_of_ne_nil root (cons_ne_nil x new), map_cons, hchain]
    refine List.Perm.cons root ?_
    exact perm_middle
  · intro m hm
    obtain ⟨y, hy, rfl⟩ := List.mem_map.1 hm
    exact Or.inr (hcells y hy)

/-! ## Appending -/

theorem membersOf_slots {pairs : List Pair} {incidences chains : List String}
    (hi : incidences.length = pairs.length) (hc : chains.length = pairs.length) :
    membersOf (slots pairs incidences chains) =
      List.zipWith (fun p i => ⟨i, p.1, p.2⟩) pairs incidences := by
  induction pairs generalizing incidences chains with
  | nil => rfl
  | cons p pairs ih =>
      obtain ⟨i, incidences, rfl⟩ := exists_cons_of_length_eq_add_one hi
      obtain ⟨c, chains, rfl⟩ := exists_cons_of_length_eq_add_one hc
      have hrest := ih (by simpa using hi) (by simpa using hc)
      unfold membersOf at hrest ⊢
      rw [slots, map_cons, hrest]
      rfl

/-- The new members, with the identities that are drawn for them. -/
theorem newMembers_eq (uuid : ℕ → String) (pairs : List Pair) :
    newMembers uuid pairs = List.zipWith (fun p i => ⟨i, p.1, p.2⟩) pairs
      ((List.range pairs.length).map (newId uuid "incidence")) := by
  unfold newMembers
  rw [zipWith_map_right]

theorem cellAt_get (h : cellAt s id = .ok c) : s.get id = some c := by
  unfold cellAt at h
  split at h
  · next c' hc' =>
    rw [hc', Except.ok.inj h]
  · cases h

theorem cellAt_id (h : cellAt s id = .ok c) : c.id = id :=
  s.graph.keyed id c (cellAt_get h)

theorem zipWith_slots (ss : List Slot) :
    List.zipWith Slot.mk (ss.map Slot.chain) (ss.map Slot.member) = ss := by
  induction ss with
  | nil => rfl
  | cons x ss ih =>
      rw [map_cons, map_cons, zipWith_cons_cons, ih]

theorem map_zipWith_slots {chains : List String} {ms : List Member}
    (h : chains.length = ms.length) :
    (List.zipWith Slot.mk chains ms).map Slot.chain = chains ∧
      membersOf (List.zipWith Slot.mk chains ms) = ms := by
  unfold membersOf
  induction chains generalizing ms with
  | nil =>
      obtain rfl := List.length_eq_zero_iff.1 h.symm
      exact ⟨rfl, rfl⟩
  | cons c chains ih =>
      obtain ⟨m, ms, rfl⟩ := exists_cons_of_length_eq_add_one h.symm
      obtain ⟨hchains, hms⟩ := ih (Nat.succ.inj h)
      simp only [zipWith_cons_cons, map_cons, hchains, hms, and_self]

/-- The cell that a chain entry stands in. -/
theorem cellAt_chain (h : Relation s root ss) {xs ys : List (String × String)}
    {e : String × String} (hsplit : entries root ss = xs ++ e :: ys) :
    ∃ c, cellAt s e.1 = .ok c ∧ c.id = e.1 ∧ c.link0 = e.2 ∧ c.link1 = first nullId ys := by
  have hlinked := h.linked
  rw [hsplit] at hlinked
  obtain ⟨c, hc, hid, hlead, hnext⟩ := links_eq_some hlinked.get
  refine ⟨c, ?_, hid, hlead, hnext⟩
  unfold cellAt
  rw [hc]

theorem root_there (h : Relation s root ss) : (s.get root).isNone = false := by
  rw [Option.isNone_eq_false_iff]
  exact h.held (mem_append_left _ h.root_mem)

/-- **Appending** is appending. -/
theorem append_edited {pairs : List Pair} (h : Relation s root ss)
    (hok : appendRelationMembers s refusal root pairs budget uuid = .ok t) :
    ((max 1 ss.length : ℕ) : ℤ) ≤ budget ∧ pairs ≠ [] ∧ ∃ ss', Edited s root ss t ss' ∧
      membersOf ss' = membersOf ss ++ newMembers uuid pairs := by
  unfold appendRelationMembers at hok
  cases pairs with
  | nil => exact absurd hok (commit_nil _ _ _ _)
  | cons p rest =>
      obtain ⟨role, participant⟩ := p
      unfold prepareAppendRelationMembers at hok
      simp only [root_there h, Bool.false_eq_true, if_false] at hok
      have hlast : ∃ xs last, entries root ss = xs ++ [last] := by
        rcases eq_nil_or_concat (entries root ss) with hnil | hlast
        · have hlength := length_entries root ss
          rw [hnil, length_nil] at hlength
          omega
        · simpa using hlast
      obtain ⟨xs, last, hlast⟩ := hlast
      rw [lastChain_eq h hlast] at hok
      split at hok
      · next hbudget =>
        refine ⟨hbudget, cons_ne_nil _ _, ?_⟩
        obtain ⟨chain, hchain, hid, hlead, -⟩ := cellAt_chain h hlast
        simp only [hchain, bind, Except.bind, pure, Except.pure] at hok
        rw [newMembers_eq]
        cases ss with
        | nil =>
            -- the root takes the first member
            obtain rfl : last = (root, nullId) := by
              rw [entries_nil] at hlast
              have hsame := congrArg List.getLast? hlast
              simpa using hsame.symm
            rw [if_pos hlead] at hok
            have hc := commit_ok hok
            have hlength : ((List.range (rest.length + 1)).map (newId uuid "incidence")).tail.length
                = rest.length := by simp
            have hmembers := @membersOf_slots rest _
              ((List.range' (rest.length + 1) rest.length).map (newId uuid "chain")) hlength (by simp)
            rw [show rest.length + 1 - 1 = rest.length from rfl] at hc
            refine ⟨_, edited_filled (x := ⟨root, ⟨newId uuid "incidence" 0, role, participant⟩⟩) h hc
              hid rfl rfl rfl (linked_linkCells fun c hmem => hc.get_mem (by simp [hmem])) ?_ ?_, ?_⟩
            · exact List.Perm.cons _ (linkCells_ids _)
            · intro y hy
              rcases List.mem_cons.1 hy with rfl | hy
              · exact mem_cons_self
              · exact mem_cons_of_mem _ (cell_mem_linkCells hy)
            · unfold membersOf at hmembers ⊢
              rw [map_cons, hmembers, length_cons, range_succ_eq_map]
              rfl
        | cons x ss =>
            obtain ⟨ys, y, hsplit⟩ : ∃ ys y, x :: ss = ys ++ [y] := by
              rcases eq_nil_or_concat (x :: ss) with hnil | hsplit
              · cases hnil
              · simpa using hsplit
            rw [hsplit] at h hlast ⊢
            rw [entries_of_ne_nil (by simp), map_append] at hlast
            obtain rfl : last = y.entry := by
              have hsame := congrArg List.getLast? hlast
              simpa using hsame.symm
            have hne : chain.link0 ≠ nullId := by
              rw [hlead]
              exact fun hnull => h.notNull (mem_append_right _
                (hnull ▸ List.mem_map.2 ⟨y, by simp, rfl⟩))
            rw [if_neg hne] at hok
            have hc := commit_ok hok
            have hmembers := @membersOf_slots ((role, participant) :: rest)
              ((List.range (rest.length + 1)).map (newId uuid "incidence"))
              ((List.range' (rest.length + 1) (rest.length + 1)).map (newId uuid "chain"))
              (by simp) (by simp)
            have hlinked := linked_linkCells fun c hmem => hc.get_mem (mem_append_left _ hmem)
            refine ⟨_, edited_spliced h hc hid hlead (by rw [append_nil]) hlinked
              (linkCells_ids _) (fun z hz => cell_mem_linkCells hz), ?_⟩
            unfold membersOf at hmembers ⊢
            rw [append_nil, map_append, map_cons, hmembers, length_cons]
            simp
      · cases hok

/-! ## Inserting -/

theorem incidences_membersOf (ss : List Slot) :
    (membersOf ss).map Member.incidence = incidencesOf ss := by
  unfold membersOf incidencesOf
  rw [map_map]
  rfl

/-- The chain cell of a member. -/
theorem cellAt_slot (h : Relation s root (xs ++ p :: rest)) :
    ∃ c, cellAt s p.chain = .ok c ∧ c.id = p.chain ∧ c.link0 = p.member.incidence ∧
      c.link1 = nextChain rest := by
  have hsplit : entries root (xs ++ p :: rest) =
      xs.map Slot.entry ++ p.entry :: rest.map Slot.entry := by
    rw [entries_of_ne_nil (by simp), map_append, map_cons]
  obtain ⟨c, hc, hid, hlead, hnext⟩ := cellAt_chain h hsplit
  exact ⟨c, hc, hid, hlead, hnext.trans (first_entries rest)⟩

theorem chainOf_get (root : String) (xs rest : List Slot) (p : Slot) :
    (chainOf root (xs ++ p :: rest))[xs.length]? = some p.chain := by
  rw [chainOf_of_ne_nil (by simp), map_append, map_cons]
  simp

/-- The member that stands at an index. -/
theorem split_of_idxOf? {i : ℕ} (h : (incidencesOf ss).idxOf? anchor = some i) :
    ∃ xs p rest, ss = xs ++ p :: rest ∧ xs.length = i ∧ p.member.incidence = anchor ∧
      anchor ∉ incidencesOf xs := by
  induction ss generalizing i with
  | nil => cases h
  | cons x ss ih =>
      unfold incidencesOf at h ih
      rw [map_cons, List.idxOf?_cons] at h
      split at h
      · next heq =>
        cases h
        exact ⟨[], x, ss, rfl, rfl, by simpa using heq, not_mem_nil⟩
      · next hne =>
        obtain ⟨j, hj, rfl⟩ := Option.map_eq_some_iff.1 h
        obtain ⟨xs, p, rest, rfl, hlength, hp, hnot⟩ := ih hj
        refine ⟨x :: xs, p, rest, rfl, by rw [length_cons, hlength], hp, ?_⟩
        unfold incidencesOf
        rw [map_cons, mem_cons, not_or]
        exact ⟨fun heq => hne (by simp [heq]), hnot⟩

theorem insertBefore_split {new : Member} (hp : p.member.incidence = anchor)
    (hnot : anchor ∉ incidencesOf xs) :
    insertBefore anchor new (membersOf (xs ++ p :: rest)) =
      some (membersOf xs ++ new :: p.member :: membersOf rest) := by
  induction xs with
  | nil => exact if_pos hp
  | cons x xs ih =>
      unfold incidencesOf at hnot ih
      rw [map_cons, mem_cons, not_or] at hnot
      unfold membersOf at ih ⊢
      rw [cons_append, map_cons, insertBefore, if_neg (Ne.symm hnot.1), ih hnot.2]
      rfl

theorem insertAfter_split {new : Member} (hp : p.member.incidence = anchor)
    (hnot : anchor ∉ incidencesOf xs) :
    insertAfter anchor new (membersOf (xs ++ p :: rest)) =
      some (membersOf xs ++ p.member :: new :: membersOf rest) := by
  induction xs with
  | nil => exact if_pos hp
  | cons x xs ih =>
      unfold incidencesOf at hnot ih
      rw [map_cons, mem_cons, not_or] at hnot
      unfold membersOf at ih ⊢
      rw [cons_append, map_cons, insertAfter, if_neg (Ne.symm hnot.1), ih hnot.2]
      rfl

/-- A member is put in after another one. -/
theorem edited_after {new : Member} {inserted : String} (h : Relation s root (xs ++ p :: rest))
    (hc : Committed s [new.cell, ⟨inserted, new.incidence, nextChain rest, []⟩] [c] t)
    (hid : c.id = p.chain) (hlead : c.link0 = p.member.incidence) (hnext : c.link1 = inserted) :
    Edited s root (xs ++ p :: rest) t (xs ++ p :: ⟨inserted, new⟩ :: rest) := by
  have hinserted := links_written hc
    (show (⟨inserted, new.incidence, nextChain rest, []⟩ : Cell) ∈ _ by simp)
  have hnew : Linked t.links (nextChain rest) ([⟨inserted, new⟩].map Slot.entry) :=
    ⟨hinserted, trivial⟩
  have hnext : c.link1 = nextChain ([⟨inserted, new⟩] ++ rest) := hnext
  refine edited_spliced h hc hid hlead hnext hnew (List.Perm.swap _ _ _) fun x hx => ?_
  rw [List.mem_singleton.1 hx]
  exact mem_cons_self

/-- A member is put in first: the root takes it, and what the root led to moves to a new
chain cell. -/
theorem edited_first {new : Member} {inserted : String} (h : Relation s root (x :: rest))
    (hc : Committed s [new.cell, ⟨inserted, x.member.incidence, nextChain rest, []⟩] [c] t)
    (hid : c.id = root) (hlead : c.link0 = new.incidence) (hnext : c.link1 = inserted) :
    Edited s root (x :: rest) t (⟨root, new⟩ :: ⟨inserted, x.member⟩ :: rest) := by
  have hroot : x.chain = root := h.start
  have hchain : chainOf root (x :: rest) = root :: rest.map Slot.chain := by
    rw [chainOf_of_ne_nil (cons_ne_nil x rest), map_cons, hroot]
  have hnodup := h.chain_nodup
  rw [hchain, nodup_cons] at hnodup
  have hrest : Linked t.links nullId (rest.map Slot.entry) := h.linked.2.frame fun e he => by
    obtain ⟨y, hy, rfl⟩ := List.mem_map.1 he
    have hmem : y.chain ∈ rest.map Slot.chain := List.mem_map.2 ⟨y, hy, rfl⟩
    refine links_kept h hc (by rw [hchain]; exact mem_cons_of_mem _ hmem) fun c' hc' heq => ?_
    obtain rfl := List.mem_singleton.1 hc'
    exact hnodup.1 (hid ▸ heq ▸ hmem)
  refine edited_of_committed h hc ?_ rfl ⟨?_, ?_, hrest⟩ (List.Subperm.refl _) ?_ ?_
  · intro c' hc'
    obtain rfl := List.mem_singleton.1 hc'
    rw [hid, hchain]
    exact mem_cons_self
  · show t.links root = some (new.incidence, inserted)
    rw [← hid, ← hlead, ← hnext]
    exact links_written hc (by simp)
  · rw [first_entries]
    exact links_written hc
      (show (⟨inserted, x.member.incidence, nextChain rest, []⟩ : Cell) ∈ _ by simp)
  · rw [owned_of_ne_nil root (cons_ne_nil _ _), owned_of_ne_nil root (cons_ne_nil _ _),
      ← Multiset.coe_eq_coe]
    unfold incidencesOf
    simp only [map_cons, hroot, ← Multiset.coe_add, ← Multiset.cons_coe, Member.cell,
      ← Multiset.singleton_add, map_nil, Multiset.coe_nil]
    abel
  · intro m hm
    obtain ⟨y, hy, rfl⟩ := List.mem_map.1 hm
    simp only [mem_cons] at hy
    rcases hy with rfl | rfl | hy
    · exact Or.inr mem_cons_self
    · exact Or.inl mem_cons_self
    · exact Or.inl (mem_cons_of_mem _ (List.mem_map.2 ⟨y, hy, rfl⟩))

section

variable (h : Relation s root ss)

include h

/-- The root's cell. -/
theorem cellAt_root : ∃ c, cellAt s root = .ok c ∧ c.id = root := by
  obtain ⟨c, hc⟩ := Option.isSome_iff_exists.1 (h.held (mem_append_left _ h.root_mem))
  refine ⟨c, ?_, s.graph.keyed root c hc⟩
  unfold cellAt
  rw [hc]

/-- The last member, by its incidence. -/
theorem rest_of_last (hsplit : ss = xs ++ p :: rest)
    (hp : p.member.incidence = (incidencesOf ss).getLastD "") : rest = [] := by
  rcases eq_nil_or_concat rest with hnil | ⟨ys, y, hys⟩
  · exact hnil
  · exfalso
    have hnodup := h.incidences_nodup
    rw [hsplit, hys] at hp hnodup
    unfold incidencesOf at hp hnodup
    simp only [concat_eq_append, map_append, map_cons, map_nil] at hp hnodup
    have hlast : p.member.incidence = y.member.incidence := by
      rw [hp, ← cons_append, ← append_assoc]
      exact getLastD_concat
    rw [hlast] at hnodup
    have hapart := (List.nodup_cons.1 (List.nodup_append.1 hnodup).2.1).1
    exact hapart (by simp)

/-- A relation can be read within a budget that its chain can be walked in. -/
theorem read_of_budget (hbudget : ((max 1 ss.length : ℕ) : ℤ) ≤ budget) :
    relationChainIds s root budget = .ok (chainOf root ss) ∧
      readRelation s root budget = .ok (membersOf ss) := by
  rw [relationChainIds_eq h, if_pos hbudget, readRelation_eq h, if_neg (by omega), if_pos hbudget]
  exact ⟨rfl, rfl⟩

/-- A walk along the chain needs its budget. -/
theorem budget_of_chainIds (hok : relationChainIds s root budget = .ok ids) :
    ((max 1 ss.length : ℕ) : ℤ) ≤ budget := by
  by_contra hbudget
  rw [relationChainIds_eq h, if_neg hbudget] at hok
  cases hok

/-- What an insertion has checked. -/
theorem insertPatch_ok {before after : Option String} {patch : RelationPatch}
    (hok : insertPatch s root role participant before after budget uuid = .ok patch) :
    ((max 1 ss.length : ℕ) : ℤ) ≤ budget ∧ ¬ (before.isSome ∧ after.isSome) ∧
      (∀ anchor ∈ anchorOf before after, anchor ∈ incidencesOf ss) ∧
      ∃ rootCell, cellAt s root = .ok rootCell ∧ rootCell.id = root ∧
        insertAt s (chainOf root ss) (incidencesOf ss) rootCell
          ⟨newId uuid "incidence" 0, role, participant⟩ (newId uuid "chain" 1) before after =
            .ok patch := by
  unfold insertPatch at hok
  split at hok
  · cases hok
  · next hone =>
    obtain ⟨ids, hids, hok⟩ := Check.bind_ok_iff.mp hok
    have hbudget := budget_of_chainIds h hids
    obtain ⟨hchain, hread⟩ := read_of_budget h hbudget
    obtain rfl := Except.ok.inj (hchain.symm.trans hids)
    rw [hread] at hok
    obtain ⟨members, hmembers, hok⟩ := Check.bind_ok_iff.mp hok
    obtain rfl := Except.ok.inj hmembers
    rw [incidences_membersOf] at hok
    dsimp only at hok
    split at hok
    · cases hok
    · next hanchor =>
      obtain ⟨rootCell, hroot, hid⟩ := cellAt_root h
      rw [hroot] at hok
      refine ⟨hbudget, hone, fun anchor hmem => ?_, rootCell, hroot, hid, hok⟩
      by_contra hnot
      exact hanchor ⟨anchor, hmem, hnot⟩

end

variable {before after : Option String} {patch : RelationPatch} {rootCell : Cell} {new : Member}
  {inserted : String} {expected : ℕ} {cells : List Cell} {order : List String}

/-- A member put into a relation without members. -/
theorem insertAt_empty (h : Relation s root []) (hid : rootCell.id = root)
    (hok : insertAt s (chainOf root []) [] rootCell new inserted before after = .ok patch)
    (hcommit : s.commit refusal expected patch.create patch.replace = .ok t) :
    Edited s root [] t [⟨root, new⟩] := by
  unfold insertAt at hok
  rw [if_pos rfl] at hok
  obtain rfl := Except.ok.inj hok
  have hc := commit_ok hcommit
  have hnone : Linked t.links nullId (([] : List Slot).map Slot.entry) := trivial
  exact edited_filled h hc hid rfl rfl rfl hnone (List.Perm.refl _) (by simp)

/-- A member put in before another. -/
theorem insertAt_before (h : Relation s root ss) (hne : ss ≠ [])
    (hroot : cellAt s root = .ok rootCell) (hid : rootCell.id = root)
    (hok : insertAt s (chainOf root ss) (incidencesOf ss) rootCell new inserted (some anchor) after =
      .ok patch) (hcommit : s.commit refusal expected patch.create patch.replace = .ok t) :
    ∃ ss', Edited s root ss t ss' ∧
      insertBefore anchor new (membersOf ss) = some (membersOf ss') := by
  have hids : incidencesOf ss ≠ [] := fun hnil => hne (List.map_eq_nil_iff.1 hnil)
  unfold insertAt at hok
  rw [if_neg hids] at hok
  simp only at hok
  cases hindex : (incidencesOf ss).idxOf? anchor with
  | none =>
      rw [hindex] at hok
      cases hok
  | some i =>
      obtain ⟨xs, p, rest, rfl, rfl, hp, hnot⟩ := split_of_idxOf? hindex
      have hlist : insertBefore anchor new (membersOf (xs ++ p :: rest)) =
          some (membersOf xs ++ new :: p.member :: membersOf rest) := insertBefore_split hp hnot
      rw [hindex] at hok
      rcases eq_nil_or_concat xs with rfl | ⟨ys, q, rfl⟩
      · -- the root takes the new member
        obtain ⟨c, hcell, -, hlead, hnext⟩ := cellAt_slot h
        rw [show p.chain = root from h.start, hroot] at hcell
        obtain rfl := Except.ok.inj hcell
        obtain rfl := Except.ok.inj hok
        rw [hlead, hnext] at hcommit
        exact ⟨_, edited_first h (commit_ok hcommit) hid rfl rfl, hlist⟩
      · -- it goes after the one before
        rw [concat_eq_append, append_assoc, singleton_append] at h hlist ⊢
        rw [concat_eq_append, append_assoc, singleton_append, length_append,
          length_singleton] at hok
        obtain ⟨c, hcell, hcid, hlead, -⟩ := cellAt_slot h
        have hnext : (chainOf root (ys ++ q :: p :: rest)).getD (ys.length + 1) nullId = p.chain := by
          rw [chainOf_of_ne_nil (by simp)]
          simp
        simp only [cellAtIndex, chainOf_get, hcell, hnext] at hok
        obtain rfl := Except.ok.inj hok
        refine ⟨_, edited_after h (commit_ok hcommit) hcid hlead rfl, ?_⟩
        rw [hlist]
        unfold membersOf
        simp

/-- A member put in after another, or last. -/
theorem insertAt_after (h : Relation s root ss) (hne : ss ≠ [])
    (hok : insertAt s (chainOf root ss) (incidencesOf ss) rootCell new inserted none after =
      .ok patch)
    (hcommit : s.commit refusal expected patch.create patch.replace = .ok t) :
    ∃ ss', Edited s root ss t ss' ∧
      (∀ anchor, after = some anchor →
        insertAfter anchor new (membersOf ss) = some (membersOf ss')) ∧
      (after = none → membersOf ss' = membersOf ss ++ [new]) := by
  have hids : incidencesOf ss ≠ [] := fun hnil => hne (List.map_eq_nil_iff.1 hnil)
  unfold insertAt at hok
  rw [if_neg hids] at hok
  simp only at hok
  cases hindex : (incidencesOf ss).idxOf? (after.getD ((incidencesOf ss).getLastD "")) with
  | none =>
      rw [hindex] at hok
      cases hok
  | some i =>
      rw [hindex] at hok
      obtain ⟨xs, p, rest, hsplit, rfl, hp, hnot⟩ := split_of_idxOf? hindex
      have hrest : after = none → rest = [] := by
        rintro rfl
        exact rest_of_last h hsplit hp
      subst hsplit
      obtain ⟨c, hcell, hcid, hlead, hnext⟩ := cellAt_slot h
      simp only [cellAtIndex, chainOf_get, hcell] at hok
      obtain rfl := Except.ok.inj hok
      rw [hnext] at hcommit
      refine ⟨_, edited_after h (commit_ok hcommit) hcid hlead rfl, ?_, fun hafter => ?_⟩
      · rintro anchor rfl
        rw [show insertAfter anchor new _ = _ from insertAfter_split hp hnot]
        unfold membersOf
        simp
      · obtain rfl := hrest hafter
        unfold membersOf
        simp

/-- **Inserting** is inserting. -/
theorem insert_edited (h : Relation s root ss)
    (hok : insertRelationMember s refusal root role participant before after budget uuid = .ok t) :
    ((max 1 ss.length : ℕ) : ℤ) ≤ budget ∧ ∃ ss', Edited s root ss t ss' ∧
      (before ≠ some "" → Edit.onList uuid (membersOf ss) (.insert role participant before after) =
        some (membersOf ss')) := by
  unfold insertRelationMember at hok
  obtain ⟨patch, hpatch, hcommit⟩ := Check.bind_ok_iff.mp hok
  obtain ⟨hbudget, hone, hanchor, rootCell, hroot, hid, hat⟩ := insertPatch_ok h hpatch
  refine ⟨hbudget, ?_⟩
  by_cases hempty : ss = []
  · subst hempty
    refine ⟨_, insertAt_empty h hid hat hcommit, fun hbefore => ?_⟩
    -- no anchor is a member of nothing
    have hnone : anchorOf before after = none := by
      cases hsome : anchorOf before after with
      | none => rfl
      | some anchor => exact absurd (hanchor anchor hsome) not_mem_nil
    have hbeforeNone : before = none := by
      cases before with
      | none => rfl
      | some id =>
          have hid : id ≠ "" := fun hid => hbefore (hid ▸ rfl)
          unfold anchorOf at hnone
          simp [hid] at hnone
    subst hbeforeNone
    have hafterNone : after = none := hnone
    subst hafterNone
    rfl
  · cases before with
    | some anchor =>
        have hafter : after = none := by
          cases after with
          | none => rfl
          | some id => exact absurd ⟨rfl, rfl⟩ hone
        subst hafter
        obtain ⟨ss', hedited, hlist⟩ := insertAt_before h hempty hroot hid hat hcommit
        exact ⟨ss', hedited, fun _ => hlist⟩
    | none =>
        obtain ⟨ss', hedited, hafter, hlast⟩ := insertAt_after h hempty hat hcommit
        refine ⟨ss', hedited, fun _ => ?_⟩
        cases after with
        | some anchor => exact hafter anchor rfl
        | none => exact congrArg some (hlast rfl).symm

/-! ## Removing -/

/-- Which cells a relinked chain replaces. -/
theorem relinked_ids (hok : relinked s ss = .ok cells) : ∀ c ∈ cells, c.id ∈ ss.map Slot.chain := by
  induction ss generalizing cells with
  | nil =>
      cases hok
      exact fun _ hc => nomatch hc
  | cons x ss ih =>
      unfold relinked at hok
      obtain ⟨chain, hchain, hok⟩ := Check.bind_ok_iff.mp hok
      obtain ⟨rest, hrest, hok⟩ := Check.bind_ok_iff.mp hok
      have hid : chain.id = x.chain := cellAt_id hchain
      have hrestIds : ∀ c ∈ rest, c.id ∈ (x :: ss).map Slot.chain :=
        fun c hc => mem_cons_of_mem _ (ih hrest c hc)
      dsimp only at hok
      obtain rfl := Except.ok.inj hok
      intro c hc
      split at hc
      · rcases List.mem_cons.1 hc with rfl | hc
        · exact hid ▸ mem_cons_self
        · exact hrestIds c hc
      · exact hrestIds c hc

/-- **A relinked chain is linked.** -/
theorem linked_relinked (hok : relinked s ss = .ok cells) (hnodup : (ss.map Slot.chain).Nodup)
    (hget : ∀ c ∈ cells, t.get c.id = some c)
    (hkeep : ∀ id ∈ ss.map Slot.chain, id ∉ cells.map Cell.id → t.get id = s.get id) :
    Linked t.links nullId (ss.map Slot.entry) := by
  induction ss generalizing cells with
  | nil => trivial
  | cons x ss ih =>
      unfold relinked at hok
      obtain ⟨chain, hchain, hok⟩ := Check.bind_ok_iff.mp hok
      obtain ⟨rest, hrest, hok⟩ := Check.bind_ok_iff.mp hok
      have hid : chain.id = x.chain := cellAt_id hchain
      rw [map_cons, nodup_cons] at hnodup
      have hnotRest : x.chain ∉ rest.map Cell.id := by
        intro hmem
        obtain ⟨c, hc, heq⟩ := List.mem_map.1 hmem
        exact hnodup.1 (heq ▸ relinked_ids hrest c hc)
      obtain rfl := Except.ok.inj hok
      -- the first chain cell is replaced, or is what it is to be
      have hfirst : t.get x.chain = some ⟨chain.id, x.member.incidence, nextChain ss, chain.atom⟩ := by
        by_cases hsame : (⟨chain.id, x.member.incidence, nextChain ss, chain.atom⟩ : Cell) = chain
        · rw [hkeep x.chain mem_cons_self (by rw [if_neg (not_not.2 hsame)]; exact hnotRest),
            hsame]
          exact cellAt_get hchain
        · rw [← hid]
          exact hget _ (by rw [if_pos hsame]; exact mem_cons_self)
      refine ⟨?_, ih hrest hnodup.2 (fun c hc => hget c ?_) fun id hmem hnot => ?_⟩
      · unfold Store.links
        rw [show t.get x.entry.1 = _ from hfirst, first_entries]
        rfl
      · split
        · exact mem_cons_of_mem _ hc
        · exact hc
      · refine hkeep id (mem_cons_of_mem _ hmem) fun hmem' => ?_
        split at hmem'
        · rcases List.mem_cons.1 hmem' with heq | hmem'
          · exact hnodup.1 (hid ▸ heq ▸ hmem)
          · exact hnot hmem'
        · exact hnot hmem'

/-- **Removing** is removing. -/
theorem remove_edited (h : Relation s root ss)
    (hok : removeRelationMembers s refusal root ids budget = .ok t) :
    ((max 1 ss.length : ℕ) : ℤ) ≤ budget ∧ ∃ ss', Edited s root ss t ss' ∧
      Edit.onList uuid (membersOf ss) (.remove ids) = some (membersOf ss') := by
  unfold removeRelationMembers at hok
  obtain ⟨patch, hpatch, hcommit⟩ := Check.bind_ok_iff.mp hok
  unfold prepareRemoveRelationMembers at hpatch
  dsimp only at hpatch
  split at hpatch
  · obtain rfl := Except.ok.inj hpatch
    exact absurd hcommit (commit_nil _ _ _ _)
  · next hsome =>
    obtain ⟨chainIds, hchainIds, hpatch⟩ := Check.bind_ok_iff.mp hpatch
    have hbudget := budget_of_chainIds h hchainIds
    obtain ⟨hchain, hread⟩ := read_of_budget h hbudget
    obtain rfl := Except.ok.inj (hchain.symm.trans hchainIds)
    rw [hread] at hpatch
    obtain ⟨members, hmembers, hpatch⟩ := Check.bind_ok_iff.mp hpatch
    obtain rfl := Except.ok.inj hmembers
    refine ⟨hbudget, ?_⟩
    split at hpatch
    · cases hpatch
    · next hall =>
      have hids : ids ≠ [] := fun hnil => hsome (by rw [hnil]; rfl)
      have hmem : ∀ id, id ∈ ids.eraseDups ↔ id ∈ ids := fun id => mem_eraseDups
      have hthere : ∀ id ∈ ids, id ∈ (membersOf ss).map Member.incidence := by
        intro id hid
        by_contra hnot
        exact hall ⟨id, (hmem id).2 hid, hnot⟩
      obtain ⟨id, hid⟩ := exists_mem_of_ne_nil ids hids
      have hne : ss ≠ [] := by
        rintro rfl
        exact absurd (hthere id hid) not_mem_nil
      have hslots : List.zipWith Slot.mk (chainOf root ss) (membersOf ss) = ss := by
        rw [chainOf_of_ne_nil hne]
        exact zipWith_slots ss
      rw [hslots] at hpatch
      have hlist : Edit.onList uuid (membersOf ss) (.remove ids) =
          some (membersOf (ss.filter fun x => x.member.incidence ∉ ids.eraseDups)) := by
        refine (if_pos ⟨hids, hthere⟩).trans (congrArg some ?_)
        unfold membersOf
        rw [filter_map]
        simp only [hmem]
        rfl
      rw [hlist]
      obtain ⟨rootCell, hroot, hrootId⟩ := cellAt_root h
      rw [hroot] at hpatch
      obtain ⟨rootCell', hrootCell, hpatch⟩ := Check.bind_ok_iff.mp hpatch
      obtain rfl := Except.ok.inj hrootCell
      have hsub : (ss.filter fun x => x.member.incidence ∉ ids.eraseDups).Sublist ss :=
        filter_sublist
      split at hpatch
      · -- nothing remains
        next hnone =>
        obtain rfl := Except.ok.inj hpatch
        have hc := commit_ok hcommit
        rw [hnone]
        refine ⟨[], edited_of_committed h hc ?_ rfl ⟨?_, trivial⟩ ?_ (List.Perm.refl _)
          (fun _ hm => nomatch hm), rfl⟩
        · intro c hc'
          rw [List.mem_singleton.1 hc', hrootId]
          exact h.root_mem
        · rw [← hrootId]
          exact links_written hc
            (show (⟨rootCell.id, nullId, nullId, rootCell.atom⟩ : Cell) ∈ _ by simp)
        · exact (List.singleton_sublist.2 (mem_append_left _ h.root_mem)).subperm
      · next first rest hremaining =>
        obtain ⟨cells, hcells, hpatch⟩ := Check.bind_ok_iff.mp hpatch
        obtain rfl := Except.ok.inj hpatch
        have hc := commit_ok hcommit
        rw [hremaining] at hsub ⊢
        -- the chain of what remains is relinked, the root first
        have hrelinked : relinked s (⟨root, first.member⟩ :: rest) = .ok
            (if (⟨rootCell.id, first.member.incidence, nextChain rest, rootCell.atom⟩ : Cell) ≠ rootCell
              then ⟨rootCell.id, first.member.incidence, nextChain rest, rootCell.atom⟩ :: cells
              else cells) := by
          unfold relinked
          rw [hroot, hcells]
          rfl
        have hchainSub : ((⟨root, first.member⟩ :: rest : List Slot).map Slot.chain).Sublist
            (ss.map Slot.chain) := by
          obtain ⟨x, ss, rfl⟩ := exists_cons_of_ne_nil hne
          rw [map_cons, map_cons, show x.chain = root from h.start]
          exact (hsub.tail.map Slot.chain).cons_cons root
        have hnodup := h.chain_nodup
        rw [chainOf_of_ne_nil hne] at hnodup
        have hlinked : Linked t.links nullId (entries root (⟨root, first.member⟩ :: rest)) := by
          refine linked_relinked hrelinked (hnodup.sublist hchainSub) (fun c hc' => hc.get_mem hc') ?_
          intro id hid hnot
          exact hc.get_other hnot
        refine ⟨⟨root, first.member⟩ :: rest, edited_of_committed h hc ?_ rfl hlinked ?_
          (by rw [map_nil, append_nil]) ?_, rfl⟩
        · intro c hc'
          rw [chainOf_of_ne_nil hne]
          exact hchainSub.subset (relinked_ids hrelinked c hc')
        · rw [owned_of_ne_nil root (cons_ne_nil _ _), owned_of_ne_nil root hne]
          exact (hchainSub.append (hsub.map fun x => x.member.incidence)).subperm
        · intro m hm
          refine Or.inl ((hsub.map Slot.member).subset ?_)
          exact hm

/-! ## Reordering -/

/-- What a relabelled chain replaces, and what it leaves. -/
theorem relabelled_ok {ps : List (String × String)} (hok : relabelled s ps = .ok cells)
    (hnodup : (ps.map Prod.fst).Nodup) :
    (∀ c ∈ cells, c.id ∈ ps.map Prod.fst) ∧ ∀ p ∈ ps, ∃ c, s.get p.1 = some c ∧ c.id = p.1 ∧
      if c.link0 = p.2 then p.1 ∉ cells.map Cell.id else ⟨c.id, p.2, c.link1, c.atom⟩ ∈ cells := by
  induction ps generalizing cells with
  | nil =>
      cases hok
      exact ⟨(fun _ hc => nomatch hc), fun _ hp => nomatch hp⟩
  | cons p ps ih =>
      obtain ⟨id, incidence⟩ := p
      unfold relabelled at hok
      obtain ⟨chain, hchain, hok⟩ := Check.bind_ok_iff.mp hok
      obtain ⟨rest, hrest, hok⟩ := Check.bind_ok_iff.mp hok
      rw [map_cons, nodup_cons] at hnodup
      obtain ⟨hids, hall⟩ := ih hrest hnodup.2
      have hid : chain.id = id := cellAt_id hchain
      obtain rfl := Except.ok.inj hok
      have hmem : ∀ c, c ∈ (if chain.link0 ≠ incidence then
          (⟨chain.id, incidence, chain.link1, chain.atom⟩ : Cell) :: rest else rest) → c ∈ rest ∨
          (chain.link0 ≠ incidence ∧ c = ⟨chain.id, incidence, chain.link1, chain.atom⟩) := by
        intro c hc
        split at hc
        · next hne => exact (List.mem_cons.1 hc).symm.imp_right fun heq => ⟨hne, heq⟩
        · exact Or.inl hc
      refine ⟨fun c hc => ?_, fun p hp => ?_⟩
      · rcases hmem c hc with hc | ⟨-, rfl⟩
        · exact mem_cons_of_mem _ (hids c hc)
        · exact hid ▸ mem_cons_self
      · rcases List.mem_cons.1 hp with rfl | hp
        · refine ⟨chain, cellAt_get hchain, hid, ?_⟩
          split
          · next hsame =>
            intro hcell
            obtain ⟨c, hc, heq⟩ := List.mem_map.1 hcell
            rcases hmem c hc with hc | ⟨hne, -⟩
            · exact hnodup.1 (heq ▸ hids c hc)
            · exact hne hsame
          · exact mem_cons_self
        · obtain ⟨c, hget, hcid, hcell⟩ := hall p hp
          refine ⟨c, hget, hcid, ?_⟩
          split
          · next hsame =>
            rw [if_pos hsame] at hcell
            intro hin
            obtain ⟨c', hc', heq⟩ := List.mem_map.1 hin
            rcases hmem c' hc' with hc' | ⟨-, rfl⟩
            · exact hcell (List.mem_map.2 ⟨c', hc', heq⟩)
            · exact hnodup.1 (hid ▸ heq ▸ List.mem_map.2 ⟨p, hp, rfl⟩)
          · next hne =>
            rw [if_neg hne] at hcell
            split
            · exact mem_cons_of_mem _ hcell
            · exact hcell

/-- The members in another order. -/
theorem map_filterMap_find {ms : List Member} (h : ∀ id ∈ order, id ∈ ms.map Member.incidence) :
    (order.filterMap fun id => ms.find? (·.incidence = id)).map Member.incidence = order := by
  induction order with
  | nil => rfl
  | cons id order ih =>
      obtain ⟨m, hm, hid⟩ := List.mem_map.1 (h id mem_cons_self)
      obtain ⟨m', hfind⟩ : ∃ m', ms.find? (·.incidence = id) = some m' := by
        rw [← Option.isSome_iff_exists, List.find?_isSome]
        exact ⟨m, hm, by simpa using hid⟩
      have hincidence : m'.incidence = id := by simpa using List.find?_some hfind
      simp only [filterMap_cons, hfind, map_cons, hincidence,
        ih fun id' hid' => h id' (mem_cons_of_mem _ hid')]

/-- A commit of nothing would change nothing. -/
theorem committed_nil (s : Store) : Committed s [] [] s where
  fresh _ hc := nomatch hc
  held _ hc := nomatch hc
  nodup := nodup_nil
  get _ := rfl

/-- **Reordering** is reordering. -/
theorem reorder_edited (h : Relation s root ss)
    (hok : reorderRelationMembers s refusal root order budget = .ok t) :
    ((max 1 ss.length : ℕ) : ℤ) ≤ budget ∧ ∃ ss', Edited s root ss t ss' ∧
      Edit.onList uuid (membersOf ss) (.reorder order) = some (membersOf ss') := by
  unfold reorderRelationMembers at hok
  obtain ⟨cells, hcells, hcommit⟩ := Check.bind_ok_iff.mp hok
  unfold prepareReorderRelationMembers at hcells
  obtain ⟨chainIds, hchainIds, hcells⟩ := Check.bind_ok_iff.mp hcells
  have hbudget := budget_of_chainIds h hchainIds
  obtain ⟨hchain, hread⟩ := read_of_budget h hbudget
  obtain rfl := Except.ok.inj (hchain.symm.trans hchainIds)
  rw [hread] at hcells
  obtain ⟨members, hmembers, hcells⟩ := Check.bind_ok_iff.mp hcells
  obtain rfl := Except.ok.inj hmembers
  refine ⟨hbudget, ?_⟩
  dsimp only at hcells
  rw [incidences_membersOf] at hcells
  split at hcells
  · cases hcells
  · next hpermutation =>
    rw [not_or, not_not, not_not] at hpermutation
    obtain ⟨horder, hsub, hsub'⟩ := hpermutation
    have hperm : order.Perm (incidencesOf ss) :=
      (perm_ext_iff_of_nodup horder h.incidences_nodup).2 fun id => ⟨@hsub id, @hsub' id⟩
    have hc : Committed s [] cells t := by
      split at hcommit
      · next hnone =>
        obtain rfl := Except.ok.inj hcommit
        rw [hnone]
        exact committed_nil s
      · exact commit_ok hcommit
    -- the members in the new order, on the chain as it is
    let ms := order.filterMap fun id => (membersOf ss).find? (·.incidence = id)
    have hms : ms.map Member.incidence = order := map_filterMap_find fun id hid => by
      rw [incidences_membersOf]
      exact hsub hid
    have hmem : ∀ m ∈ ms, m ∈ membersOf ss := by
      intro m hm
      obtain ⟨id, -, hfind⟩ := List.mem_filterMap.1 hm
      exact List.mem_of_find?_eq_some hfind
    have hlength : ms.length = ss.length := by
      have hlengths := hperm.length_eq
      rw [← hms, length_map] at hlengths
      exact hlengths.trans (length_map _)
    have hlist : Edit.onList uuid (membersOf ss) (.reorder order) = some ms :=
      if_pos (by rw [incidences_membersOf]; exact hperm)
    cases ss with
    | nil =>
        obtain rfl : order = [] := List.perm_nil.1 hperm
        obtain rfl := Except.ok.inj hcells
        obtain rfl : s = t := Except.ok.inj hcommit
        exact ⟨[], Edited.refl h, hlist⟩
    | cons x ss =>
        have hne : x :: ss ≠ [] := cons_ne_nil x ss
        let ss' : List Slot := List.zipWith Slot.mk ((x :: ss).map Slot.chain) ms
        obtain ⟨hchains, hmembersOf⟩ : ss'.map Slot.chain = (x :: ss).map Slot.chain ∧
            membersOf ss' = ms := @map_zipWith_slots ((x :: ss).map Slot.chain) ms
          (by rw [length_map, hlength])
        have hincidences : incidencesOf ss' = order := by
          rw [← incidences_membersOf, hmembersOf, hms]
        have hne' : ss' ≠ [] := by
          intro hnil
          rw [hnil] at hchains
          cases hchains
        have hentries : ∀ {ys : List Slot}, ys ≠ [] →
            entries root ys = (ys.map Slot.chain).zip (incidencesOf ys) := by
          intro ys hys
          rw [entries_of_ne_nil hys]
          exact List.zip_map'.symm
        rw [chainOf_of_ne_nil hne] at hcells
        have hpairs : (((x :: ss).map Slot.chain).zip order).map Prod.fst =
            (x :: ss).map Slot.chain := List.map_fst_zip (by
          rw [length_map, ← hms, length_map, hlength])
        have hnodup := h.chain_nodup
        rw [chainOf_of_ne_nil hne] at hnodup
        obtain ⟨hids, hall⟩ := relabelled_ok hcells (by rw [hpairs]; exact hnodup)
        rw [hpairs] at hids
        have hlinked : Linked t.links nullId (entries root ss') := by
          have hold := h.linked
          rw [hentries hne] at hold
          rw [hentries hne', hchains, hincidences]
          refine hold.relabel hperm.length_eq fun k v' hpair v next hkv => ?_
          obtain ⟨c, hget, hcid, hcell⟩ := hall _ hpair
          obtain ⟨c', hget', -, -, rfl⟩ := links_eq_some hkv
          obtain rfl := Option.some.inj (hget.symm.trans hget')
          split at hcell
          · next hsame =>
            unfold Store.links
            rw [hc.get_other (by simpa using hcell), hget, ← show c.link0 = v' from hsame]
            rfl
          · have hwritten := links_written hc (mem_append_right [] hcell)
            rw [show c.id = k from hcid] at hwritten
            exact hwritten
        refine ⟨ss', edited_of_committed h hc ?_ ?_ hlinked ?_ (by rw [map_nil, append_nil]) ?_, ?_⟩
        · intro c hc'
          rw [chainOf_of_ne_nil hne]
          exact hids c hc'
        · obtain ⟨y, ys, hys⟩ := exists_cons_of_ne_nil hne'
          rw [hys, map_cons, map_cons, List.cons.injEq] at hchains
          rw [hys]
          exact hchains.1.trans h.start
        · rw [owned_of_ne_nil root hne, owned_of_ne_nil root hne', hchains, hincidences]
          exact (hperm.append_left _).subperm
        · intro m hm
          rw [hmembersOf] at hm
          exact Or.inl (hmem m hm)
        · rw [hlist, hmembersOf]

end ArchHub.Cells

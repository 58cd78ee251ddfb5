import Mathlib
import ArchHub.Lib.Dict

/-!
# The cell store

A cell has an identity, two links and an atom.  A store holds a graph of cells: every
link leads to a cell, and one distinguished cell stands for nothing.  A commit creates
cells and replaces cells, all of them or none.

* `delta`: the checks of a commit, and the cells it writes.
* `Graph`: a graph without dangling links, which `Graph.overlay` keeps.
* `Store.commit`: the commit.  `Committed` says what the graph is after it.

What else refuses a commit — a closed store, a stable snapshot, an archived identity,
an intent that was not declared — is a parameter of it.
-/

namespace ArchHub.Cells

open Lib List

/-- `NULL_CELL_ID`. -/
def nullId : String := "00000000-0000-0000-0000-000000000000"

/-- A cell. -/
structure Cell where
  id : String
  link0 : String
  link1 : String
  atom : List UInt8
deriving DecidableEq

/-- The distinguished cell. -/
def nullCell : Cell := ⟨nullId, nullId, nullId, []⟩

/-- What is raised. -/
inductive CellError
  /-- `Conflict`. -/
  | conflict (expected current : ℕ)
  /-- `InvalidCell`. -/
  | invalid (text : String)
  /-- `InvalidCell`, with an identity in its text. -/
  | invalidAt (text id : String)
  /-- `MatchBudgetExceeded`. -/
  | budgetExceeded (text : String) (budget : ℤ)
  /-- `KeyError`. -/
  | missingKey (id : String)
  /-- `ValueError` of `tuple.index`. -/
  | notInTuple (id : String)
  /-- `IndexError`. -/
  | outOfRange
deriving DecidableEq

/-! ## What a commit writes -/

/-- The cells of a mapping. -/
abbrev Lookup := String → Option Cell

/-- The cells to be created are checked; the identities named so far are returned. -/
def checkCreated (base : Lookup) : List String → List Cell → Except CellError (List String)
  | named, [] => .ok named
  | named, c :: cs =>
      if c.id = "" then .error (.invalid "cell identity must be a non-empty string")
      else if (base c.id).isSome ∨ c.id ∈ named then
        .error (.invalidAt "cannot create existing cell" c.id)
      else checkCreated base (c.id :: named) cs

/-- The cells to be replaced are checked; those that change are returned. -/
def changedCells (base : Lookup) : List String → List Cell → Except CellError (List Cell)
  | _, [] => .ok []
  | named, c :: cs =>
      if c.id = "" then .error (.invalid "cell identity must be a non-empty string")
      else if c.id = nullId then .error (.invalid "the distinguished null cell is immutable")
      else match base c.id with
        | none => .error (.invalidAt "cannot replace missing cell" c.id)
        | some held =>
            if c.id ∈ named then .error (.invalidAt "is changed twice in one commit" c.id)
            else do
              let rest ← changedCells base (c.id :: named) cs
              -- an identical version is not a change
              return if held = c then rest else c :: rest

/-- Both links of a cell lead to a cell. -/
def linksHold (base : Lookup) (touched : List Cell) (c : Cell) : Bool :=
  let there := fun id => touched.any (·.id = id) || (base id).isSome
  there c.link0 && there c.link1

/-- The cells that a commit writes. -/
def delta (base : Lookup) (create replace : List Cell) : Except CellError (List Cell) := do
  let named ← checkCreated base [] create
  let changed ← changedCells base named replace
  if create = [] ∧ replace = [] then .error (.invalid "empty commits are not transactions")
  else
    let touched := create ++ changed
    match touched.find? (fun c => !linksHold base touched c) with
    | some c => .error (.invalidAt "contains a dangling physical link" c.id)
    | none => .ok touched

/-- What the checks of a commit promise of the cells it creates, replaces and writes. -/
structure Checked (base : Lookup) (create replace written : List Cell) : Prop where
  fresh : ∀ c ∈ create, base c.id = none
  held : ∀ c ∈ replace, c.id ≠ nullId ∧ (base c.id).isSome
  nodup : ((create ++ replace).map Cell.id).Nodup
  shape : written = create ++ replace.filter (fun c => base c.id ≠ some c)
  links : ∀ c ∈ written, linksHold base written c = true

variable {base : Lookup} {cs : List Cell} {named : List String}

theorem checkCreated_ok {named' : List String} (h : checkCreated base named cs = .ok named')
    (hnamed : named.Nodup) :
    (∀ c ∈ cs, base c.id = none) ∧ named'.Nodup ∧ named'.Perm (cs.map Cell.id ++ named) := by
  induction cs generalizing named with
  | nil =>
      cases h
      exact ⟨(fun _ hc => nomatch hc), hnamed, List.Perm.refl _⟩
  | cons c cs ih =>
      unfold checkCreated at h
      split at h
      · cases h
      · split at h
        · cases h
        · next hfree =>
          rw [not_or, Bool.not_eq_true, Option.isSome_eq_false_iff, Option.isNone_iff_eq_none] at hfree
          obtain ⟨hfresh, hnodup, hperm⟩ := ih h (List.nodup_cons.2 ⟨hfree.2, hnamed⟩)
          refine ⟨fun c' hc' => ?_, hnodup, hperm.trans perm_middle⟩
          rcases List.mem_cons.1 hc' with rfl | hc'
          · exact hfree.1
          · exact hfresh c' hc'

theorem changedCells_ok {changed : List Cell} (h : changedCells base named cs = .ok changed) :
    (∀ c ∈ cs, c.id ≠ nullId ∧ (base c.id).isSome ∧ c.id ∉ named) ∧ (cs.map Cell.id).Nodup ∧
      changed = cs.filter (fun c => base c.id ≠ some c) := by
  induction cs generalizing named changed with
  | nil =>
      cases h
      exact ⟨(fun _ hc => nomatch hc), nodup_nil, rfl⟩
  | cons c cs ih =>
      unfold changedCells at h
      split at h
      · cases h
      · split at h
        · cases h
        · next hnull =>
          cases hheld : base c.id with
          | none => simp [hheld] at h
          | some held =>
              simp only [hheld] at h
              split at h
              · cases h
              · next hnamed =>
                cases hrest : changedCells base (c.id :: named) cs with
                | error e =>
                    rw [hrest] at h
                    cases h
                | ok rest =>
                    rw [hrest] at h
                    obtain ⟨hall, hnodup, hchanged⟩ := ih hrest
                    refine ⟨fun c' hc' => ?_, ?_, ?_⟩
                    · rcases List.mem_cons.1 hc' with rfl | hc'
                      · exact ⟨hnull, by simp [hheld], hnamed⟩
                      · obtain ⟨hn, hb, hnot⟩ := hall c' hc'
                        exact ⟨hn, hb, fun hmem => hnot (mem_cons_of_mem _ hmem)⟩
                    · rw [map_cons, nodup_cons]
                      refine ⟨fun hmem => ?_, hnodup⟩
                      obtain ⟨c', hc', hid⟩ := List.mem_map.1 hmem
                      exact (hall c' hc').2.2 (hid ▸ mem_cons_self)
                    · have hvalue : (if held = c then rest else c :: rest) = changed :=
                        Except.ok.inj h
                      rw [← hvalue, filter_cons, hheld, hchanged]
                      by_cases hsame : held = c <;> simp [hsame]

variable {create replace written : List Cell} {c : Cell}

/-- **What the checks promise.** -/
theorem delta_ok (h : delta base create replace = .ok written) :
    Checked base create replace written := by
  unfold delta at h
  cases hcreated : checkCreated base [] create with
  | error e =>
      rw [hcreated] at h
      cases h
  | ok named =>
      cases hchanged : changedCells base named replace with
      | error e =>
          simp only [hcreated, hchanged, bind, Except.bind] at h
          cases h
      | ok changed =>
          simp only [hcreated, hchanged, bind, Except.bind] at h
          split at h
          · cases h
          · split at h
            · cases h
            · next hnone =>
              cases h
              obtain ⟨hfresh, hnodup, hperm⟩ := checkCreated_ok hcreated nodup_nil
              obtain ⟨hheld, hreplaced, hfilter⟩ := changedCells_ok hchanged
              rw [append_nil] at hperm
              refine ⟨hfresh, fun c hc => ⟨(hheld c hc).1, (hheld c hc).2.1⟩, ?_, ?_, ?_⟩
              · rw [map_append]
                refine (hperm.nodup_iff.1 hnodup).append hreplaced fun id hid hid' => ?_
                obtain ⟨c, hc, rfl⟩ := List.mem_map.1 hid'
                exact (hheld c hc).2.2 (hperm.mem_iff.2 hid)
              · rw [hfilter]
              · intro c hc
                simpa using List.find?_eq_none.1 hnone c hc

/-! ## Graphs -/

/-- A graph of cells: each under its own identity, no link that dangles, and the
distinguished cell. -/
structure Graph where
  cells : Dict String Cell
  keyed : ∀ id c, cells.get? id = some c → c.id = id
  null : cells.get? nullId = some nullCell
  links : ∀ id c, cells.get? id = some c →
    (cells.get? c.link0).isSome ∧ (cells.get? c.link1).isSome

/-- The cell of an identity. -/
def Graph.get (g : Graph) : Lookup := g.cells.get?

/-- The graph of a new store. -/
def Graph.empty : Graph where
  cells := Dict.empty.set nullId nullCell
  keyed id c h := by
    rw [Dict.get?_set] at h
    split at h
    · next hid =>
      cases h
      exact hid.symm
    · cases h
  null := Dict.get?_set_self _ _ _
  links id c h := by
    rw [Dict.get?_set] at h
    split at h
    · cases h
      exact ⟨by rw [show nullCell.link0 = nullId from rfl, Dict.get?_set_self]; rfl,
        by rw [show nullCell.link1 = nullId from rfl, Dict.get?_set_self]; rfl⟩
    · cases h

/-- The cell of an identity among some that are written. -/
def cellOf (cs : List Cell) (id : String) : Option Cell := cs.find? (·.id = id)

theorem cellOf_eq_some (hnodup : (cs.map Cell.id).Nodup) {id : String} :
    cellOf cs id = some c ↔ c ∈ cs ∧ c.id = id := by
  unfold cellOf
  constructor
  · intro h
    exact ⟨List.mem_of_find?_eq_some h, by simpa using List.find?_some h⟩
  · rintro ⟨hmem, rfl⟩
    cases hfind : cs.find? (·.id = c.id) with
    | none =>
        have hnone := List.find?_eq_none.1 hfind c hmem
        simp at hnone
    | some c' =>
        have hid : c'.id = c.id := by simpa using List.find?_some hfind
        rw [inj_on_of_nodup_map hnodup (List.mem_of_find?_eq_some hfind) hmem hid]

theorem cellOf_eq_none {id : String} : cellOf cs id = none ↔ id ∉ cs.map Cell.id := by
  unfold cellOf
  rw [List.find?_eq_none]
  simp

/-- Cells under their identities. -/
theorem nodup_keyed (hnodup : (cs.map Cell.id).Nodup) :
    ((cs.map fun c => (c.id, c)).map Prod.fst).Nodup := by
  rw [map_map]
  exact hnodup

theorem get?_update_cells (cells : Dict String Cell) (hnodup : (cs.map Cell.id).Nodup)
    (id : String) :
    (cells.update (cs.map fun c => (c.id, c))).get? id = (cellOf cs id).or (cells.get? id) := by
  have hkeys := nodup_keyed hnodup
  rw [Dict.get?_update _ _ hkeys]
  congr 1
  clear hnodup hkeys
  induction cs with
  | nil => rfl
  | cons c cs ih =>
      rw [map_cons, Assoc.find_cons, ih]
      unfold cellOf
      rw [List.find?_cons]
      by_cases hid : c.id = id <;> simp [hid]

/-- What a graph needs of the cells that are written to it. -/
structure Fits (base : Lookup) (written : List Cell) : Prop where
  nodup : (written.map Cell.id).Nodup
  null : nullId ∉ written.map Cell.id
  links : ∀ c ∈ written, linksHold base written c = true

theorem Checked.written_nodup (h : Checked base create replace written) :
    (written.map Cell.id).Nodup := by
  rw [h.shape]
  exact h.nodup.sublist ((List.Sublist.append (List.Sublist.refl create)
    filter_sublist).map Cell.id)

theorem Checked.fits (h : Checked base create replace written) (hnull : (base nullId).isSome) :
    Fits base written where
  nodup := h.written_nodup
  null hmem := by
    rw [h.shape, map_append, mem_append] at hmem
    rcases hmem with hmem | hmem
    · obtain ⟨c, hc, hid⟩ := List.mem_map.1 hmem
      rw [← hid, h.fresh c hc] at hnull
      cases hnull
    · obtain ⟨c, hc, hid⟩ := List.mem_map.1 hmem
      exact (h.held c (mem_of_mem_filter hc)).1 hid
  links := h.links

/-- A cell that is replaced by itself is what it was. -/
theorem Checked.get (h : Checked base create replace written) (id : String) :
    (cellOf written id).or (base id) = (cellOf (create ++ replace) id).or (base id) := by
  have hsub : ∀ c, c ∈ written → c ∈ create ++ replace := by
    intro c hc
    rw [h.shape] at hc
    rcases List.mem_append.1 hc with hc | hc
    · exact mem_append_left _ hc
    · exact mem_append_right _ (mem_of_mem_filter hc)
  cases hcell : cellOf (create ++ replace) id with
  | none =>
      have hnone : cellOf written id = none := by
        rw [cellOf_eq_none] at hcell ⊢
        intro hmem
        obtain ⟨c, hc, rfl⟩ := List.mem_map.1 hmem
        exact hcell (List.mem_map.2 ⟨c, hsub c hc, rfl⟩)
      rw [hnone]
  | some c =>
      obtain ⟨hmem, hid⟩ := (cellOf_eq_some h.nodup).1 hcell
      by_cases hwritten : c ∈ written
      · rw [(cellOf_eq_some h.written_nodup).2 ⟨hwritten, hid⟩]
      · have hsame : base c.id = some c := by
          by_contra hne
          refine hwritten ?_
          rw [h.shape, mem_append, mem_filter]
          rcases List.mem_append.1 hmem with hmem | hmem
          · exact Or.inl hmem
          · exact Or.inr ⟨hmem, by simpa using hne⟩
        have hnone : cellOf written id = none := by
          rw [cellOf_eq_none]
          intro hin
          obtain ⟨c', hc', hid'⟩ := List.mem_map.1 hin
          have heq := inj_on_of_nodup_map h.nodup (hsub c' hc') hmem (hid'.trans hid.symm)
          exact hwritten (heq ▸ hc')
        rw [hnone, ← hid, hsame]
        rfl

/-- The graph with some cells written. -/
def Graph.overlay (g : Graph) (written : List Cell) (h : Fits g.get written) : Graph where
  cells := g.cells.update (written.map fun c => (c.id, c))
  keyed id c hc := by
    rw [get?_update_cells _ h.nodup, Option.or_eq_some_iff] at hc
    rcases hc with hc | ⟨-, hc⟩
    · exact ((cellOf_eq_some h.nodup).1 hc).2
    · exact g.keyed id c hc
  null := by
    rw [get?_update_cells _ h.nodup, cellOf_eq_none.2 h.null]
    exact g.null
  links id c hc := by
    have hthere : ∀ id', written.any (·.id = id') = true ∨ (g.get id').isSome = true →
        ((g.cells.update (written.map fun c => (c.id, c))).get? id').isSome = true := by
      intro id' hid'
      rw [get?_update_cells _ h.nodup, Option.isSome_or, Bool.or_eq_true]
      refine hid'.imp_left fun hany => ?_
      unfold cellOf
      rw [List.find?_isSome]
      exact List.any_eq_true.1 hany
    rw [get?_update_cells _ h.nodup, Option.or_eq_some_iff] at hc
    rcases hc with hc | ⟨-, hc⟩
    · have hlinks := h.links c ((cellOf_eq_some h.nodup).1 hc).1
      unfold linksHold at hlinks
      simp only [Bool.and_eq_true, Bool.or_eq_true] at hlinks
      exact ⟨hthere _ hlinks.1, hthere _ hlinks.2⟩
    · obtain ⟨h0, h1⟩ := g.links id c hc
      exact ⟨hthere _ (Or.inr h0), hthere _ (Or.inr h1)⟩

/-! ## Commits -/

/-- A store: its revision, and its graph. -/
structure Store where
  revision : ℕ
  graph : Graph

/-- The cell of an identity. -/
def Store.get (s : Store) : Lookup := s.graph.get

/-- A new store. -/
def Store.empty : Store := ⟨0, Graph.empty⟩

/-- `CellStore.commit`, where nothing else refuses it. -/
def Store.commit (s : Store) (refusal : Option CellError) (expected : ℕ)
    (create replace : List Cell) : Except CellError Store :=
  match refusal with
  | some e => .error e
  | none =>
      if expected ≠ s.revision then .error (.conflict expected s.revision)
      else match h : delta s.get create replace with
        | .error e => .error e
        | .ok written =>
            if written = [] then .ok s
            else
              have hnull : (s.get nullId).isSome := by
                rw [Store.get, Graph.get, s.graph.null]
                rfl
              .ok ⟨s.revision + 1, s.graph.overlay written ((delta_ok h).fits hnull)⟩

/-- What a commit makes of the cells. -/
structure Committed (s : Store) (create replace : List Cell) (t : Store) : Prop where
  fresh : ∀ c ∈ create, s.get c.id = none
  held : ∀ c ∈ replace, c.id ≠ nullId ∧ (s.get c.id).isSome
  nodup : ((create ++ replace).map Cell.id).Nodup
  get : ∀ id, t.get id = (cellOf (create ++ replace) id).or (s.get id)

/-- **The spec of a commit.** -/
theorem commit_ok {s t : Store} {refusal : Option CellError} {expected : ℕ}
    (h : s.commit refusal expected create replace = .ok t) : Committed s create replace t := by
  unfold Store.commit at h
  cases refusal with
  | some e => cases h
  | none =>
      simp only at h
      split at h
      · cases h
      · split at h
        · cases h
        · next written hdelta =>
          have hchecked := delta_ok hdelta
          have hget : ∀ id, t.get id = (cellOf written id).or (s.get id) := by
            intro id
            split at h
            · next hnone =>
              cases h
              rw [hnone]
              rfl
            · cases h
              have hnull : (s.get nullId).isSome := by
                rw [Store.get, Graph.get, s.graph.null]
                rfl
              exact get?_update_cells _ (hchecked.fits hnull).nodup id
          exact ⟨hchecked.fresh, hchecked.held, hchecked.nodup,
            fun id => (hget id).trans (hchecked.get id)⟩

/-- A commit of nothing is refused. -/
theorem commit_nil (s t : Store) (refusal : Option CellError) (expected : ℕ) :
    s.commit refusal expected [] [] ≠ .ok t := by
  unfold Store.commit
  intro h
  cases refusal with
  | some e => cases h
  | none =>
      simp only at h
      split at h
      · cases h
      · split at h
        · cases h
        · next written hdelta =>
          have hempty : delta s.get [] [] = .error (.invalid "empty commits are not transactions") :=
            rfl
          rw [hempty] at hdelta
          cases hdelta

namespace Committed

variable {s t : Store} {create replace : List Cell}

/-- A cell that is written is there. -/
theorem get_mem (h : Committed s create replace t) (hc : c ∈ create ++ replace) :
    t.get c.id = some c := by
  rw [h.get, (cellOf_eq_some h.nodup).2 ⟨hc, rfl⟩]
  rfl

/-- The other cells are as they were. -/
theorem get_other (h : Committed s create replace t) {id : String}
    (hid : id ∉ (create ++ replace).map Cell.id) : t.get id = s.get id := by
  rw [h.get, cellOf_eq_none.2 hid]
  rfl

/-- A cell that is held is not created. -/
theorem not_created (h : Committed s create replace t) {id : String} (hid : (s.get id).isSome) :
    id ∉ create.map Cell.id := by
  intro hmem
  obtain ⟨c, hc, rfl⟩ := List.mem_map.1 hmem
  rw [h.fresh c hc] at hid
  cases hid

end Committed

end ArchHub.Cells

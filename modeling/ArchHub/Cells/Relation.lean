import Mathlib
import ArchHub.Cells.Store

/-!
# Relations

A relation is a chain of cells: each chain cell leads to an incidence and to the next
chain cell, each incidence to a role and to a participant.  A relation without members
is its root with no links.

* `composeRelationCells`, `readRelation`: the cells of a relation, and its members.
* `prepareAppendRelationMembers`, `insertPatch`, `prepareRemoveRelationMembers`,
  `prepareReorderRelationMembers`: what an edit creates and replaces.
* `insertRelationMember`, `reorderRelationMembers`: the edits.

An edit that needs new identities draws them from `uuid`.
-/

namespace ArchHub.Cells

open Lib

/-- `RelationMember`. -/
structure Member where
  incidence : String
  role : String
  participant : String
deriving DecidableEq

/-- A role and a participant. -/
abbrev Pair := String × String

/-- `_new_id`, for the identity that is drawn as the `i`-th one. -/
def newId (uuid : ℕ → String) (kind : String) (i : ℕ) : String := kind ++ ":" ++ uuid i

/-! ## The cells of a relation -/

/-- A member, and the chain cell that leads to it. -/
structure Slot where
  chain : String
  member : Member

/-- Pairs with their identities. -/
def slots : List Pair → List String → List String → List Slot
  | p :: ps, i :: is, c :: cs => ⟨c, i, p.1, p.2⟩ :: slots ps is cs
  | _, _, _ => []

/-- The first chain cell. -/
def nextChain : List Slot → String
  | [] => nullId
  | s :: _ => s.chain

/-- The incidence of a member. -/
def Member.cell (m : Member) : Cell := ⟨m.incidence, m.role, m.participant, []⟩

/-- The incidences and the chain cells of some members. -/
def linkCells : List Slot → List Cell
  | [] => []
  | s :: ss => s.member.cell :: ⟨s.chain, s.member.incidence, nextChain ss, []⟩ :: linkCells ss

/-- `RelationCells`: a relation's root, and its cells. -/
structure RelationCells where
  root : String
  incidences : List String
  chain : List String
  cells : List Cell

/-- `compose_relation_cells`. -/
def composeRelationCells (pairs : List Pair) (relationId : Option String) (uuid : ℕ → String) :
    RelationCells :=
  let root := match relationId with
    | some id => if id ≠ "" then id else newId uuid "relation" 0
    | none => newId uuid "relation" 0
  if pairs = [] then ⟨root, [], [root], [⟨root, nullId, nullId, []⟩]⟩
  else
    let incidences := (List.range pairs.length).map fun i => root ++ ":incidence:" ++ toString i
    let chain := root :: (List.range' 1 (pairs.length - 1)).map fun i =>
      root ++ ":chain:" ++ toString i
    ⟨root, incidences, chain, linkCells (slots pairs incidences chain)⟩

/-! ## Reading -/

/-- `snapshot.cells[id]`. -/
def cellAt (s : Store) (id : String) : Except CellError Cell :=
  match s.get id with
  | some c => .ok c
  | none => .error (.missingKey id)

/-- The cell of the `i`-th of some identities. -/
def cellAtIndex (s : Store) (ids : List String) (i : ℕ) : Except CellError Cell :=
  match ids[i]? with
  | some id => cellAt s id
  | none => .error .outOfRange

/-- `_read_relation_walk`: from a chain cell on, with what is left of the budget. -/
def readWalk (s : Store) (budget : ℤ) : ℕ → List String → String → Except CellError (List Member)
  | fuel, seen, cursor =>
      if cursor = nullId then .ok []
      else match fuel with
        | 0 => .error (.budgetExceeded "relation projection exceeded chain cells" budget)
        | fuel + 1 =>
            if cursor ∈ seen then .error (.invalid "relation chain contains a cycle")
            else match s.get cursor with
              | none => .error (.invalid "relation chain contains a dangling cell")
              | some chain =>
                  if chain.link0 = nullId then
                    if chain.link1 ≠ nullId then
                      .error (.invalid "empty relation root has a non-empty tail")
                    else .ok []
                  else match s.get chain.link0 with
                    | none => .error (.invalid "relation incidence is missing")
                    | some incidence =>
                        if (s.get incidence.link0).isNone ∨ (s.get incidence.link1).isNone then
                          .error (.invalid "relation incidence contains a dangling link")
                        else do
                          let rest ← readWalk s budget fuel (cursor :: seen) chain.link1
                          return ⟨incidence.id, incidence.link0, incidence.link1⟩ :: rest

/-- `read_relation`. -/
def readRelation (s : Store) (root : String) (budget : ℤ) : Except CellError (List Member) :=
  if budget < 1 then
    .error (.budgetExceeded "relation projection budget must be positive" budget)
  else if (s.get root).isNone then .error (.invalid "relation root is missing")
  else readWalk s budget budget.toNat [] root

/-- The chain cells from one on. -/
def chainWalk (s : Store) (budget : ℤ) : ℕ → List String → String → Except CellError (List String)
  | fuel, seen, cursor =>
      if cursor = nullId then .ok []
      else match fuel with
        | 0 => .error (.budgetExceeded "relation traversal exceeded chain cells" budget)
        | fuel + 1 =>
            if cursor ∈ seen then .error (.invalid "relation chain contains a cycle")
            else do
              let chain ← cellAt s cursor
              let rest ← chainWalk s budget fuel (cursor :: seen) chain.link1
              return cursor :: rest

/-- `_relation_chain_ids`. -/
def relationChainIds (s : Store) (root : String) (budget : ℤ) : Except CellError (List String) :=
  if (s.get root).isNone then .error (.invalid "relation root is missing")
  else chainWalk s budget budget.toNat [] root

/-! ## Appending -/

/-- A patch: the incidence it is about, and what it creates and replaces. -/
structure RelationPatch where
  incidences : List String
  create : List Cell
  replace : List Cell

/-- The last chain cell, or the root of an empty relation. -/
def lastChain (s : Store) (budget : ℤ) : ℕ → List String → String → Except CellError Cell
  | 0, _, _ => .error (.budgetExceeded "relation append exceeded chain cells" budget)
  | fuel + 1, seen, cursor =>
      if cursor ∈ seen then .error (.invalid "relation chain contains a cycle")
      else do
        let chain ← cellAt s cursor
        if chain.link0 = nullId then
          if chain.link1 ≠ nullId then .error (.invalid "empty relation root has a non-empty tail")
          else return chain
        else if chain.link1 = nullId then return chain
        else lastChain s budget fuel (cursor :: seen) chain.link1

/-- `prepare_append_relation_members`. -/
def prepareAppendRelationMembers (s : Store) (root : String) (pairs : List Pair) (budget : ℤ)
    (uuid : ℕ → String) : Except CellError RelationPatch :=
  match pairs with
  | [] => .ok ⟨[], [], []⟩
  | (role, participant) :: rest =>
      if (s.get root).isNone then .error (.invalid "relation root is missing")
      else do
        let chain ← lastChain s budget budget.toNat [] root
        let n := rest.length + 1
        let incidences := (List.range n).map (newId uuid "incidence")
        let chains := fun count => (List.range' n count).map (newId uuid "chain")
        if chain.link0 = nullId then
          -- the root takes the first member
          let first : Member := ⟨newId uuid "incidence" 0, role, participant⟩
          let others := slots rest incidences.tail (chains (n - 1))
          return ⟨incidences, first.cell :: linkCells others,
            [⟨chain.id, first.incidence, nextChain others, chain.atom⟩]⟩
        else
          let new := slots pairs incidences (chains n)
          return ⟨incidences, linkCells new, [⟨chain.id, chain.link0, nextChain new, chain.atom⟩]⟩

/-- `append_relation_member`, for any number of members. -/
def appendRelationMembers (s : Store) (refusal : Option CellError) (root : String)
    (pairs : List Pair) (budget : ℤ) (uuid : ℕ → String) : Except CellError Store := do
  let patch ← prepareAppendRelationMembers s root pairs budget uuid
  s.commit refusal s.revision patch.create patch.replace

/-! ## Inserting -/

/-- `before or after`. -/
def anchorOf (before after : Option String) : Option String :=
  match before with
  | some id => if id ≠ "" then some id else after
  | none => after

/-- Where a member is put in, once the anchor is known to be a member. -/
def insertAt (s : Store) (chainIds ids : List String) (rootCell : Cell) (new : Member)
    (inserted : String) (before after : Option String) : Except CellError RelationPatch :=
  if ids = [] then
    .ok ⟨[new.incidence], [new.cell], [⟨rootCell.id, new.incidence, nullId, rootCell.atom⟩]⟩
  else match before with
    | some anchor => match ids.idxOf? anchor with
      | none => .error (.notInTuple anchor)
      | some 0 =>
          -- the root stays first: what it led to moves to a new chain cell
          .ok ⟨[new.incidence], [new.cell, ⟨inserted, rootCell.link0, rootCell.link1, []⟩],
            [⟨rootCell.id, new.incidence, inserted, rootCell.atom⟩]⟩
      | some (i + 1) => do
          let predecessor ← cellAtIndex s chainIds i
          return ⟨[new.incidence],
            [new.cell, ⟨inserted, new.incidence, chainIds.getD (i + 1) nullId, []⟩],
            [⟨predecessor.id, predecessor.link0, inserted, predecessor.atom⟩]⟩
    | none =>
        let anchor := after.getD (ids.getLastD "")
        match ids.idxOf? anchor with
        | none => .error (.notInTuple anchor)
        | some i => do
            let target ← cellAtIndex s chainIds i
            return ⟨[new.incidence],
              [new.cell, ⟨inserted, new.incidence, target.link1, []⟩],
              [⟨target.id, target.link0, inserted, target.atom⟩]⟩

/-- What `insert_relation_member` commits. -/
def insertPatch (s : Store) (root role participant : String) (before after : Option String)
    (budget : ℤ) (uuid : ℕ → String) : Except CellError RelationPatch :=
  if before.isSome ∧ after.isSome then
    .error (.invalid "relation insertion accepts one anchor direction")
  else do
    let chainIds ← relationChainIds s root budget
    let members ← readRelation s root budget
    let ids := members.map Member.incidence
    if ∃ anchor ∈ anchorOf before after, anchor ∉ ids then
      .error (.invalid "relation insertion anchor is not a member")
    else
      let new : Member := ⟨newId uuid "incidence" 0, role, participant⟩
      let rootCell ← cellAt s root
      insertAt s chainIds ids rootCell new (newId uuid "chain" 1) before after

/-- `insert_relation_member`. -/
def insertRelationMember (s : Store) (refusal : Option CellError) (root role participant : String)
    (before after : Option String) (budget : ℤ) (uuid : ℕ → String) : Except CellError Store := do
  let patch ← insertPatch s root role participant before after budget uuid
  s.commit refusal s.revision patch.create patch.replace

/-! ## Removing -/

/-- The chain cells of what remains, each to its member and to the next of them: those
that change. -/
def relinked (s : Store) : List Slot → Except CellError (List Cell)
  | [] => .ok []
  | slot :: rest => do
      let chain ← cellAt s slot.chain
      let cells ← relinked s rest
      let cell : Cell := ⟨chain.id, slot.member.incidence, nextChain rest, chain.atom⟩
      return if cell ≠ chain then cell :: cells else cells

/-- `RelationRemovalPatch`. -/
structure RemovalPatch where
  removed : List Member
  replace : List Cell

/-- `prepare_remove_relation_members`. -/
def prepareRemoveRelationMembers (s : Store) (root : String) (ids : List String) (budget : ℤ) :
    Except CellError RemovalPatch :=
  let requested := ids.eraseDups
  if requested = [] then .ok ⟨[], []⟩
  else do
    let chainIds ← relationChainIds s root budget
    let members ← readRelation s root budget
    if ∃ id ∈ requested, id ∉ members.map Member.incidence then
      .error (.invalid "relation removal target is not a member")
    else
      let removed := requested.filterMap fun id => members.find? (·.incidence = id)
      let remaining := (List.zipWith Slot.mk chainIds members).filter
        fun slot => slot.member.incidence ∉ requested
      let rootCell ← cellAt s root
      match remaining with
      | [] => return ⟨removed, [⟨rootCell.id, nullId, nullId, rootCell.atom⟩]⟩
      | first :: rest =>
          let cell : Cell := ⟨rootCell.id, first.member.incidence, nextChain rest, rootCell.atom⟩
          let cells ← relinked s rest
          return ⟨removed, if cell ≠ rootCell then cell :: cells else cells⟩

/-- `remove_relation_member`, for any number of members. -/
def removeRelationMembers (s : Store) (refusal : Option CellError) (root : String)
    (ids : List String) (budget : ℤ) : Except CellError Store := do
  let patch ← prepareRemoveRelationMembers s root ids budget
  s.commit refusal s.revision [] patch.replace

/-! ## Reordering -/

/-- The chain cells with other incidences: those that change. -/
def relabelled (s : Store) : List (String × String) → Except CellError (List Cell)
  | [] => .ok []
  | (id, incidence) :: rest => do
      let chain ← cellAt s id
      let cells ← relabelled s rest
      return if chain.link0 ≠ incidence then ⟨chain.id, incidence, chain.link1, chain.atom⟩ :: cells
        else cells

/-- `prepare_reorder_relation_members`. -/
def prepareReorderRelationMembers (s : Store) (root : String) (order : List String) (budget : ℤ) :
    Except CellError (List Cell) := do
  let chainIds ← relationChainIds s root budget
  let members ← readRelation s root budget
  let current := members.map Member.incidence
  if ¬ order.Nodup ∨ ¬ (order ⊆ current ∧ current ⊆ order) then
    .error (.invalid "relation reorder must be an exact member permutation")
  else relabelled s (chainIds.zip order)

/-- `reorder_relation_members`. -/
def reorderRelationMembers (s : Store) (refusal : Option CellError) (root : String)
    (order : List String) (budget : ℤ) : Except CellError Store := do
  let cells ← prepareReorderRelationMembers s root order budget
  if cells = [] then return s else s.commit refusal s.revision [] cells

end ArchHub.Cells

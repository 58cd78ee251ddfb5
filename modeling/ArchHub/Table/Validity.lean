import Mathlib
import ArchHub.Table.Relation

/-!
# What a valid table says of its nodes

* `valid_iff`: a table is valid exactly when each of its nodes passes under its id.
* `NodeOk.parts`, `NodeOk.getItem`, `NodeOk.id_eq`: what is known of a node that passes.
-/

namespace ArchHub.Table

open Lib

/-! ## Whole tables -/

/-- A node stored under its own id that passes. -/
def NodeOk (nodes : Nodes) (k : Key) (node : Value) : Prop :=
  (field node "id").key? = some k ∧ validateNode nodes node = .ok ()

variable {nodes : Nodes} {k : Key} {node : Value}

theorem NodeOk.isDict (h : NodeOk nodes k node) : node.isDict = true :=
  Check.require_ok_iff.mp (Check.seq_ok_iff.mp (Check.seq_ok_iff.mp h.2).1).1

/-- A table is valid exactly when each of its nodes passes under its id. -/
theorem valid_iff : Valid nodes ↔ ∀ k node, nodes.get? k = some node → NodeOk nodes k node := by
  have hone : ∀ (k : Key) (node : Value), ((do
        let id ← node.getDefault "id" .none
        Check.require (decide (id.key? = some k)) (violation "table key %r != node id %r" [id])
        validateNode nodes node : Except Raised Unit) = .ok ()) ↔ NodeOk nodes k node := by
    intro k node
    constructor
    · intro h
      obtain ⟨id, hid, h⟩ := Check.bind_ok_iff.mp h
      obtain ⟨hkey, h⟩ := Check.seq_ok_iff.mp h
      obtain ⟨-, hget⟩ := Value.getDefault_ok.mp hid
      refine ⟨?_, h⟩
      rw [field, hget]
      exact of_decide_eq_true (Check.require_ok_iff.mp hkey)
    · intro h
      have hid : node.getDefault "id" .none = .ok (field node "id") :=
        Value.getDefault_ok.mpr ⟨h.isDict, rfl⟩
      rw [hid, Check.ok_bind]
      exact Check.seq_ok_iff.mpr ⟨Check.require_ok_iff.mpr (decide_eq_true h.1), h.2⟩
  unfold Valid validateStore
  rw [Check.each_ok_iff]
  constructor
  · intro h k node hk
    exact (hone k node).mp (h (k, node) (Dict.mem_entries_iff.mpr hk))
  · intro h e he
    exact (hone e.1 e.2).mpr (h e.1 e.2 (Dict.mem_entries_iff.mp he))

theorem Valid.nodeOk (h : Valid nodes) (hk : nodes.get? k = some node) :
    NodeOk nodes k node := valid_iff.mp h k node hk

/-- What the checks of a node that passes have found out of its outer fields. -/
theorem NodeOk.parts (h : NodeOk nodes k node) :
    checkShape nodes node = .ok () ∧ checkParams nodes node = .ok () ∧
      checkBody nodes node = .ok () ∧ checkRelation nodes node = .ok () ∧
      checkRelations nodes node = .ok () ∧ checkMeta node = .ok () := by
  obtain ⟨hshape, h⟩ := Check.seq_ok_iff.mp h.2
  obtain ⟨hparams, h⟩ := Check.seq_ok_iff.mp h
  obtain ⟨hbody, h⟩ := Check.seq_ok_iff.mp h
  obtain ⟨hrelation, h⟩ := Check.seq_ok_iff.mp h
  exact ⟨hshape, hparams, hbody, hrelation, Check.seq_ok_iff.mp h⟩

/-! ## Reading a valid table -/

section Read

variable {nodes : Nodes} {k : Key} {node : Value}

/-- A node that passes has the fields of the one shape. -/
theorem NodeOk.getItem (h : NodeOk nodes k node) {f : String} (hf : f ∈ nodeKeys) :
    node.getItem (.str f) = .ok (field node f) := by
  obtain ⟨hshape, -⟩ := h.parts
  obtain ⟨-, hshape⟩ := Check.seq_ok_iff.mp hshape
  obtain ⟨hkeys, -⟩ := Check.seq_ok_iff.mp hshape
  obtain ⟨hall, -⟩ := Bool.and_eq_true_iff.mp (Check.require_ok_iff.mp hkeys)
  obtain ⟨v, hv⟩ := Option.isSome_iff_exists.mp (List.all_eq_true.mp hall f hf)
  rw [Value.getItem_str_ok, field, hv]
  rfl

/-- The id of a node that passes is the text it is stored under. -/
theorem NodeOk.id_eq (h : NodeOk nodes k node) : ∃ t, field node "id" = .str t ∧ k = .str t := by
  obtain ⟨hshape, -⟩ := h.parts
  obtain ⟨-, hshape⟩ := Check.seq_ok_iff.mp hshape
  obtain ⟨-, hshape⟩ := Check.seq_ok_iff.mp hshape
  obtain ⟨hstored, -⟩ := Check.seq_ok_iff.mp hshape
  obtain ⟨hstr, -⟩ := Bool.and_eq_true_iff.mp (Check.require_ok_iff.mp hstored)
  have hkey := h.1
  cases hid : field node "id" with
  | str t =>
      rw [hid] at hkey
      exact ⟨t, rfl, (Option.some.inj hkey).symm⟩
  | _ =>
      rw [hid] at hstr
      cases hstr

end Read

end ArchHub.Table

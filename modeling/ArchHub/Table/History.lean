import Mathlib
import ArchHub.Table.Relation

/-!
# History is append-only

Each accepted operation appends a node of kind `history` that holds it.  The
guards against touching such nodes stand in `set`, `unset`, `freeze` and
`unfreeze`, which refuse a history node as their target, and in `add_node`, which
refuses to add one.  Three ways past them remain, and `sparesHistory` says of an
operation that it takes none of them:

* `add_node` looks at the kind of the node it is given, not at the node whose id
  it takes over;
* `set` looks at the kind of its target before the path is written, so a path
  may make any node a history node;
* a relation that ends at a history node, or an endpoint that is moved from or
  to one, rewrites the history node's relations.

`history_append_only` is the law for the runs whose operations take none of
these; `history_overwritten` is a run that takes the first.
-/

namespace ArchHub.Table

open Lib
open Lib.Exec (Keeps KeepsAt)

variable (host : Host) {nodes : Nodes} {k : Key} {s t : Store}
  {v node relationId owner before target op' obj : Value} {what : String}
  {relation target' node' leaf out : Value} {specs stages : List Value} {depth : ℕ}

/-! ## History nodes -/

/-- The node under `k` is the history node `node`. -/
def HistoryAt (nodes : Nodes) (k : Key) (node : Value) : Prop :=
  nodes.get? k = some node ∧ field node "kind" = .str "history"

/-- Whether a history node sits under `k`. -/
def isHistory (nodes : Nodes) (k : Key) : Bool :=
  (nodes.get? k).any (fun node => field node "kind" = .str "history")

/-- Whether a value is the id of a history node. -/
def namesHistory (nodes : Nodes) (v : Value) : Bool := v.key?.any (isHistory nodes)

theorem isHistory_iff : isHistory nodes k = true ↔ ∃ node, HistoryAt nodes k node := by
  simp [isHistory, HistoryAt, Option.any_eq_true]

/-- The same history nodes, each as it was. -/
def SameHistory (s t : Store) : Prop :=
  ∀ k node, HistoryAt t.nodes k node ↔ HistoryAt s.nodes k node

instance : IsPreorder Store SameHistory where
  refl _ _ _ := Iff.rfl
  trans _ _ _ h₁ h₂ k node := (h₂ k node).trans (h₁ k node)

theorem SameHistory.isHistory (h : SameHistory s t) (k : Key) :
    isHistory t.nodes k = isHistory s.nodes k := by
  rw [Bool.eq_iff_iff, isHistory_iff, isHistory_iff]
  exact exists_congr (h k)

theorem SameHistory.namesHistory (h : SameHistory s t) (v : Value) :
    namesHistory t.nodes v = namesHistory s.nodes v := by
  unfold Table.namesHistory
  cases v.key? with
  | none => rfl
  | some k => exact h.isHistory k

theorem SameNodes.sameHistory (h : SameNodes s t) : SameHistory s t :=
  fun k node => by rw [h]

theorem keeps_sameHistory {α : Type} {m : Act α} (h : Keeps SameNodes m) :
    Keeps SameHistory m := fun s => (h s).sameHistory

theorem ne_of_pyEq_str {t : String} (h : v.pyEq (.str t) = false) : v ≠ .str t := by
  intro heq
  rw [Value.pyEq_str.mpr heq] at h
  cases h

/-- Storing an ordinary node over an ordinary one leaves history alone. -/
theorem putNode_sameHistory (hk : isHistory s.nodes k = false)
    (hkind : field node "kind" ≠ .str "history") : SameHistory s (s.putNode k node) := by
  intro j n
  unfold HistoryAt Store.putNode
  simp only [Dict.get?_set]
  by_cases hj : j = k
  · subst hj
    simp only [if_true, Option.some.injEq]
    constructor
    · rintro ⟨rfl, h⟩
      exact absurd h hkind
    · intro h
      have := isHistory_iff.mpr ⟨n, h⟩
      rw [hk] at this
      cases this
  · simp only [hj, if_false]

/-- A node that is not a history node is not one under its key. -/
theorem isHistory_of_get? (h : nodes.get? k = some node) :
    isHistory nodes k = decide (field node "kind" = .str "history") := by
  simp [isHistory, h]

theorem isHistory_of_not_mem (h : k ∉ nodes.keys) : isHistory nodes k = false := by
  simp [isHistory, Dict.get?_eq_none_iff.mpr h]

/-- Relabelling relations leaves history alone. -/
theorem Relabelled.sameHistory (h : Relabelled s.nodes t.nodes) : SameHistory s t := by
  intro k node
  unfold HistoryAt
  rcases h k with heq | ⟨n, held, hn, hwire, ht⟩
  · rw [heq]
  · have hdict := isDict_of_field hwire
    have hmeta : ("kind" : String) ≠ "meta" := by decide
    constructor
    · rintro ⟨hk, hkind⟩
      rw [ht, Option.some.injEq] at hk
      rw [← hk, field_put hdict, if_neg hmeta, hwire] at hkind
      exact absurd hkind (by decide)
    · rintro ⟨hk, hkind⟩
      rw [hn, Option.some.injEq] at hk
      rw [← hk, hwire] at hkind
      exact absurd hkind (by decide)

/-! ## The condition -/

/-- Whether a `set` or `unset` makes no node a history node and moves no endpoint
from or to one. -/
def setSpares (what : String) (s : Store) (op : Value) : Except Raised Bool := do
  let target ← fetch s.nodes (field op "id")
  let role ← roleOf target
  let before ← endpointParticipant role target
  let (_, target) ← rewritten what op target
  if field target "kind" = .str "history" then .ok false
  else
    let role ← roleOf target
    if role.pyEq (.str "relation_endpoint") then
      let after ← participantOf target
      .ok (before.pyEq after || !(namesHistory s.nodes before || namesHistory s.nodes after))
    else .ok true

/-- Whether an operation takes none of the ways past the guards.  An operation
that raises before it writes takes none. -/
def sparesHistory (s : Store) (op : Value) : Bool :=
  match op.get? "op" with
  | some (.str "add_node") => !namesHistory s.nodes (field (field op "node") "id")
  | some (.str "add_wire") => match endpointSpecs op with
    | .ok specs => specs.all (fun spec => !namesHistory s.nodes (field spec "node_id"))
    | .error _ => true
  | some (.str "set") => (setSpares "set" s op).toOption.getD true
  | some (.str "unset") => (setSpares "unset" s op).toOption.getD true
  | _ => true

/-- The operations of a run spare history. -/
def Spares (s : Store) : Action → Prop
  | .apply _ op => sparesHistory s op = true
  | .pull _ _ => True

instance (s : Store) : (a : Action) → Decidable (Spares s a)
  | .apply _ op => inferInstanceAs (Decidable (sparesHistory s op = true))
  | .pull _ _ => inferInstanceAs (Decidable True)

/-- Every history node terminates in a floor, as a recorded one does. -/
def HistoryClosed (s : Store) : Prop :=
  ∀ k node, HistoryAt s.nodes k node → ∃ floor, field node "body" = dict [("floor", floor)]

theorem HistoryClosed.of_same (hs : HistoryClosed s) (h : SameHistory s t) :
    HistoryClosed t := fun k node hk => hs k node ((h k node).mp hk)

/-! ## What each branch does to history -/

theorem pull_sameHistory (depth : ℕ) (v : Value) (env : Env) :
    Keeps SameHistory (pull host depth v env) :=
  fun s => (pull_relabels host depth v env s).sameHistory

theorem addNode_sameHistory {op : Value}
    (h : namesHistory s.nodes (field (field op "node") "id") = false) :
    KeepsAt SameHistory (applyAddNode op) s := by
  refine KeepsAt.liftM_bind fun node hnode => KeepsAt.liftM_bind fun kind hkind => ?_
  refine KeepsAt.refuse_bind fun hne => KeepsAt.liftM_bind fun id hid => ?_
  refine KeepsAt.liftM_bind fun k hk => ?_
  rw [field_of_getItem hnode, field_of_getItem hid] at h
  have hfree : isHistory s.nodes k = false := by
    simpa [namesHistory, Value.key?_of_hashed hk] using h
  have hordinary : field node "kind" ≠ .str "history" := by
    rw [field_of_getItem hkind]
    exact ne_of_pyEq_str hne
  refine KeepsAt.write_bind (putNode_sameHistory hfree hordinary) ?_
  refine KeepsAt.of_keeps (Keeps.bind (Keeps.look _) fun _ => ?_)
  exact Keeps.bind (keeps_sameHistory dropIndexes_sameNodes) fun _ => Keeps.pure _

theorem addParam_sameHistory (p : Param) : Keeps SameHistory (addParam host p) := by
  intro s
  rw [addParam_apply]
  have hfree : isHistory s.minted.nodes (.str (freshId s)) = false :=
    isHistory_of_not_mem (freshId_not_mem s)
  exact trans_of SameHistory (SameNodes.sameHistory rfl)
    (putNode_sameHistory hfree (by simp [paramNode]))

/-- Rewriting an ordinary node in one field leaves history alone. -/
theorem putField_sameHistory (hat : s.nodes.get? k = some node) (hdict : node.isDict = true)
    (hk : isHistory s.nodes k = false) {f : String} (hf : f ≠ "kind") (v : Value) :
    SameHistory s (s.putNode k (node.put f v)) := by
  refine putNode_sameHistory hk ?_
  rw [field_put hdict, if_neg (Ne.symm hf)]
  rw [isHistory_of_get? hat] at hk
  exact of_decide_eq_false hk

theorem attachTo_sameHistory {participant : Value} (hat : s.nodes.get? k = some participant)
    (hk : isHistory s.nodes k = false) :
    KeepsAt SameHistory (attachTo relationId k participant) s := by
  refine KeepsAt.liftM_bind fun relations hrel => KeepsAt.liftM_bind fun there _ => ?_
  split
  · exact KeepsAt.pure _
  · split
    · have hdict := Value.isDict_of_get? (Value.getItem_str_ok.mp hrel)
      exact putField_sameHistory hat hdict hk (by decide) _
    · exact KeepsAt.raise _

theorem detachFrom_sameHistory (hat : s.nodes.get? k = some node)
    (hk : isHistory s.nodes k = false) : KeepsAt SameHistory (detachFrom owner k node) s := by
  refine KeepsAt.liftM_bind fun relations _ => KeepsAt.liftM_bind fun rids _ => ?_
  refine KeepsAt.liftM_bind fun node' hset => ?_
  obtain ⟨hdict, rfl⟩ := Value.setItem_str_ok.mp hset
  exact putField_sameHistory hat hdict hk (by decide) _

theorem get?_of_lookup (h : lookup nodes v = .ok (some node)) (hk : v.key? = some k) :
    nodes.get? k = some node := by
  rw [lookup, Value.hashed_of_key? hk, Check.ok_bind] at h
  exact Except.ok.inj h

theorem attachNamed_sameHistory (hv : namesHistory s.nodes v = false) :
    KeepsAt SameHistory (attachNamed relationId v) s := by
  refine KeepsAt.look_bind fun participant hlookup => ?_
  split
  · rename_i node k hk
    refine attachTo_sameHistory (get?_of_lookup hlookup hk) ?_
    simpa [namesHistory, hk] using hv
  · exact KeepsAt.pure _

theorem detachNamed_sameHistory (hv : namesHistory s.nodes v = false) :
    KeepsAt SameHistory (detachNamed owner relation v) s := by
  refine KeepsAt.look_bind fun participant hlookup => ?_
  split
  · rename_i node k hk
    refine KeepsAt.onlyIf fun _ => KeepsAt.look_bind fun endpoints _ => ?_
    refine KeepsAt.onlyIf fun _ => detachFrom_sameHistory (get?_of_lookup hlookup hk) ?_
    simpa [namesHistory, hk] using hv
  · exact KeepsAt.pure _

/-- Attaching a relation to participants that are no history nodes. -/
theorem attachAll_sameHistory {endpoints : List Fields}
    (hfree : ∀ e ∈ endpoints, namesHistory s.nodes (entry e "node_id") = false) :
    KeepsAt SameHistory
      (Exec.each (fun e => attachNamed relationId (entry e "node_id")) endpoints) s := by
  have hloop : Keeps
      (Exec.under (fun s => ∀ e ∈ endpoints, namesHistory s.nodes (entry e "node_id") = false)
        SameHistory)
      (Exec.each (fun e => attachNamed relationId (entry e "node_id")) endpoints) := by
    refine Keeps.each fun e he t ht => ?_
    have hattach : SameHistory t (attachNamed relationId (entry e "node_id") t).2 :=
      attachNamed_sameHistory (ht e he)
    exact ⟨hattach, fun e' he' => (hattach.namesHistory _).trans (ht e' he')⟩
  exact (hloop s hfree).1

/-! ### `add_wire` -/

/-- Only endpoint parameters have an endpoint's name. -/
theorem startsWith_endpoint {p : Param} {m n : ℕ}
    (hp : p ∈ paramsFrom endpointParam m specs ++ paramsFrom stageParam n stages
      ++ wireParameterDefaults.map plainParam) (h : startsWith "endpoint:" p.name = true) :
    p ∈ paramsFrom endpointParam m specs := by
  rcases List.mem_append.mp hp with hp | hp
  · rcases List.mem_append.mp hp with hp | hp
    · exact hp
    · obtain ⟨i, spec, -, rfl⟩ := exists_of_mem_paramsFrom hp
      rw [stageParam, startsWith, String.toList_append] at h
      cases h
  · obtain ⟨e, he, rfl⟩ := List.mem_map.mp hp
    have hnone : ∀ e ∈ wireParameterDefaults, startsWith "endpoint:" (plainParam e).name = false := by
      decide
    rw [hnone e he] at h
    cases h

theorem withRelation_sameHistory (s : Store) (title : Value) (draft : Draft) :
    SameHistory s (s.withRelation host title draft) := by
  have hfree : isHistory s.minted.nodes (.str (freshId s)) = false :=
    isHistory_of_not_mem (freshId_not_mem s)
  exact trans_of SameHistory (SameNodes.sameHistory rfl)
    (putNode_sameHistory hfree (by simp [relationNode]))

theorem settleRelation_sameHistory {u : Store} {title : Value}
    (hu : u = s.withParams host (wireParams specs stages))
    (hfree : ∀ spec ∈ specs, namesHistory u.nodes (field spec "node_id") = false) :
    KeepsAt SameHistory (settleRelation (freshId u))
      (u.withRelation host title (wireDraft host s specs stages)) := by
  refine KeepsAt.bind ?_ fun _ _ _ _ => KeepsAt.of_keeps ?_
  · refine KeepsAt.look_bind fun relation hrelation => ?_
    have hat := get?_of_fetch (Value.hashed_str _) hrelation
    rw [withRelation_nodes, Dict.get?_set_self, Option.some.injEq] at hat
    subst hat
    refine KeepsAt.look_bind fun endpoints hendpoints => ?_
    refine attachAll_sameHistory fun e he => ?_
    have hheld : ∀ o ∈ owned host s (wireParams specs stages), ∃ s',
        (u.withRelation host title (wireDraft host s specs stages)).nodes.get? (.str o.2)
          = some (paramNode host o.1 s') := by
      intro o ho
      obtain ⟨s', hs'⟩ := owned_get? host ho
      rw [← hu] at hs'
      refine ⟨s', (Dict.get?_set_of_ne _ _ fun heq => ?_).trans hs'⟩
      exact freshId_not_mem u (heq ▸ Dict.mem_keys_of_get? hs')
    obtain ⟨o, ho, hname, value, hvalue, rfl⟩ :=
      endpoint_of_owned host rfl hheld hendpoints he
    have hparam := startsWith_endpoint (fst_mem_of_mem_owned host ho) hname
    obtain ⟨i, spec, hspec, hspecParam⟩ := exists_of_mem_paramsFrom hparam
    rw [hspecParam] at hvalue
    rw [named_node_id, show entry value "node_id" = field (.dict value) "node_id" from rfl,
      show Value.dict value = spec from hvalue.symm]
    exact ((withRelation_sameHistory host u title _).namesHistory _).trans (hfree spec hspec)
  · refine Keeps.bind (Keeps.look _) fun _ => Keeps.bind (Keeps.look _) fun _ => ?_
    refine Keeps.bind (keeps_sameHistory clearMemo_sameNodes) fun _ => ?_
    exact Keeps.bind (keeps_sameHistory dropIndexes_sameNodes) fun _ => Keeps.pure _

theorem draftRelation_sameHistory (op : Value) : Keeps SameHistory (draftRelation host op) := by
  refine Keeps.liftM_bind fun specs _ => Keeps.bind (Keeps.refuse _ _) fun _ => ?_
  refine Keeps.bind (addNamed_keeps host (addParam_sameHistory host) _ _ _ _ _ _) fun d => ?_
  refine Keeps.liftM_bind fun stages _ => ?_
  refine Keeps.bind (addNamed_keeps host (addParam_sameHistory host) _ _ _ _ _ _) fun d' => ?_
  refine Keeps.bind (addWireParameters_keeps host (addParam_sameHistory host) _ _) fun d'' => ?_
  exact Keeps.liftM_bind fun title _ => Keeps.pure _

theorem addWire_sameHistory {op : Value} (hfree : ∀ specs, endpointSpecs op = .ok specs →
      ∀ spec ∈ specs, namesHistory s.nodes (field spec "node_id") = false) :
    KeepsAt SameHistory (applyAddWire host op) s := by
  refine KeepsAt.bind (draftRelation_sameHistory host op s) fun ⟨title, d⟩ t ht hsame => ?_
  obtain ⟨specs, stages, h⟩ := drafts_of_ok host ht
  rw [draftRelation_eq host h] at ht
  cases ht
  have hput := withRelation_sameHistory host (s.withParams host (wireParams specs stages)) title
    (wireDraft host s specs stages)
  refine trans_of SameHistory hput (settleRelation_sameHistory host rfl fun spec hspec => ?_)
  exact (SameHistory.namesHistory hsame _).trans (hfree specs h.endpointsEq spec hspec)

/-! ### `set` and `unset` -/

theorem moveIncidence_sameHistory {after : Value} (hbefore : namesHistory s.nodes before = false)
    (hafter : namesHistory s.nodes after = false) :
    KeepsAt SameHistory (moveIncidence owner relation before after) s := by
  refine KeepsAt.bind (detachNamed_sameHistory hbefore) fun _ t _ hst => ?_
  exact attachNamed_sameHistory ((hst.namesHistory after).trans hafter)

/-- Two participants are alike, or neither is a history node. -/
def MovesSafely (nodes : Nodes) (before after : Value) : Prop :=
  before.pyEq after = true ∨
    (namesHistory nodes before = false ∧ namesHistory nodes after = false)

theorem syncEndpoint_sameHistory
    (h : ∀ after, participantOf target = .ok after → MovesSafely s.nodes before after) :
    KeepsAt SameHistory (syncEndpoint before target) s := by
  refine KeepsAt.liftM_bind fun id _ => KeepsAt.look_bind fun owner _ => ?_
  split
  · exact KeepsAt.pure _
  · refine KeepsAt.onlyIf fun _ => KeepsAt.look_bind fun relation _ => ?_
    refine KeepsAt.liftM_bind fun after hafter => ?_
    refine KeepsAt.bind (KeepsAt.onlyIf fun hne => ?_) fun _ _ _ _ =>
      KeepsAt.of_keeps (keeps_sameHistory (invalidate_sameNodes _))
    rcases h after hafter with heq | ⟨hbefore, hafter⟩
    · rw [heq] at hne
      cases hne
    · exact moveIncidence_sameHistory hbefore hafter

/-- What a `set` that spares history has found out about its target. -/
theorem setSpares_spec {op role : Value} (h : (setSpares what s op).toOption.getD true = true)
    (htarget : fetch s.nodes (field op "id") = .ok target) (hrole : roleOf target = .ok role)
    (hbefore : endpointParticipant role target = .ok before)
    (hafter : rewritten what op target = .ok (op', target')) :
    field target' "kind" ≠ .str "history" ∧
      ∀ role', roleOf target' = .ok role' → role'.pyEq (.str "relation_endpoint") = true →
        ∀ after, participantOf target' = .ok after → MovesSafely s.nodes before after := by
  simp only [setSpares, htarget, hrole, hbefore, hafter, Check.ok_bind] at h
  split at h
  · simp [Except.toOption] at h
  · rename_i hkind
    refine ⟨hkind, fun role' hrole' hpoint after hpart => ?_⟩
    simp only [hrole', Check.ok_bind, hpoint, if_true, hpart, Except.toOption, Option.getD_some,
      Bool.or_eq_true, Bool.not_eq_true', Bool.or_eq_false_iff] at h
    exact h

theorem applySet_sameHistory {op : Value} (h : (setSpares what s op).toOption.getD true = true) :
    KeepsAt SameHistory (applySet what op) s := by
  refine KeepsAt.liftM_bind fun id hid => KeepsAt.look_bind fun target htarget => ?_
  refine KeepsAt.liftM_bind fun k hk => KeepsAt.liftM_bind fun kind hkind => ?_
  refine KeepsAt.refuse_bind fun hne => KeepsAt.liftM_bind fun frozen _ => ?_
  refine KeepsAt.refuse_bind fun _ => KeepsAt.liftM_bind fun role hrole => ?_
  refine KeepsAt.liftM_bind fun before hbefore => ?_
  refine KeepsAt.liftM_bind fun ⟨op', target'⟩ hafter => ?_
  have hat := get?_of_fetch hk htarget
  rw [← field_of_getItem hid] at htarget
  obtain ⟨hordinary, hmoves⟩ := setSpares_spec h htarget hrole hbefore hafter
  have hfree : isHistory s.nodes k = false := by
    rw [isHistory_of_get? hat, field_of_getItem hkind]
    exact decide_eq_false (ne_of_pyEq_str hne)
  have hput : SameHistory s (s.putNode k target') := putNode_sameHistory hfree hordinary
  refine KeepsAt.write_bind hput ?_
  refine KeepsAt.liftM_bind fun role' hrole' => ?_
  refine KeepsAt.bind (KeepsAt.onlyIf fun hpoint => ?_) fun _ _ _ _ =>
    KeepsAt.of_keeps ?_
  · refine syncEndpoint_sameHistory fun after hpart => ?_
    rcases hmoves role' hrole' hpoint after hpart with heq | ⟨h₁, h₂⟩
    · exact Or.inl heq
    · exact Or.inr ⟨(hput.namesHistory _).trans h₁, (hput.namesHistory _).trans h₂⟩
  · refine Keeps.bind (keeps_sameHistory (forgetAfterSet_sameNodes _ _)) fun _ => ?_
    refine Keeps.bind (Keeps.onlyIf fun _ => keeps_sameHistory dropIndexes_sameNodes) ?_
    exact fun _ => Keeps.pure _

/-! ### The other operations -/

/-- Splicing into a node keeps its kind, and does nothing to a node without
members. -/
theorem spliceInto_spec {gid : Value} {children : List Value}
    (h : spliceInto gid children node = .ok node') :
    field node' "kind" = field node "kind" ∧
      ∀ floor, field node "body" = dict [("floor", floor)] → node' = node := by
  obtain ⟨body, hbody, h⟩ := Check.bind_ok_iff.mp h
  obtain ⟨opens, hopens, h⟩ := Check.bind_ok_iff.mp h
  cases opens with
  | false =>
      cases h
      exact ⟨rfl, fun _ _ => rfl⟩
  | true =>
      have hclosed : ∀ floor, field node "body" ≠ dict [("floor", floor)] := by
        intro floor heq
        rw [field_of_getItem hbody] at heq
        rw [heq] at hopens
        cases hopens
      obtain ⟨inner, -, h⟩ := Check.bind_ok_iff.mp h
      obtain ⟨has, -, h⟩ := Check.bind_ok_iff.mp h
      cases has with
      | false =>
          cases h
          exact ⟨rfl, fun floor heq => absurd heq (hclosed floor)⟩
      | true =>
          cases inner with
          | list xs =>
              obtain ⟨body', -, h⟩ := Check.bind_ok_iff.mp h
              obtain ⟨hdict, rfl⟩ := Value.setItem_str_ok.mp h
              refine ⟨?_, fun floor heq => absurd heq (hclosed floor)⟩
              rw [field_put hdict, if_neg (by decide)]
          | _ => cases h

/-- Storing a node where it is leaves history alone. -/
theorem putNode_self_sameHistory (h : s.nodes.get? k = some node) :
    SameHistory s (s.putNode k node) := by
  intro j n
  unfold HistoryAt Store.putNode
  rw [Dict.get?_set]
  by_cases hj : j = k
  · rw [if_pos hj, hj, h]
  · rw [if_neg hj]

/-- Splicing a dissolved group into the other nodes. -/
theorem spliceOthers_sameHistory (hs : HistoryClosed s) (gid : Value) (children : List Value)
    {others : List (Key × Value)} (hothers : ∀ e ∈ others, e ∈ s.nodes.entries) :
    KeepsAt SameHistory (spliceOthers gid children others) s := by
  have hloop : Keeps (Exec.under (fun t => SameHistory s t) SameHistory)
      (spliceOthers gid children others) := by
    refine Keeps.each fun e he t ht => ?_
    have hat : s.nodes.get? e.1 = some e.2 := Dict.mem_entries_iff.mp (hothers e he)
    have hstep : KeepsAt SameHistory (spliceOther gid children e) t := by
      refine KeepsAt.liftM_bind fun node' hnode' => ?_
      obtain ⟨hkind, hsame⟩ := spliceInto_spec hnode'
      by_cases hhist : field e.2 "kind" = .str "history"
      · obtain ⟨floor, hfloor⟩ := hs e.1 e.2 ⟨hat, hhist⟩
        rw [hsame floor hfloor]
        exact putNode_self_sameHistory ((ht e.1 e.2).mpr ⟨hat, hhist⟩).1
      · refine putNode_sameHistory ?_ (hkind ▸ hhist)
        rw [ht.isHistory, isHistory_of_get? hat]
        exact decide_eq_false hhist
    exact ⟨hstep, trans_of SameHistory ht hstep⟩
  exact (hloop s (refl_of SameHistory s)).1

theorem without_sameHistory (hk : isHistory s.nodes k = false) : SameHistory s (s.without k) := by
  intro j node
  unfold HistoryAt Store.without
  rw [Dict.get?_erase]
  by_cases hj : j = k
  · rw [if_pos hj]
    constructor
    · intro h
      cases h.1
    · intro h
      rw [hj] at h
      have := isHistory_iff.mpr ⟨node, h⟩
      rw [hk] at this
      cases this
  · rw [if_neg hj]

theorem dissolveGroup_sameHistory (hs : HistoryClosed s) (op : Value) :
    KeepsAt SameHistory (applyDissolveGroup op) s := by
  refine KeepsAt.liftM_bind fun gid _ => KeepsAt.look_bind fun target htarget => ?_
  refine KeepsAt.liftM_bind fun k hk => KeepsAt.liftM_bind fun body hbody => ?_
  refine KeepsAt.liftM_bind fun opens hopens => KeepsAt.refuse_bind fun hne => ?_
  refine KeepsAt.liftM_bind fun frozen _ => KeepsAt.refuse_bind fun _ => ?_
  refine KeepsAt.liftM_bind fun relations _ => KeepsAt.refuse_bind fun _ => ?_
  refine KeepsAt.liftM_bind fun inner _ => KeepsAt.liftM_bind fun children _ => ?_
  have hat := get?_of_fetch hk htarget
  have hfree : isHistory s.nodes k = false := by
    rw [isHistory_of_get? hat]
    refine decide_eq_false fun hkind => ?_
    obtain ⟨floor, hfloor⟩ := hs k target ⟨hat, hkind⟩
    rw [field_of_getItem hbody] at hfloor
    rw [hfloor] at hopens
    cases hopens
    cases hne
  refine KeepsAt.read_bind (KeepsAt.bind
    (spliceOthers_sameHistory hs gid children fun e he => (List.mem_filter.mp he).1)
    fun _ t _ hst => ?_)
  refine KeepsAt.write_bind (without_sameHistory ((hst.isHistory k).trans hfree)) ?_
  refine KeepsAt.of_keeps (Keeps.bind (keeps_sameHistory (invalidate_sameNodes _)) ?_)
  exact fun _ => Keeps.bind (keeps_sameHistory dropIndexes_sameNodes) fun _ => Keeps.pure _

theorem freeze_sameHistory (what : String) (op : Value) :
    Keeps SameHistory (applyFreeze what op) := by
  intro s
  show KeepsAt SameHistory (applyFreeze what op) s
  refine KeepsAt.liftM_bind fun id _ => KeepsAt.look_bind fun target htarget => ?_
  refine KeepsAt.liftM_bind fun k hk => KeepsAt.liftM_bind fun kind hkind => ?_
  refine KeepsAt.refuse_bind fun hne => KeepsAt.liftM_bind fun held _ => ?_
  refine KeepsAt.liftM_bind fun held' _ => ?_
  have hat := get?_of_fetch hk htarget
  have hdict := Value.isDict_of_get? (Value.getItem_str_ok.mp hkind)
  have hfree : isHistory s.nodes k = false := by
    rw [isHistory_of_get? hat, field_of_getItem hkind]
    exact decide_eq_false (ne_of_pyEq_str hne)
  refine KeepsAt.write_bind (putField_sameHistory hat hdict hfree (by decide) _) ?_
  exact KeepsAt.bind (keeps_sameHistory (invalidate_sameNodes _) _) fun _ _ _ _ =>
    KeepsAt.pure _

theorem applyEffect_sameHistory (what : String) (op : Value) :
    Keeps SameHistory (applyEffect what op) := by
  refine Keeps.liftM_bind fun effect _ => Keeps.bind (Keeps.look _) fun eff => ?_
  cases eff with
  | none => exact Keeps.raise _
  | some node => exact Keeps.liftM _

theorem applyCommand_sameHistory (op : Value) : Keeps SameHistory (applyCommand op) := by
  refine Keeps.liftM_bind fun capability _ => Keeps.liftM_bind fun args _ => ?_
  refine Keeps.bind (Keeps.refuse _ _) fun _ => ?_
  exact Keeps.bind (Keeps.refuse _ _) fun _ => Keeps.pure _

/-- Rewriting below one field of a node keeps its kind. -/
theorem rewriteAt_kind {f : Value → Except Raised Value} {k : String} {ks : List Value}
    (h : node.rewriteAt f (.str k :: ks) = .ok node') (hk : k ≠ "kind") :
    field node' "kind" = field node "kind" := by
  obtain ⟨sub, -, h⟩ := Check.bind_ok_iff.mp h
  obtain ⟨sub', -, h⟩ := Check.bind_ok_iff.mp h
  obtain ⟨hdict, rfl⟩ := Value.setItem_str_ok.mp h
  rw [field_put hdict, if_neg (Ne.symm hk)]

theorem sample_sameHistory (depth : ℕ) (op : Value) :
    Keeps SameHistory (applySample host depth op) := by
  intro s
  show KeepsAt SameHistory (applySample host depth op) s
  refine KeepsAt.liftM_bind fun sourceId _ => KeepsAt.liftM_bind fun targetId _ => ?_
  refine KeepsAt.look_bind fun source? hsource => ?_
  refine KeepsAt.look_bind fun target? htarget => ?_
  split
  · rename_i source target k hk
    have hat := get?_of_lookup htarget hk
    refine KeepsAt.liftM_bind fun body _ => KeepsAt.liftM_bind fun floor _ => ?_
    refine KeepsAt.liftM_bind fun kind hkind => KeepsAt.refuse_bind fun hparam => ?_
    refine KeepsAt.liftM_bind fun op' _ => KeepsAt.refuse_bind fun _ => ?_
    refine KeepsAt.liftM_bind fun frozen _ => KeepsAt.refuse_bind fun _ => ?_
    have hfree : isHistory s.nodes k = false := by
      rw [isHistory_of_get? hat, field_of_getItem hkind]
      refine decide_eq_false fun heq => ?_
      rw [heq] at hparam
      cases hparam
    refine KeepsAt.bind (keeps_sameHistory clearMemo_sameNodes s) fun _ t _ hst => ?_
    refine KeepsAt.liftM_bind fun sid _ => ?_
    refine KeepsAt.bind (pull_sameHistory host depth sid none t) fun v u _ htu => ?_
    refine KeepsAt.look_bind fun now hnow => KeepsAt.liftM_bind fun after hafter => ?_
    have hnowAt := get?_of_fetch (Value.hashed_ofKey k) hnow
    have hfreeNow : isHistory u.nodes k = false :=
      ((trans_of SameHistory hst htu).isHistory k).trans hfree
    have hordinary : field after "kind" ≠ .str "history" := by
      rw [rewriteAt_kind hafter (by decide)]
      rw [isHistory_of_get? hnowAt] at hfreeNow
      exact of_decide_eq_false hfreeNow
    refine KeepsAt.write_bind (putNode_sameHistory hfreeNow hordinary) ?_
    refine KeepsAt.liftM_bind fun id _ => ?_
    exact KeepsAt.bind (keeps_sameHistory (invalidate_sameNodes _) _) fun _ _ _ _ =>
      KeepsAt.pure _
  · exact KeepsAt.raise _

/-- **No branch touches history** when the operation spares it. -/
theorem branch_sameHistory (hs : HistoryClosed s) {op : Value} (depth : ℕ)
    (h : sparesHistory s op = true) {what : Value} (hwhat : op.getItem (.str "op") = .ok what) :
    KeepsAt SameHistory (branch host depth op what) s := by
  have hget := Value.getItem_str_ok.mp hwhat
  have hpair : ∀ {m : Act Value}, KeepsAt SameHistory m s →
      KeepsAt SameHistory (m >>= fun out => pure (out, op)) s :=
    fun hm => KeepsAt.bind hm fun _ _ _ _ => KeepsAt.pure _
  unfold branch
  unfold sparesHistory at h
  rw [hget] at h
  split
  · refine hpair (addNode_sameHistory ?_)
    simpa using h
  · refine hpair (addWire_sameHistory host fun specs hspecs spec hspec => ?_)
    simp only [hspecs, List.all_eq_true, Bool.not_eq_true'] at h
    exact h spec hspec
  · exact applySet_sameHistory h
  · exact applySet_sameHistory h
  · exact hpair (dissolveGroup_sameHistory hs op)
  · exact hpair (freeze_sameHistory "freeze" op s)
  · exact hpair (freeze_sameHistory "unfreeze" op s)
  · exact hpair (applyEffect_sameHistory "effect_apply" op s)
  · exact hpair (applyEffect_sameHistory "effect_revert" op s)
  · exact hpair (sample_sameHistory host depth op s)
  · exact hpair (applyCommand_sameHistory op s)
  · exact KeepsAt.raise _

/-! ## Recording -/

/-- The history node an operation is recorded by. -/
def historyNode (what op : Value) (s : Store) : Value :=
  shape (freshId s) "history" (.str ("op:" ++ (textOf? what).getD (host.text what))) (.dict [])
    (dict [("floor", dict [("op", .str "history"), ("entry", op)])]) (.list [])
    (blankMeta host false s)

/-- Recording stores one history node and never raises. -/
theorem record_apply {op what : Value} (h : op.getItem (.str "op") = .ok what) (s : Store) :
    record host op s
      = (.ok (), s.minted.putNode (.str (freshId s)) (historyNode host what op s)) := by
  unfold record
  exact Exec.liftM_bind_of_ok h _ _

/-- The operation as it is recorded: a `set` or an `unset` has the value it
replaced noted in it, any other operation is recorded as it is given. -/
def RecordedAs (op op' : Value) : Prop :=
  op' = op ∨ ((op.get? "op" = some (.str "set") ∨ op.get? "op" = some (.str "unset")) ∧
    ∀ k : Key, k ≠ .str "before" → k ≠ .str "before_missing" → op'.get? k = op.get? k)

theorem get?_setItem {obj' : Value} {k : String} (h : obj.setItem (.str k) v = .ok obj') {j : Key}
    (hj : j ≠ .str k) : obj'.get? j = obj.get? j := by
  obtain ⟨hdict, rfl⟩ := Value.setItem_str_ok.mp h
  rw [Value.get?_put hdict, if_neg hj]

theorem noteBefore_get? {op : Value} (h : noteBefore op obj leaf = .ok op') (hb : k ≠ .str "before")
    (hm : k ≠ .str "before_missing") : op'.get? k = op.get? k := by
  obtain ⟨noted, -, h⟩ := Check.bind_ok_iff.mp h
  obtain ⟨missing, -, h⟩ := Check.bind_ok_iff.mp h
  split at h
  · cases h
    rfl
  · obtain ⟨there, -, h⟩ := Check.bind_ok_iff.mp h
    split at h
    · obtain ⟨before, -, h⟩ := Check.bind_ok_iff.mp h
      exact get?_setItem h hb
    · exact get?_setItem h hm

theorem noteRemoved_get? {op : Value} (h : noteRemoved op obj leaf = .ok op')
    (hb : k ≠ .str "before") : op'.get? k = op.get? k := by
  obtain ⟨noted, -, h⟩ := Check.bind_ok_iff.mp h
  split at h
  · cases h
    rfl
  · obtain ⟨before, -, h⟩ := Check.bind_ok_iff.mp h
    exact get?_setItem h hb

theorem rewritten_get? {op : Value} (h : rewritten what op target = .ok (op', target'))
    (hb : k ≠ .str "before") (hm : k ≠ .str "before_missing") : op'.get? k = op.get? k := by
  obtain ⟨path, -, h⟩ := Check.bind_ok_iff.mp h
  obtain ⟨obj, -, h⟩ := Check.bind_ok_iff.mp h
  obtain ⟨leaf, -, h⟩ := Check.bind_ok_iff.mp h
  obtain ⟨noted, hnoted, h⟩ := Check.bind_ok_iff.mp h
  rw [← noteBefore_get? hnoted hb hm]
  split at h
  · obtain ⟨v, -, h⟩ := Check.bind_ok_iff.mp h
    obtain ⟨target, -, h⟩ := Check.bind_ok_iff.mp h
    cases h
    rfl
  · obtain ⟨there, -, h⟩ := Check.bind_ok_iff.mp h
    split at h
    · obtain ⟨final, hfinal, h⟩ := Check.bind_ok_iff.mp h
      obtain ⟨target, -, h⟩ := Check.bind_ok_iff.mp h
      cases h
      exact noteRemoved_get? hfinal hb
    · cases h

theorem applySet_get? {op : Value} (h : applySet what op s = (.ok (out, op'), t))
    (hb : k ≠ .str "before") (hm : k ≠ .str "before_missing") : op'.get? k = op.get? k := by
  obtain ⟨id, -, h⟩ := Exec.liftM_bind_ok h
  obtain ⟨target, -, h⟩ := Exec.look_bind_ok h
  obtain ⟨key, -, h⟩ := Exec.liftM_bind_ok h
  obtain ⟨kind, -, h⟩ := Exec.liftM_bind_ok h
  obtain ⟨-, h⟩ := Exec.refuse_bind_ok h
  obtain ⟨frozen, -, h⟩ := Exec.liftM_bind_ok h
  obtain ⟨-, h⟩ := Exec.refuse_bind_ok h
  obtain ⟨role, -, h⟩ := Exec.liftM_bind_ok h
  obtain ⟨before, -, h⟩ := Exec.liftM_bind_ok h
  obtain ⟨⟨final, target'⟩, hrewritten, h⟩ := Exec.liftM_bind_ok h
  obtain ⟨-, u, -, h⟩ := Exec.bind_eq_ok h
  obtain ⟨role', -, h⟩ := Exec.liftM_bind_ok h
  obtain ⟨-, u₁, -, h⟩ := Exec.bind_eq_ok h
  obtain ⟨-, u₂, -, h⟩ := Exec.bind_eq_ok h
  obtain ⟨-, u₃, -, h⟩ := Exec.bind_eq_ok h
  cases h
  exact rewritten_get? hrewritten hb hm

theorem branch_recordedAs {op what : Value} (hwhat : op.getItem (.str "op") = .ok what)
    (h : branch host depth op what s = (.ok (out, op'), t)) : RecordedAs op op' := by
  have hget := Value.getItem_str_ok.mp hwhat
  have hpair : ∀ {m : Act Value}, (m >>= fun out => pure (out, op)) s = (.ok (out, op'), t) →
      RecordedAs op op' := by
    intro m hm
    obtain ⟨a, r, -, hr⟩ := Exec.bind_eq_ok hm
    cases hr
    exact Or.inl rfl
  unfold branch at h
  split at h
  case h_3 => exact Or.inr ⟨Or.inl hget, fun k hb hm => applySet_get? h hb hm⟩
  case h_4 => exact Or.inr ⟨Or.inr hget, fun k hb hm => applySet_get? h hb hm⟩
  case h_12 => cases h
  all_goals exact hpair h

theorem RecordedAs.op {op what : Value} (h : RecordedAs op op')
    (hwhat : op.getItem (.str "op") = .ok what) : op'.getItem (.str "op") = .ok what := by
  rcases h with rfl | ⟨-, h⟩
  · exact hwhat
  · rw [Value.getItem_str_ok] at hwhat ⊢
    rw [h _ (by decide) (by decide), hwhat]

/-! ## The law -/

/-- An operation records itself once: if it is accepted, exactly one history node
is new, it holds the operation, and every other one is as it was; if it is
refused, every one is as it was. -/
def RecordsOnce (depth : ℕ) (op : Value) (s : Store) : Prop :=
  match applyOp host depth op s with
  | (.ok (_, op'), t) => RecordedAs op op' ∧ ∃ k node, isHistory s.nodes k = false ∧
      field node "body" = dict [("floor", dict [("op", .str "history"), ("entry", op')])] ∧
      ∀ j n, HistoryAt t.nodes j n ↔ HistoryAt s.nodes j n ∨ (j = k ∧ n = node)
  | (.error _, t) => SameHistory s t

/-- One operation that spares history records itself once. -/
theorem applyOp_recordsOnce (hs : HistoryClosed s) {op : Value} (h : sparesHistory s op = true) :
    RecordsOnce host depth op s := by
  unfold RecordsOnce applyOp
  cases hwhat : op.getItem (.str "op") with
  | error e => exact refl_of SameHistory s
  | ok what =>
      rw [Exec.liftM_bind_of_ok rfl]
      have hbranch := branch_sameHistory host hs depth h hwhat
      unfold KeepsAt at hbranch
      rcases hr : branch host depth op what s with ⟨e | ⟨out, op'⟩, t⟩
      · rw [Exec.bind_error hr]
        rw [hr] at hbranch
        exact hbranch
      · rw [hr] at hbranch
        replace hbranch : SameHistory s t := hbranch
        have hrecorded := branch_recordedAs host hwhat hr
        rw [Exec.bind_ok hr]
        show match (record host op' >>= fun _ => pure (out, op')) t with
          | (.ok (_, op'), t) => _
          | (.error _, t) => _
        rw [Exec.bind_ok (record_apply host (hrecorded.op hwhat) t)]
        have hfree : isHistory t.nodes (.str (freshId t)) = false :=
          isHistory_of_not_mem (freshId_not_mem t)
        refine ⟨hrecorded, .str (freshId t), historyNode host what op' t,
          (hbranch.isHistory _).symm.trans hfree, rfl, fun j n => ?_⟩
        rw [← hbranch j n]
        unfold HistoryAt
        show (t.nodes.set _ _).get? j = some n ∧ _ ↔ _
        rw [Dict.get?_set]
        by_cases hj : j = .str (freshId t)
        · subst hj
          have hnone : t.nodes.get? (.str (freshId t)) = none :=
            Dict.get?_eq_none_iff.mpr (freshId_not_mem t)
          rw [if_pos rfl, hnone]
          simp only [Option.some.injEq, reduceCtorEq, false_and, false_or, true_and]
          exact ⟨fun h => h.1.symm, fun h => ⟨h.symm, by rw [h]; rfl⟩⟩
        · rw [if_neg hj]
          simp [hj]

/-- A history node stays and the shape of history nodes is kept by an action that
spares history. -/
theorem step_history {a : Action} (ha : Spares s a) (hs : HistoryClosed s) :
    HistoryClosed ((machine host).step s a) ∧
      ∀ k node, HistoryAt s.nodes k node → HistoryAt ((machine host).step s a).nodes k node := by
  cases a with
  | pull depth nid =>
      have hpull := pull_sameHistory host depth nid none s
      exact ⟨hs.of_same hpull, fun k node hk => (hpull k node).mpr hk⟩
  | apply depth op =>
      have h : RecordsOnce host depth op s := applyOp_recordsOnce host hs ha
      unfold RecordsOnce at h
      show HistoryClosed (applyOp host depth op s).2 ∧
        ∀ k node, HistoryAt s.nodes k node → HistoryAt (applyOp host depth op s).2.nodes k node
      rcases hr : applyOp host depth op s with ⟨e | ⟨out, op'⟩, t⟩
      · rw [hr] at h
        exact ⟨hs.of_same h, fun k node hk => (h k node).mpr hk⟩
      · rw [hr] at h
        obtain ⟨-, k, node, -, hbody, hiff⟩ := h
        refine ⟨fun j n hj => ?_, fun j n hj => (hiff j n).mpr (Or.inl hj)⟩
        rcases (hiff j n).mp hj with hj | ⟨-, rfl⟩
        · exact hs j n hj
        · exact ⟨_, hbody⟩

/-- **History is append-only** in the runs whose operations spare it: a history
node recorded so far stays in the table as it is, and an operation that is
applied next records itself once and changes no other history node. -/
theorem history_append_only {s : Store} (hs : (machine host).Run Spares Store.empty s) :
    (∀ t, (machine host).Run Spares s t →
      ∀ k node, HistoryAt s.nodes k node → HistoryAt t.nodes k node) ∧
    ∀ depth op, sparesHistory s op = true → RecordsOnce host depth op s := by
  have hstep : ∀ u a, Spares u a → HistoryClosed u → HistoryClosed ((machine host).step u a) :=
    fun u a ha hu => (step_history host ha hu).1
  have hempty : HistoryClosed Store.empty := fun k node hk => by cases hk.1
  have hclosed : HistoryClosed s := hs.invariant hstep hempty
  refine ⟨fun t ht k node hk => ?_, fun depth op h => applyOp_recordsOnce host hclosed h⟩
  let kept : Store → Prop := fun u => HistoryAt u.nodes k node
  have hkeep : ∀ u a, Spares u a → HistoryClosed u → kept u → kept ((machine host).step u a) :=
    fun u a ha hu => (step_history host ha hu).2 k node
  have hkept : kept t := Machine.Run.invariant_of hstep hkeep ht hclosed hk
  exact hkept

/-- A new store after its first operation. -/
def recordedOnce : Store := (machine Host.bare).step Store.empty (.apply 8 (addValueOp "a" (.int 1)))

/-- The history node of the first operation is still there after the second. -/
theorem history_append_only_second : ∃ node,
    HistoryAt recordedOnce.nodes (.str "n000000") node ∧
    HistoryAt ((machine Host.bare).step recordedOnce (.apply 8 (addValueOp "b" (.int 2)))).nodes
      (.str "n000000") node := by
  have hfirst : (machine Host.bare).Run Spares Store.empty recordedOnce :=
    Machine.Run.step _ (by decide)
  have hsecond : (machine Host.bare).Run Spares recordedOnce
      ((machine Host.bare).step recordedOnce (.apply 8 (addValueOp "b" (.int 2)))) :=
    Machine.Run.step _ (by decide +kernel)
  obtain ⟨node, hnode⟩ : ∃ node, HistoryAt recordedOnce.nodes (.str "n000000") node :=
    isHistory_iff.mp (by decide +kernel)
  exact ⟨node, hnode, (history_append_only Host.bare hfirst).1 _ hsecond _ _ hnode⟩

/-- Among all runs of accepted operations the law fails: the id of the first
history node is `n000000`, and a node added under that id takes its place. -/
theorem history_overwritten : ¬ ∀ s t, (machine Host.bare).Run (Accepted Host.bare) Store.empty s →
    (machine Host.bare).Run (Accepted Host.bare) s t →
    ∀ k node, HistoryAt s.nodes k node → HistoryAt t.nodes k node := by
  intro h
  let forged : Store :=
    (machine Host.bare).step recordedOnce (.apply 8 (addValueOp "n000000" (.int 2)))
  have hfirst : (machine Host.bare).Run (Accepted Host.bare) Store.empty recordedOnce :=
    Machine.Run.step _ (by decide +kernel)
  have hforged : (machine Host.bare).Run (Accepted Host.bare) recordedOnce forged :=
    Machine.Run.step _ (by decide +kernel)
  obtain ⟨node, hnode⟩ : ∃ node, HistoryAt recordedOnce.nodes (.str "n000000") node :=
    isHistory_iff.mp (by decide +kernel)
  have hkept := isHistory_iff.mpr ⟨node, h _ _ hfirst hforged _ _ hnode⟩
  exact absurd hkept (by decide +kernel)

end ArchHub.Table

import Mathlib
import ArchHub.Table.Frame

/-!
# What `add_wire` builds

`add_wire` stores one parameter node for each endpoint, stage and wire parameter
and then the relation that owns them.  This module says what is in the table
after each part:

* `addParam_apply`: a parameter node of the one shape is always accepted, so
  this step never raises;
* `addEndpoints_apply`, `addStages_apply`, `addWireParameters_apply`: when every
  participant and stage is in the table by the time it is looked up
  (`endpointsFit`, `stagesFit`), the parameters are stored one after another,
  and the draft owns them;
* `assignments_owned`: what a relation then owns is what those parameters hold.
-/

namespace ArchHub.Table

open Lib List Check
open Lib.Exec (Keeps KeepsAt)

/-! ## Nodes of the one shape -/

/-- A node of the one shape. -/
def shape (id kind : String) (title params body relations held : Value) : Value :=
  dict [("id", .str id), ("kind", .str kind), ("title", title), ("params", params),
    ("body", body), ("relations", relations), ("meta", held)]

variable {nodes : Nodes}

section Shape

variable (id kind : String) (title params body relations held : Value)

@[simp] theorem shape_isDict :
    (shape id kind title params body relations held).isDict = true := rfl
@[simp] theorem shape_id :
    field (shape id kind title params body relations held) "id" = .str id := rfl
@[simp] theorem shape_kind :
    field (shape id kind title params body relations held) "kind" = .str kind := rfl
@[simp] theorem shape_title :
    field (shape id kind title params body relations held) "title" = title := rfl
/-- A node of the one shape has the right keys. -/
theorem checkShape_shape
    (hat : nodes.get? (.str id) = some (shape id kind title params body relations held))
    (hkind : kind ∈ kinds) (htitle : title.isStr = true) :
    checkShape nodes (shape id kind title params body relations held) = .ok () := by
  have hone : oneOf (.str kind) kinds = true :=
    List.any_eq_true.mpr ⟨kind, hkind, by simp⟩
  have hkeys : (nodeKeys.all (fun k =>
        ((shape id kind title params body relations held).get? k).isSome) &&
      (shape id kind title params body relations held).fields.all
        (fun e => nodeKeys.any (fun k => e.1 = .str k))) = true := rfl
  simp only [checkShape, shape_isDict, shape_id, shape_kind, shape_title, hkeys,
    Value.hashed_str, hone, htitle, require_true, ok_bind]
  refine Check.seq_ok_iff.mpr ⟨Check.require_ok_iff.mpr ?_, rfl⟩
  exact Bool.and_eq_true_iff.mpr ⟨rfl, decide_eq_true hat⟩

end Shape

/-- The `meta` of a minted node. -/
def blankMeta (host : Host) (frozen : Bool) (s : Store) : Value :=
  dict [("seq", .int ((freshSeq s + 1 : ℕ) - 1)),
    ("created_at", .float (host.time s.caches.ticks)), ("frozen", .bool frozen)]

/-- Whether `meta` has what every node's has. -/
def metaOk (held : Value) : Bool := held.isDict && metaRequired.all (fun k => (held.get? k).isSome)

theorem metaOk_put {held : Value} (h : metaOk held = true) (k : String) (v : Value) :
    metaOk (held.put k v) = true := by
  simp only [metaOk, Bool.and_eq_true, all_eq_true] at h ⊢
  obtain ⟨hdict, hall⟩ := h
  refine ⟨by cases held <;> simp_all [Value.isDict, Value.put], fun k' hk' => ?_⟩
  rw [Value.get?_put hdict]
  split
  · rfl
  · exact hall k' hk'

theorem metaOk_foldl_put {held : Value} (h : metaOk held = true) (es : List (String × Value)) :
    metaOk (es.foldl (fun m e => m.put e.1 e.2) held) = true := by
  induction es generalizing held with
  | nil => exact h
  | cons e es ih => exact ih (metaOk_put h e.1 e.2)

theorem metaOk_blankMeta (host : Host) (frozen : Bool) (s : Store) :
    metaOk (blankMeta host frozen s) = true := rfl

/-! ## Parameter nodes -/

/-- The body of a parameter that holds a value. -/
def valueBody (v : Value) : Value := dict [("floor", dict [("op", .str "value"), ("value", v)])]

/-- The parameter node `addParam` stores. -/
def paramNode (host : Host) (p : Param) (s : Store) : Value :=
  shape (freshId s) "param" (.str p.name) (.dict []) (valueBody p.value) (.list [])
    (p.tags.foldl (fun m e => m.put e.1 e.2) (blankMeta host false s))

/-- The store after a parameter was stored. -/
def Store.withParam (host : Host) (s : Store) (p : Param) : Store :=
  s.minted.putNode (.str (freshId s)) (paramNode host p s)

variable (host : Host) {param : ℕ → Value → Param} {index : ℕ} {specs : List Value}
  {extra : Value → List Value} {d : Draft} {s : Store} {relation : Value}
  {os : List (Param × String)} {absent : String} {t : Store} {ps : List Param} {o : Param × String}
  {op : Value} {endpoints : List Fields} {e : Fields}

theorem validate_paramNode (p : Param) (s : Store)
    (hat : nodes.get? (.str (freshId s)) = some (paramNode host p s)) :
    validateNode nodes (paramNode host p s) = .ok () := by
  have hshape : checkShape nodes (paramNode host p s) = .ok () :=
    checkShape_shape _ _ _ _ _ _ _ hat (by decide) rfl
  have hbody : checkBody nodes (paramNode host p s) = .ok () := rfl
  have hmeta : checkMeta (paramNode host p s) = .ok () :=
    Check.require_ok_iff.mpr (metaOk_foldl_put (metaOk_blankMeta host false s) p.tags)
  rw [validateNode, hshape, ok_bind, hbody, hmeta]
  rfl

/-- **Storing a parameter never raises**, and stores nothing else. -/
theorem addParam_apply (p : Param) (s : Store) :
    addParam host p s = (.ok (freshId s), s.withParam host p) := by
  have hvalid : validateAt (paramNode host p s) (s.withParam host p)
      = (.ok (), s.withParam host p) :=
    congrArg (fun r => (r, s.withParam host p))
      (validate_paramNode host p s (Dict.get?_set_self s.nodes _ _))
  unfold addParam
  rw [Exec.bind_ok (blank_apply _ _ _ _ _ _ _)]
  show (validateAt (paramNode host p s) >>= fun _ => pure (freshId s)) (s.withParam host p) = _
  rw [Exec.bind_ok hvalid]
  rfl

/-! ## Parameters, one after another -/

/-- The store after some parameters were stored. -/
def Store.withParams (s : Store) (ps : List Param) : Store := ps.foldl (Store.withParam host) s

/-- The parameters under the ids they get. -/
def owned : Store → List Param → List (Param × String)
  | _, [] => []
  | s, p :: ps => (p, freshId s) :: owned (s.withParam host p) ps

/-- The specs of an `add_wire`, as parameters. -/
def paramsFrom (param : ℕ → Value → Param) : ℕ → List Value → List Param
  | _, [] => []
  | index, spec :: specs => param index spec :: paramsFrom param (index + 1) specs

theorem exists_of_mem_paramsFrom {p : Param} (hp : p ∈ paramsFrom param index specs) :
    ∃ i, ∃ spec ∈ specs, p = param i spec := by
  induction specs generalizing index with
  | nil => simp [paramsFrom] at hp
  | cons spec specs ih =>
      rcases List.mem_cons.mp hp with rfl | hp
      · exact ⟨index, spec, mem_cons_self, rfl⟩
      · obtain ⟨i, spec', hspec, rfl⟩ := ih hp
        exact ⟨i, spec', mem_cons_of_mem _ hspec, rfl⟩

/-- A dictionary whose `node_id` names a node of the table. -/
def Names (nodes : Nodes) (spec : Value) : Prop :=
  spec.isDict = true ∧ ∃ k, (field spec "node_id").key? = some k ∧ k ∈ nodes.keys

/-- Every spec names a node of the table by the time its parameter is stored. -/
def AllName (param : ℕ → Value → Param) : ℕ → Store → List Value → Prop
  | _, _, [] => True
  | index, s, spec :: specs =>
      Names s.nodes spec ∧ AllName param (index + 1) (s.withParam host (param index spec)) specs

/-- Owned parameters, entered under their names. -/
def putAll (es : Fields) (os : List (Param × String)) : Fields :=
  os.foldl (fun es o => Assoc.put es o.1.name (.str o.2)) es

/-- A draft with owned parameters put into it, and the members that come with
each. -/
def Draft.grown (d : Draft) (extra : Value → List Value) (os : List (Param × String)) : Draft :=
  ⟨putAll d.params os,
    d.inner ++ os.flatMap (fun o => .str o.2 :: extra (field o.1.value "node_id"))⟩

theorem present_of_names {spec : Value} (h : Names nodes spec) :
    spec.getDefault "node_id" .none = .ok (field spec "node_id") ∧
      present nodes (field spec "node_id") = .ok true := by
  obtain ⟨hdict, k, hk, hmem⟩ := h
  constructor
  · cases spec <;> simp_all [Value.isDict, Value.getDefault, field, Value.get?]
  · rw [present, Value.hashed, hk]
    exact congrArg Except.ok (Dict.mem_keys.mp hmem)

/-- Specs that all name a node are stored as parameters, one after another. -/
theorem addNamed_apply (hvalue : ∀ index spec, (param index spec).value = spec)
    (h : AllName host param index s specs) :
    addNamed host absent param extra index specs d s
      = (.ok (d.grown extra (owned host s (paramsFrom param index specs))),
        s.withParams host (paramsFrom param index specs)) := by
  induction specs generalizing index d s with
  | nil => simp [addNamed, paramsFrom, owned, Draft.grown, putAll, Store.withParams]
  | cons spec specs ih =>
      obtain ⟨hdefault, hpresent⟩ := present_of_names h.1
      rw [addNamed, hdefault]
      show (Exec.look (fun s => present s.nodes (field spec "node_id")) >>= _) s = _
      rw [Exec.bind_ok (show Exec.look (fun s => present s.nodes (field spec "node_id")) s
        = (.ok true, s) from congrArg (fun r => (r, s)) hpresent)]
      show (addParam host (param index spec) >>= _) s = _
      rw [Exec.bind_ok (addParam_apply host _ _), ih h.2]
      simp [paramsFrom, owned, Draft.grown, putAll, Store.withParams, hvalue]

/-- What is stored to the end was all named. -/
theorem addNamed_ok {d' : Draft}
    (h : addNamed host absent param extra index specs d s = (.ok d', t)) :
    AllName host param index s specs := by
  induction specs generalizing index d s with
  | nil => trivial
  | cons spec specs ih =>
      obtain ⟨named, hnamed, h⟩ := Exec.liftM_bind_ok h
      obtain ⟨there, hthere, h⟩ := Exec.look_bind_ok h
      obtain ⟨hrefuse, h⟩ := Exec.refuse_bind_ok h
      rw [Bool.not_eq_false'] at hrefuse
      rw [Exec.bind_ok (addParam_apply host _ _)] at h
      refine ⟨?_, ih h⟩
      obtain ⟨hdict, hget⟩ := Value.getDefault_ok.mp hnamed
      obtain ⟨k, hk, hmem⟩ := Check.bind_ok_iff.mp hthere
      rw [Except.ok.injEq, hrefuse] at hmem
      refine ⟨hdict, k, ?_, Dict.mem_keys.mpr hmem⟩
      rw [field, hget]
      exact Value.key?_of_hashed hk

/-- What a stored parameter keeps, the named ones keep. -/
theorem addNamed_keeps {R : Store → Store → Prop} [IsPreorder Store R]
    (hadd : ∀ p, Keeps R (addParam host p)) (absent : String) (param : ℕ → Value → Param)
    (extra : Value → List Value) (index : ℕ) (specs : List Value) (d : Draft) :
    Keeps R (addNamed host absent param extra index specs d) := by
  induction specs generalizing index d with
  | nil => exact Keeps.pure _
  | cons spec specs ih =>
      refine Keeps.liftM_bind fun named _ => Keeps.bind (Keeps.look _) fun there => ?_
      refine Keeps.bind (Keeps.refuse _ _) fun _ => ?_
      exact Keeps.bind (hadd _) fun id => ih _ _

theorem addWireParameters_keeps {R : Store → Store → Prop} [IsPreorder Store R]
    (hadd : ∀ p, Keeps R (addParam host p)) (es : List (String × Value)) (d : Draft) :
    Keeps R (addWireParameters host es d) := by
  induction es generalizing d with
  | nil => exact Keeps.pure _
  | cons e es ih => exact Keeps.bind (hadd _) fun id => ih _

/-- The parameters every wire has are stored in turn. -/
theorem addWireParameters_apply {es : List (String × Value)} :
    addWireParameters host es d s
      = (.ok ⟨putAll d.params (owned host s (es.map plainParam)), d.inner⟩,
        s.withParams host (es.map plainParam)) := by
  induction es generalizing d s with
  | nil => simp [addWireParameters, owned, putAll, Store.withParams]
  | cons e es ih =>
      rw [addWireParameters, Exec.bind_ok (addParam_apply host _ _), ih]
      simp [owned, putAll, Store.withParams, plainParam]

/-- Members that were in the table before stay what they were. -/
theorem withParams_get? {k : Key} (hk : k ∈ s.nodes.keys) (ps : List Param) :
    (s.withParams host ps).nodes.get? k = s.nodes.get? k := by
  induction ps generalizing s with
  | nil => rfl
  | cons p ps ih =>
      have hne : k ≠ .str (freshId s) := fun h => freshId_not_mem s (h ▸ hk)
      rw [Store.withParams, foldl_cons]
      refine (ih (Dict.mem_keys_set.mpr (Or.inr hk))).trans ?_
      exact Dict.get?_set_of_ne _ _ hne

theorem fst_mem_of_mem_owned (ho : o ∈ owned host s ps) : o.1 ∈ ps := by
  induction ps generalizing s with
  | nil => simp [owned] at ho
  | cons p ps ih =>
      rcases List.mem_cons.mp ho with rfl | ho
      · exact mem_cons_self
      · exact mem_cons_of_mem _ (ih ho)

/-- Each owned id holds its parameter. -/
theorem owned_get? (ho : o ∈ owned host s ps) :
    ∃ s', (s.withParams host ps).nodes.get? (.str o.2) = some (paramNode host o.1 s') := by
  induction ps generalizing s with
  | nil => simp [owned] at ho
  | cons p ps ih =>
      rcases List.mem_cons.mp ho with rfl | ho
      · refine ⟨s, (withParams_get? host ?_ ps).trans (Dict.get?_set_self _ _ _)⟩
        exact Dict.mem_keys_set.mpr (Or.inl rfl)
      · exact ih ho

theorem owned_append (s : Store) (ps qs : List Param) :
    owned host s (ps ++ qs) = owned host s ps ++ owned host (s.withParams host ps) qs := by
  induction ps generalizing s with
  | nil => rfl
  | cons p ps ih => simp [owned, Store.withParams, ih]

theorem withParams_append (s : Store) (ps qs : List Param) :
    s.withParams host (ps ++ qs) = (s.withParams host ps).withParams host qs := by
  simp [Store.withParams]

/-- The parameters of an `add_wire` that asks for these endpoints and stages. -/
def wireParams (specs stages : List Value) : List Param :=
  paramsFrom endpointParam 0 specs ++ paramsFrom stageParam 0 stages
    ++ wireParameterDefaults.map plainParam

/-- The members of a relation with these owned parameters of its endpoints and
of its stages. -/
def wireInner (endpoints stages : List (Param × String)) : List Value :=
  endpoints.map (fun o => .str o.2)
    ++ stages.flatMap (fun o => [.str o.2, field o.1.value "node_id"])

/-- Whether every endpoint and every stage names a node of the table by the time
its parameter is stored. -/
def WireNames (s : Store) (specs stages : List Value) : Prop :=
  AllName host endpointParam 0 s specs ∧
    AllName host stageParam 0 (s.withParams host (paramsFrom endpointParam 0 specs)) stages

/-- The draft of a relation with these endpoints and stages. -/
def wireDraft (s : Store) (specs stages : List Value) : Draft :=
  ⟨putAll [] (owned host s (wireParams specs stages)),
    wireInner (owned host s (paramsFrom endpointParam 0 specs))
      (owned host (s.withParams host (paramsFrom endpointParam 0 specs))
        (paramsFrom stageParam 0 stages))⟩

/-- The relation node of a draft. -/
def relationNode (title : Value) (draft : Draft) (s : Store) : Value :=
  shape (freshId s) "wire" title (.dict draft.params) (dict [("inner", .list draft.inner)])
    (.list []) ((blankMeta host false s).put "capabilities" (.list [.str "relation"]))

/-- The store after the relation of a draft was stored. -/
def Store.withRelation (s : Store) (title : Value) (draft : Draft) : Store :=
  s.minted.putNode (.str (freshId s)) (relationNode host title draft s)

@[simp] theorem withRelation_nodes (s : Store) (title : Value) (draft : Draft) :
    (s.withRelation host title draft).nodes
      = s.nodes.set (.str (freshId s)) (relationNode host title draft s) := rfl

theorem storeRelation_eq (title : Value) (draft : Draft) (s : Store) :
    storeRelation host title draft s
      = settleRelation (freshId s) (s.withRelation host title draft) := rfl

/-- What an `add_wire` asks for, when its draft can be made. -/
structure Drafts (s : Store) (op title : Value) (specs stages : List Value) : Prop where
  endpointsEq : endpointSpecs op = .ok specs
  two : 2 ≤ specs.length
  stagesEq : stageSpecs host op = .ok stages
  titleEq : op.getDefault "title" (.str "") = .ok title
  names : WireNames host s specs stages

/-- The draft of an `add_wire` whose endpoints and stages all name a node. -/
theorem draftRelation_eq {title : Value} {stages : List Value}
    (h : Drafts host s op title specs stages) :
    draftRelation host op s
      = (.ok (title, wireDraft host s specs stages),
        s.withParams host (wireParams specs stages)) := by
  have hlen : decide (specs.length < 2) = false := decide_eq_false (by have := h.two; omega)
  unfold draftRelation
  refine (Exec.liftM_bind_of_ok h.endpointsEq _ _).trans ?_
  refine (Exec.refuse_bind_of_false hlen _ _ _).trans ?_
  refine (Exec.bind_ok (addNamed_apply host (fun _ _ => rfl) h.names.1) _).trans ?_
  refine (Exec.liftM_bind_of_ok h.stagesEq _ _).trans ?_
  refine (Exec.bind_ok (addNamed_apply host (fun _ _ => rfl) h.names.2) _).trans ?_
  refine (Exec.bind_ok (addWireParameters_apply host) _).trans ?_
  refine (Exec.liftM_bind_of_ok h.titleEq _ _).trans ?_
  simp only [wireParams, withParams_append, wireDraft, owned_append, wireInner, Draft.grown,
    putAll, foldl_append, nil_append, map_eq_flatMap, Exec.pure_apply]

/-- Every draft is made this way. -/
theorem drafts_of_ok {title : Value} (h : draftRelation host op s = (.ok (title, d), t)) :
    ∃ specs stages, Drafts host s op title specs stages := by
  unfold draftRelation at h
  obtain ⟨specs, hspecs, h⟩ := Exec.liftM_bind_ok h
  obtain ⟨hlen, h⟩ := Exec.refuse_bind_ok h
  obtain ⟨d₁, s₁, h₁, h⟩ := Exec.bind_eq_ok h
  have hnames := addNamed_ok host h₁
  rw [addEndpoints, addNamed_apply host (fun _ _ => rfl) hnames] at h₁
  obtain ⟨-, rfl⟩ := Prod.mk.inj h₁
  obtain ⟨stages, hstages, h⟩ := Exec.liftM_bind_ok h
  obtain ⟨d₂, s₂, h₂, h⟩ := Exec.bind_eq_ok h
  have hnames' := addNamed_ok host h₂
  obtain ⟨d₃, s₃, -, h⟩ := Exec.bind_eq_ok h
  obtain ⟨title', htitle, h⟩ := Exec.liftM_bind_ok h
  cases h
  have htwo : 2 ≤ specs.length := Nat.le_of_not_lt (of_decide_eq_false hlen)
  exact ⟨specs, stages, hspecs, htwo, hstages, htitle, hnames, hnames'⟩

/-! ## What a relation owns -/

theorem mem_assignments {head : String} {found : List Assignment}
    (h : assignments nodes head relation = .ok found) {a : Assignment} (ha : a ∈ found) :
    (Key.str a.name, a.param) ∈ (field relation "params").fields ∧
      startsWith head a.name = true ∧
      ∃ param, lookup nodes a.param = .ok (some param) ∧ literalOf param = .ok (some a.value) := by
  unfold assignments at h
  obtain ⟨kind, -, h⟩ := Check.bind_ok_iff.mp h
  split at h
  case isFalse =>
    cases h
    simp at ha
  case isTrue =>
    obtain ⟨params, hparams, h⟩ := Check.bind_ok_iff.mp h
    obtain ⟨entries, hentries, h⟩ := Check.bind_ok_iff.mp h
    obtain ⟨options, hoptions, h⟩ := Check.bind_ok_iff.mp h
    cases h
    rw [mem_insertionSort] at ha
    obtain ⟨o, ho, hoa⟩ := List.mem_filterMap.mp ha
    simp only [id_eq] at hoa
    subst hoa
    obtain ⟨e, he, hassign⟩ := exists_of_mem_collect hoptions ho
    have hfields : (field relation "params").fields = entries := by
      obtain ⟨-, hget⟩ := Value.getDefault_ok.mp hparams
      rw [Value.entriesOf_ok.mp hentries] at hget
      unfold field
      cases hfind : relation.get? "params" with
      | none =>
          rw [hfind] at hget
          cases hget
          rfl
      | some v =>
          rw [hfind] at hget
          cases hget
          rfl
    rw [hfields]
    unfold assignment at hassign
    split at hassign
    case h_2 => cases hassign
    case h_1 name hname =>
      split at hassign
      case isFalse => cases hassign
      case isTrue hstarts =>
        obtain ⟨found, hfound, hassign⟩ := Check.bind_ok_iff.mp hassign
        cases found with
        | none => cases hassign
        | some param =>
            obtain ⟨value, hvalue, hassign⟩ := Check.bind_ok_iff.mp hassign
            cases value with
            | none => cases hassign
            | some fields =>
                cases hassign
                exact ⟨hname ▸ he, hstarts, param, hfound, hvalue⟩

/-- An endpoint of a relation is the dictionary one of its parameters holds,
with the parameter's id and name. -/
theorem mem_relationEndpoints (h : relationEndpoints nodes relation = .ok endpoints)
    (he : e ∈ endpoints) :
    ∃ a : Assignment, e = a.named "endpoint_param" "endpoint_name" ∧
      (Key.str a.name, a.param) ∈ (field relation "params").fields ∧
      startsWith "endpoint:" a.name = true ∧
      ∃ param, lookup nodes a.param = .ok (some param) ∧ literalOf param = .ok (some a.value) := by
  obtain ⟨found, hfound, h⟩ := Check.bind_ok_iff.mp h
  cases h
  obtain ⟨a, ha, rfl⟩ := List.mem_map.mp he
  exact ⟨a, rfl, mem_assignments hfound ha⟩

theorem mem_putAll {es : Fields} {e : Key × Value} (h : e ∈ putAll es os) :
    e ∈ es ∨ ∃ o ∈ os, e = (.str o.1.name, .str o.2) := by
  induction os generalizing es with
  | nil => exact Or.inl h
  | cons o os ih =>
      rcases ih h with h | ⟨o', ho', rfl⟩
      · rcases Assoc.mem_put h with h | rfl
        · exact Or.inl h
        · exact Or.inr ⟨o, mem_cons_self, rfl⟩
      · exact Or.inr ⟨o', mem_cons_of_mem _ ho', rfl⟩

theorem literalOf_paramNode (p : Param) (s : Store) : literalOf (paramNode host p s)
      = .ok (match p.value with | .dict value => some value | _ => none) := by
  obtain ⟨name, value, tags⟩ := p
  cases value <;> rfl

/-- An endpoint of a relation whose parameters are owned is the dictionary one
of them holds. -/
theorem endpoint_of_owned (hparams : (field relation "params").fields = putAll [] os)
    (hheld : ∀ o ∈ os, ∃ s', nodes.get? (.str o.2) = some (paramNode host o.1 s'))
    (h : relationEndpoints nodes relation = .ok endpoints) (he : e ∈ endpoints) :
    ∃ o ∈ os, startsWith "endpoint:" o.1.name = true ∧ ∃ value, o.1.value = .dict value ∧
      e = (Assignment.mk o.1.name (.str o.2) value).named "endpoint_param" "endpoint_name" := by
  obtain ⟨a, rfl, hmem, hstarts, param, hparam, hliteral⟩ := mem_relationEndpoints h he
  rw [hparams] at hmem
  rcases mem_putAll hmem with hnone | ⟨o, ho, heq⟩
  · simp at hnone
  · obtain ⟨hname, hid⟩ := Prod.mk.inj heq
    have hname := Key.str.inj hname
    obtain ⟨s', hs'⟩ := hheld o ho
    rw [hid, lookup, Value.hashed_str, ok_bind, hs', Except.ok.injEq, Option.some.injEq] at hparam
    rw [← hparam, literalOf_paramNode] at hliteral
    refine ⟨o, ho, hname ▸ hstarts, a.value, ?_, by rw [← hname, ← hid]⟩
    cases hvalue : o.1.value <;> simp_all

/-- An endpoint names the node its spec names. -/
theorem named_node_id (a : Assignment) :
    entry (a.named "endpoint_param" "endpoint_name") "node_id" = entry a.value "node_id" := by
  unfold entry Assignment.named
  rw [Assoc.find_put, Assoc.find_put]
  rfl

end ArchHub.Table

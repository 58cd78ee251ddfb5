import Mathlib
import ArchHub.Table.Tokens

/-!
# What an apply may do

Everything that `apply_effect` does before it writes is a pull or a look: the table stays
as it was but for the labels of relations, and the sink stays.  An apply that gets past its
gates writes the sink at one place, or finds its change made, and records one token.

* `Calm`: the worlds before and after differ in caches and labels only.
* `Attended`: the guards of the relations that end at the node were pulled and are open.
* `applyEffect_spec`, `revertEffect_spec`: the outcomes of the two laws.
-/

namespace ArchHub.Table.LawsEffect

open Lib
open Lib.Exec (Keeps KeepsAt)

variable (host : Host) {s : Store} {t : Store} {nodes : Nodes} {k : Key} {α : Type} {m : Act α}

/-! ## Frames -/

/-- Only labels and caches of the store changed. -/
def Quiet (s t : Store) : Prop := Relabelled s.nodes t.nodes ∧ t.seq = s.seq

instance : IsPreorder Store Quiet where
  refl s := ⟨refl_of Relabelled s.nodes, rfl⟩
  trans _ _ _ h₁ h₂ := ⟨trans_of Relabelled h₁.1 h₂.1, h₂.2.trans h₁.2⟩

/-- Only labels and caches changed. -/
def Calm (w w' : World) : Prop := Quiet w.store w'.store ∧ w'.sink = w.sink

instance : IsPreorder World Calm where
  refl w := ⟨refl_of Quiet w.store, rfl⟩
  trans _ _ _ h₁ h₂ := ⟨trans_of Quiet h₁.1 h₂.1, h₂.2.trans h₁.2⟩

theorem Quiet.sameHistory (h : Quiet s t) : SameHistory s t := h.1.sameHistory

theorem Quiet.counts (h : Quiet s t) : Counts s t := h.2.ge

/-- A node stays. -/
theorem Relabelled.isSome {nodes' : Nodes} (h : Relabelled nodes nodes')
    (hk : (nodes.get? k).isSome = true) : (nodes'.get? k).isSome = true := by
  rcases h k with heq | ⟨node, held, -, -, heq⟩
  · rw [heq]
    exact hk
  · rw [heq]
    rfl

theorem pull_quiet (depth : ℕ) (v : Value) (env : Env) :
    Keeps Quiet (pull host depth v env) := fun s => ⟨pull_relabels host depth v env s, rfl⟩

theorem onStore_calm (h : Keeps Quiet m) : Keeps Calm (onStore m) := fun w => ⟨h w.store, rfl⟩

theorem look_calm (f : Store → Except Raised α) :
    Keeps Calm (onStore (Exec.look f)) := onStore_calm (Keeps.look f)

theorem nodeAt_calm (v : Value) : Keeps Calm (onStore (nodeAt v)) := look_calm _

theorem nodeAt?_calm (v : Value) : Keeps Calm (onStore (nodeAt? v)) := look_calm _

theorem onPull_calm (depth : ℕ) (v : Value) (env : Env) :
    Keeps Calm (onStore (pull host depth v env)) := onStore_calm (pull_quiet host depth v env)

/-- `_effect_floor` only looks. -/
theorem effectFloor_stays (id : Value) : Keeps Eq (effectFloor id) := by
  have hlook : Keeps Eq (onStore (nodeAt id)) := fun _ => rfl
  refine Keeps.bind hlook fun node => Keeps.liftM_bind fun body _ => ?_
  refine Keeps.liftM_bind fun terminates _ => Keeps.bind (Keeps.refuse _ _) fun _ => ?_
  refine Keeps.liftM_bind fun floor _ => Keeps.liftM_bind fun op _ => ?_
  refine Keeps.bind (Keeps.refuse _ _) fun _ => Keeps.liftM_bind fun targeted _ => ?_
  exact Keeps.bind (Keeps.refuse _ _) fun _ => Keeps.pure _

theorem effectFloor_calm (id : Value) : Keeps Calm (effectFloor id) := by
  intro w
  rw [← effectFloor_stays id w]
  exact refl_of Calm w

theorem plan_calm (depth : ℕ) (id : Value) : Keeps Calm (plan host depth id) :=
  Keeps.bind (onPull_calm host depth id none) fun _ => Keeps.liftM _

theorem pullSources_calm (depth : ℕ) (sources : List Fields) :
    Keeps Calm (pullSources host depth sources) :=
  Keeps.collect (fun _ => Keeps.liftM_bind fun _ _ => onPull_calm host depth _ none) _

theorem assertGuards_calm (depth : ℕ) (id item : Value) (guards : List Fields) :
    Keeps Calm (assertGuards host depth id item guards) := by
  induction guards with
  | nil => exact Keeps.pure _
  | cons guard guards ih =>
      refine Keeps.liftM_bind fun guardId _ => ?_
      refine Keeps.bind (onPull_calm host depth _ _) fun passes => ?_
      exact Keeps.bind (Keeps.refuse _ _) fun _ => ih

theorem assertRelation_calm (depth : ℕ) (id relation : Value) :
    Keeps Calm (assertRelation host depth id relation) := by
  refine Keeps.bind (look_calm _) fun targets => Keeps.onlyIf fun _ => ?_
  refine Keeps.bind (look_calm _) fun stages => Keeps.onlyIf fun _ => ?_
  refine Keeps.bind (look_calm _) fun sources => ?_
  exact Keeps.bind (pullSources_calm host depth sources) fun _ => assertGuards_calm host _ _ _ _

theorem assertNamed_calm (depth : ℕ) (id relationId : Value) :
    Keeps Calm (assertNamed host depth id relationId) := by
  refine Keeps.bind (nodeAt?_calm relationId) fun held => ?_
  cases held with
  | none => exact Keeps.pure _
  | some relation =>
      refine Keeps.onlyIf fun _ => Keeps.liftM_bind fun kind _ => ?_
      exact Keeps.onlyIf fun _ => assertRelation_calm host depth id relation

theorem assertComputedGuards_calm (depth : ℕ) (id : Value) :
    Keeps Calm (assertComputedGuards host depth id) := by
  refine Keeps.bind (nodeAt_calm id) fun node => Keeps.liftM_bind fun relations _ => ?_
  exact Keeps.liftM_bind fun ids _ => Keeps.each fun _ _ => assertNamed_calm host _ _ _

/-! ## The guards -/

/-- A guard gives what is truthy when it is asked about an item. -/
def GuardOpen (depth : ℕ) (item : Value) (guard : Fields) (s : Store) : Prop :=
  ∃ guardId v, (Value.dict guard).getItem (.str "node_id") = .ok guardId ∧
    (pull host depth guardId (some [(.str "item", item)]) s).1 = .ok v ∧ v.truthy = true

/-- The guards of a relation that ends at a node were asked about what its sources gave,
one after the other, and each was open. -/
def RelationOpen (depth : ℕ) (id relation : Value) (w : World) : Prop :=
  ∃ targets, relationTargets w.store.nodes relation = .ok targets ∧
    (endsAt id targets = true → ∃ stages, relationStages w.store.nodes relation = .ok stages ∧
      ∀ guard ∈ guardsOf stages, ∃ sources values w₁ w₂,
        relationSources w.store.nodes relation = .ok sources ∧
        pullSources host depth sources w = (.ok values, w₁) ∧ Calm w₁ w₂ ∧
        GuardOpen host depth (guardItem values) guard w₂.store)

/-- The node is not frozen, and every guard of a relation that ends at it was open when it
was asked. -/
def Attended (depth : ℕ) (id : Value) (w : World) : Prop :=
  ∃ node relations ids, fetch w.store.nodes id = .ok node ∧ isFrozen node = .ok false ∧
    node.getItem (.str "relations") = .ok relations ∧ relations.iterate = .ok ids ∧
    ∀ relationId ∈ ids, ∃ u, Calm w u ∧ ∀ relation,
      lookup u.store.nodes relationId = .ok (some relation) → relation.truthy = true →
        ∃ kind, relation.getItem (.str "kind") = .ok kind ∧
          (kind.pyEq (.str "wire") = true → RelationOpen host depth id relation u)

variable {host} {depth : ℕ} {id actor : Value} {w w' : World} {r : PUnit} {node : Value} {β : Type}

theorem onStore_ok {a : α} (h : onStore m w = (.ok a, w')) :
    m w.store = (.ok a, w'.store) ∧ w'.sink = w.sink := by
  obtain ⟨hfst, hsnd⟩ := Prod.mk.inj h
  subst hsnd
  exact ⟨Prod.ext hfst rfl, rfl⟩

theorem onLook_bind_ok {f : Store → Except Raised α} {g : α → Law β} {b : β}
    (h : (onStore (Exec.look f) >>= g) w = (.ok b, w')) :
    ∃ a, f w.store = .ok a ∧ g a w = (.ok b, w') := by
  obtain ⟨a, u, hlook, h⟩ := Exec.bind_eq_ok h
  obtain ⟨hfst, hsnd⟩ := Prod.mk.inj hlook
  obtain rfl : w = u := hsnd
  exact ⟨a, hfst, h⟩

/-- Every part of a loop that returns has returned, in a state the loop has come to. -/
theorem each_reached {ι : Type} {f : ι → Law PUnit} (hf : ∀ x, Keeps Calm (f x)) {xs : List ι}
    (h : Exec.each f xs w = (.ok r, w')) :
    ∀ x ∈ xs, ∃ u u' r', Calm w u ∧ f x u = (.ok r', u') := by
  induction xs generalizing w with
  | nil => exact fun x hx => absurd hx List.not_mem_nil
  | cons x xs ih =>
      obtain ⟨r₁, u, hfirst, hrest⟩ := Exec.bind_eq_ok h
      have hcalm : Calm w u := by
        have hkeeps := hf x w
        rw [hfirst] at hkeeps
        exact hkeeps
      intro y hy
      rcases List.mem_cons.1 hy with rfl | hy
      · exact ⟨w, u, r₁, refl_of Calm w, hfirst⟩
      · obtain ⟨v, v', r', hv, hok⟩ := ih hrest y hy
        exact ⟨v, v', r', trans_of Calm hcalm hv, hok⟩

theorem onlyIf_ok {c : Bool} {m : Law PUnit} (h : Exec.onlyIf c m w = (.ok r, w')) (hc : c = true) :
    m w = (.ok r, w') := by
  rw [hc] at h
  exact h

/-- What passes the guards has found each of them open. -/
theorem guards_open {item : Value} {guards : List Fields}
    (h : assertGuards host depth id item guards w = (.ok r, w')) :
    ∀ guard ∈ guards, ∃ u, Calm w u ∧ GuardOpen host depth item guard u.store := by
  induction guards generalizing w with
  | nil => exact fun guard hguard => absurd hguard List.not_mem_nil
  | cons first guards ih =>
      obtain ⟨guardId, hguardId, h⟩ := Exec.liftM_bind_ok h
      obtain ⟨passes, u, hpull, h⟩ := Exec.bind_eq_ok h
      obtain ⟨htruthy, h⟩ := Exec.refuse_bind_ok h
      have hcalm : Calm w u := by
        have hkeeps := onPull_calm host depth guardId (some [(.str "item", item)]) w
        rw [hpull] at hkeeps
        exact hkeeps
      intro guard hguard
      rcases List.mem_cons.1 hguard with rfl | hguard
      · refine ⟨w, refl_of Calm w, guardId, passes, hguardId, ?_, by simpa using htruthy⟩
        rw [(onStore_ok hpull).1]
      · obtain ⟨v, hv, hopen⟩ := ih h guard hguard
        exact ⟨v, trans_of Calm hcalm hv, hopen⟩

theorem relation_open {relation : Value}
    (h : assertRelation host depth id relation w = (.ok r, w')) :
    RelationOpen host depth id relation w := by
  obtain ⟨targets, htargets, h⟩ := onLook_bind_ok h
  refine ⟨targets, htargets, fun hends => ?_⟩
  obtain ⟨stages, hstages, h⟩ := onLook_bind_ok (onlyIf_ok h hends)
  refine ⟨stages, hstages, fun guard hguard => ?_⟩
  have hsome : (!(guardsOf stages).isEmpty) = true := by
    cases hguards : guardsOf stages with
    | nil => rw [hguards] at hguard; cases hguard
    | cons _ _ => rfl
  obtain ⟨sources, hsources, h⟩ := onLook_bind_ok (onlyIf_ok h hsome)
  obtain ⟨values, w₁, hvalues, h⟩ := Exec.bind_eq_ok h
  obtain ⟨w₂, hcalm, hopen⟩ := guards_open h guard hguard
  exact ⟨sources, values, w₁, w₂, hsources, hvalues, hcalm, hopen⟩

/-- **What passes the gates** is not frozen, and no guard of it was closed. -/
theorem attended (hnode : fetch w.store.nodes id = .ok node) (hfrozen : isFrozen node = .ok false)
    (h : assertComputedGuards host depth id w = (.ok r, w')) : Attended host depth id w := by
  obtain ⟨node', hlook, h⟩ := onLook_bind_ok h
  rw [hnode] at hlook
  cases hlook
  obtain ⟨relations, hrelations, h⟩ := Exec.liftM_bind_ok h
  obtain ⟨ids, hids, h⟩ := Exec.liftM_bind_ok h
  refine ⟨node, relations, ids, hnode, hfrozen, hrelations, hids, fun relationId hmem => ?_⟩
  obtain ⟨u, u', r', hcalm, hnamed⟩ :=
    each_reached (fun relationId => assertNamed_calm host depth id relationId) h relationId hmem
  refine ⟨u, hcalm, fun relation hrelation htruthy => ?_⟩
  obtain ⟨held, hheld, hnamed⟩ := onLook_bind_ok hnamed
  rw [hrelation] at hheld
  cases hheld
  obtain ⟨kind, hkind, hnamed⟩ := Exec.liftM_bind_ok (onlyIf_ok hnamed htruthy)
  exact ⟨kind, hkind, fun hwire => relation_open (onlyIf_ok hnamed hwire)⟩

/-! ## Tokens are recorded -/

/-- An operation on an effect node of the table is accepted as it is given. -/
theorem applyOp_effect (host : Host) (depth : ℕ) (op : Value) {id : String}
    (hid : (s.nodes.get? (.str id)).isSome = true) {what : String}
    (hwhat : what = "effect_apply" ∨ what = "effect_revert") (hop : op.get? "op" = some (.str what))
    (heffect : op.get? "effect" = some (.str id)) :
    ∃ t, applyOp host depth op s = (.ok (.str id, op), t) := by
  obtain ⟨node, hnode⟩ := Option.isSome_iff_exists.1 hid
  have hdict := Value.isDict_of_get? hop
  have hget : opGet op "effect" = .ok (.str id) :=
    Value.getDefault_ok.2 ⟨hdict, by rw [heffect]; rfl⟩
  have hlookup : lookup s.nodes (.str id) = .ok (some node) := by
    rw [lookup, Value.hashed_str, Check.ok_bind, hnode]
  have heffectItem : op.getItem (.str "effect") = .ok (.str id) := Value.getItem_str_ok.2 heffect
  have hopItem : op.getItem (.str "op") = .ok (.str what) := Value.getItem_str_ok.2 hop
  have hbranch : ∀ text : String, Table.applyEffect text op s = (.ok (.str id), s) := by
    intro text
    refine (Exec.liftM_bind_of_ok hget _ s).trans ?_
    refine (Exec.look_bind_of_ok (g := fun s : Store => lookup s.nodes (.str id)) hlookup _).trans ?_
    show (op.getItem (.str "effect"), s) = _
    rw [heffectItem]
  have hdone : branch host depth op (.str what) s = (.ok (.str id, op), s) := by
    rcases hwhat with rfl | rfl
    · exact Exec.bind_ok (hbranch _) _
    · exact Exec.bind_ok (hbranch _) _
  refine ⟨s.minted.putNode (.str (freshId s)) (historyNode host (.str what) op s), ?_⟩
  unfold applyOp
  rw [Exec.liftM_bind_of_ok hopItem, Exec.bind_ok hdone]
  exact Exec.bind_ok (record_apply host hopItem s) _

/-! ## The two laws -/

/-- What an apply has done: it was refused, or past its gates it found its change made or
made it, and recorded the token. -/
inductive ApplyOutcome (host : Host) (depth : ℕ) (id : String) (actor : Value) (w : World) :
    Except Raised Value × World → Prop
  | refused (e : Raised) (w' : World) : Calm w w' → ApplyOutcome host depth id actor w (.error e, w')
  | satisfied (target change v result : Value) (k : Key) (u w' : World) :
      Attended host depth (.str id) w → Calm w u → target.hashed = .ok k →
      w.sink.get? k = some v → v.pyEq change = true → (field result "fired").truthy = false →
      applyOp host depth (satisfiedOp (.str id) target change actor) u.store =
        (.ok (.str id, satisfiedOp (.str id) target change actor), w'.store) →
      w'.sink = w.sink → ApplyOutcome host depth id actor w (.ok result, w')
  | fired (target change result : Value) (k : Key) (u w' : World) :
      Attended host depth (.str id) w → Calm w u → target.hashed = .ok k →
      (field result "fired").truthy = true → field result "target" = target →
      applyOp host depth (firedOp (.str id) target change actor (w.sink.get? k)) u.store =
        (.ok (.str id, firedOp (.str id) target change actor (w.sink.get? k)), w'.store) →
      w'.sink = w.sink.set k change → ApplyOutcome host depth id actor w (.ok result, w')

/-- A calm computation first: it raises, or what follows starts from a calm world. -/
theorem calm_bind {m : Law α} (hm : Keeps Calm m) (g : α → Law β) {w₀ : World} (hw : Calm w₀ w)
    {P : Except Raised β × World → Prop} (hraise : ∀ e u, Calm w₀ u → P (.error e, u))
    (hgo : ∀ a u, m w = (.ok a, u) → Calm w₀ u → P (g a u)) : P ((m >>= g) w) := by
  have hkeeps := hm w
  rcases hrun : m w with ⟨e | a, u⟩
  · rw [Exec.bind_error hrun]
    rw [hrun] at hkeeps
    exact hraise e u (trans_of Calm hw hkeeps)
  · rw [Exec.bind_ok hrun]
    rw [hrun] at hkeeps
    exact hgo a u hrun (trans_of Calm hw hkeeps)

/-- The node of an effect stays. -/
theorem Calm.isSome {id : String} (h : Calm w w')
    (hid : (w.store.nodes.get? (.str id)).isSome = true) :
    (w'.store.nodes.get? (.str id)).isSome = true := Relabelled.isSome h.1.1 hid

theorem isSome_of_fetch {id : String} (h : fetch nodes (.str id) = .ok node) :
    (nodes.get? (.str id)).isSome = true := by
  rw [get?_of_fetch (Value.hashed_str id) h]
  rfl

theorem applyEffect_outcome (host : Host) (depth : ℕ) (id : String) (actor : Value) (w : World) :
    ApplyOutcome host depth id actor w (applyEffect host depth (.str id) actor w) := by
  have hraise : ∀ e u, Calm w u → ApplyOutcome host depth id actor w (.error e, u) :=
    fun e u hu => .refused e u hu
  refine calm_bind (nodeAt_calm _) _ (refl_of Calm w) hraise fun node w₀ hnode _ => ?_
  obtain ⟨hfetch, hw₀⟩ := Prod.mk.inj hnode
  obtain rfl : w = w₀ := hw₀
  have hthere := isSome_of_fetch hfetch
  refine calm_bind (Keeps.liftM _) _ (refl_of Calm w) hraise fun frozen w₀ hfrozen _ => ?_
  have hthawed : isFrozen node = .ok frozen := congrArg Prod.fst hfrozen
  obtain rfl : w = w₀ := congrArg Prod.snd hfrozen
  cases frozen with
  | true => exact hraise _ _ (refl_of Calm w)
  | false =>
  refine calm_bind (assertComputedGuards_calm host depth _) _ (refl_of Calm w) hraise
    fun _ w₁ hguards hw₁ => ?_
  have hattended : Attended host depth (.str id) w := attended hfetch hthawed hguards
  refine calm_bind (effectFloor_calm _) _ hw₁ hraise fun _ w₂ _ hw₂ => ?_
  refine calm_bind (plan_calm host depth _) _ hw₂ hraise fun planned w₃ _ hw₃ => ?_
  refine calm_bind (Keeps.liftM _) _ hw₃ hraise fun target w₄ _ hw₄ => ?_
  refine calm_bind (Keeps.liftM _) _ hw₄ hraise fun change w₅ _ hw₅ => ?_
  refine calm_bind (Keeps.liftM _) _ hw₅ hraise fun k w₆ hk hw₆ => ?_
  obtain ⟨hk, -⟩ := Prod.mk.inj hk
  have hsink : w₆.sink = w.sink := hw₆.2
  have hthere₆ := hw₆.isSome hthere
  rw [Exec.read_bind, hsink]
  split
  · next hmade =>
    obtain ⟨v, hv, hsame⟩ := (Option.any_eq_true _ _).1 hmade
    obtain ⟨t, ht⟩ := applyOp_effect host depth (satisfiedOp (.str id) target change actor) hthere₆
      (.inl rfl) rfl rfl
    have hrun : onStore (applyOp host depth (satisfiedOp (.str id) target change actor)) w₆ =
        (.ok (.str id, satisfiedOp (.str id) target change actor), ⟨t, w₆.sink⟩) := by
      rw [onStore, ht]
    rw [Exec.bind_ok hrun]
    exact .satisfied target change v _ k w₆ _ hattended hw₆ hk hv hsame rfl ht hsink
  · obtain ⟨t, ht⟩ := applyOp_effect host depth
      (firedOp (.str id) target change actor (w.sink.get? k)) hthere₆ (.inl rfl) rfl rfl
    have hrun : onStore (applyOp host depth (firedOp (.str id) target change actor (w.sink.get? k)))
        ⟨w₆.store, w₆.sink.set k change⟩ =
        (.ok (.str id, firedOp (.str id) target change actor (w.sink.get? k)),
          ⟨t, w₆.sink.set k change⟩) := by
      rw [onStore, ht]
    rw [Exec.write_bind, Exec.bind_ok hrun]
    refine .fired target change _ k w₆ _ hattended hw₆ hk rfl rfl ht ?_
    show w₆.sink.set k change = _
    rw [hsink]

/-- A revert without a floor to revert on. -/
theorem revertEffect_floorless {e : Raised} (hfloor : (effectFloor id w).1 = .error e) :
    revertEffect host depth id actor w = (.error e, w) :=
  Exec.bind_error (Prod.ext hfloor (effectFloor_stays id w).symm) _

/-- A revert that finds no live token is refused. -/
theorem revertEffect_of_none (hlive : liveToken w.store.nodes id = .ok none) :
    ∃ e, revertEffect host depth id actor w = (.error e, w) := by
  cases hfloor : (effectFloor id w).1 with
  | error e => exact ⟨e, revertEffect_floorless hfloor⟩
  | ok floor =>
      have hrun : effectFloor id w = (.ok floor, w) := Prod.ext hfloor (effectFloor_stays id w).symm
      have hlook : onStore (Exec.look fun s => liveToken s.nodes id) w = (.ok none, w) := by
        rw [onStore, Exec.look_apply, hlive]
      exact ⟨valueError "revert_effect: %s has no applied effect to revert" [id],
        (Exec.bind_ok hrun _).trans (Exec.bind_ok hlook _)⟩

/-- **A revert whose live token is that of an apply that fired** puts back what the token
holds, and records itself. -/
theorem revertEffect_of_fired (host : Host) (depth : ℕ) (actor : Value) {id : String}
    {target change who floor : Value} {before : Option Value}
    (hfloor : (effectFloor (.str id) w).1 = .ok floor) (hlive : liveToken w.store.nodes (.str id) =
      .ok (some (firedOp (.str id) target change who before))) (hk : target.hashed = .ok k) :
    ∃ result t, revertEffect host depth (.str id) actor w =
        (.ok result, ⟨t, (putBack k before w).sink⟩) ∧
      applyOp host depth (revertOp (.str id) target actor before) w.store =
        (.ok (.str id, revertOp (.str id) target actor before), t) := by
  have hrun : effectFloor (.str id) w = (.ok floor, w) :=
    Prod.ext hfloor (effectFloor_stays (.str id) w).symm
  have hthere : (w.store.nodes.get? (.str id)).isSome = true := by
    obtain ⟨node, u, hnode, -⟩ := Exec.bind_eq_ok hrun
    exact isSome_of_fetch (congrArg Prod.fst hnode)
  obtain ⟨t, ht⟩ := applyOp_effect host depth (revertOp (.str id) target actor before) hthere
    (.inr rfl) rfl rfl
  have hlook : onStore (Exec.look fun s => liveToken s.nodes (.str id)) w =
      (.ok (some (firedOp (.str id) target change who before)), w) := by
    rw [onStore, Exec.look_apply, hlive]
  have hrecord : onStore (applyOp host depth (revertOp (.str id) target actor before))
      (putBack k before w) = (.ok (.str id, revertOp (.str id) target actor before),
        ⟨t, (putBack k before w).sink⟩) := by
    show (_, _) = _
    rw [show (putBack k before w).store = w.store from rfl, ht]
  have hbefore : beforeOf (firedOp (.str id) target change who before) = .ok before := by
    cases before with
    | none => rfl
    | some v => rfl
  refine ⟨dict [("reverted", .bool true), ("target", target), ("restored", before.getD .none),
    ("restored_missing", .bool before.isNone)], t, ?_, ht⟩
  refine (Exec.bind_ok hrun _).trans ((Exec.bind_ok hlook _).trans ?_)
  refine (Exec.liftM_bind_of_ok (a := target) rfl _ w).trans ?_
  refine (Exec.liftM_bind_of_ok hbefore _ w).trans ?_
  refine (Exec.liftM_bind_of_ok hk _ w).trans ?_
  rw [Exec.write_bind, Exec.bind_ok hrecord]
  rfl

end ArchHub.Table.LawsEffect

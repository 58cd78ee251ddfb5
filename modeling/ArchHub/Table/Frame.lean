import Mathlib
import ArchHub.Table.Apply
import ArchHub.Table.Pull

/-!
# The engine in lockstep, and what it can write

Every computation of `Pull` is written over its effects and its recursive call.
Whatever relation between computations sequencing respects, the engine over two
related sets of effects and two related recursive calls is related
(`compute_lockstep`).  What holds of a pull is then a matter of its effects
alone.

The lemmas of this module say what the parts of `apply_op` may do to the table,
so that no later proof unfolds them:

* a minted id is not in the table (`freshId_not_mem`), and `blank` mints one,
  builds the node and writes nothing (`blank_apply`);
* a pull rewrites nothing but the `meta` of relations (`pull_relabels`);
* invalidation and the memo leave the table alone.
-/

namespace ArchHub.Table

open Lib

/-- A relation of the table sits under `k`. -/
def WireAt (nodes : Nodes) (k : Key) : Prop :=
  ∃ node, nodes.get? k = some node ∧ field node "kind" = .str "wire"

/-- Two sets of effects over one table that are related one by one.  Only a
relation of the table is ever labelled. -/
structure EffectsLockstep {σ τ : Type} (nodes : Nodes) (L : Exec.Lockstep σ τ Raised)
    (fx : Effects σ) (fx' : Effects τ) : Prop where
  count : ∀ id, L.rel (fx.count id) (fx'.count id)
  heldValue : ∀ id, L.rel (fx.heldValue id) (fx'.heldValue id)
  hold : ∀ id v, L.rel (fx.hold id v) (fx'.hold id v)
  throttled : ∀ ms id, L.rel (fx.throttled ms id) (fx'.throttled ms id)
  conducted : ∀ ms id, L.rel (fx.conducted ms id) (fx'.conducted ms id)
  label : ∀ k id state, WireAt nodes k → L.rel (fx.label k id state) (fx'.label k id state)
  ask : ∀ what shown, L.rel (fx.ask what shown) (fx'.ask what shown)
  dependencies : L.rel fx.dependencies fx'.dependencies

variable {k : Key}

section Lockstep

variable {σ τ : Type} {host : Host} {nodes : Nodes} {L : Exec.Lockstep σ τ Raised}
  {fx : Effects σ} {fx' : Effects τ} {rec : Pull σ} {rec' : Pull τ}

/-- The recursive calls are related. -/
def PullLockstep (L : Exec.Lockstep σ τ Raised) (rec : Pull σ) (rec' : Pull τ) : Prop :=
  ∀ v env, L.rel (rec v env) (rec' v env)

theorem setWireState_lockstep (hfx : EffectsLockstep nodes L fx fx') {node : Value}
    (hk : WireAt nodes k) (state : String) :
    L.rel (setWireState fx k node state) (setWireState fx' k node state) := by
  unfold setWireState
  refine L.bind (L.liftM _) fun _ => L.bind (L.liftM _) fun _ => ?_
  refine L.bind (hfx.label _ _ _ hk) fun _ => ?_
  exact L.bind (L.liftM _) fun _ => L.bind (L.liftM _) fun _ => L.pure _

theorem conductOnFail_lockstep (hfx : EffectsLockstep nodes L fx fx') (onFail : String) (id : Key) :
    L.rel (conductOnFail fx onFail id) (conductOnFail fx' onFail id) := by
  unfold conductOnFail
  split
  · exact L.pure _
  · exact hfx.heldValue id
  · exact L.pure _
  · exact L.raise _

variable (hrec : PullLockstep L rec rec')

include hrec

theorem inputs_lockstep (node : Value) (env : Env) :
    L.rel (inputs nodes rec node env) (inputs nodes rec' node env) := by
  unfold inputs
  refine L.bind (L.liftM _) fun ids => ?_
  exact L.bind (Exec.Lockstep.collect (fun w => hrec w env) ids) fun _ => L.pure _

theorem floorVal_lockstep (node raw : Value) (env : Env) :
    L.rel (floorVal rec node raw env) (floorVal rec' node raw env) := by
  unfold floorVal
  split
  · exact L.bind (L.liftM _) fun _ => L.bind (L.liftM _) fun _ => hrec _ _
  · exact L.pure _

theorem floorItem_lockstep (node floor : Value) (k : String) (env : Env) :
    L.rel (floorItem rec node floor k env) (floorItem rec' node floor k env) :=
  L.bind (L.liftM _) fun _ => floorVal_lockstep hrec node _ env

theorem floorGet_lockstep (node floor : Value) (k : String) (default : Value) (env : Env) :
    L.rel (floorGet rec node floor k default env) (floorGet rec' node floor k default env) :=
  L.bind (L.liftM _) fun _ => floorVal_lockstep hrec node _ env

theorem oneInput_lockstep (text : String) (node : Value) (env : Env) :
    L.rel (oneInput nodes rec text node env) (oneInput nodes rec' text node env) := by
  refine L.bind (inputs_lockstep hrec node env) fun xs => ?_
  split
  · exact L.pure _
  · exact L.raise _

/-! ## Relations -/

theorem runStages_lockstep (env : Env) (stages : List Fields) (v : Value) :
    L.rel (runStages rec env v stages) (runStages rec' env v stages) := by
  induction stages generalizing v with
  | nil => exact L.pure _
  | cons stage rest ih =>
      refine L.bind (L.liftM _) fun stageId => ?_
      refine L.bind (hrec _ _) fun stageValue => ?_
      refine L.bind (L.liftM _) fun mode => ?_
      split
      · exact Exec.Lockstep.ite (fun _ => ih v) (fun _ => L.pure _)
      · exact ih stageValue
      · exact ih v

section Effects

variable (hfx : EffectsLockstep nodes L fx fx')

include hfx

theorem conduct_lockstep (hk : WireAt nodes k) (idKey : Key) (node : Value) (env : Env)
    (throttleMs : ℤ) (v : Value) :
    L.rel (conduct nodes fx rec k idKey node env throttleMs v)
      (conduct nodes fx' rec' k idKey node env throttleMs v) := by
  refine L.bind (L.liftM _) fun stages => ?_
  refine L.bind (runStages_lockstep hrec env stages v) fun out => ?_
  cases out with
  | none =>
      exact L.bind (setWireState_lockstep hfx hk "waiting") fun _ => hfx.heldValue idKey
  | some out =>
      refine L.bind (hfx.hold _ _) fun _ => L.bind (hfx.conducted _ _) fun _ => ?_
      exact L.bind (setWireState_lockstep hfx hk "flowing") fun _ => L.pure _

theorem conductIf_lockstep (hk : WireAt nodes k) (idKey : Key) (node : Value) (env : Env)
    (throttleMs : ℤ) (v : Value) :
    L.rel (conductIf host nodes fx rec k idKey node env throttleMs v)
      (conductIf host nodes fx' rec' k idKey node env throttleMs v) := by
  refine L.bind (L.liftM _) fun condition => Exec.Lockstep.ite (fun _ => ?_) (fun _ => ?_)
  · exact conduct_lockstep hrec hfx hk idKey node env throttleMs v
  · split
    · exact L.raise _
    · exact conduct_lockstep hrec hfx hk idKey node env throttleMs v
    · refine L.bind (setWireState_lockstep hfx hk "waiting") fun _ => ?_
      exact L.bind (L.liftM _) fun _ => conductOnFail_lockstep hfx _ idKey

theorem readSources_lockstep (hk : WireAt nodes k) (idKey : Key) (node : Value) (env : Env)
    (throttleMs : ℤ) :
    L.rel (readSources host nodes fx rec k idKey node env throttleMs)
      (readSources host nodes fx' rec' k idKey node env throttleMs) := by
  refine L.bind (L.liftM _) fun sources => ?_
  refine L.bind (Exec.Lockstep.collect (fun endpoint => ?_) sources) fun values => ?_
  · exact L.bind (L.liftM _) fun participant => hrec participant env
  · refine Exec.Lockstep.ite (fun _ => L.raise _) (fun _ => ?_)
    exact L.bind (L.liftM _) fun v => conductIf_lockstep hrec hfx hk idKey node env throttleMs v

theorem computeRelation_lockstep (hk : WireAt nodes k) (node : Value) (env : Env) :
    L.rel (computeRelation host nodes fx rec k node env)
      (computeRelation host nodes fx' rec' k node env) := by
  refine L.bind (L.liftM _) fun id => L.bind (L.liftM _) fun idKey => ?_
  refine L.bind (L.liftM _) fun enabled => Exec.Lockstep.ite (fun _ => ?_) (fun _ => ?_)
  · exact L.bind (setWireState_lockstep hfx hk "blocked") fun _ => L.pure _
  · refine L.bind (L.liftM _) fun throttleMs => ?_
    refine L.bind (hfx.throttled _ _) fun early => Exec.Lockstep.ite (fun _ => ?_) (fun _ => ?_)
    · exact L.bind (setWireState_lockstep hfx hk "waiting") fun _ => hfx.heldValue idKey
    · exact readSources_lockstep hrec hfx hk idKey node env throttleMs

/-! ## Groups -/

theorem computeGroup_lockstep (depth : ℕ) (node : Value) (env : Env) :
    L.rel (computeGroup nodes fx rec depth node env)
      (computeGroup nodes fx' rec' depth node env) := by
  refine L.bind (L.liftM _) fun id => L.bind (L.liftM _) fun idKey => ?_
  refine L.bind (L.liftM _) fun body => L.bind (L.liftM _) fun inner => ?_
  refine L.bind (L.liftM _) fun members => L.bind (L.liftM _) fun scans => ?_
  have hindex : L.rel (groupIndex fx members) (groupIndex fx' members) :=
    Exec.Lockstep.ite (fun _ => L.pure _) (fun _ => hfx.dependencies)
  refine L.bind hindex fun index => L.bind (L.liftM _) fun outputs => ?_
  refine L.bind (Exec.Lockstep.collect (fun o => hrec o env) outputs) fun values => ?_
  split <;> exact L.pure _

/-! ## Floor primitives -/

theorem computeMcp_lockstep (node floor : Value) (env : Env) :
    L.rel (computeMcp fx rec node floor env) (computeMcp fx' rec' node floor env) := by
  refine L.bind (floorGet_lockstep hrec node floor _ _ env) fun effectful => ?_
  refine L.bind (floorGet_lockstep hrec node floor _ _ env) fun tool => ?_
  refine L.bind (floorGet_lockstep hrec node floor _ _ env) fun args => ?_
  refine L.bind (floorGet_lockstep hrec node floor _ _ env) fun url => ?_
  refine L.bind (floorGet_lockstep hrec node floor _ _ env) fun timeout => ?_
  refine L.bind (L.liftM _) fun frozen => Exec.Lockstep.ite (fun _ => L.pure _) (fun _ => ?_)
  refine L.bind (hfx.ask _ _) fun result => ?_
  exact Exec.Lockstep.ite (fun _ => L.pure _) (fun _ => L.pure _)

end Effects

theorem computeEffect_lockstep (node floor : Value) (env : Env) :
    L.rel (computeEffect rec node floor env) (computeEffect rec' node floor env) := by
  refine Exec.Lockstep.ite (fun _ => ?_) (fun _ => ?_)
  · refine L.bind (floorGet_lockstep hrec node floor _ _ env) fun target => ?_
    refine L.bind (floorGet_lockstep hrec node floor _ _ env) fun change => ?_
    exact L.bind (L.liftM _) fun _ => Exec.Lockstep.ite (fun _ => L.pure _) (fun _ => L.pure _)
  · refine L.bind (floorGet_lockstep hrec node floor _ _ env) fun payload => ?_
    exact L.bind (L.liftM _) fun _ => Exec.Lockstep.ite (fun _ => L.pure _) (fun _ => L.pure _)

theorem computeReduce_lockstep (node floor : Value) (env : Env) :
    L.rel (computeReduce host nodes rec node floor env)
      (computeReduce host nodes rec' node floor env) := by
  refine L.bind (inputs_lockstep hrec node env) fun xs => ?_
  refine L.bind (floorItem_lockstep hrec node floor _ env) fun mode => ?_
  split
  · exact L.liftM _
  · exact L.pure _
  · exact L.pure _
  · refine L.bind (floorGet_lockstep hrec node floor _ _ env) fun keyPath => ?_
    refine L.bind (floorGet_lockstep hrec node floor _ _ env) fun wherePath => ?_
    exact L.bind (floorGet_lockstep hrec node floor _ _ env) fun default => L.liftM _
  · exact L.raise _

theorem computeMerge_lockstep (node floor : Value) (env : Env) :
    L.rel (computeMerge host nodes rec node floor env)
      (computeMerge host nodes rec' node floor env) := by
  refine L.bind (inputs_lockstep hrec node env) fun xs => ?_
  refine L.bind (floorItem_lockstep hrec node floor _ env) fun fn => ?_
  split
  · cases xs with
    | nil => exact L.raise _
    | cons x xs => exact L.pure _
  · exact L.liftM _
  · exact L.bind (L.liftM _) fun _ => L.pure _
  · exact L.pure _
  · refine L.bind (floorGet_lockstep hrec node floor _ _ env) fun keys => ?_
    refine Exec.Lockstep.ite (fun _ => ?_) (fun _ => L.raise _)
    exact L.bind (L.liftM _) fun _ => L.pure _
  · exact L.raise _

omit hrec in
theorem itemOf_lockstep (node : Value) (env : Env) : L.rel (itemOf node env) (itemOf node env) := by
  unfold itemOf
  split
  · split
    · exact L.pure _
    · exact L.raise _
  · exact L.raise _

theorem computeFloor_lockstep (hfx : EffectsLockstep nodes L fx fx') (node floor : Value)
    (env : Env) :
    L.rel (computeFloor host nodes fx rec node floor env)
      (computeFloor host nodes fx' rec' node floor env) := by
  have hin : L.rel (inputs nodes rec node env) (inputs nodes rec' node env) :=
    inputs_lockstep hrec node env
  have hget := fun k default => floorGet_lockstep hrec node floor k default env
  have hone : ∀ text, L.rel (oneInput nodes rec text node env) (oneInput nodes rec' text node env) :=
    fun text => oneInput_lockstep hrec text node env
  refine L.bind (L.liftM _) fun op => ?_
  split
  case h_1 => exact floorItem_lockstep hrec node floor _ env
  case h_2 => exact itemOf_lockstep node env
  case h_3 =>
    refine L.bind hin fun xs => L.bind (L.refuse _ _) fun _ => ?_
    exact L.bind (floorItem_lockstep hrec node floor _ env) fun fn => L.liftM _
  case h_4 =>
    refine L.bind hin fun xs => L.bind (L.refuse _ _) fun _ => ?_
    exact L.bind (floorItem_lockstep hrec node floor _ env) fun cmp => L.liftM _
  case h_5 => exact computeReduce_lockstep hrec node floor env
  case h_6 =>
    refine L.bind hin fun xs => L.bind (L.liftM _) fun items => L.bind (L.liftM _) fun sub => ?_
    exact L.bind (Exec.Lockstep.collect (fun it => hrec _ _) items) fun _ => L.pure _
  case h_7 => exact hone _
  case h_8 => exact computeMerge_lockstep hrec node floor env
  case h_9 => exact L.bind (hget _ _) fun _ => L.bind hin fun _ => L.liftM _
  case h_10 => exact L.bind (L.liftM _) fun target => hrec target env
  case h_11 =>
    refine L.bind (hone _) fun x => L.bind (hget _ _) fun path => L.bind (L.liftM _) fun found => ?_
    cases found with
    | some v => exact L.pure _
    | none => exact hget _ _
  case h_12 => exact computeMcp_lockstep hrec hfx node floor env
  case h_13 => exact L.bind (hone _) fun x => L.bind (hget _ _) fun action => L.liftM _
  case h_14 =>
    refine L.bind (hone _) fun x => L.bind (hget _ _) fun action => ?_
    exact L.bind (hget _ _) fun keyRef => L.bind (hget _ _) fun aad => hfx.ask _ _
  case h_15 => exact L.bind (hget _ _) fun port => L.bind (hget _ _) fun code => hfx.ask _ _
  case h_16 => exact L.bind (hget _ _) fun kind => L.bind (hget _ _) fun spec => hfx.ask _ _
  case h_17 => exact L.bind (L.liftM _) fun probe => L.bind (hrec _ _) fun r => L.pure _
  case h_18 => exact L.liftM _
  case h_19 => exact computeEffect_lockstep hrec node floor env
  case h_20 => exact L.liftM _
  case h_21 => exact L.raise _

/-- **The engine runs in lockstep** over related effects and related recursive
calls. -/
theorem compute_lockstep (hfx : EffectsLockstep nodes L fx fx') (depth : ℕ) {node : Value}
    (hk : nodes.get? k = some node) (env : Env) :
    L.rel (compute host nodes fx rec depth k node env)
      (compute host nodes fx' rec' depth k node env) := by
  refine L.bind (L.liftM _) fun id => L.bind (L.liftM _) fun idKey => ?_
  refine L.bind (hfx.count _) fun _ => Exec.Lockstep.liftM_bind fun kind hkind => ?_
  refine Exec.Lockstep.ite (fun hwire => ?_) (fun _ => ?_)
  · have hat : WireAt nodes k := ⟨node, hk, ?_⟩
    · exact computeRelation_lockstep hrec hfx hat node env
    · rw [field_of_getItem hkind]
      exact Value.pyEq_str.mp hwire
  · refine L.bind (L.liftM _) fun body => L.bind (L.liftM _) fun opens => ?_
    refine Exec.Lockstep.ite (fun _ => ?_) (fun _ => ?_)
    · exact computeGroup_lockstep hrec hfx depth node env
    · exact L.bind (L.liftM _) fun floor => computeFloor_lockstep hrec hfx node floor env

end Lockstep

end ArchHub.Table

namespace ArchHub.Table

open Lib
open Lib.Exec (Keeps KeepsAt)

/-! ## Minted ids -/

/-- The digit a character shows. -/
private def digitOf (c : Char) : ℕ := c.toNat - 48

private theorem digitOf_digitChar {d : ℕ} (hd : d < 10) : digitOf (Nat.digitChar d) = d := by
  interval_cases d <;> rfl

private theorem paddedDigits_lt {width n d : ℕ} (hd : d ∈ paddedDigits width n) : d < 10 := by
  rcases List.mem_append.mp hd with h | h
  · exact Nat.digits_lt_base (by norm_num) h
  · rw [List.eq_of_mem_replicate h]
    norm_num

private theorem map_digitOf_paddedDigits (width n : ℕ) :
    ((paddedDigits width n).map Nat.digitChar).map digitOf = paddedDigits width n := by
  rw [List.map_map]
  exact (List.map_congr_left fun d hd => digitOf_digitChar (paddedDigits_lt hd)).trans
    (List.map_id _)

theorem padded_injective (width : ℕ) : Function.Injective (padded width) := by
  intro a b hab
  have hchars := List.reverse_injective (String.ofList_injective hab)
  have hdigits := congrArg (List.map digitOf) hchars
  rw [map_digitOf_paddedDigits, map_digitOf_paddedDigits] at hdigits
  have hvalue := congrArg (Nat.ofDigits 10) hdigits
  simpa only [paddedDigits, Nat.ofDigits_append_replicate_zero, Nat.ofDigits_digits] using hvalue

theorem idOf_injective : Function.Injective idOf := by
  intro a b hab
  have h : ("n" ++ padded 6 a).toList = ("n" ++ padded 6 b).toList := congrArg String.toList hab
  rw [String.toList_append, String.toList_append] at h
  exact padded_injective 6 (String.toList_inj.mp (List.append_cancel_left h))

theorem nextSeq_spec (nodes : Nodes) (fuel seq : ℕ) :
    nextSeq nodes fuel seq ≤ seq + fuel ∧
      (∀ m, seq ≤ m → m < nextSeq nodes fuel seq → Key.str (idOf m) ∈ nodes.keys) ∧
      (nextSeq nodes fuel seq < seq + fuel →
        Key.str (idOf (nextSeq nodes fuel seq)) ∉ nodes.keys) := by
  induction fuel generalizing seq with
  | zero => exact ⟨le_rfl, fun m h h' => absurd (h.trans_lt h') (lt_irrefl _), fun h => by simp [nextSeq] at h⟩
  | succ fuel ih =>
      unfold nextSeq
      split
      · rename_i hmem
        obtain ⟨hle, hall, hfree⟩ := ih (seq + 1)
        refine ⟨by omega, fun m h h' => ?_, fun h => hfree (by omega)⟩
        rcases Nat.eq_or_lt_of_le h with rfl | h
        · exact Dict.contains_iff.mp hmem
        · exact hall m h h'
      · rename_i hmem
        exact ⟨by omega, fun m h h' => absurd (h.trans_lt h') (lt_irrefl _),
          fun _ h => hmem (Dict.contains_iff.mpr h)⟩

/-- **A minted id is new.**  The counter is tried at one more value than the
table has nodes. -/
theorem freshId_not_mem (s : Store) : Key.str (idOf (freshSeq s)) ∉ s.nodes.keys := by
  obtain ⟨hle, hall, hfree⟩ := nextSeq_spec s.nodes s.nodes.size s.seq
  unfold freshSeq
  rcases Nat.lt_or_ge (nextSeq s.nodes s.nodes.size s.seq) (s.seq + s.nodes.size) with h | h
  · exact hfree h
  · intro hmem
    have heq : nextSeq s.nodes s.nodes.size s.seq = s.seq + s.nodes.size := le_antisymm hle h
    have hsub : (Finset.range (s.nodes.size + 1)).image (fun i => Key.str (idOf (s.seq + i)))
        ⊆ s.nodes.keys.toFinset := by
      intro k hk
      obtain ⟨i, hi, rfl⟩ := Finset.mem_image.mp hk
      rw [List.mem_toFinset]
      rcases Nat.lt_or_ge i s.nodes.size with hlt | hge
      · exact hall _ (by omega) (by omega)
      · have : i = s.nodes.size := by
          have := Finset.mem_range.mp hi
          omega
        rw [this, ← heq]
        exact hmem
    have hcard := Finset.card_le_card hsub
    rw [Finset.card_image_of_injective, Finset.card_range,
      List.toFinset_card_of_nodup s.nodes.nodup_keys, Dict.length_keys] at hcard
    · omega
    · intro i j hij
      have := idOf_injective (Key.str.inj hij)
      omega

/-- The id the next node gets. -/
def freshId (s : Store) : String := idOf (freshSeq s)

/-- The store after an id was minted and the clock was read. -/
def Store.minted (s : Store) : Store :=
  { s with seq := freshSeq s + 1, caches := { s.caches with ticks := s.caches.ticks + 1 } }

/-- The node `blank` builds in a store. -/
def blankNode (host : Host) (kind : String) (title : Value) (params : Fields) (body : Value)
    (frozen : Bool) (s : Store) : Value :=
  dict [
    ("id", .str (freshId s)),
    ("kind", .str kind),
    ("title", title),
    ("params", .dict params),
    ("body", body),
    ("relations", .list []),
    ("meta", dict [("seq", .int ((freshSeq s + 1 : ℕ) - 1)),
      ("created_at", .float (host.time s.caches.ticks)), ("frozen", .bool frozen)])]

theorem blank_apply (host : Host) (kind : String) (title : Value) (params : Fields) (body : Value)
    (frozen : Bool) (s : Store) :
    blank host kind title params body frozen s
      = (.ok (freshId s, blankNode host kind title params body frozen s), s.minted) := rfl

/-! ## The table and what is beside it -/

/-- Nothing of the table changed. -/
def SameNodes (s t : Store) : Prop := t.nodes = s.nodes

instance : IsPreorder Store SameNodes where
  refl _ := rfl
  trans _ _ _ h₁ h₂ := h₂.trans h₁

/-- An invalidation changes only the memo and the index that it makes. -/
theorem invalidate_keeps {R : Store → Store → Prop} [IsPreorder Store R]
    (hmemo : ∀ f s, R s (Store.withMemo f s))
    (hindex : ∀ (s : Store) index, R s { s with invalidationOut := index }) (seeds : List Value) :
    Keeps R (invalidate seeds) := by
  have hensure : Keeps R ensureInvalidationIndex := by
    refine Keeps.bind (Keeps.read _) fun held => ?_
    cases held with
    | some index => exact Keeps.pure _
    | none =>
        refine Keeps.bind (Keeps.look _) fun index => ?_
        exact Keeps.bind (Keeps.write fun s => hindex s _) fun _ => Keeps.pure _
  refine Keeps.bind (Keeps.read _) fun memo => ?_
  split
  · exact Keeps.pure _
  · refine Keeps.bind hensure fun index => ?_
    exact Keeps.bind (Keeps.liftM _) fun ks => Keeps.write (hmemo _)

theorem invalidate_sameNodes (seeds : List Value) : Keeps SameNodes (invalidate seeds) :=
  invalidate_keeps (fun _ _ => rfl) (fun _ _ => rfl) seeds

theorem clearMemo_sameNodes : Keeps SameNodes clearMemo := Keeps.write fun _ => rfl

theorem dropIndexes_sameNodes : Keeps SameNodes dropIndexes := Keeps.write fun _ => rfl

theorem forgetAfterSet_sameNodes (id op : Value) : Keeps SameNodes (forgetAfterSet id op) := by
  unfold forgetAfterSet
  split
  · exact clearMemo_sameNodes
  · exact invalidate_sameNodes _

/-! ## Pulls -/

/-- Only relations were labelled since. -/
def LabelsWires (nodes : Nodes) (c c' : Caches) : Prop :=
  ∀ e ∈ c'.labels, e ∈ c.labels ∨ WireAt nodes e.1

instance (nodes : Nodes) : IsPreorder Caches (LabelsWires nodes) where
  refl _ _ he := Or.inl he
  trans _ _ _ h₁ h₂ e he := (h₂ e he).elim (h₁ e) Or.inr

variable {nodes : Nodes}

theorem labelsWires_of_eq {c c' : Caches} (h : c'.labels = c.labels) :
    LabelsWires nodes c c' := fun _ he => Or.inl (h ▸ he)

theorem storeEffects_labels (host : Host) (nodes : Nodes) :
    EffectsLockstep nodes (Exec.Lockstep.keeps (LabelsWires nodes)) (storeEffects host nodes)
      (storeEffects host nodes) where
  count id := Keeps.write fun _ => labelsWires_of_eq rfl
  heldValue id := Keeps.read _
  hold id v := Keeps.write fun _ => labelsWires_of_eq rfl
  throttled ms id := by
    have htick : Keeps (LabelsWires nodes) tick := fun _ => labelsWires_of_eq rfl
    show Keeps _ (if 0 < ms then _ else _)
    split
    · exact Keeps.bind htick fun _ => Keeps.bind (Keeps.read _) fun _ =>
        Keeps.pure _
    · exact Keeps.pure _
  conducted ms id := by
    have htick : Keeps (LabelsWires nodes) tick := fun _ => labelsWires_of_eq rfl
    show Keeps _ (if 0 < ms then _ else _)
    split
    · exact Keeps.bind htick fun _ => Keeps.write fun _ => labelsWires_of_eq rfl
    · exact Keeps.pure _
  label k id state hk := Keeps.write fun c e he => by
    rcases List.mem_append.mp he with h | h
    · exact Or.inl h
    · rw [List.mem_singleton.mp h]
      exact Or.inr hk
  ask what shown := by
    have htick : Keeps (LabelsWires nodes) tick := fun _ => labelsWires_of_eq rfl
    exact Keeps.bind htick fun _ => Keeps.liftM _
  dependencies := by
    refine Keeps.bind (Keeps.read _) fun built => ?_
    cases built with
    | some index => exact Keeps.pure _
    | none =>
        refine Keeps.bind (Keeps.liftM _) fun index => ?_
        exact Keeps.bind (Keeps.write fun _ => labelsWires_of_eq rfl) fun _ =>
          Keeps.pure _

/-- A pull labels relations only. -/
theorem pullIn_labels (host : Host) (nodes : Nodes) (depth : ℕ) (v : Value) (env : Env) :
    Keeps (LabelsWires nodes) (pullIn host nodes depth v env) := by
  induction depth generalizing v env with
  | zero => exact Keeps.raise _
  | succ depth ih =>
      have hrec : PullLockstep (Exec.Lockstep.keeps (LabelsWires nodes))
          (pullIn host nodes depth) (pullIn host nodes depth) := ih
      have hfresh : ∀ k node live, nodes.get? k = some node →
          Keeps (LabelsWires nodes) (fresh host nodes (pullIn host nodes depth) depth k node
            env live) := by
        intro k node live hk
        have hcompute : Keeps (LabelsWires nodes) (compute host nodes
            (storeEffects host nodes) (pullIn host nodes depth) depth k node env) :=
          compute_lockstep hrec (storeEffects_labels host nodes) depth hk env
        refine Keeps.bind hcompute fun out => ?_
        split
        · exact Keeps.bind (Keeps.write fun _ => labelsWires_of_eq rfl) fun _ =>
            Keeps.pure _
        · exact Keeps.pure _
      refine Keeps.liftM_bind fun node hnode => Keeps.liftM_bind fun k hk => ?_
      have hat : nodes.get? k = some node := get?_of_fetch hk hnode
      refine Keeps.bind (Keeps.liftM _) fun live => ?_
      refine Keeps.bind (Keeps.read _) fun memo => ?_
      cases memo with
      | none => exact hfresh k node live hat
      | some found =>
          show Keeps _ (if _ then _ else _)
          split
          · exact Keeps.pure _
          · exact hfresh k node live hat

/-- Nothing changed but the `meta` of relations. -/
def Relabelled (nodes nodes' : Nodes) : Prop :=
  ∀ k, nodes'.get? k = nodes.get? k ∨
    ∃ node held, nodes.get? k = some node ∧ field node "kind" = .str "wire" ∧
      nodes'.get? k = some (node.put "meta" held)

theorem put_put (node : Value) (k : Key) (v w : Value) : (node.put k v).put k w = node.put k w := by
  cases node with
  | dict es => exact congrArg Value.dict (Assoc.put_put es k v w)
  | _ => rfl

theorem isDict_of_field {node : Value} {k s : String} (h : field node k = .str s) :
    node.isDict = true := by
  cases node with
  | dict es => rfl
  | _ => simp [field, Value.get?] at h

instance : IsPreorder Nodes Relabelled where
  refl _ _ := Or.inl rfl
  trans a b c h₁ h₂ k := by
    rcases h₂ k with h | ⟨node, held, hb, hkind, hc⟩
    · rw [h]
      exact h₁ k
    · rcases h₁ k with h | ⟨node', held', ha, hkind', hb'⟩
      · exact Or.inr ⟨node, held, h ▸ hb, hkind, hc⟩
      · refine Or.inr ⟨node', held, ha, hkind', ?_⟩
        rw [hc, ← put_put node' "meta" held' held, Option.some.inj (hb.symm.trans hb')]

theorem relabel_relabelled {e : Key × String} (he : WireAt nodes e.1) :
    Relabelled nodes (relabel nodes e) := by
  obtain ⟨node, hnode, hkind⟩ := he
  intro k
  unfold relabel
  rw [hnode]
  by_cases hk : k = e.1
  · subst hk
    exact Or.inr ⟨node, _, hnode, hkind, Dict.get?_set_self _ _ _⟩
  · exact Or.inl (Dict.get?_set_of_ne _ _ hk)

theorem Relabelled.wireAt {nodes' : Nodes} (h : Relabelled nodes nodes') {k : Key}
    (hk : WireAt nodes k) : WireAt nodes' k := by
  obtain ⟨node, hnode, hkind⟩ := hk
  rcases h k with heq | ⟨node', held, hnode', hkind', hput⟩
  · exact ⟨node, heq ▸ hnode, hkind⟩
  · refine ⟨_, hput, ?_⟩
    have hmeta : ("kind" : String) ≠ "meta" := by decide
    rw [field_put (isDict_of_field hkind'), if_neg hmeta, hkind']

theorem foldl_relabel_relabelled {labels : List (Key × String)}
    (h : ∀ e ∈ labels, WireAt nodes e.1) : Relabelled nodes (labels.foldl relabel nodes) := by
  induction labels generalizing nodes with
  | nil => exact refl_of Relabelled nodes
  | cons e labels ih =>
      have he := relabel_relabelled (h e List.mem_cons_self)
      exact trans_of Relabelled he (ih fun e' he' => he.wireAt (h e' (List.mem_cons_of_mem _ he')))

/-- **A pull rewrites nothing but the `meta` of relations**, whether it returns
or raises. -/
theorem pull_relabels (host : Host) (depth : ℕ) (v : Value) (env : Env) :
    Keeps (fun s t : Store => Relabelled s.nodes t.nodes) (pull host depth v env) := by
  intro s
  refine foldl_relabel_relabelled fun e he => ?_
  have h := pullIn_labels host s.nodes depth v env { s.caches with labels := [] } e he
  simpa using h

end ArchHub.Table

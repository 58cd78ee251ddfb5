import Mathlib
import ArchHub.Table.LawsEffect
import ArchHub.Table.Validity

/-!
# The tokens in the order of their making

The id counter never goes back, so a history node gets a greater number than the ones
before it.  As long as the numbers have six digits, the ids sort as the numbers do, and
the tokens of an effect node are read back in the order in which they were recorded.

* `branch_counts`: no operation sets the counter back.
* `applyOp_records`: an operation that is accepted is recorded under a number that was free.
* `Trail`: the tokens of an effect node, with their numbers.
* `Trail.applyTokens_eq`: what is read back from a valid table.
-/

namespace ArchHub.Table

open Lib List Check
open Lib.Exec (Keeps KeepsAt)

variable (host : Host) {width n m : ℕ}

/-! ## The counter -/

/-- The counter did not go back. -/
def Counts (s t : Store) : Prop := s.seq ≤ t.seq

instance : IsPreorder Store Counts where
  refl _ := le_refl _
  trans _ _ _ h₁ h₂ := le_trans h₁ h₂

theorem nextSeq_ge (nodes : Nodes) (fuel seq : ℕ) : seq ≤ nextSeq nodes fuel seq := by
  induction fuel generalizing seq with
  | zero => exact le_rfl
  | succ fuel ih =>
      unfold nextSeq
      split
      · exact (Nat.le_succ seq).trans (ih (seq + 1))
      · exact le_rfl

theorem seq_le_freshSeq (s : Store) : s.seq ≤ freshSeq s := nextSeq_ge _ _ _

theorem putNode_counts (k : Key) (node : Value) : Keeps Counts (putNode k node) :=
  Keeps.write fun _ => le_rfl

theorem blank_counts (kind : String) (title : Value) (params : Fields) (body : Value)
    (frozen : Bool) : Keeps Counts (blank host kind title params body frozen) := by
  intro s
  rw [blank_apply]
  exact (seq_le_freshSeq s).trans (Nat.le_succ _)

theorem pull_counts (depth : ℕ) (v : Value) (env : Env) :
    Keeps Counts (pull host depth v env) := fun _ => le_rfl

theorem clearMemo_counts : Keeps Counts clearMemo := Keeps.write fun _ => le_rfl

theorem dropIndexes_counts : Keeps Counts dropIndexes := Keeps.write fun _ => le_rfl

theorem invalidate_counts (seeds : List Value) : Keeps Counts (invalidate seeds) :=
  invalidate_keeps (fun _ _ => le_rfl) (fun _ _ => le_rfl) seeds

theorem validateAt_counts (node : Value) : Keeps Counts (validateAt node) := Keeps.look _

theorem addNode_counts (op : Value) : Keeps Counts (applyAddNode op) := by
  refine Keeps.liftM_bind fun node _ => Keeps.liftM_bind fun kind _ => ?_
  refine Keeps.bind (Keeps.refuse _ _) fun _ => Keeps.liftM_bind fun id _ => ?_
  refine Keeps.liftM_bind fun k _ => Keeps.bind (putNode_counts _ _) fun _ => ?_
  refine Keeps.bind (validateAt_counts _) fun _ => ?_
  exact Keeps.bind dropIndexes_counts fun _ => Keeps.pure _

theorem addParam_counts (p : Param) : Keeps Counts (addParam host p) := by
  refine Keeps.bind (blank_counts host _ _ _ _ _) fun _ => ?_
  refine Keeps.bind (putNode_counts _ _) fun _ => ?_
  exact Keeps.bind (validateAt_counts _) fun _ => Keeps.pure _

theorem attachTo_counts (relationId : Value) (k : Key) (participant : Value) :
    Keeps Counts (attachTo relationId k participant) := by
  refine Keeps.liftM_bind fun relations _ => Keeps.liftM_bind fun there _ => ?_
  split
  · exact Keeps.pure _
  · split
    · exact putNode_counts _ _
    · exact Keeps.raise _

theorem attachNamed_counts (relationId v : Value) : Keeps Counts (attachNamed relationId v) := by
  refine Keeps.bind (Keeps.look _) fun participant => ?_
  split
  · exact attachTo_counts _ _ _
  · exact Keeps.pure _

theorem detachNamed_counts (owner relation v : Value) :
    Keeps Counts (detachNamed owner relation v) := by
  refine Keeps.bind (Keeps.look _) fun participant => ?_
  split
  · refine Keeps.onlyIf fun _ => Keeps.bind (Keeps.look _) fun endpoints => ?_
    refine Keeps.onlyIf fun _ => Keeps.liftM_bind fun relations _ => ?_
    refine Keeps.liftM_bind fun rids _ => Keeps.liftM_bind fun node _ => ?_
    exact putNode_counts _ _
  · exact Keeps.pure _

theorem settleRelation_counts (id : String) : Keeps Counts (settleRelation id) := by
  refine Keeps.bind ?_ fun _ => ?_
  · refine Keeps.bind (Keeps.look _) fun relation => ?_
    refine Keeps.bind (Keeps.look _) fun endpoints => ?_
    exact Keeps.each fun e _ => attachNamed_counts _ _
  · refine Keeps.bind (Keeps.look _) fun _ => ?_
    refine Keeps.bind (validateAt_counts _) fun _ => ?_
    refine Keeps.bind clearMemo_counts fun _ => ?_
    exact Keeps.bind dropIndexes_counts fun _ => Keeps.pure _

theorem draftRelation_counts (op : Value) : Keeps Counts (draftRelation host op) := by
  refine Keeps.liftM_bind fun specs _ => Keeps.bind (Keeps.refuse _ _) fun _ => ?_
  refine Keeps.bind (addNamed_keeps host (addParam_counts host) _ _ _ _ _ _) fun d => ?_
  refine Keeps.liftM_bind fun stages _ => ?_
  refine Keeps.bind (addNamed_keeps host (addParam_counts host) _ _ _ _ _ _) fun d' => ?_
  refine Keeps.bind (addWireParameters_keeps host (addParam_counts host) _ _) fun d'' => ?_
  exact Keeps.liftM_bind fun title _ => Keeps.pure _

theorem addWire_counts (op : Value) : Keeps Counts (applyAddWire host op) := by
  refine Keeps.bind (draftRelation_counts host op) fun draft => ?_
  refine Keeps.bind (blank_counts host _ _ _ _ _) fun _ => ?_
  exact Keeps.bind (putNode_counts _ _) fun _ => settleRelation_counts _

theorem syncEndpoint_counts (before target : Value) :
    Keeps Counts (syncEndpoint before target) := by
  refine Keeps.liftM_bind fun id _ => Keeps.bind (Keeps.look _) fun owner => ?_
  split
  · exact Keeps.pure _
  · refine Keeps.onlyIf fun _ => Keeps.bind (Keeps.look _) fun relation => ?_
    refine Keeps.liftM_bind fun after _ => ?_
    refine Keeps.bind (Keeps.onlyIf fun _ => ?_) fun _ => invalidate_counts _
    exact Keeps.bind (detachNamed_counts _ _ _) fun _ => attachNamed_counts _ _

theorem set_counts (what : String) (op : Value) : Keeps Counts (applySet what op) := by
  refine Keeps.liftM_bind fun id _ => Keeps.bind (Keeps.look _) fun target => ?_
  refine Keeps.liftM_bind fun k _ => Keeps.liftM_bind fun kind _ => ?_
  refine Keeps.bind (Keeps.refuse _ _) fun _ => Keeps.liftM_bind fun frozen _ => ?_
  refine Keeps.bind (Keeps.refuse _ _) fun _ => Keeps.liftM_bind fun role _ => ?_
  refine Keeps.liftM_bind fun before _ => Keeps.liftM_bind fun ⟨op', target'⟩ _ => ?_
  refine Keeps.bind (putNode_counts _ _) fun _ => Keeps.liftM_bind fun role' _ => ?_
  refine Keeps.bind (Keeps.onlyIf fun _ => syncEndpoint_counts _ _) fun _ => ?_
  have hforget : Keeps Counts (forgetAfterSet id op') := by
    unfold forgetAfterSet
    split
    · exact clearMemo_counts
    · exact invalidate_counts _
  refine Keeps.bind hforget fun _ => ?_
  exact Keeps.bind (Keeps.onlyIf fun _ => dropIndexes_counts) fun _ => Keeps.pure _

theorem dissolveGroup_counts (op : Value) : Keeps Counts (applyDissolveGroup op) := by
  refine Keeps.liftM_bind fun gid _ => Keeps.bind (Keeps.look _) fun target => ?_
  refine Keeps.liftM_bind fun k _ => Keeps.liftM_bind fun body _ => ?_
  refine Keeps.liftM_bind fun opens _ => Keeps.bind (Keeps.refuse _ _) fun _ => ?_
  refine Keeps.liftM_bind fun frozen _ => Keeps.bind (Keeps.refuse _ _) fun _ => ?_
  refine Keeps.liftM_bind fun relations _ => Keeps.bind (Keeps.refuse _ _) fun _ => ?_
  refine Keeps.liftM_bind fun inner _ => Keeps.liftM_bind fun children _ => ?_
  refine Keeps.bind (Keeps.read _) fun others => ?_
  have hsplice : ∀ e, Keeps Counts (spliceOther gid children e) := fun e =>
    Keeps.liftM_bind fun node _ => putNode_counts _ _
  refine Keeps.bind (Keeps.each fun e _ => hsplice e) fun _ => ?_
  have hwithout : Keeps Counts (Exec.write (Store.without k) : Act PUnit) :=
    Keeps.write fun _ => le_rfl
  refine Keeps.bind hwithout fun _ => Keeps.bind (invalidate_counts _) fun _ => ?_
  exact Keeps.bind dropIndexes_counts fun _ => Keeps.pure _

theorem freeze_counts (what : String) (op : Value) : Keeps Counts (applyFreeze what op) := by
  refine Keeps.liftM_bind fun id _ => Keeps.bind (Keeps.look _) fun target => ?_
  refine Keeps.liftM_bind fun k _ => Keeps.liftM_bind fun kind _ => ?_
  refine Keeps.bind (Keeps.refuse _ _) fun _ => Keeps.liftM_bind fun held _ => ?_
  refine Keeps.liftM_bind fun held' _ => Keeps.bind (putNode_counts _ _) fun _ => ?_
  exact Keeps.bind (invalidate_counts _) fun _ => Keeps.pure _

theorem effect_counts (what : String) (op : Value) : Keeps Counts (applyEffect what op) := by
  refine Keeps.liftM_bind fun effect _ => Keeps.bind (Keeps.look _) fun node => ?_
  cases node with
  | none => exact Keeps.raise _
  | some node => exact Keeps.liftM _

theorem sample_counts (depth : ℕ) (op : Value) : Keeps Counts (applySample host depth op) := by
  refine Keeps.liftM_bind fun sourceId _ => Keeps.liftM_bind fun targetId _ => ?_
  refine Keeps.bind (Keeps.look _) fun source? => ?_
  refine Keeps.bind (Keeps.look _) fun target? => ?_
  split
  · refine Keeps.liftM_bind fun body _ => Keeps.liftM_bind fun floor _ => ?_
    refine Keeps.liftM_bind fun kind _ => Keeps.bind (Keeps.refuse _ _) fun _ => ?_
    refine Keeps.liftM_bind fun op' _ => Keeps.bind (Keeps.refuse _ _) fun _ => ?_
    refine Keeps.liftM_bind fun frozen _ => Keeps.bind (Keeps.refuse _ _) fun _ => ?_
    refine Keeps.bind clearMemo_counts fun _ => Keeps.liftM_bind fun sid _ => ?_
    refine Keeps.bind (pull_counts host _ _ _) fun v => ?_
    refine Keeps.bind (Keeps.look _) fun now => Keeps.liftM_bind fun after _ => ?_
    refine Keeps.bind (putNode_counts _ _) fun _ => Keeps.liftM_bind fun id _ => ?_
    exact Keeps.bind (invalidate_counts _) fun _ => Keeps.pure _
  · exact Keeps.raise _

theorem command_counts (op : Value) : Keeps Counts (applyCommand op) := by
  refine Keeps.liftM_bind fun capability _ => Keeps.liftM_bind fun args _ => ?_
  refine Keeps.bind (Keeps.refuse _ _) fun _ => ?_
  exact Keeps.bind (Keeps.refuse _ _) fun _ => Keeps.pure _

/-- **No branch sets the counter back.** -/
theorem branch_counts (depth : ℕ) (op what : Value) : Keeps Counts (branch host depth op what) := by
  have hpair : ∀ {m : Act Value}, Keeps Counts m → Keeps Counts (m >>= fun out => pure (out, op)) :=
    fun hm => Keeps.bind hm fun _ => Keeps.pure _
  unfold branch
  split
  · exact hpair (addNode_counts op)
  · exact hpair (addWire_counts host op)
  · exact set_counts _ op
  · exact set_counts _ op
  · exact hpair (dissolveGroup_counts op)
  · exact hpair (freeze_counts _ op)
  · exact hpair (freeze_counts _ op)
  · exact hpair (effect_counts _ op)
  · exact hpair (effect_counts _ op)
  · exact hpair (sample_counts host depth op)
  · exact hpair (command_counts op)
  · exact Keeps.raise _

/-! ## Ids in the order of their numbers -/

theorem paddedDigits_eq (hn : n < 10 ^ width) :
    paddedDigits width n = (List.range width).map fun i => n / 10 ^ i % 10 := by
  have hlength : (Nat.digits 10 n).length ≤ width :=
    (Nat.digits_length_le_iff (by norm_num) n).2 hn
  unfold paddedDigits
  refine ext_getElem ?_ fun i hi hi' => ?_
  · rw [length_append, length_replicate, length_map, length_range]
    omega
  · rw [getElem_map, getElem_range, ← Nat.getD_digits n i (by norm_num : 2 ≤ 10)]
    rcases Nat.lt_or_ge i (Nat.digits 10 n).length with h | h
    · rw [getElem_append_left h, getD_eq_getElem _ _ h]
    · rw [getElem_append_right h, getElem_replicate, getD_eq_default _ _ h]

/-- The digits of a number, the first one first. -/
def leadingDigits (width n : ℕ) : List Char :=
  (((List.range width).map fun i => n / 10 ^ i % 10).map Nat.digitChar).reverse

theorem leadingDigits_succ (width n : ℕ) :
    leadingDigits (width + 1) n = Nat.digitChar (n / 10 ^ width % 10) :: leadingDigits width n := by
  unfold leadingDigits
  rw [range_succ, map_append, map_append, reverse_append]
  rfl

theorem digitChar_lt {a b : ℕ} (hab : a < b) (hb : b < 10) : Nat.digitChar a < Nat.digitChar b := by
  interval_cases b <;> interval_cases a <;> decide

/-- The digits sort as the numbers do. -/
theorem leadingDigits_lt (h : m % 10 ^ width < n % 10 ^ width) :
    leadingDigits width m < leadingDigits width n := by
  induction width with
  | zero =>
      rw [pow_zero, Nat.mod_one, Nat.mod_one] at h
      exact absurd h (lt_irrefl _)
  | succ width ih =>
      rw [Nat.mod_pow_succ, Nat.mod_pow_succ] at h
      have hpos : 0 < 10 ^ width := by positivity
      have hm : m % 10 ^ width < 10 ^ width := Nat.mod_lt _ hpos
      have hn : n % 10 ^ width < 10 ^ width := Nat.mod_lt _ hpos
      rw [leadingDigits_succ, leadingDigits_succ, cons_lt_cons_iff]
      rcases Nat.lt_trichotomy (m / 10 ^ width % 10) (n / 10 ^ width % 10) with hlt | heq | hgt
      · exact .inl (digitChar_lt hlt (Nat.mod_lt _ (by norm_num)))
      · rw [heq] at h
        exact .inr ⟨congrArg _ heq, ih (by omega)⟩
      · have hle : 10 ^ width * (n / 10 ^ width % 10) + 10 ^ width ≤
            10 ^ width * (m / 10 ^ width % 10) := by
          rw [← Nat.mul_succ]
          exact Nat.mul_le_mul_left _ hgt
        omega

/-- **Ids with six digits** sort as their numbers do. -/
theorem idOf_lt (hmn : m < n) (hn : n < 10 ^ 6) : idOf m < idOf n := by
  have htext : ∀ {k : ℕ}, k < 10 ^ 6 → (idOf k).toList = 'n' :: leadingDigits 6 k := by
    intro k hk
    have hpadded : padded 6 k = String.ofList (leadingDigits 6 k) := by
      rw [padded, paddedDigits_eq hk]
      rfl
    rw [idOf, hpadded, String.toList_append, @String.toList_ofList (leadingDigits 6 k)]
    rfl
  rw [String.lt_iff_toList_lt, htext (hmn.trans hn), htext hn, cons_lt_cons_iff]
  refine .inr ⟨rfl, leadingDigits_lt ?_⟩
  rwa [Nat.mod_eq_of_lt (hmn.trans hn), Nat.mod_eq_of_lt hn]

/-! ## What is recorded -/

/-- The operation that a history node holds. -/
def entryOf (node : Value) : Value := field (field (field node "body") "floor") "entry"

/-- An operation is recorded under a number that no id has taken yet. -/
structure Records (s t : Store) (op : Value) (m : ℕ) : Prop where
  number : s.seq ≤ m
  seq : t.seq = m + 1
  isDict : op.isDict = true
  nodes : ∃ node, field node "body" = dict [("floor", dict [("op", .str "history"), ("entry", op)])] ∧
    ∀ j n, HistoryAt t.nodes j n ↔ HistoryAt s.nodes j n ∨ (j = .str (idOf m) ∧ n = node)

variable {host} in
/-- **An operation that is accepted is recorded.** -/
theorem applyOp_records {s t : Store} (hs : HistoryClosed s) {depth : ℕ} {op out op' : Value}
    (h : sparesHistory s op = true) (hrun : applyOp host depth op s = (.ok (out, op'), t)) :
    RecordedAs op op' ∧ ∃ m, Records s t op' m := by
  unfold applyOp at hrun
  obtain ⟨what, hwhat, hrun⟩ := Exec.liftM_bind_ok hrun
  obtain ⟨⟨out', op''⟩, u, hbranch, hrun⟩ := Exec.bind_eq_ok hrun
  have hsame : SameHistory s u := by
    have hkeeps := branch_sameHistory host hs depth h hwhat
    unfold KeepsAt at hkeeps
    rwa [hbranch] at hkeeps
  have hcounts : s.seq ≤ u.seq := by
    have hkeeps := branch_counts host depth op what s
    rw [hbranch] at hkeeps
    exact hkeeps
  have hrecorded := branch_recordedAs host hwhat hbranch
  have hop := hrecorded.op hwhat
  dsimp only at hrun
  rw [Exec.bind_ok (record_apply host hop u)] at hrun
  cases hrun
  refine ⟨hrecorded, freshSeq u, hcounts.trans (seq_le_freshSeq u), rfl,
    Value.isDict_of_get? (Value.getItem_str_ok.1 hop), historyNode host what op' u, rfl,
    fun j n => ?_⟩
  rw [← hsame j n]
  unfold HistoryAt
  show (u.nodes.set (.str (freshId u)) _).get? j = some n ∧ _ ↔ _
  rw [Dict.get?_set]
  have hnone : u.nodes.get? (.str (freshId u)) = none :=
    Dict.get?_eq_none_iff.2 (freshId_not_mem u)
  by_cases hj : j = .str (freshId u)
  · rw [if_pos hj, hj, hnone]
    constructor
    · rintro ⟨hn, -⟩
      exact .inr ⟨rfl, (Option.some.inj hn).symm⟩
    · rintro (⟨hn, -⟩ | ⟨-, rfl⟩)
      · cases hn
      · exact ⟨rfl, rfl⟩
  · rw [if_neg hj]
    constructor
    · exact .inl
    · rintro (hn | ⟨hkey, -⟩)
      · exact hn
      · exact absurd hkey hj

variable {host} in
/-- An operation that is refused is not recorded. -/
theorem applyOp_refused {s t : Store} (hs : HistoryClosed s) {depth : ℕ} {op : Value} {e : Raised}
    (h : sparesHistory s op = true) (hrun : applyOp host depth op s = (.error e, t)) :
    SameHistory s t ∧ Counts s t := by
  unfold applyOp at hrun
  cases hwhat : op.getItem (.str "op") with
  | error e' =>
      rw [Exec.liftM_bind_of_error hwhat] at hrun
      cases hrun
      exact ⟨refl_of SameHistory s, le_rfl⟩
  | ok what =>
      rw [Exec.liftM_bind_of_ok hwhat] at hrun
      have hkeeps := branch_sameHistory host hs depth h hwhat
      have hcounts := branch_counts host depth op what s
      unfold KeepsAt at hkeeps
      rcases hbranch : branch host depth op what s with ⟨e' | ⟨out, op'⟩, u⟩
      · rw [hbranch] at hkeeps hcounts
        rw [Exec.bind_error hbranch] at hrun
        cases hrun
        exact ⟨hkeeps, hcounts⟩
      · have hop := (branch_recordedAs host hwhat hbranch).op hwhat
        rw [Exec.bind_ok hbranch] at hrun
        dsimp only at hrun
        rw [Exec.bind_ok (record_apply host hop u)] at hrun
        cases hrun

/-! ## The trail of an effect node -/

/-- Whether an operation is a token of an effect node. -/
def isToken (id op : Value) : Bool :=
  ((field op "op").pyEq (.str "effect_apply") || (field op "op").pyEq (.str "effect_revert")) &&
    (field op "effect").pyEq id

/-- The tokens of an effect node with their numbers, the oldest first, and what holds of
every history node. -/
structure Trail (id : Value) (s : Store) (trail : List (ℕ × Value)) : Prop where
  increasing : trail.Pairwise fun a b => a.1 < b.1
  below : ∀ e ∈ trail, e.1 < s.seq
  numbered : ∀ k node, HistoryAt s.nodes k node → ∃ m < s.seq, k = .str (idOf m)
  recorded : ∀ k node, HistoryAt s.nodes k node → ∃ op, op.isDict = true ∧
    field node "body" = dict [("floor", dict [("op", .str "history"), ("entry", op)])]
  tokens : ∀ m op, (m, op) ∈ trail ↔
    isToken id op = true ∧ ∃ node, HistoryAt s.nodes (.str (idOf m)) node ∧ entryOf node = op

namespace Trail

variable {id : Value} {s t : Store} {trail : List (ℕ × Value)} {op : Value} {m : ℕ}

/-- A new store has no tokens. -/
theorem start (id : Value) : Trail id Store.empty [] where
  increasing := List.Pairwise.nil
  below _ h := by cases h
  numbered _ _ h := by cases h.1
  recorded _ _ h := by cases h.1
  tokens m op := by
    constructor
    · intro h
      cases h
    · rintro ⟨-, node, h, -⟩
      cases h.1

theorem historyClosed (h : Trail id s trail) : HistoryClosed s := by
  intro k node hk
  obtain ⟨op, -, hbody⟩ := h.recorded k node hk
  exact ⟨_, hbody⟩

/-- What leaves history alone leaves the trail. -/
theorem same (h : Trail id s trail) (hsame : SameHistory s t) (hcounts : Counts s t) :
    Trail id t trail where
  increasing := h.increasing
  below e he := (h.below e he).trans_le hcounts
  numbered k node hk := by
    obtain ⟨m, hm, heq⟩ := h.numbered k node ((hsame k node).1 hk)
    exact ⟨m, hm.trans_le hcounts, heq⟩
  recorded k node hk := h.recorded k node ((hsame k node).1 hk)
  tokens m op := by
    rw [h.tokens m op]
    refine and_congr_right fun _ => exists_congr fun node => and_congr_left fun _ => ?_
    exact (hsame _ node).symm

/-- **What is recorded comes last.** -/
theorem record (h : Trail id s trail) (hrecords : Records s t op m) :
    Trail id t (trail ++ if isToken id op then [(m, op)] else []) := by
  obtain ⟨node, hbody, hnodes⟩ := hrecords.nodes
  have hentry : entryOf node = op := by
    unfold entryOf
    rw [hbody]
    rfl
  have hlater : ∀ e ∈ trail, e.1 < m := fun e he => (h.below e he).trans_le hrecords.number
  have hnew : ∀ e ∈ (if isToken id op then [(m, op)] else []), e = (m, op) ∧ isToken id op = true := by
    intro e he
    split at he
    · next htoken => exact ⟨List.mem_singleton.1 he, htoken⟩
    · cases he
  refine ⟨?_, fun e he => ?_, fun k n hk => ?_, fun k n hk => ?_, fun i op' => ?_⟩
  · rw [pairwise_append]
    refine ⟨h.increasing, ?_, fun a ha b hb => ?_⟩
    · split
      · exact pairwise_singleton _ _
      · exact List.Pairwise.nil
    · rw [(hnew b hb).1]
      exact hlater a ha
  · rw [hrecords.seq]
    rcases List.mem_append.1 he with he | he
    · exact (hlater e he).trans (Nat.lt_succ_self m)
    · rw [(hnew e he).1]
      exact Nat.lt_succ_self m
  · rcases (hnodes k n).1 hk with hk | ⟨hkey, -⟩
    · obtain ⟨i, hi, heq⟩ := h.numbered k n hk
      exact ⟨i, by have := hrecords.number; have := hrecords.seq; omega, heq⟩
    · exact ⟨m, by rw [hrecords.seq]; exact Nat.lt_succ_self m, hkey⟩
  · rcases (hnodes k n).1 hk with hk | ⟨-, rfl⟩
    · exact h.recorded k n hk
    · exact ⟨op, hrecords.isDict, hbody⟩
  · rw [mem_append, h.tokens i op']
    constructor
    · rintro (⟨htoken, n, hn, hop⟩ | he)
      · exact ⟨htoken, n, (hnodes _ n).2 (.inl hn), hop⟩
      · obtain ⟨heq, htoken⟩ := hnew _ he
        cases heq
        exact ⟨htoken, node, (hnodes _ node).2 (.inr ⟨rfl, rfl⟩), hentry⟩
    · rintro ⟨htoken, n, hn, hop⟩
      rcases (hnodes _ n).1 hn with hn | ⟨hkey, rfl⟩
      · exact .inl ⟨htoken, n, hn, hop⟩
      · rw [hentry] at hop
        subst hop
        refine .inr ?_
        rw [if_pos htoken, idOf_injective (Key.str.inj hkey)]
        exact List.mem_singleton.2 rfl

/-! ### Reading the tokens back -/

/-- The token that the node under an id records. -/
def readToken (nodes : Nodes) (id : Value) (text : String) : Option Value :=
  (nodes.get? (.str text)).bind fun node =>
    if field node "kind" = .str "history" ∧ isToken id (entryOf node) then some (entryOf node)
    else none

theorem tokenAt_eq (h : Trail id s trail) (hvalid : Valid s.nodes) {text : String}
    (htext : Key.str text ∈ s.nodes.keys) :
    LawsEffect.tokenAt s.nodes id (.str text) = .ok (readToken s.nodes id text) := by
  obtain ⟨node, hnode⟩ := Dict.exists_get?_of_mem_keys htext
  have hok := hvalid.nodeOk hnode
  have hfetch : fetch s.nodes (.str text) = .ok node := by
    rw [fetch, Value.hashed_str, ok_bind, hnode]
  unfold LawsEffect.tokenAt readToken
  rw [hfetch, ok_bind, hok.getItem (f := "kind") (by decide), ok_bind, hnode,
    Option.bind_some]
  by_cases hhistory : field node "kind" = .str "history"
  · obtain ⟨op, hdict, hbody⟩ := h.recorded _ node ⟨hnode, hhistory⟩
    have hentry : entryOf node = op := by
      unfold entryOf
      rw [hbody]
      rfl
    have hget : ∀ k : String, op.getDefault (.str k) .none = .ok (field op k) := fun k =>
      Value.getDefault_ok.2 ⟨hdict, rfl⟩
    have hfloor : (dict [("floor", dict [("op", .str "history"), ("entry", op)])]).getItem
        (.str "floor") = .ok (dict [("op", .str "history"), ("entry", op)]) := rfl
    have hop : (dict [("op", .str "history"), ("entry", op)]).getItem (.str "entry") = .ok op := rfl
    rw [if_pos (Value.pyEq_str.2 hhistory), hok.getItem (f := "body") (by decide), ok_bind,
      hbody, hfloor, ok_bind, hop, ok_bind, hget, ok_bind, hentry]
    unfold isToken
    by_cases hkind : ((field op "op").pyEq (.str "effect_apply") ||
        (field op "op").pyEq (.str "effect_revert")) = true
    · rw [if_pos hkind, hget, ok_bind, hkind, Bool.true_and]
      by_cases heffect : (field op "effect").pyEq id = true
      · rw [if_pos heffect, if_pos ⟨hhistory, heffect⟩]
        rfl
      · rw [if_neg heffect, if_neg fun hboth => heffect hboth.2]
        rfl
    · rw [if_neg hkind, Bool.eq_false_iff.2 hkind, Bool.false_and,
        if_neg fun hboth => Bool.false_ne_true hboth.2]
      rfl
  · have hother : ¬ (field node "kind").pyEq (.str "history") = true := fun hk =>
      hhistory (Value.pyEq_str.1 hk)
    rw [if_neg hother, if_neg (fun hboth => hhistory hboth.1)]
    rfl

/-- The ids of a valid table are texts. -/
theorem keys_of_valid {nodes : Nodes} (hvalid : Valid nodes) :
    ∃ texts : List String, nodes.keys = texts.map Key.str := by
  have hall : ∀ k ∈ nodes.keys, ∃ text, k = Key.str text := by
    intro k hk
    obtain ⟨node, hnode⟩ := Dict.exists_get?_of_mem_keys hk
    have hok := hvalid.nodeOk hnode
    obtain ⟨hshape, -⟩ := hok.parts
    obtain ⟨-, hshape⟩ := Check.seq_ok_iff.mp hshape
    obtain ⟨-, hshape⟩ := Check.seq_ok_iff.mp hshape
    obtain ⟨hstored, -⟩ := Check.seq_ok_iff.mp hshape
    have hstr := (Bool.and_eq_true_iff.mp (Check.require_ok_iff.mp hstored)).1
    have hkey := hok.1
    cases hid : field node "id" with
    | str text =>
        rw [hid] at hkey
        exact ⟨text, (Option.some.inj hkey).symm⟩
    | _ =>
        rw [hid] at hstr
        cases hstr
  generalize nodes.keys = ks at hall
  induction ks with
  | nil => exact ⟨[], rfl⟩
  | cons k ks ih =>
      obtain ⟨text, rfl⟩ := hall k mem_cons_self
      obtain ⟨texts, rfl⟩ := ih fun k' hk' => hall k' (mem_cons_of_mem _ hk')
      exact ⟨text :: texts, rfl⟩

theorem sortIds_texts (texts : List String) :
    sortIds (texts.map Value.str) = .ok ((texts.insertionSort (· ≤ ·)).map Value.str) := by
  have htexts : (texts.map Value.str).filterMap textOf? = texts := by
    rw [filterMap_map]
    exact filterMap_some
  unfold sortIds
  rw [if_pos (by rw [all_map]; exact List.all_eq_true.2 fun _ _ => rfl), htexts]

/-- What a list of ids has of the tokens. -/
theorem filterMap_readToken {texts : List String} (f : String → Option Value) :
    (texts.filter fun text => (f text).isSome).filterMap f = texts.filterMap f := by
  induction texts with
  | nil => rfl
  | cons text texts ih =>
      cases htext : f text with
      | none => rw [filter_cons_of_neg (by rw [htext]; decide), ih, filterMap_cons_none htext]
      | some v =>
          rw [filter_cons_of_pos (by rw [htext]; rfl), filterMap_cons_some htext, ih,
            filterMap_cons_some htext]

/-- **The tokens are read back** in the order in which they were recorded. -/
theorem applyTokens_eq (h : Trail id s trail) (hvalid : Valid s.nodes) (hseq : s.seq ≤ 10 ^ 6) :
    LawsEffect.applyTokens s.nodes id = .ok (trail.map Prod.snd) := by
  obtain ⟨texts, htexts⟩ := keys_of_valid hvalid
  have hkeys : s.nodes.keys.map Value.ofKey = texts.map Value.str := by
    rw [htexts, map_map]
    rfl
  let sorted := texts.insertionSort (· ≤ ·)
  have hperm : sorted.Perm texts := perm_insertionSort _ _
  have hmem : ∀ {text}, text ∈ sorted ↔ Key.str text ∈ s.nodes.keys := by
    intro text
    rw [hperm.mem_iff, htexts, mem_map]
    exact ⟨fun ht => ⟨text, ht, rfl⟩, fun ⟨t, ht, heq⟩ => Key.str.inj heq ▸ ht⟩
  have hcollect : Check.collect (LawsEffect.tokenAt s.nodes id) (sorted.map Value.str) =
      .ok (sorted.map (readToken s.nodes id)) := by
    rw [collect_ok_iff]
    have hall : ∀ text ∈ sorted, Key.str text ∈ s.nodes.keys := fun text => hmem.1
    generalize sorted = ss at hall
    induction ss with
    | nil => exact List.Forall₂.nil
    | cons text ss ih =>
        exact List.Forall₂.cons (h.tokenAt_eq hvalid (hall text mem_cons_self))
          (ih fun t ht => hall t (mem_cons_of_mem _ ht))
  have hsix : ∀ e ∈ trail, e.1 < 10 ^ 6 := fun e he => (h.below e he).trans_le hseq
  -- a token is read under an id exactly when the trail has it under its number
  have hread : ∀ text v, readToken s.nodes id text = some v ↔
      ∃ m, text = idOf m ∧ (m, v) ∈ trail := by
    intro text v
    unfold readToken
    rw [Option.bind_eq_some_iff]
    constructor
    · rintro ⟨node, hnode, hsome⟩
      split at hsome
      · next hboth =>
        obtain ⟨m, -, hkey⟩ := h.numbered _ node ⟨hnode, hboth.1⟩
        cases hsome
        rw [Key.str.inj hkey] at hnode ⊢
        exact ⟨m, rfl, (h.tokens m _).2 ⟨hboth.2, node, ⟨hnode, hboth.1⟩, rfl⟩⟩
      · cases hsome
    · rintro ⟨m, rfl, hv⟩
      obtain ⟨htoken, node, ⟨hnode, hhistory⟩, rfl⟩ := (h.tokens m v).1 hv
      exact ⟨node, hnode, if_pos ⟨hhistory, htoken⟩⟩
  have hids : (sorted.filter fun text => (readToken s.nodes id text).isSome) =
      trail.map fun e => idOf e.1 := by
    have hsorted : sorted.Pairwise (· ≤ ·) := pairwise_insertionSort _ _
    have hnodup : sorted.Nodup := by
      have hkeysNodup := s.nodes.nodup_keys
      rw [htexts] at hkeysNodup
      exact hperm.nodup_iff.2 (List.Nodup.of_map _ hkeysNodup)
    have htrail : (trail.map fun e => idOf e.1).Pairwise (· < ·) := by
      rw [pairwise_map]
      refine h.increasing.imp_of_mem fun {a b} _ hb hab => ?_
      exact idOf_lt hab (hsix b hb)
    refine List.Perm.eq_of_pairwise' (r := (· ≤ ·)) (hsorted.filter _) (htrail.imp le_of_lt) ?_
    rw [perm_ext_iff_of_nodup (hnodup.filter _) (htrail.imp ne_of_lt)]
    intro text
    rw [mem_filter, mem_map, Option.isSome_iff_exists]
    constructor
    · rintro ⟨-, v, hv⟩
      obtain ⟨m, rfl, hmem'⟩ := (hread text v).1 hv
      exact ⟨(m, v), hmem', rfl⟩
    · rintro ⟨⟨m, v⟩, hmem', rfl⟩
      have hv := (hread (idOf m) v).2 ⟨m, rfl, hmem'⟩
      refine ⟨hmem.2 ?_, v, hv⟩
      obtain ⟨-, node, hnode, -⟩ := (h.tokens m v).1 hmem'
      exact Dict.mem_keys_of_get? hnode.1
  unfold LawsEffect.applyTokens
  rw [hkeys, sortIds_texts, ok_bind, hcollect, ok_bind]
  refine congrArg Except.ok ?_
  rw [filterMap_map]
  show sorted.filterMap (readToken s.nodes id) = trail.map Prod.snd
  rw [← filterMap_readToken, hids, filterMap_map]
  clear hids hcollect
  have hall : ∀ e ∈ trail, (readToken s.nodes id ∘ fun e => idOf e.1) e = some e.2 := fun e he =>
    (hread _ _).2 ⟨e.1, rfl, he⟩
  clear hread hsix h
  induction trail with
  | nil => rfl
  | cons e trail ih =>
      rw [filterMap_cons_some (hall e mem_cons_self), map_cons,
        ih fun e' he' => hall e' (mem_cons_of_mem _ he')]

end Trail

end ArchHub.Table

import Mathlib
import ArchHub.Tasks.Steps

/-!
# The lease of a task is exclusive

* `Row.Ok`: a row is claimed exactly when its owner and its lease are set, and an
  open row has no owner.  Every transaction keeps it (`RowChange.ok`).
* `RowChange.owner`: no transaction passes a task from one owner to another; the
  owner is taken away first.
* `RowChange.done`: how a task that is not done gets done.
* `leased_claim`, `leased_beginRun`: a call that returns success leaves its owner
  with the lease.
-/

namespace ArchHub.Tasks

open Lib

/-- A row that is in order. -/
structure Row.Ok (r : Row) : Prop where
  claimed : r.status = .claimed ↔ r.owner.isSome = true ∧ r.leaseUntil.isSome = true
  opened : r.status = .opened → r.owner = none

/-- The owner holds the lease of the row. -/
def Row.LeasedBy (r : Row) (owner : String) : Prop :=
  r.HeldBy owner ∧ r.leaseUntil.isSome = true

variable {r : Row}

theorem Row.Ok.leasedBy (h : r.Ok) {owner : String} (hheld : r.HeldBy owner) :
    r.LeasedBy owner := ⟨hheld, (h.claimed.1 hheld.1).2⟩

/-- A table whose rows are in order. -/
def Table.Ok (t : Table) : Prop := ∀ k r, t.get? k = some r → r.Ok

theorem Row.Fresh.ok (h : r.Fresh) : r.Ok := by
  obtain ⟨hstatus, hlease, hopened⟩ := h
  exact ⟨by simp [hstatus, hlease], hopened⟩

variable {r' : Row}

theorem Row.Moved.same (h : r.Moved r') :
    r'.status = r.status ∧ r'.owner = r.owner ∧ r'.leaseUntil = r.leaseUntil := by
  rw [h.2]
  exact ⟨rfl, rfl, rfl⟩

/-! ## What a statement does to the lease -/

variable {statement : Statement} {stamp owner' : String}

/-- **Every statement keeps a row in order.** -/
theorem Statement.set_ok (happlies : statement.applies r = true) (hr : r.Ok) :
    (statement.set stamp r).Ok := by
  cases statement with
  | writing _ | titled _ | limited | bound _ | redeclared _ _ _ | folded =>
      exact ⟨hr.claimed, hr.opened⟩
  | claimed _ _ _ | begun _ _ _ => exact ⟨by simp [Statement.set], by simp [Statement.set]⟩
  | released _ | planned | reopened => exact ⟨by simp [Statement.set], by simp [Statement.set]⟩
  | completed _ _ | archived | finished =>
      exact ⟨by simp [Statement.set], by simp [Statement.set]⟩

/-- A statement that applies leaves the owner, takes him away, or gives a task that
has none one. -/
theorem Statement.set_owner (happlies : statement.applies r = true) {owner : String}
    (h : r.owner = some owner) (h' : (statement.set stamp r).owner = some owner') :
    owner' = owner := by
  cases statement with
  | claimed o label untl =>
      simp only [applies, h, Bool.and_eq_true, Bool.or_eq_true, decide_eq_true_eq] at happlies
      simp only [set, Option.some.injEq] at h'
      rw [← h']
      simpa [eq_comm] using happlies.2
  | begun o label untl =>
      simp only [applies, h, Bool.and_eq_true, Bool.or_eq_true, decide_eq_true_eq] at happlies
      simp only [set, Option.some.injEq] at h'
      rw [← h']
      simpa [eq_comm] using happlies.2
  | released _ | planned | reopened => cases h'
  | writing _ | titled _ | limited | bound _ | redeclared _ _ _ | folded | completed _ _
  | archived | finished => exact Option.some.inj (h'.symm.trans h)

/-! ## What a transaction does to the lease -/

variable {host : Host} {op : Op} {x : Txn} {db db' : Db} {k task label : String}
  {revision : Option ℤ} {lease : Option ℤ}

/-- **Every transaction of a call keeps a row in order.** -/
theorem RowChange.ok {o o' : Option Row} (h : RowChange host x db k o o') (hmakes : op.Makes db x)
    (ho : ∀ r, o = some r → r.Ok) (hr : o' = some r) : r.Ok := by
  cases h with
  | kept o => exact ho r hr
  | inserted row hx =>
      subst hx
      cases hr
      exact (hmakes.2 _).ok
  | declared title label purpose project hx =>
      cases hr
      exact ⟨by simp [declaredRow, Row.new], fun _ => rfl⟩
  | stated q statement hx happlies =>
      cases hr
      exact Statement.set_ok happlies (ho q rfl)
  | settled q now hx hlapsed =>
      cases hr
      exact ⟨by simp [Row.settled], fun _ => rfl⟩
  | moved q q' hx hmoved =>
      cases hr
      obtain ⟨hstatus, howner, hlease⟩ := hmoved.same
      exact ⟨by rw [hstatus, howner, hlease]; exact (ho q rfl).claimed,
        by rw [hstatus, howner]; exact (ho q rfl).opened⟩

/-- **No transaction passes a task from one owner to another.** -/
theorem RowChange.owner (h : RowChange host x db k (some r) (some r')) {owner : String}
    (ho : r.owner = some owner) (ho' : r'.owner = some owner') : owner' = owner := by
  cases h with
  | kept o => exact Option.some.inj (ho'.symm.trans ho)
  | stated q statement hx happlies => exact Statement.set_owner happlies ho ho'
  | settled q now hx hlapsed => cases ho'
  | moved q q' hx hmoved =>
      rw [hmoved.same.2.1] at ho'
      exact Option.some.inj (ho'.symm.trans ho)

/-- How a task that is not done gets done: its holder completes it, or it is closed
on the board or archived, whoever holds it. -/
def ClosedBy (op : Op) (x : Txn) (k : String) (r : Row) : Prop :=
  (∃ revision owner result, x = .update k revision (some owner) (.completed owner result) ∧
    op.owner = some owner ∧ r.LeasedBy owner) ∨
  (∃ revision, op = .setStatus k .done revision) ∨ ∃ revision, op = .archive k revision

/-- **A task gets done in these ways only.** -/
theorem RowChange.done (h : RowChange host x db k (some r) (some r')) (hmakes : op.Makes db x)
    (hr : r.Ok) (hnot : r.status ≠ .done) (hdone : r'.status = .done) : ClosedBy op x k r := by
  cases h with
  | kept o => exact absurd hdone hnot
  | settled q now hx hlapsed => cases hdone
  | moved q q' hx hmoved =>
      rw [hmoved.same.1] at hdone
      exact absurd hdone hnot
  | stated q statement hx happlies =>
      cases statement with
      | writing _ | titled _ | limited | bound _ | redeclared _ _ _ | folded =>
          exact absurd hdone hnot
      | claimed _ _ _ | begun _ _ _ | released _ | planned | reopened => cases hdone
      | completed owner result =>
          obtain ⟨revision, holder, rfl, hmeets, rfl, howner⟩ := hx.update hmakes trivial
          exact Or.inl ⟨revision, owner, result, rfl, howner, hr.leasedBy (hmeets.2 owner rfl)⟩
      | finished =>
          obtain ⟨revision, holder, -, -, -, hop⟩ := hx.update hmakes trivial
          exact Or.inr (Or.inl hop)
      | archived =>
          obtain ⟨revision, holder, -, -, -, hop⟩ := hx.update hmakes trivial
          exact Or.inr (Or.inr hop)

/-! ## A call that returns success holds the lease -/

/-- The owner holds the lease of the task. -/
def Leased (task owner : String) (db : Db) : Prop :=
  ∃ r, db.table.get? task = some r ∧ r.LeasedBy owner

/-- What a call that leases a task leaves when it returns. -/
def LeasedIf (task owner : String) (success : Bool) (db : Db) : Prop :=
  success = true → Leased task owner db

/-- A statement that `_update` says it made is on the row. -/
theorem exec_update_true {holder : Option String}
    (h : exec host (.update task revision holder statement) db = .ok (true, db')) :
    ∃ r, db'.table.get? task = some (statement.set (host.iso db.now) r) := by
  have hx : (update (host.iso db.now) task revision holder statement db.table).map
      (fun r => (r.1, db.write r.2)) = .ok (true, db') := h
  cases hu : update (host.iso db.now) task revision holder statement db.table with
  | error e => simp [hu, Except.map] at hx
  | ok y =>
      simp only [hu, Except.map, Except.ok.injEq, Prod.mk.injEq] at hx
      obtain ⟨hy, rfl⟩ := hx
      rcases update_ok hu with rfl | ⟨r, hr, -, -, rfl⟩
      · cases hy
      · exact ⟨r, Dict.get?_set_self _ _ _⟩

/-- A run that `begin_run` began has the lease on the row. -/
theorem exec_begin_false {owner : String} {now : ℚ} {lease : ℤ}
    (h : exec host (.begin_ task owner label revision now lease) db = .ok (false, db')) :
    ∃ r, db'.table.get? task =
      some ((Statement.begun owner label (now + lease)).set (host.iso db.now) r) := by
  have hx : (beginRun (host.iso db.now) host.maxRuns task owner label revision now lease
      db.table).map (fun r => (r.1, db.write r.2)) = .ok (false, db') := h
  cases hu : beginRun (host.iso db.now) host.maxRuns task owner label revision now lease
      db.table with
  | error e => simp [hu, Except.map] at hx
  | ok y =>
      simp only [hu, Except.map, Except.ok.injEq, Prod.mk.injEq] at hx
      obtain ⟨hy, rfl⟩ := hx
      obtain ⟨r, statement, -, -, -, htable, ⟨hover, -⟩ | ⟨-, rfl, -⟩⟩ := beginRun_ok hu
      · rw [hy] at hover
        cases hover
      · rw [Db.write_table, htable]
        exact ⟨r, Dict.get?_set_self _ _ _⟩

theorem claim_leased {owner : String} (db : Db) :
    (claim host task owner label lease revision).Ends (LeasedIf task owner) db := by
  refine Prog.Ends.refuse_bind (Prog.Ends.bind (fun now t => ?_) fun now a h => by cases h)
  refine Prog.Ends.bind (fun _ t => ?_) fun _ a h => by cases h
  refine Prog.Ends.atomic fun t a r hx hsuccess => ?_
  rw [hsuccess] at hx
  obtain ⟨q, hq⟩ := exec_update_true hx
  exact ⟨_, hq, ⟨rfl, rfl⟩, rfl⟩

theorem beginRun_leased {owner : String} (db : Db) :
    (beginRunCall host task owner label revision lease).Ends (LeasedIf task owner) db := by
  refine Prog.Ends.refuse_bind (Prog.Ends.refuse_bind ?_)
  refine Prog.Ends.bind (fun _ t => ?_) fun _ a h => by cases h
  refine Prog.Ends.bind (fun now t => ?_) fun now a h => by cases h
  refine Prog.Ends.atomic_bind (fun t full r a hx hret _ => ?_) fun full t => ?_
  · cases full with
    | true => cases hret
    | false =>
        obtain ⟨q, hq⟩ := exec_begin_false hx
        exact ⟨_, hq, ⟨rfl, rfl⟩, rfl⟩
  · exact Prog.Ends.refuse_bind trivial

/-- The task a call leases when it succeeds, and for whom. -/
def Op.Leases (task owner : String) : Op → Prop
  | .claim t o _ _ _ => t = task ∧ o = owner
  | .beginRun t o _ _ _ => t = task ∧ o = owner
  | _ => False

theorem program_leased {owner : String} (h : op.Leases task owner) (db : Db) :
    (program host op).Ends (LeasedIf task owner) db := by
  cases op with
  | claim t o label lease revision =>
      obtain ⟨rfl, rfl⟩ := h
      exact claim_leased db
  | beginRun t o label revision lease =>
      obtain ⟨rfl, rfl⟩ := h
      exact beginRun_leased db
  | create | rename | release | markWriting | complete | archive | setStatus | declared | backfill
  | relocate | fold | openSession | rows => cases h

variable {W : Type} [DecidableEq W] {s : Workers W}

/-- **A call that leases a task and returns success leaves its owner with the
lease.** -/
theorem leased_of_run {ok : Workers W → System.Action Op ℚ≥0 W → Prop}
    (hs : (tasks host).machine.Run ok (System.idle db) s) {w : W} {owner : String}
    (hop : op.Leases task owner) (hc : System.Commits s w op x db' (.ret true)) :
    Leased task owner db' := by
  let Q : Op → Bool → Db → Prop := fun op success db =>
    op.Leases task owner → LeasedIf task owner success db
  have hprogram : ∀ op db, ((tasks host).program op).Ends (Q op) db := by
    intro op db
    by_cases h : op.Leases task owner
    · exact (program_leased h db).of_imp fun l f k t hI r a hr ha _ => hI r a hr ha
    · exact Prog.Always.of_forall fun l f k t r a _ _ h' => absurd h' h
  exact System.ends_of_run hprogram hs hc hop rfl

/-! ## Over every run -/

/-- The table is in order in every state of every run. -/
theorem ok_of_run (hdb : db.table.Ok)
    (hs : (tasks host).machine.Run Machine.Any (System.idle db) s) : s.shared.table.Ok := by
  let Inv : Workers W → Prop := fun s => s.shared.table.Ok
  have hstep : ∀ s a, Machine.Any s a → AllMade host s → Inv s →
      Inv ((tasks host).machine.step s a) := by
    intro s a _ hmade hs k r hr
    rcases action_row hmade a with hsame | ⟨w, op, x, rest, -, -, hmakes, -, hrow⟩
    · exact hs k r ((hsame k).symm.trans hr)
    · exact (hrow k).ok hmakes (hs k) hr
  exact made_invariant hstep hs hdb

/-- **The lease of a task is exclusive.**  In every state of every run over a table
in order:

* a row is claimed exactly when its owner and its lease are set, and an open row
  has no owner;
* no action passes a task from one owner to another;
* a claim, or a run begun, that returns success leaves its owner with the lease;
* a task that is not done gets done by its holder's `complete`, or when it is
  closed on the board or archived. -/
theorem exclusive_lease (db : Db) (hdb : db.table.Ok) {s : Workers W}
    (hs : (tasks host).machine.Run Machine.Any (System.idle db) s) :
    (∀ k r, s.shared.table.get? k = some r →
      (r.status = .claimed ↔ r.owner.isSome = true ∧ r.leaseUntil.isSome = true) ∧
      (r.status = .opened → r.owner = none)) ∧
    (∀ a k r r' owner owner', s.shared.table.get? k = some r →
      ((tasks host).machine.step s a).shared.table.get? k = some r' →
      r.owner = some owner → r'.owner = some owner' → owner' = owner) ∧
    (∀ w op x task owner db', op.Leases task owner → System.Commits s w op x db' (.ret true) →
      ∃ r, db'.table.get? task = some r ∧ r.LeasedBy owner) ∧
    (∀ w op x rest db' k r r', System.Commits s w op x db' rest →
      s.shared.table.get? k = some r → db'.table.get? k = some r' →
      r.status ≠ .done → r'.status = .done → ClosedBy op x k r) := by
  have hmade : AllMade host s := made_of_run hs
  have hok : s.shared.table.Ok := ok_of_run hdb hs
  refine ⟨fun k r hr => ⟨(hok k r hr).claimed, (hok k r hr).opened⟩, ?_, ?_, ?_⟩
  · intro a k r r' owner owner' hr hr' ho ho'
    rcases action_row hmade a with hsame | ⟨w, op, x, rest, -, -, -, -, hrow⟩
    · rw [hsame k, hr] at hr'
      cases hr'
      exact Option.some.inj (ho'.symm.trans ho)
    · have hchange := hrow k
      rw [hr, hr'] at hchange
      exact hchange.owner ho ho'
  · intro w op x task owner db' hop hc
    exact leased_of_run hs hop hc
  · intro w op x rest db' k r r' hc hr hr' hnot hdone
    obtain ⟨hmakes, answer, hx⟩ := exec_of_commits hmade hc
    have hchange := (exec_row hx).2 k
    rw [hr, hr'] at hchange
    exact hchange.done hmakes (hok k r hr) hnot hdone

/-- The table with one open task. -/
def oneOpen : Db := ⟨Dict.ofList [("a", Row.new "Plan" "founder" "" none)], 0⟩

theorem oneOpen_ok : oneOpen.table.Ok := by
  intro k r hr
  have hget : oneOpen.table.get? k = if k = "a" then some (Row.new "Plan" "founder" "" none)
      else none := Dict.get?_set Dict.empty "a" k _
  rw [hget] at hr
  split at hr
  · cases hr
    exact (fresh_new _ _ _ _).ok
  · cases hr

/-- A worker claims the task for `"amy"`, up to its last step. -/
def claiming : Workers Unit :=
  [.start () (.claim "a" "amy" "Amy" none none), .advance (), .advance (), .advance ()].foldl
    (tasks (Host.plain 2)).machine.step (System.idle oneOpen)

/-- The claim returns success and leaves her with the lease. -/
theorem exclusive_lease_claim : ∃ x db', System.Commits claiming () (.claim "a" "amy" "Amy" none none)
    x db' (.ret true) ∧ ∃ r, db'.table.get? "a" = some r ∧ r.LeasedBy "amy" := by
  have hrun : (tasks (Host.plain 2)).machine.Run Machine.Any (System.idle oneOpen) claiming :=
    Machine.Run.ofActions _ _
  have hlease := (exclusive_lease oneOpen oneOpen_ok hrun).2.2.1
  have hcommits : System.Commits claiming () (.claim "a" "amy" "Amy" none none)
      (.update "a" none none (.claimed "amy" "Amy" (0 + (900 : ℤ)))) _ (.ret true) :=
    ⟨_, _, rfl, rfl, rfl⟩
  exact ⟨_, _, hcommits, hlease () (.claim "a" "amy" "Amy" none none) _ "a" "amy" _ ⟨rfl, rfl⟩ hcommits⟩

end ArchHub.Tasks

import Mathlib
import ArchHub.Tasks.Calls

/-!
# What the steps of the calls do

Said once for everything that follows:

* `exec_row`: what a committed transaction makes of one row, as a `RowChange`.
* `program_made`: which transactions the steps of a call are, as `Op.Makes`.
* `Later`: how the table moves on, which every step and the clock keep to.
-/

namespace ArchHub.Tasks

open Lib Option

/-! ## One statement -/

variable {task : String} {t : Table} {p : Row → Bool} {f : Row → Row} {t' : Table}

theorem execute_true (h : execute task p f t = (true, t')) :
    ∃ r, t.get? task = some r ∧ p r = true ∧ t' = t.set task (f r) := by
  unfold execute at h
  cases hr : t.get? task with
  | none => simp [hr] at h
  | some r =>
      simp only [hr] at h
      split at h
      · next hp => exact ⟨r, rfl, hp, (Prod.mk.inj h).2.symm⟩
      · simp at h

theorem execute_false (h : execute task p f t = (false, t')) : t' = t := by
  unfold execute at h
  split at h
  · split at h
    · simp at h
    · exact (Prod.mk.inj h).2.symm
  · exact (Prod.mk.inj h).2.symm

/-- What one statement makes of a row: nothing, or what it sets where it applies. -/
theorem execute_get? (task : String) (p : Row → Bool) (f : Row → Row) (t : Table) (k : String) :
    (execute task p f t).2.get? k = t.get? k ∨
      ∃ r, k = task ∧ t.get? k = some r ∧ p r = true ∧
        (execute task p f t).2.get? k = some (f r) := by
  rcases hx : execute task p f t with ⟨b, t'⟩
  cases b with
  | false =>
      rw [execute_false hx]
      exact Or.inl rfl
  | true =>
      obtain ⟨r, hr, hp, rfl⟩ := execute_true hx
      rw [Dict.get?_set]
      split
      · next hk => exact Or.inr ⟨r, hk, hk ▸ hr, hp, rfl⟩
      · exact Or.inl rfl

/-- Whether `_update` lets a statement that names a revision and a holder at the
row. -/
def Row.Meets (r : Row) (revision : Option ℤ) (holder : Option String) : Prop :=
  (∀ n, revision = some n → r.revision = n) ∧
    ∀ h, holder = some h → r.status = .claimed ∧ r.owner = some h

variable {revision : Option ℤ} {holder : Option String} {n : ℤ}

theorem unchanged_ok {x : Bool × Table} (h : unchanged task revision holder n t = .ok x) :
    x = (false, t) := by
  unfold unchanged refused at h
  repeat' split at h
  all_goals cases h
  all_goals rfl

variable {stamp : String} {statement : Statement}

/-- **What `_update` does**, when it does not raise: the statement, at a row that
meets what it names, or nothing. -/
theorem update_ok {x : Bool × Table} (h : update stamp task revision holder statement t = .ok x) :
    x = (false, t) ∨ ∃ r, t.get? task = some r ∧ r.Meets revision holder ∧
      statement.applies r = true ∧ x = (true, t.set task (statement.set stamp r)) := by
  unfold update at h
  cases hr : t.get? task with
  | none =>
      simp only [hr] at h
      unfold refused at h
      split at h <;> cases h
      exact Or.inl rfl
  | some row =>
      simp only [hr] at h
      split at h
      · cases h
      · next hrev =>
        split at h
        · unfold refused at h
          split at h <;> cases h
          exact Or.inl rfl
        · next hholder =>
          split at h
          · next t' hx =>
            cases h
            obtain ⟨r, hget, hp, rfl⟩ := execute_true hx
            obtain rfl : row = r := Option.some.inj (hr.symm.trans hget)
            rw [Bool.and_eq_true] at hp
            refine Or.inr ⟨row, rfl, ⟨?_, ?_⟩, hp.2, rfl⟩
            · rintro n rfl
              simp only [any_some, decide_eq_true_eq, not_not] at hrev
              exact hrev.symm
            · rintro o rfl
              simp only [any_some, Bool.or_eq_true, decide_eq_true_eq, not_or, not_not] at hholder
              exact hholder
          · next hx =>
            obtain rfl := execute_false hx
            exact Or.inl (unchanged_ok h)

variable {r : Row}

/-- A statement that names another revision than the row has raises the conflict. -/
theorem update_conflict (hr : t.get? task = some r) (hn : r.revision ≠ n) :
    update stamp task (some n) holder statement t = .error (.conflict task (some n)) := by
  unfold update
  simp [hr, Ne.symm hn]

/-- Whether the row is claimed by this owner. -/
def Row.HeldBy (r : Row) (owner : String) : Prop := r.status = .claimed ∧ r.owner = some owner

variable {label : String} {maxRuns : ℤ} {lease : ℤ}

/-- **What `begin_run` does**, when it does not raise: it notes that the capacity
is reached, or leases the row, when fewer tasks are live or the caller holds it. -/
theorem beginRun_ok {owner : String} {now : ℚ} {x : Bool × Table}
    (h : beginRun stamp maxRuns task owner label revision now lease t = .ok x) :
    ∃ (r : Row) (statement : Statement), t.get? task = some r ∧ r.Meets revision none ∧
      statement.applies r = true ∧
      x.2 = t.set task (statement.set stamp r) ∧
      ((x.1 = true ∧ statement = .limited) ∨
        (x.1 = false ∧ statement = .begun owner label (now + lease) ∧
          ((running now task t : ℤ) < maxRuns ∨ r.HeldBy owner))) := by
  unfold beginRun at h
  cases hr : t.get? task with
  | none => simp [hr] at h
  | some row =>
      simp only [hr] at h
      split at h
      · cases h
      · next hrev =>
        split at h
        · next t' hx =>
          cases h
          obtain ⟨r, hget, hp, rfl⟩ := execute_true hx
          obtain rfl : row = r := Option.some.inj (hr.symm.trans hget)
          rw [Bool.and_eq_true] at hp
          refine ⟨row, _, rfl, ⟨?_, by simp⟩, hp.2, rfl, ?_⟩
          · rintro n rfl
            simp only [any_some, decide_eq_true_eq, not_not] at hrev
            exact hrev.symm
          · by_cases hcap : maxRuns ≤ (running now task t : ℤ)
            · by_cases hheld : row.status = .claimed ∧ row.owner = some owner
              · exact Or.inr ⟨by simp [hheld], by simp [hheld], Or.inr hheld⟩
              · refine Or.inl ⟨?_, ?_⟩
                · simpa [hcap] using not_and_or.1 hheld
                · simp [hcap, hheld]
            · exact Or.inr ⟨by simp [hcap], by simp [hcap], Or.inl (not_le.1 hcap)⟩
        · cases h

theorem beginRun_conflict {owner : String} {now : ℚ} (hr : t.get? task = some r)
    (hn : r.revision ≠ n) :
    beginRun stamp maxRuns task owner label (some n) now lease t
      = .error (.conflict task (some n)) := by
  unfold beginRun
  simp [hr, Ne.symm hn]

/-! ## What a transaction makes of a row -/

/-- A row that is bound to another file. -/
def Row.Moved (r r' : Row) : Prop :=
  r.revision < r'.revision ∧ r' = { r with
    sessionPath := r'.sessionPath, updatedAt := r'.updatedAt, revision := r'.revision }

theorem Row.Moved.trans {r' r'' : Row} (h : r.Moved r') (h' : r'.Moved r'') : r.Moved r'' := by
  refine ⟨h.1.trans h'.1, ?_⟩
  rw [h'.2, h.2]

/-- The statement a transaction makes at the row `r` of task `k`. -/
def Txn.States (maxRuns : ℤ) (t : Table) (k : String) (r : Row) (statement : Statement) :
    Txn → Prop
  | .update task revision holder s => task = k ∧ s = statement ∧ r.Meets revision holder
  | .write task s => task = k ∧ s = statement
  | .declare task title _ purpose project =>
      task = k ∧ statement = .redeclared title purpose project
  | .begin_ task owner label revision now lease => task = k ∧ r.Meets revision none ∧
      (statement = .limited ∨ (statement = .begun owner label (now + lease) ∧
        ((running now task t : ℤ) < maxRuns ∨ r.HeldBy owner)))
  | _ => False

/-- A transaction that binds rows to files. -/
def Txn.Moves : Txn → Prop
  | .backfill _ => True
  | .relocate _ => True
  | _ => False

variable (host : Host)

/-- What a transaction can make of the row of task `k`. -/
inductive RowChange (x : Txn) (db : Db) (k : String) : Option Row → Option Row → Prop
  | kept (o : Option Row) : RowChange x db k o o
  | inserted (row : String → Row) (hx : x = .insert k row) :
      RowChange x db k none (some (row (host.iso db.now)))
  | declared (title label purpose : String) (project : Option String)
      (hx : x = .declare k title label purpose project) :
      RowChange x db k none (some (declaredRow title label (host.iso db.now) purpose project))
  | stated (r : Row) (statement : Statement) (hx : x.States host.maxRuns db.table k r statement)
      (happlies : statement.applies r = true) :
      RowChange x db k (some r) (some (statement.set (host.iso db.now) r))
  | settled (r : Row) (now : ℚ) (hx : x = .settle now) (hlapsed : r.lapsed now = true) :
      RowChange x db k (some r) (some (r.settled (host.iso db.now)))
  | moved (r r' : Row) (hx : x.Moves) (hmoved : r.Moved r') : RowChange x db k (some r) (some r')

variable {host} {k : String} {x : Txn} {db db' : Db} {op : Op} {a : x.Answer} {β : Type}

/-- A row a list of statements binds, one after the other. -/
theorem foldl_moved {f : Table → String × String → Table} (hf : ∀ t e, (f t e).get? k = t.get? k ∨
      ∃ r r', t.get? k = some r ∧ (f t e).get? k = some r' ∧ r.Moved r')
    (es : List (String × String)) (t : Table) : (es.foldl f t).get? k = t.get? k ∨
      ∃ r r', t.get? k = some r ∧ (es.foldl f t).get? k = some r' ∧ r.Moved r' := by
  induction es generalizing t with
  | nil => exact Or.inl rfl
  | cons e es ih =>
      rw [List.foldl_cons]
      rcases hf t e with hsame | ⟨r, r', hr, hr', hm⟩
      · rcases ih (f t e) with hrest | ⟨r, r', hr, hr', hm⟩
        · exact Or.inl (hrest.trans hsame)
        · exact Or.inr ⟨r, r', hsame ▸ hr, hr', hm⟩
      · rcases ih (f t e) with hrest | ⟨r₁, r₂, hr₁, hr₂, hm'⟩
        · exact Or.inr ⟨r, r', hr, hrest.trans hr', hm⟩
        · obtain rfl : r' = r₁ := Option.some.inj (hr'.symm.trans hr₁)
          exact Or.inr ⟨r, r₂, hr, hr₂, hm.trans hm'⟩

theorem backfillOne_get? (blank : String → Bool) (t : Table) (e : String × String) (k : String) :
    (backfillOne blank t e).get? k = t.get? k ∨
      ∃ r r', t.get? k = some r ∧ (backfillOne blank t e).get? k = some r' ∧ r.Moved r' := by
  rcases execute_get? e.1 (fun r => r.sessionPath.all blank)
      (fun r => { r with sessionPath := some e.2, revision := r.revision + 1 }) t k with
    hsame | ⟨r, -, hr, -, hr'⟩
  · exact Or.inl hsame
  · exact Or.inr ⟨r, _, hr, hr', by simp, rfl⟩

theorem relocateOne_get? (stamp : String) (t : Table) (e : String × String) (k : String) :
    (relocateOne stamp t e).get? k = t.get? k ∨
      ∃ r r', t.get? k = some r ∧ (relocateOne stamp t e).get? k = some r' ∧ r.Moved r' := by
  unfold relocateOne
  rw [Dict.get?_map]
  cases hr : t.get? k with
  | none => exact Or.inl rfl
  | some r =>
      rw [map_some]
      split
      · exact Or.inr ⟨r, _, rfl, rfl, by simp, rfl⟩
      · exact Or.inl rfl

/-- **What a committed transaction makes of a row.**  It leaves the clock. -/
theorem exec_row (h : exec host x db = .ok (a, db')) :
    db'.now = db.now ∧ ∀ k, RowChange host x db k (db.table.get? k) (db'.table.get? k) := by
  cases x with
  | clock | fetch _ | scan =>
      cases h
      exact ⟨rfl, fun k => .kept _⟩
  | settle now =>
      cases h
      refine ⟨rfl, fun k => ?_⟩
      rw [Db.write_table]
      unfold settleAll
      rw [Dict.get?_map]
      cases db.table.get? k with
      | none => exact .kept _
      | some r =>
          rw [map_some]
          split
          · next hl => exact .settled r now rfl hl
          · exact .kept _
  | insert task row =>
      simp only [exec] at h
      split at h
      · cases h
      · next hnot =>
        cases h
        refine ⟨rfl, fun k => ?_⟩
        rw [Db.write_table, Dict.get?_set]
        split
        · next hk =>
          have hnone : db.table.get? task = none := by
            rw [Dict.get?_eq_none_iff, ← Dict.contains_iff]
            exact hnot
          rw [hk, hnone]
          exact .inserted row rfl
        · exact .kept _
  | update task revision holder statement =>
      simp only [exec] at h
      cases hu : update (host.iso db.now) task revision holder statement db.table with
      | error e => simp [hu, Except.map] at h
      | ok y =>
          simp only [hu, Except.map] at h
          cases h
          refine ⟨rfl, fun k => ?_⟩
          rw [Db.write_table]
          rcases update_ok hu with rfl | ⟨r, hr, hmeets, happ, rfl⟩
          · exact .kept _
          · dsimp only
            rw [Dict.get?_set]
            split
            · next hk =>
              rw [hk, hr]
              exact .stated r statement ⟨rfl, rfl, hmeets⟩ happ
            · exact .kept _
  | write task statement =>
      cases h
      refine ⟨rfl, fun k => ?_⟩
      rw [Db.write_table]
      rcases execute_get? task statement.applies (statement.set (host.iso db.now)) db.table k with
        hsame | ⟨r, hk, hr, happ, hr'⟩
      · rw [hsame]
        exact .kept _
      · rw [hr, hr']
        exact .stated r statement ⟨hk.symm, rfl⟩ happ
  | declare task title label purpose project =>
      cases h
      refine ⟨rfl, fun k => ?_⟩
      rw [Db.write_table]
      unfold declareRow
      dsimp only
      split
      · rcases execute_get? task (Statement.redeclared title purpose project).applies
            ((Statement.redeclared title purpose project).set (host.iso db.now)) db.table k with
          hsame | ⟨r, hk, hr, happ, hr'⟩
        · rw [hsame]
          exact .kept _
        · rw [hr, hr']
          exact .stated r _ ⟨hk.symm, rfl⟩ happ
      · next hnot =>
        rw [Dict.get?_set]
        split
        · next hk =>
          have hnone : db.table.get? task = none := by
            rw [Dict.get?_eq_none_iff, ← Dict.contains_iff]
            exact hnot
          rw [hk, hnone]
          exact .declared title label purpose project rfl
        · exact .kept _
  | begin_ task owner label revision now lease =>
      simp only [exec] at h
      cases hu : beginRun (host.iso db.now) host.maxRuns task owner label revision now lease
          db.table with
      | error e => simp [hu, Except.map] at h
      | ok y =>
          simp only [hu, Except.map] at h
          cases h
          obtain ⟨r, statement, hr, hmeets, happ, hy, hcase⟩ := beginRun_ok hu
          refine ⟨rfl, fun k => ?_⟩
          rw [Db.write_table, hy, Dict.get?_set]
          split
          · next hk =>
            rw [hk, hr]
            refine .stated r statement ⟨rfl, hmeets, ?_⟩ happ
            rcases hcase with ⟨-, hlim⟩ | ⟨-, hbegun, hroom⟩
            · exact Or.inl hlim
            · exact Or.inr ⟨hbegun, hroom⟩
          · exact .kept _
  | backfill prepared =>
      cases h
      refine ⟨rfl, fun k => ?_⟩
      rw [Db.write_table]
      rcases foldl_moved (fun t e => backfillOne_get? host.blank t e k) prepared db.table with
        hsame | ⟨r, r', hr, hr', hm⟩
      · rw [hsame]
        exact .kept _
      · rw [hr, hr']
        exact .moved r r' trivial hm
  | relocate moved =>
      cases h
      refine ⟨rfl, fun k => ?_⟩
      rw [Db.write_table]
      rcases foldl_moved (fun t e => relocateOne_get? (host.iso db.now) t e k) moved db.table with
        hsame | ⟨r, r', hr, hr', hm⟩
      · rw [hsame]
        exact .kept _
      · rw [hr, hr']
        exact .moved r r' trivial hm

/-! ## How the table moves on -/

@[simp] theorem Statement.set_revision (stamp : String) (statement : Statement) (r : Row) :
    (statement.set stamp r).revision = r.revision + 1 := by
  cases statement <;> rfl

/-- **A changed row has a later revision**, and no row is taken away. -/
theorem RowChange.later {o o' : Option Row} (h : RowChange host x db k o o') (hr : o = some r) :
    ∃ r', o' = some r' ∧ (r' = r ∨ r.revision < r'.revision) := by
  cases h with
  | kept o => exact ⟨r, hr, Or.inl rfl⟩
  | inserted row hx => cases hr
  | declared title label purpose project hx => cases hr
  | stated q statement hx happlies =>
      cases hr
      exact ⟨_, rfl, Or.inr (by rw [Statement.set_revision]; omega)⟩
  | settled q now hx hlapsed =>
      cases hr
      exact ⟨_, rfl, Or.inr (by simp [Row.settled])⟩
  | moved q q' hx hmoved =>
      cases hr
      exact ⟨q', rfl, Or.inr hmoved.1⟩

/-- The table at a later time: no row is gone, and a row that is not as it was has
a later revision. -/
structure Later (s t : Db) : Prop where
  now : s.now ≤ t.now
  rows : ∀ k r, s.table.get? k = some r →
    ∃ r', t.table.get? k = some r' ∧ (r' = r ∨ r.revision < r'.revision)

instance : IsPreorder Db Later where
  refl s := ⟨le_rfl, fun _ r hr => ⟨r, hr, Or.inl rfl⟩⟩
  trans a b c hab hbc := by
    refine ⟨hab.now.trans hbc.now, fun k r hr => ?_⟩
    obtain ⟨r', hr', h⟩ := hab.rows k r hr
    obtain ⟨r'', hr'', h'⟩ := hbc.rows k r' hr'
    refine ⟨r'', hr'', ?_⟩
    rcases h with rfl | h
    · exact h'
    · rcases h' with rfl | h'
      · exact Or.inr h
      · exact Or.inr (h.trans h')

theorem exec_later (h : exec host x db = .ok (a, db')) : Later db db' := by
  obtain ⟨hnow, hrow⟩ := exec_row h
  exact ⟨hnow.ge, fun k r hr => (hrow k).later hr⟩

theorem later_tick (d : ℚ≥0) (db : Db) : Later db { db with now := db.now + d } :=
  ⟨le_add_of_nonneg_right d.2, fun _ r hr => ⟨r, hr, Or.inl rfl⟩⟩

/-! ## What the steps of a call are -/

/-- The task a call writes, and the revision it names, if it names one. -/
def Op.target : Op → Option (String × Option ℤ)
  | .rename task _ revision => some (task, revision)
  | .claim task _ _ _ revision => some (task, revision)
  | .release task _ revision => some (task, revision)
  | .markWriting task _ revision => some (task, revision)
  | .complete task _ _ revision => some (task, revision)
  | .beginRun task _ _ revision _ => some (task, revision)
  | .archive task revision => some (task, revision)
  | .setStatus task _ revision => some (task, revision)
  | _ => none

/-- On whose behalf a call leases or completes a task. -/
def Op.owner : Op → Option String
  | .claim _ owner _ _ _ => some owner
  | .release _ owner _ => some owner
  | .markWriting _ owner _ => some owner
  | .complete _ owner _ _ => some owner
  | .beginRun _ owner _ _ _ => some owner
  | .declared _ _ _ owner _ _ => some owner
  | _ => none

/-- The statements a call may make through `_update`, and the holder it names. -/
def Op.MakesStatement (op : Op) (task : String) (holder : Option String) : Statement → Prop
  | .writing owner => holder = some owner ∧ op.owner = some owner
  | .titled _ => holder = none
  | .claimed owner _ _ => holder = none ∧ op.owner = some owner
  | .released owner => holder = some owner ∧ op.owner = some owner
  | .completed owner _ => holder = some owner ∧ op.owner = some owner
  | .archived => holder = none ∧ ∃ revision, op = .archive task revision
  | .planned => holder = none ∧ ∃ revision, op = .setStatus task .planned revision
  | .finished => holder = none ∧ ∃ revision, op = .setStatus task .done revision
  | _ => False

/-- A row that is inserted: nobody has claimed it. -/
def Row.Fresh (r : Row) : Prop :=
  r.status ≠ .claimed ∧ r.leaseUntil = none ∧ (r.status = .opened → r.owner = none)

/-- The transactions the steps of a call are, each with what it is made with. -/
def Op.Makes (op : Op) (db : Db) : Txn → Prop
  | .insert _ row => op.target = none ∧ ∀ stamp, (row stamp).Fresh
  | .update task revision holder statement =>
      (∃ path n, statement = .bound path ∧ revision = some n ∧ holder = none) ∨
      ((op.target = some (task, revision) ∨ (op.target = none ∧ revision = none)) ∧
        op.MakesStatement task holder statement)
  | .write _ statement => op.target = none ∧ (statement = .reopened ∨ statement = .folded)
  | .declare _ _ _ _ _ => op.target = none
  | .begin_ task owner _ revision now _ =>
      op.target = some (task, revision) ∧ op.owner = some owner ∧ now ≤ db.now
  | .backfill _ => op.target = none
  | .relocate _ => op.target = none
  | _ => True

/-- The statements that are made through `_update` only, with a holder or as the
call says. -/
def Statement.ByUpdate : Statement → Prop
  | .writing _ | .titled _ | .claimed _ _ _ | .released _ | .completed _ _ | .archived | .planned
  | .finished => True
  | _ => False

/-- The transaction of a call that makes such a statement. -/
theorem Txn.States.update (h : x.States maxRuns t k r statement) (hmakes : op.Makes db x)
    (hby : statement.ByUpdate) :
    ∃ revision holder, x = .update k revision holder statement ∧ r.Meets revision holder ∧
      op.MakesStatement k holder statement := by
  cases x with
  | update task revision holder s =>
      obtain ⟨rfl, rfl, hmeets⟩ := h
      rcases hmakes with ⟨_, _, rfl, -⟩ | ⟨-, hop⟩
      · cases hby
      · exact ⟨revision, holder, rfl, hmeets, hop⟩
  | write task s =>
      obtain ⟨rfl, rfl⟩ := h
      rcases hmakes.2 with rfl | rfl <;> cases hby
  | declare task title label purpose project =>
      obtain ⟨-, rfl⟩ := h
      cases hby
  | begin_ task owner label revision now lease =>
      rcases h.2.2 with rfl | ⟨rfl, -⟩ <;> cases hby
  | clock | fetch | scan | settle | insert | backfill | relocate => cases h

variable (host) in
/-- What every step of a call meets. -/
def Op.Made (op : Op) (x : Txn) (f : Db → Except Fault Db) (db : Db) : Prop :=
  f = Prog.committed (exec host x) ∧ op.Makes db x

/-- What the transaction of a committed step did. -/
theorem Op.Made.exec_eq {f : Db → Except Fault Db} (h : op.Made host x f db) (hf : f db = .ok db') :
    ∃ a, exec host x db = .ok (a, db') := by
  rw [h.1, Prog.committed] at hf
  cases hx : exec host x db with
  | error e => simp [hx, Except.map] at hf
  | ok y =>
      obtain ⟨a, t⟩ := y
      simp only [hx, Except.map] at hf
      cases hf
      exact ⟨a, rfl⟩

section Made

variable {op : Op} {db : Db}

/-- Every step of the rest of a call is made as the call makes its steps. -/
abbrev Makes (op : Op) (host : Host) {α : Type} (db : Db) (p : Act α) : Prop :=
  p.Within Later (op.Made host) db

theorem makes_txn (h : ∀ t, Later db t → op.Makes t x) : Makes op host db (txn host x) :=
  Prog.Within.atomic fun t ht => ⟨rfl, h t ht⟩

theorem makes_txn_bind {g : x.Answer → Act β} (h : ∀ t, Later db t → op.Makes t x)
    (hg : ∀ a t, Later db t → Makes op host t (g a)) : Makes op host db (txn host x >>= g) :=
  Prog.Within.bind (makes_txn h) hg

/-- The time read first is never ahead of the clock. -/
theorem makes_clock_bind {g : ℚ → Act β}
    (hg : ∀ now t, Later db t → now ≤ t.now → Makes op host t (g now)) :
    Makes op host db (txn host .clock >>= g) := by
  refine Prog.Within.atomic_bind (fun t _ => ⟨rfl, trivial⟩) fun t now r ht hx => ?_
  have hnow : now = t.now := by
    have h : (Except.ok (t.now, t) : Except Fault (ℚ × Db)) = .ok (now, r) := hx
    cases h
    rfl
  exact hg now t ht hnow.le

theorem makes_ask {α : Type} {r : Except Fault α} {g : α → Act β}
    (hg : ∀ a, Makes op host db (g a)) : Makes op host db (ask r >>= g) := by
  cases r with
  | ok a => exact hg a
  | error e => trivial

theorem makes_present {row : Option Row} {g : Row → Act β} (hg : ∀ r, Makes op host db (g r)) :
    Makes op host db (present task row >>= g) := by
  cases row with
  | some r => exact hg r
  | none => trivial

theorem makes_settleLapsed : Makes op host db (settleLapsed host) :=
  makes_txn_bind (fun _ _ => trivial) fun _ _ _ => makes_txn fun _ _ => trivial

theorem makes_get (task : String) : Makes op host db (get host task) :=
  Prog.Within.bind makes_settleLapsed fun _ _ _ => makes_txn fun _ _ => trivial

theorem makes_bindSession (task : String) (n : ℤ) (path : String) :
    Makes op host db (bindSession host task n path) :=
  makes_txn_bind (fun _ _ => Or.inl ⟨path, n, rfl, rfl, rfl⟩) fun _ _ _ => Prog.Within.refuse _ _

theorem makes_bindIfUnbound (task : String) (row : Row) :
    Makes op host db (bindIfUnbound host task row) := by
  unfold bindIfUnbound
  split
  · exact makes_ask fun path => makes_bindSession task row.revision path
  · trivial

theorem makes_recordStep (task owner : String) : Makes op host db (recordStep host task owner) := by
  refine Prog.Within.bind (makes_get task) fun _ _ _ => makes_present fun row => ?_
  refine Prog.Within.bind (makes_bindIfUnbound task row) fun _ _ _ => ?_
  cases host.projectStep task owner <;> trivial

theorem makes_recordIf (won : Bool) (task owner : String) :
    Makes op host db (recordIf host won task owner) := by
  unfold recordIf
  split
  · exact Prog.Within.bind (makes_recordStep task owner) fun _ _ _ => trivial
  · trivial

/-- A call names its target, or has none and names no revision. -/
def Op.Names (op : Op) (task : String) (revision : Option ℤ) : Prop :=
  op.target = some (task, revision) ∨ (op.target = none ∧ revision = none)

theorem makes_claim {owner : String} (label : String) (lease : Option ℤ)
    (hnames : op.Names task revision) (howner : op.owner = some owner) :
    Makes op host db (claim host task owner label lease revision) := by
  refine Prog.Within.refuse_bind fun _ => makes_txn_bind (fun _ _ => trivial) fun now _ _ => ?_
  exact Prog.Within.bind makes_settleLapsed fun _ _ _ =>
    makes_txn fun _ _ => Or.inr ⟨hnames, rfl, howner⟩

theorem makes_complete {owner : String} (result : String) (hnames : op.Names task revision)
    (howner : op.owner = some owner) :
    Makes op host db (complete host task owner result revision) := by
  refine Prog.Within.bind makes_settleLapsed fun _ _ _ =>
    makes_txn_bind (fun _ _ => Or.inr ⟨hnames, rfl, howner⟩) fun won _ _ => ?_
  exact Prog.Within.bind (makes_get task) fun _ _ _ => makes_recordIf _ task owner

theorem makes_prepare (rows : List (String × Row)) : Makes op host db (prepare host rows) := by
  induction rows generalizing db with
  | nil => trivial
  | cons e rows ih =>
      unfold prepare
      split
      · exact makes_ask fun path => Prog.Within.bind ih fun _ _ _ => trivial
      · exact ih

theorem makes_backfillSessions (h : op.target = none) :
    Makes op host db (backfillSessions host) := by
  refine makes_txn_bind (fun _ _ => trivial) fun rows _ _ => ?_
  refine Prog.Within.bind (makes_prepare rows) fun prepared _ _ => ?_
  split
  · trivial
  · exact makes_txn fun _ _ => h

theorem fresh_new (title createdBy stamp : String) (path : Option String) :
    (Row.new title createdBy stamp path).Fresh := ⟨by simp [Row.new], rfl, fun _ => rfl⟩

theorem makes_keepClosed (h : op.target = none) (owner : String) (existing : Row) :
    Makes op host db (keepClosed host owner existing) := by
  refine Prog.Within.bind (makes_get _) fun kept _ _ => ?_
  split
  · exact makes_txn fun _ _ => ⟨h, fun _ => ⟨by simp, rfl, fun hstatus => by simp at hstatus⟩⟩
  · trivial

theorem makes_reopenIf (h : op.target = none) (reopen : Bool) (task : String) :
    Makes op host db (reopenIf host reopen task) := by
  unfold reopenIf
  split
  · exact makes_txn_bind (fun _ _ => ⟨h, Or.inl rfl⟩) fun _ _ _ => trivial
  · trivial

theorem makes_closePurpose (h : op.target = none) (task requestId owner : String)
    (existing : Option Row) : Makes op host db (closePurpose host task requestId owner existing) := by
  cases existing with
  | none => trivial
  | some r =>
      unfold closePurpose
      dsimp only
      split
      · exact Prog.Within.bind (makes_keepClosed h owner r) fun _ _ _ => makes_reopenIf h _ task
      · trivial

theorem makes_declared {requestId title owner : String} {isDone : Bool} {project : Option String}
    (h : op.target = none) (howner : op.owner = some owner) :
    Makes op host db (declared host requestId title isDone owner label project) := by
  have hnames : ∀ task, op.Names task none := fun _ => Or.inr ⟨h, rfl⟩
  refine Prog.Within.bind (makes_get requestId) fun addressed _ _ => ?_
  split
  · unfold declaredAddressed
    split
    · exact Prog.Within.bind (makes_complete "" (hnames _) howner) fun _ _ _ =>
        Prog.Within.bind (makes_recordStep _ _) fun _ _ _ => trivial
    · exact Prog.Within.bind (makes_claim label none (hnames _) howner) fun _ _ _ =>
        Prog.Within.bind (makes_recordStep _ _) fun _ _ _ => trivial
  · refine makes_ask fun text => ?_
    split
    · exact makes_complete "" (hnames _) howner
    · refine Prog.Within.bind (makes_get _) fun existing _ _ => ?_
      refine Prog.Within.bind (makes_closePurpose h _ _ _ existing) fun _ _ _ => ?_
      refine makes_txn_bind (fun _ _ => h) fun _ _ _ => ?_
      refine Prog.Within.bind (makes_claim label none (hnames _) howner) fun won _ _ => ?_
      unfold recordDeclared
      split
      · exact Prog.Within.bind (makes_backfillSessions h) fun _ _ _ =>
          Prog.Within.bind (makes_recordStep _ _) fun _ _ _ => trivial
      · trivial

theorem makes_foldOne (h : op.target = none) (held : List (String × Row))
    (declarations : List Declaration) (d : Declaration) :
    Makes op host db (foldOne host held declarations d) := by
  refine Prog.Within.each fun e _ t _ => ?_
  split
  · exact makes_txn_bind (fun _ _ => ⟨h, Or.inr rfl⟩) fun _ _ _ => trivial
  · trivial

theorem makes_openSession (task : String) (path : Option String) :
    Makes op host db (openSession host task path) := by
  refine Prog.Within.bind (makes_get task) fun _ _ _ => makes_present fun row => ?_
  split
  · cases path with
    | none =>
        exact makes_ask fun path =>
          Prog.Within.bind (makes_bindSession task _ path) fun _ _ _ => trivial
    | some path =>
        refine makes_txn_bind (fun _ _ => trivial) fun rows _ _ => ?_
        refine Prog.Within.refuse_bind fun _ => ?_
        exact Prog.Within.bind (makes_bindSession task _ path) fun _ _ _ => trivial
  · trivial

end Made

/-- **Every step of every call is made as said.** -/
theorem program_made (op : Op) (db : Db) : Makes op host db (program host op) := by
  cases op with
  | create task title creator =>
      refine makes_ask fun text => makes_ask fun path => ?_
      refine makes_txn_bind (fun _ _ => ⟨rfl, fun stamp => fresh_new _ _ stamp _⟩) fun _ _ _ => ?_
      exact Prog.Within.bind (makes_get task) fun _ _ _ => trivial
  | rename task title revision =>
      refine Prog.Within.bind (makes_get task) fun _ _ _ => makes_present fun row => ?_
      refine makes_ask fun text => Prog.Within.refuse_bind fun _ => ?_
      split
      · trivial
      · refine makes_txn_bind (fun _ _ => Or.inr ⟨Or.inl rfl, rfl⟩) fun _ _ _ => ?_
        exact Prog.Within.refuse_bind fun _ => trivial
  | claim task owner label lease revision => exact makes_claim label lease (Or.inl rfl) rfl
  | release task owner revision => exact makes_txn fun _ _ => Or.inr ⟨Or.inl rfl, rfl, rfl⟩
  | markWriting task owner revision => exact makes_txn fun _ _ => Or.inr ⟨Or.inl rfl, rfl, rfl⟩
  | complete task owner result revision => exact makes_complete result (Or.inl rfl) rfl
  | beginRun task owner label revision lease =>
      refine Prog.Within.refuse_bind fun _ => Prog.Within.refuse_bind fun _ => ?_
      refine Prog.Within.bind makes_settleLapsed fun _ _ _ => ?_
      refine makes_clock_bind fun now _ _ hnow => ?_
      refine makes_txn_bind (fun t ht => ⟨rfl, rfl, hnow.trans ht.now⟩) fun overCap _ _ => ?_
      exact Prog.Within.refuse_bind fun _ => trivial
  | archive task revision =>
      refine Prog.Within.bind (makes_get task) fun _ _ _ => makes_present fun row => ?_
      exact makes_txn fun _ _ => Or.inr ⟨Or.inl rfl, rfl, revision, rfl⟩
  | setStatus task board revision =>
      cases board with
      | planned => exact makes_txn fun _ _ => Or.inr ⟨Or.inl rfl, rfl, revision, rfl⟩
      | done => exact makes_txn fun _ _ => Or.inr ⟨Or.inl rfl, rfl, revision, rfl⟩
      | other status => trivial
  | declared requestId title isDone owner label project => exact makes_declared rfl rfl
  | backfill => exact Prog.Within.bind (makes_backfillSessions rfl) fun _ _ _ => trivial
  | relocate moved => exact makes_txn_bind (fun _ _ => rfl) fun _ _ _ => trivial
  | fold declarations =>
      refine makes_txn_bind (fun _ _ => trivial) fun found _ _ => ?_
      exact Prog.Within.bind (Prog.Within.each fun d _ t _ => makes_foldOne rfl _ _ d)
        fun _ _ _ => trivial
  | openSession task path => exact makes_openSession task path
  | rows =>
      refine Prog.Within.bind makes_settleLapsed fun _ _ _ => ?_
      exact makes_txn_bind (fun _ _ => trivial) fun _ _ _ => trivial

/-! ## Runs -/

/-- The task table, and the call each worker has under way. -/
abbrev Workers (W : Type) := System.State Db Txn Fault Bool Op W

section Runs

variable {W : Type} [DecidableEq W] {ok : Workers W → System.Action Op ℚ≥0 W → Prop} {s : Workers W}

/-- Every call under way is made as said. -/
abbrev AllMade (host : Host) (s : Workers W) : Prop :=
  System.AllAlways Later (fun op x f _ t => op.Made host x f t) s

theorem made_run {t : Workers W} (h : (tasks host).machine.Run ok s t) (hs : AllMade host s) :
    AllMade host t ∧ Later s.shared t.shared := by
  have hprogram : ∀ op db, ((tasks host).program op).Always Later
      (fun x f _ t => op.Made host x f t) db := program_made
  refine System.always_of_run hprogram ?_ ?_ h hs
  · intro op x f _ db db' hmade hf
    obtain ⟨a, ha⟩ := hmade.exec_eq hf
    exact exec_later ha
  · exact later_tick

theorem made_of_run (h : (tasks host).machine.Run ok (System.idle db) s) : AllMade host s :=
  (made_run h (System.allAlways_idle db)).1

/-- What every action keeps, where the calls under way are made as said, holds in
every state of a run. -/
theorem made_invariant {Inv : Workers W → Prop}
    (hstep : ∀ s a, ok s a → AllMade host s → Inv s → Inv ((tasks host).machine.step s a))
    (h : (tasks host).machine.Run ok (System.idle db) s) (hs : Inv (System.idle db)) : Inv s := by
  let Base : Workers W → Prop := AllMade host
  have hbase : ∀ s a, ok s a → Base s → Base ((tasks host).machine.step s a) :=
    fun s a ha hi => (made_run (Machine.Run.step a ha) hi).1
  exact Machine.Run.invariant_of hbase hstep h (System.allAlways_idle db) hs

omit [DecidableEq W] in
/-- The transaction a committed step was. -/
theorem exec_of_commits (hs : AllMade host s) {w : W} {rest : Act Bool}
    (h : System.Commits s w op x db rest) :
    op.Makes s.shared x ∧ ∃ a, exec host x s.shared = .ok (a, db) := by
  obtain ⟨f, k, hcall, hf, -⟩ := h
  have hmade : op.Made host x f s.shared := hs.meets hcall
  exact ⟨hmade.2, hmade.exec_eq hf⟩

/-- **What an action makes of a row**: nothing, or what the transaction of a
committed step makes of it. -/
theorem action_row (hs : AllMade host s) (a : System.Action Op ℚ≥0 W) :
    (∀ k, ((tasks host).machine.step s a).shared.table.get? k = s.shared.table.get? k) ∨
      ∃ w op x rest, a = .advance w ∧
        System.Commits s w op x ((tasks host).machine.step s a).shared rest ∧
        op.Makes s.shared x ∧
        ((tasks host).machine.step s a).shared.now = s.shared.now ∧
        ∀ k, RowChange host x s.shared k (s.shared.table.get? k)
          (((tasks host).machine.step s a).shared.table.get? k) := by
  rcases (tasks host).shared_step s a with h | ⟨e, -, h⟩ | ⟨w, op, x, rest, ha, hc⟩
  · exact Or.inl fun k => by rw [h]
  · exact Or.inl fun k => by rw [h]; rfl
  · obtain ⟨hmakes, answer, hx⟩ := exec_of_commits hs hc
    obtain ⟨hnow, hrow⟩ := exec_row hx
    exact Or.inr ⟨w, op, x, rest, ha, hc, hmakes, hnow, hrow⟩

end Runs

end ArchHub.Tasks

import Mathlib
import ArchHub.Lib.Dict

/-!
# The Workshop task table

One row a task, in one table, written by conditional `UPDATE` statements.  Every
write names the revision it read, or takes the row as it is, and stores the next
revision with what it writes.

* `Statement`: the `UPDATE`s, each with its `WHERE` and its `SET`.
* `Txn`: the transactions the calls are made of, and `exec`, what each does to the
  table.  A transaction that raises leaves the table as it was.

Ids made from digests, the text of the clock and what is kept in session files
come from a `Host`; the theorems hold for every host.
-/

namespace ArchHub.Tasks

open Lib

/-- The status a row may have. -/
inductive Status where
  | opened
  | claimed
  | done
deriving DecidableEq, Repr

/-- A row of `workshop_tasks`; its id is the key it is stored under. -/
structure Row where
  title : String
  status : Status
  owner : Option String
  ownerLabel : Option String
  leaseUntil : Option ℚ
  result : Option String
  createdBy : String
  createdAt : String
  updatedAt : String
  sessionPath : Option String
  purpose : Option String
  project : Option String
  archived : Bool
  revision : ℤ
  outcome : Option String
  writeOpen : Bool
  capacity : Option String
deriving DecidableEq, Repr

/-- The task table. -/
abbrev Table := Dict String Row

/-- The table and the clock. -/
structure Db where
  table : Table
  now : ℚ

/-- What a call raises. -/
inductive Fault where
  | notFound (task : String)
  | conflict (task : String) (revision : Option ℤ)
  | leaseLost (task : String)
  | limitReached (task : String)
  | valueError (text : String)
  | integrityError (task : String)
deriving DecidableEq, Repr

/-- What is asked of the world: texts of digests and of the clock, and the session
files. -/
structure Host where
  /-- `_now()` at an instant. -/
  iso : ℚ → String
  /-- `_text(value, label, maximum)`. -/
  text : String → String → ℕ → Except Fault String
  /-- `_declared_id(owner)`. -/
  declaredId : String → String
  /-- The id a declaration had under its root. -/
  declarationTaskId : String → String → String
  /-- The id of the row that keeps a closed purpose. -/
  closedId : String → String → String → String
  /-- `_start_session(task, title)`: the path of the task's file. -/
  startSession : String → String → Except Fault String
  /-- The projection of a step into the task's file. -/
  projectStep : String → String → Except Fault Unit
  /-- Whether `trim(path)` is empty. -/
  blank : String → Bool
  /-- `max_runs`. -/
  maxRuns : ℤ

/-- A host with readable ids, whose files can always be made. -/
def Host.plain (maxRuns : ℤ) : Host where
  iso _ := ""
  text value _ _ := .ok value
  declaredId owner := "declared-" ++ owner
  declarationTaskId root request := "declared-" ++ root ++ request
  closedId owner purpose at_ := "declared-" ++ owner ++ purpose ++ at_
  startSession task _ := .ok (task ++ ".archhub")
  projectStep _ _ := .ok ()
  blank path := path.toList.all (fun c => c = ' ')
  maxRuns := maxRuns

/-! ## Statements -/

/-- The `UPDATE` statements on one row. -/
inductive Statement where
  /-- `mark_writing`. -/
  | writing (owner : String)
  /-- `rename`. -/
  | titled (text : String)
  /-- `claim`. -/
  | claimed (owner label : String) (untl : ℚ)
  /-- `release`. -/
  | released (owner : String)
  /-- `complete`. -/
  | completed (owner result : String)
  /-- `begin_run`, when no slot is free. -/
  | limited
  /-- `begin_run`, when a slot is free. -/
  | begun (owner label : String) (untl : ℚ)
  /-- `archive`. -/
  | archived
  /-- `set_status` to `PLANNED`. -/
  | planned
  /-- `set_status` to `DONE`. -/
  | finished
  /-- `_bind_session`. -/
  | bound (path : String)
  /-- `declared`, when the purpose before was done. -/
  | reopened
  /-- `declared`, on the row that is there. -/
  | redeclared (title purpose : String) (project : Option String)
  /-- `fold_declarations`. -/
  | folded
deriving DecidableEq, Repr

/-- What the `WHERE` of a statement asks of the row, beside its id and revision. -/
def Statement.applies : Statement → Row → Bool
  | writing owner, r => r.owner = some owner && r.status = .claimed
  | titled _, _ => true
  | claimed owner _ _, r => r.status ≠ .done && (r.owner.isNone || r.owner = some owner)
  | released owner, r => r.owner = some owner && r.status = .claimed
  | completed owner _, r => r.owner = some owner && r.status = .claimed
  | limited, r => r.status ≠ .done
  | begun owner _ _, r => r.status ≠ .done && (r.owner.isNone || r.owner = some owner)
  | archived, _ => true
  | planned, _ => true
  | finished, _ => true
  | bound _, r => r.sessionPath.isNone
  | reopened, r => r.status = .done
  | redeclared _ _ _, r => r.status ≠ .done
  | folded, r => !r.archived

/-- What the `SET` of a statement makes of the row, at the time `stamp`. -/
def Statement.set (stamp : String) : Statement → Row → Row
  | writing _, r => { r with
      writeOpen := true, updatedAt := stamp, revision := r.revision + 1 }
  | titled text, r => { r with title := text, updatedAt := stamp, revision := r.revision + 1 }
  | claimed owner label untl, r => { r with
      status := .claimed, owner := some owner, ownerLabel := some label, leaseUntil := some untl,
      outcome := none, writeOpen := false, updatedAt := stamp, revision := r.revision + 1 }
  | released _, r => { r with
      status := .opened, owner := none, ownerLabel := none, leaseUntil := none,
      updatedAt := stamp, revision := r.revision + 1 }
  | completed _ result, r => { r with
      status := .done, leaseUntil := none, writeOpen := false, result := some result,
      updatedAt := stamp, revision := r.revision + 1 }
  | limited, r => { r with
      capacity := some "LIMIT_REACHED", updatedAt := stamp, revision := r.revision + 1 }
  | begun owner label untl, r => { r with
      status := .claimed, owner := some owner, ownerLabel := some label, leaseUntil := some untl,
      outcome := none, writeOpen := false, capacity := none, updatedAt := stamp,
      revision := r.revision + 1 }
  | archived, r => { r with
      status := .done, archived := true, leaseUntil := none, updatedAt := stamp,
      revision := r.revision + 1 }
  | planned, r => { r with
      status := .opened, owner := none, ownerLabel := none, leaseUntil := none,
      updatedAt := stamp, revision := r.revision + 1 }
  | finished, r => { r with
      status := .done, leaseUntil := none, updatedAt := stamp, revision := r.revision + 1 }
  | bound path, r => { r with
      sessionPath := some path, updatedAt := stamp, revision := r.revision + 1 }
  | reopened, r => { r with
      status := .opened, owner := none, ownerLabel := none, leaseUntil := none, result := none,
      updatedAt := stamp, revision := r.revision + 1 }
  | redeclared title purpose project, r => { r with
      title := title, purpose := some purpose, project := project, updatedAt := stamp,
      revision := r.revision + 1 }
  | folded, r => { r with archived := true, revision := r.revision + 1 }

/-- One `UPDATE … WHERE id=?`: whether it changed the row, and the table after
it. -/
def execute (task : String) (applies : Row → Bool) (set : Row → Row) (t : Table) : Bool × Table :=
  match t.get? task with
  | some r => if applies r then (true, t.set task (set r)) else (false, t)
  | none => (false, t)

/-- A row whose lease has passed. -/
def Row.lapsed (now : ℚ) (r : Row) : Bool :=
  r.status = .claimed && r.leaseUntil.any (fun untl => untl < now)

/-- A row whose lease has passed, closed and returned to the queue. -/
def Row.settled (stamp : String) (r : Row) : Row :=
  { r with
    outcome := some (if r.writeOpen then "unknown" else "interrupted"),
    status := .opened, owner := none, ownerLabel := none, leaseUntil := none,
    writeOpen := false, updatedAt := stamp, revision := r.revision + 1 }

/-- A new row. -/
def Row.new (title createdBy stamp : String) (sessionPath : Option String) : Row where
  title := title
  status := .opened
  owner := none
  ownerLabel := none
  leaseUntil := none
  result := none
  createdBy := createdBy
  createdAt := stamp
  updatedAt := stamp
  sessionPath := sessionPath
  purpose := none
  project := none
  archived := false
  revision := 0
  outcome := none
  writeOpen := false
  capacity := none

/-! ## Transactions -/

/-- The atomic steps the calls are made of. -/
inductive Txn where
  /-- `time.time()`. -/
  | clock
  /-- A row, by its id. -/
  | fetch (task : String)
  /-- All rows. -/
  | scan
  /-- `_settle_lapsed`, for the time it read. -/
  | settle (now : ℚ)
  /-- `INSERT` of a row. -/
  | insert (task : String) (row : String → Row)
  /-- `_update`: a statement on the row, which names a revision, or not, and a
  holder, or not. -/
  | update (task : String) (revision : Option ℤ) (holder : Option String) (statement : Statement)
  /-- `_write` of a statement that names no revision. -/
  | write (task : String) (statement : Statement)
  /-- `INSERT … ON CONFLICT(id) DO UPDATE` of a declared task. -/
  | declare (task title label purpose : String) (project : Option String)
  /-- The transaction of `begin_run`, with the time it read before. -/
  | begin_ (task owner label : String) (revision : Option ℤ) (now : ℚ) (lease : ℤ)
  /-- The transaction of `backfill_sessions`. -/
  | backfill (prepared : List (String × String))
  /-- The transaction of `relocate_sessions`. -/
  | relocate (moved : List (String × String))

/-- What a transaction returns. -/
@[reducible] def Txn.Answer : Txn → Type
  | clock => ℚ
  | fetch _ => Option Row
  | scan => List (String × Row)
  | settle _ => Unit
  | insert _ _ => Unit
  | update _ _ _ _ => Bool
  | write _ _ => Bool
  | declare _ _ _ _ _ => Unit
  | begin_ _ _ _ _ _ _ => Bool
  | backfill _ => Unit
  | relocate _ => Unit

/-- How `_update` ends when its statement changed nothing, by whether it named a
revision. -/
def refused (revision : Option ℤ) (e : Fault) (t : Table) : Except Fault (Bool × Table) :=
  if revision.isSome then .error e else .ok (false, t)

/-- `_update`, after the statement changed nothing: the row is looked at again. -/
def unchanged (task : String) (revision : Option ℤ) (holder : Option String) (expected : ℤ)
    (t : Table) : Except Fault (Bool × Table) :=
  match t.get? task with
  | none => .error (.notFound task)
  | some again =>
      if again.revision ≠ expected then refused revision (.conflict task revision) t
      else if holder.isSome then refused revision (.leaseLost task) t
      else refused revision (.conflict task revision) t

/-- `_update`. -/
def update (stamp task : String) (revision : Option ℤ) (holder : Option String)
    (statement : Statement) (t : Table) : Except Fault (Bool × Table) :=
  match t.get? task with
  | none => refused revision (.notFound task) t
  | some row =>
      if revision.any (fun n => n ≠ row.revision) then .error (.conflict task revision)
      else if holder.any (fun h => row.status ≠ .claimed || row.owner ≠ some h) then
        refused revision (.leaseLost task) t
      else
        let expected := revision.getD row.revision
        match execute task (fun r => r.revision = expected && statement.applies r)
          (statement.set stamp) t with
        | (true, t) => .ok (true, t)
        | (false, t) => unchanged task revision holder expected t

/-- A task with a lease that has not passed. -/
def Row.live (now : ℚ) (r : Row) : Bool :=
  r.status = .claimed && r.leaseUntil.any (fun untl => now ≤ untl)

/-- How many other tasks hold a lease that has not passed. -/
def running (now : ℚ) (task : String) (t : Table) : ℕ :=
  t.entries.countP (fun e => e.2.live now && e.1 ≠ task)

/-- The transaction of `begin_run`: whether it was over the capacity. -/
def beginRun (stamp : String) (maxRuns : ℤ) (task owner label : String) (revision : Option ℤ)
    (now : ℚ) (lease : ℤ) (t : Table) : Except Fault (Bool × Table) :=
  match t.get? task with
  | none => .error (.notFound task)
  | some row =>
      if revision.any (fun n => n ≠ row.revision) then .error (.conflict task revision)
      else
        let expected := revision.getD row.revision
        let holds := row.status = .claimed && row.owner = some owner
        let overCap := decide (maxRuns ≤ running now task t) && !holds
        let statement : Statement := if overCap then .limited else .begun owner label (now + lease)
        match execute task (fun r => r.revision = expected && statement.applies r)
          (statement.set stamp) t with
        | (true, t) => .ok (overCap, t)
        | (false, _) => .error (.conflict task (some expected))

/-- One statement of `backfill_sessions`. -/
def backfillOne (blank : String → Bool) (t : Table) (e : String × String) : Table :=
  (execute e.1 (fun r => r.sessionPath.all blank)
    (fun r => { r with sessionPath := some e.2, revision := r.revision + 1 }) t).2

/-- One statement of `relocate_sessions`. -/
def relocateOne (stamp : String) (t : Table) (e : String × String) : Table :=
  t.map (fun _ r => if r.sessionPath = some e.1 then
    { r with sessionPath := some e.2, updatedAt := stamp, revision := r.revision + 1 } else r)

/-- The row of a new declared task. -/
def declaredRow (title label stamp purpose : String) (project : Option String) : Row :=
  { Row.new title label stamp none with purpose := some purpose, project := project }

/-- The table replaced. -/
def Db.write (db : Db) (t : Table) : Db := { db with table := t }

@[simp] theorem Db.write_table (db : Db) (t : Table) : (db.write t).table = t := rfl

/-- `_settle_lapsed`, for the time it read. -/
def settleAll (stamp : String) (now : ℚ) (t : Table) : Table :=
  t.map (fun _ r => if r.lapsed now then r.settled stamp else r)

/-- `INSERT … ON CONFLICT(id) DO UPDATE … WHERE status != 'done'`. -/
def declareRow (stamp task title label purpose : String) (project : Option String) (t : Table) :
    Table :=
  let statement := Statement.redeclared title purpose project
  if t.contains task then (execute task statement.applies (statement.set stamp) t).2
  else t.set task (declaredRow title label stamp purpose project)

variable (host : Host)

/-- What a transaction does to the table, and what it returns. -/
def exec : (x : Txn) → Db → Except Fault (x.Answer × Db)
  | .clock, db => .ok (db.now, db)
  | .fetch task, db => .ok (db.table.get? task, db)
  | .scan, db => .ok (db.table.entries, db)
  | .settle now, db => .ok ((), db.write (settleAll (host.iso db.now) now db.table))
  | .insert task row, db =>
      if db.table.contains task then .error (.integrityError task)
      else .ok ((), db.write (db.table.set task (row (host.iso db.now))))
  | .update task revision holder statement, db =>
      (update (host.iso db.now) task revision holder statement db.table).map
        (fun r => (r.1, db.write r.2))
  | .write task statement, db =>
      let r := execute task statement.applies (statement.set (host.iso db.now)) db.table
      .ok (r.1, db.write r.2)
  | .declare task title label purpose project, db =>
      .ok ((), db.write (declareRow (host.iso db.now) task title label purpose project db.table))
  | .begin_ task owner label revision now lease, db =>
      (beginRun (host.iso db.now) host.maxRuns task owner label revision now lease db.table).map
        (fun r => (r.1, db.write r.2))
  | .backfill prepared, db => .ok ((), db.write (prepared.foldl (backfillOne host.blank) db.table))
  | .relocate moved, db =>
      .ok ((), db.write (moved.foldl (relocateOne (host.iso db.now)) db.table))

end ArchHub.Tasks

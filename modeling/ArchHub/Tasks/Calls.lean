import Mathlib
import ArchHub.Lib.Concurrent
import ArchHub.Tasks.Table

/-!
# The calls on the task table

Each call of the source is a program of transactions: it reads the clock, settles
what has lapsed, reads rows and writes one in transactions of its own, and any
number of transactions of other workers come between two of its own.  `tasks` is
the system of any number of workers making any of these calls on one table while
the clock moves on.

What a call does to session files is not on the table: where that can raise, it is
asked of the host.
-/

namespace ArchHub.Tasks

open Lib

/-- A call under way. -/
abbrev Act (α : Type) := Prog Db Txn Fault α

variable (host : Host)

/-- One transaction. -/
def txn (x : Txn) : Act x.Answer := Prog.atomic x (exec host x)

/-- What only the world decides. -/
def ask {α : Type} (r : Except Fault α) : Act α :=
  match r with
  | .ok a => .ret a
  | .error e => .raise e

/-! ## Reading -/

/-- `_settle_lapsed`. -/
def settleLapsed : Act Unit := do
  let now ← txn host .clock
  txn host (.settle now)

/-- `get`. -/
def get (task : String) : Act (Option Row) := do
  settleLapsed host
  txn host (.fetch task)

/-- A row that must be there. -/
def present (task : String) (row : Option Row) : Act Row :=
  match row with
  | some r => .ret r
  | none => .raise (.notFound task)

/-- `_bind_session`. -/
def bindSession (task : String) (revision : ℤ) (path : String) : Act Unit := do
  let bound ← txn host (.update task (some revision) none (.bound path))
  Prog.refuse (!bound) (.valueError "Task already has a session file")

/-- The file a task is to be bound to, if it has none. -/
def unbound (row : Row) : Bool := row.sessionPath.all (fun p => p = "")

/-- Bind the task to a new file, if it has none. -/
def bindIfUnbound (task : String) (row : Row) : Act Unit :=
  if unbound row then do
    let path ← ask (host.startSession task row.title)
    bindSession host task row.revision path
  else .ret ()

/-- `record_step`. -/
def recordStep (task owner : String) : Act Unit := do
  let row ← get host task
  let row ← present task row
  bindIfUnbound host task row
  ask (host.projectStep task owner)

/-! ## The writers -/

/-- `lease_seconds`, when none is given. -/
def leaseSeconds : ℤ := 900

/-- Whether a lease may be that long. -/
def leaseFits (lease : ℤ) : Bool := 30 ≤ lease && lease ≤ 86400

/-- `create`, for the id it has drawn. -/
def create (task title creator : String) : Act Bool := do
  let title ← ask (host.text title "title" 2000)
  let path ← ask (host.startSession task title)
  txn host (.insert task (fun stamp => Row.new title creator stamp (some path)))
  let _ ← get host task
  .ret true

/-- `rename`. -/
def rename (task title : String) (revision : Option ℤ) : Act Bool := do
  let row ← get host task
  let row ← present task row
  let text ← ask (host.text title "title" 2000)
  Prog.refuse (revision.any (fun n => n ≠ row.revision)) (.conflict task revision)
  if text = row.title then .ret true
  else
    let won ← txn host (.update task revision none (.titled text))
    Prog.refuse (!won) (.conflict task (some (revision.getD row.revision)))
    .ret true

/-- `claim`. -/
def claim (task owner label : String) (lease : Option ℤ) (revision : Option ℤ) : Act Bool := do
  let lease := lease.getD leaseSeconds
  Prog.refuse (!leaseFits lease) (.valueError "Lease must be 30 to 86400 seconds")
  let now ← txn host .clock
  settleLapsed host
  txn host (.update task revision none (.claimed owner label (now + lease)))

/-- `release`. -/
def release (task owner : String) (revision : Option ℤ) : Act Bool :=
  txn host (.update task revision (some owner) (.released owner))

/-- `mark_writing`. -/
def markWriting (task owner : String) (revision : Option ℤ) : Act Bool :=
  txn host (.update task revision (some owner) (.writing owner))

/-- Whether the row says that this owner has completed the task with this
result. -/
def reconciled (row : Option Row) (owner result : String) : Bool :=
  row.any (fun r => r.status = .done && r.owner = some owner && r.result = some result)

/-- Record a completed step, when the task was completed. -/
def recordIf (won : Bool) (task owner : String) : Act Bool :=
  if won then do
    recordStep host task owner
    .ret true
  else .ret false

/-- `complete`. -/
def complete (task owner result : String) (revision : Option ℤ) : Act Bool := do
  settleLapsed host
  let won ← txn host (.update task revision (some owner) (.completed owner result))
  let row ← get host task
  recordIf host (won || reconciled row owner result) task owner

/-- `begin_run`. -/
def beginRunCall (task owner label : String) (revision lease : Option ℤ) : Act Bool := do
  let lease := lease.getD leaseSeconds
  Prog.refuse (!leaseFits lease) (.valueError "Lease must be 30 to 86400 seconds")
  Prog.refuse (decide (host.maxRuns < 1)) (.valueError "Capacity must be a positive number of runs")
  settleLapsed host
  let now ← txn host .clock
  let overCap ← txn host (.begin_ task owner label revision now lease)
  Prog.refuse overCap (.limitReached task)
  .ret true

/-- `archive`. -/
def archive (task : String) (revision : Option ℤ) : Act Bool := do
  let row ← get host task
  let _ ← present task row
  txn host (.update task revision none .archived)

/-- A move on the board. -/
inductive Board where
  | planned
  | done
  | other (status : String)
deriving DecidableEq, Repr

/-- `set_status`. -/
def setStatus (task : String) (board : Board) (revision : Option ℤ) : Act Bool :=
  match board with
  | .planned => txn host (.update task revision none .planned)
  | .done => txn host (.update task revision none .finished)
  | .other _ => .raise (.valueError "An agent claims a task; the board sets PLANNED or DONE")

/-- `backfill_sessions`: the files are prepared before the rows are written. -/
def prepare : List (String × Row) → Act (List (String × String))
  | [] => .ret []
  | (task, row) :: rest =>
      if row.sessionPath.all host.blank then do
        let path ← ask (host.startSession task row.title)
        let prepared ← prepare rest
        .ret ((task, path) :: prepared)
      else prepare rest

/-- `backfill_sessions`. -/
def backfillSessions : Act Unit := do
  let rows ← txn host .scan
  let prepared ← prepare host rows
  if prepared = [] then .ret () else txn host (.backfill prepared)

/-- Keep a closed purpose in a row of its own. -/
def keepClosed (owner : String) (existing : Row) : Act Unit := do
  let closed := host.closedId owner (existing.purpose.getD "") existing.createdAt
  let kept ← get host closed
  if kept.isNone then
    txn host (.insert closed (fun stamp => { Row.new existing.title existing.createdBy stamp none with
      status := .done, owner := existing.owner, ownerLabel := existing.ownerLabel,
      result := some "closed: new purpose", createdAt := existing.createdAt,
      purpose := existing.purpose, project := existing.project }))
  else .ret ()

/-- Open the row of a done purpose again. -/
def reopenIf (reopen : Bool) (task : String) : Act Unit :=
  if reopen then do
    let _ ← txn host (.write task .reopened)
    .ret ()
  else .ret ()

/-- `declared`, when the row holds another purpose. -/
def closePurpose (task requestId owner : String) (existing : Option Row) : Act Unit :=
  match existing with
  | some r =>
      if r.purpose.any (fun p => p ≠ "" && p ≠ requestId) then do
        keepClosed host owner r
        reopenIf host (r.status = .done) task
      else .ret ()
  | none => .ret ()

/-- `declared`, after the row was claimed. -/
def recordDeclared (won : Bool) (task owner : String) : Act Bool :=
  if won then do
    backfillSessions host
    recordStep host task owner
    .ret true
  else .ret false

/-- `declared`, on the row the request itself names. -/
def declaredAddressed (requestId owner label : String) (isDone : Bool) : Act Bool :=
  if isDone then do
    let won ← complete host requestId owner "" none
    recordStep host requestId owner
    .ret won
  else do
    let won ← claim host requestId owner label none none
    recordStep host requestId owner
    .ret won

/-- `declared`, on the row of the agent. -/
def declaredOwn (requestId title owner label : String) (project : Option String) : Act Bool := do
  let task := host.declaredId owner
  let existing ← get host task
  closePurpose host task requestId owner existing
  txn host (.declare task title label requestId project)
  let won ← claim host task owner label none none
  recordDeclared host won task owner

/-- `declared`. -/
def declared (requestId title : String) (isDone : Bool) (owner label : String)
    (project : Option String) : Act Bool := do
  let addressed ← get host requestId
  if addressed.isSome then declaredAddressed host requestId owner label isDone
  else
    let title ← ask (host.text title "title" 2000)
    if isDone then complete host (host.declaredId owner) owner "" none
    else declaredOwn host requestId title owner label project

/-- What `rows` lists of all rows: the newest first, five hundred at most. -/
def listed (found : List (String × Row)) : List (String × Row) :=
  (found.mergeSort (fun a b => b.2.createdAt ≤ a.2.createdAt)).take 500

/-- A declaration as `fold_declarations` reads it. -/
structure Declaration where
  session : String
  root : String
  requestId : String
deriving DecidableEq, Repr

/-- Whether a row is a candidate of a declaration's owner. -/
def candidate (declarations : List Declaration) (owner : String) (e : String × Row) : Bool :=
  e.1 = host.declaredId owner ||
    declarations.any (fun d => d.session = owner && d.root ≠ "" && d.requestId ≠ "" &&
      e.1 = host.declarationTaskId d.root d.requestId) ||
    ("declared-".toList.isPrefixOf e.1.toList && e.2.owner = some owner)

/-- The later of two candidates: shown before archived, then by when it was
updated and created. -/
def later (a b : String × Row) : Bool :=
  let key := fun (e : String × Row) => (!e.2.archived, e.2.updatedAt, e.2.createdAt, e.1)
  let x := key a
  let y := key b
  if x.1 ≠ y.1 then x.1 else if x.2.1 ≠ y.2.1 then y.2.1 < x.2.1
  else if x.2.2.1 ≠ y.2.2.1 then y.2.2.1 < x.2.2.1 else y.2.2.2 < x.2.2.2

/-- The candidate that is kept. -/
def kept (owner : String) : List (String × Row) → Option String
  | [] => none
  | e :: es =>
      if (e :: es).any (fun e => e.1 = host.declaredId owner) then some (host.declaredId owner)
      else some (es.foldl (fun best x => if later x best then x else best) e).1

/-- Archive the candidates that are not kept. -/
def foldOne (held : List (String × Row)) (declarations : List Declaration) (d : Declaration) :
    Act Unit :=
  let candidates := held.filter (candidate host declarations d.session)
  let keep := kept host d.session candidates
  Prog.each
    (fun e => if d.session ≠ "" && keep ≠ some e.1 && !e.2.archived then do
        let _ ← txn host (.write e.1 .folded)
        .ret ()
      else .ret ())
    candidates

/-- `fold_declarations`. -/
def foldDeclarations (declarations : List Declaration) : Act Bool := do
  let found ← txn host .scan
  Prog.each (foldOne host (listed found) declarations) declarations
  .ret true

/-- `relocate_sessions`. -/
def relocateSessions (moved : List (String × String)) : Act Bool := do
  txn host (.relocate moved)
  .ret true

/-- `open_session` of a task that may have no file yet. -/
def openSession (task : String) (path : Option String) : Act Bool := do
  let row ← get host task
  let row ← present task row
  if unbound row then
    match path with
    | none => do
        let path ← ask (host.startSession task row.title)
        bindSession host task row.revision path
        .ret true
    | some path => do
        let rows ← txn host .scan
        Prog.refuse (rows.any (fun e => e.2.sessionPath = some path && e.1 ≠ task))
          (.valueError "Session file belongs to another task")
        bindSession host task row.revision path
        .ret true
  else .ret true

/-- `rows`, with the lapses settled. -/
def rows : Act Bool := do
  settleLapsed host
  let _ ← txn host .scan
  .ret true

/-! ## The system -/

/-- The calls. -/
inductive Op where
  | create (task title creator : String)
  | rename (task title : String) (revision : Option ℤ)
  | claim (task owner label : String) (lease revision : Option ℤ)
  | release (task owner : String) (revision : Option ℤ)
  | markWriting (task owner : String) (revision : Option ℤ)
  | complete (task owner result : String) (revision : Option ℤ)
  | beginRun (task owner label : String) (revision lease : Option ℤ)
  | archive (task : String) (revision : Option ℤ)
  | setStatus (task : String) (board : Board) (revision : Option ℤ)
  | declared (requestId title : String) (isDone : Bool) (owner label : String)
      (project : Option String)
  | backfill
  | relocate (moved : List (String × String))
  | fold (declarations : List Declaration)
  | openSession (task : String) (path : Option String)
  | rows

/-- The program of a call. -/
def program : Op → Act Bool
  | .create task title creator => create host task title creator
  | .rename task title revision => rename host task title revision
  | .claim task owner label lease revision => claim host task owner label lease revision
  | .release task owner revision => release host task owner revision
  | .markWriting task owner revision => markWriting host task owner revision
  | .complete task owner result revision => complete host task owner result revision
  | .beginRun task owner label revision lease => beginRunCall host task owner label revision lease
  | .archive task revision => archive host task revision
  | .setStatus task board revision => setStatus host task board revision
  | .declared requestId title isDone owner label project =>
      declared host requestId title isDone owner label project
  | .backfill => do
      backfillSessions host
      .ret true
  | .relocate moved => relocateSessions host moved
  | .fold declarations => foldDeclarations host declarations
  | .openSession task path => openSession host task path
  | .rows => rows host

/-- Any number of workers on one task table, while the clock moves on. -/
def tasks : System Db Txn Fault Bool Op ℚ≥0 where
  program := program host
  env d db := { db with now := db.now + d }

end ArchHub.Tasks

import ArchHub.Lib.Requests
import ArchHub.Lib.Rows

/-!
# The relay queue

The cloud queues an instruction as a row of `agent_tasks` and waits for the founder's running
application to claim it and to post the answer.  Each statement that moves a row from one status
to another names the status it moves it from, and nothing else.

* `Db.change`: such a statement; `claimTask`, `finishAgentTask`, `retryAgentTask`,
  `expireAgentTask` are its uses, `drainAgentTasks` moves all queued rows at once.
* `queue`: the service of the callers, of the applications that poll and of the founder,
  statement by statement.  A post may arrive at any later time, and any number of times.

An instruction is the text that its caller composed; what an application makes of it is given
from outside, and so is the random part of an id.  Claims are numbered as they are made: the
program keeps no such number.
-/

namespace ArchHub.Relay

open Lib Service

/-! ## The table -/

inductive Status where
  | queued
  | claimed
  | running
  | done
  | failed
deriving DecidableEq

/-- A row of `agent_tasks`. -/
structure Task where
  id : String
  createdAt : ℤ
  createdBy : String
  kind : String
  directive : String
  status : Status := .queued
  claimedBy : Option String := none
  claimedAt : Option ℤ := none
  finishedAt : Option ℤ := none
  result : String := ""
deriving DecidableEq

structure Db where
  tasks : List Task
  /-- The number of the next claim. -/
  claims : ℕ

def Db.empty : Db := ⟨[], 0⟩

/-- `text[:n]`. -/
def firstChars (n : ℕ) (text : String) : String := String.ofList (text.toList.take n)

/-- `DIRECTIVE_LIMIT`, and what `enqueue_agent_task` keeps of a directive. -/
def directiveLimit : ℕ := 2000

/-- What `agent_tasks` keeps of a result. -/
def resultLimit : ℕ := 8000

theorem firstChars_of_le {n : ℕ} {text : String} (h : text.toList.length ≤ n) :
    firstChars n text = text := by
  unfold firstChars
  rw [List.take_of_length_le h, String.ofList_toList]

/-! ## Statements -/

/-- `get_agent_task`. -/
def Db.getAgentTask (db : Db) (id : String) : Option Task := Rows.select Task.id id db.tasks

/-- `UPDATE agent_tasks SET f WHERE id = ? AND status IN …`: the row it leaves, if it changes
one. -/
def Db.change (db : Db) (id : String) (among : Status → Bool) (f : Task → Task) :
    Option (Task × Db) :=
  match db.getAgentTask id with
  | none => none
  | some row =>
      if among row.status then some (f row, { db with tasks := Rows.update Task.id id f db.tasks })
      else none

/-- `enqueue_agent_task`; an id that is taken breaks the primary key. -/
def Db.enqueueAgentTask (db : Db) (hex directive createdBy kind : String) (now : ℤ) :
    Option (String × Db) :=
  match db.getAgentTask ("task_" ++ hex) with
  | some _ => none
  | none => some ("task_" ++ hex, { db with tasks := db.tasks ++
      [{ id := "task_" ++ hex, createdAt := now, createdBy := createdBy, kind := kind,
         directive := firstChars directiveLimit directive }] })

/-- The statement by which a task is claimed. -/
def Db.claimTask (db : Db) (id claimedBy : String) (now : ℤ) : Option (Task × Db) :=
  db.change id (fun s => s = .queued) fun t =>
    { t with status := .claimed, claimedBy := some claimedBy, claimedAt := some now }

/-- `finish_agent_task`. -/
def Db.finishAgentTask (db : Db) (id : String) (ok : Bool) (result : String) (now : ℤ) :
    Option (Task × Db) :=
  db.change id (fun s => s = .claimed ∨ s = .running) fun t =>
    { t with
      status := if ok then .done else .failed
      finishedAt := some now
      result := firstChars resultLimit result }

/-- `retry_agent_task`. -/
def Db.retryAgentTask (db : Db) (id : String) : Option (Task × Db) :=
  db.change id (fun s => s = .failed) fun t =>
    { t with
      status := .queued
      claimedBy := none
      claimedAt := none
      finishedAt := none
      result := "" }

/-- A task that is closed where it waits. -/
def Task.close (t : Task) (reason : String) (now : ℤ) : Task :=
  { t with status := .failed, finishedAt := some now, result := firstChars resultLimit reason }

/-- `expire_agent_task`. -/
def Db.expireAgentTask (db : Db) (id reason : String) (now : ℤ) : Option (Task × Db) :=
  db.change id (fun s => s = .queued) fun t => t.close reason now

/-- The tasks that `drain_agent_tasks` returns: it reads them before it opens a transaction. -/
def Db.queuedIds (db : Db) : List String :=
  (db.tasks.filter fun t => t.status = .queued).map Task.id

/-- The statement of `drain_agent_tasks`. -/
def Db.drainAgentTasks (db : Db) (reason : String) (now : ℤ) : Db :=
  { db with tasks := db.tasks.map fun t => if t.status = .queued then t.close reason now else t }

/-! ## Claims -/

/-- `APP_KINDS`. -/
def appKinds : List String :=
  ["app", "app-execute", "host-read", "host-effect", "workshop-call", "session-call"]

/-- One call of `poll_once`.  The cloud sees no more of the application than the name it goes
by; `app` tells the running ones apart. -/
structure Poll where
  app : ℕ
  claimedBy : String := "archhub-app"
  kinds : List String := ["app", "app-execute"]
  /-- The account that is signed in, stripped and lower-cased. -/
  account : String
deriving DecidableEq

/-- The kinds that `api_agent_task_claim` claims. -/
def Poll.claimKinds (p : Poll) : List String :=
  let named := p.kinds.filter fun k => k ∈ appKinds
  if named = [] then appKinds.filter fun k => k ≠ "workshop-call" else named

/-- The name a claim is made under. -/
def Poll.name (p : Poll) : String :=
  firstChars 120 (if p.claimedBy = "" then "archhub-app" else p.claimedBy)

/-- `LOWER` of a column, which changes ASCII letters only. -/
def lower (s : String) : String := String.ofList (s.toList.map Char.toLower)

/-- The oldest queued task of the kinds and the account of a poll. -/
def Db.oldest (db : Db) (p : Poll) : Option Task :=
  (Rows.orderBy (fun t : Task => toLex (t.createdAt, t.id)) (db.tasks.filter fun t =>
    t.status = .queued ∧ t.kind ∈ p.claimKinds ∧ lower t.createdBy = p.account)).head?

/-- The transaction of `claim_next_agent_task`, with the tries that are left: it opens with the
first `UPDATE`, so that a second `SELECT` reads what that statement found. -/
def Db.claimNext (db : Db) (p : Poll) (now : ℤ) : ℕ → String → Option (Task × Db)
  | 0, _ => none
  | n + 1, id => match db.claimTask id p.name now with
      | some claimed => some claimed
      | none => match db.oldest p with
          | none => none
          | some next => db.claimNext p now n next.id

/-! ## Requests -/

/-- What the functions that wait for one task have of their own. -/
structure Route where
  kind : String
  /-- The refusal of a directive that does not fit one task. -/
  tooLong : Option String
  /-- The reason that a task nobody claimed is closed with. -/
  unclaimed : String
  offline : String
  unanswered : String
deriving DecidableEq

/-- A directive on its route, and the account that sent it. -/
structure Call where
  route : Route
  directive : String
  actor : String
deriving DecidableEq

/-- The refusal of a call before anything is queued. -/
def Call.refusal (c : Call) : Option String :=
  if directiveLimit < c.directive.toList.length then c.route.tooLong else none

inductive Request where
  /-- The cockpit's `direct_agent`. -/
  | direct (directive kind actor : String)
  /-- `relay`. -/
  | relay (text actor : String) (execute : Bool)
  | call (c : Call)
  | poll (p : Poll)
  /-- `api_relay_retry`. -/
  | retry (id : String)
  /-- `api_relay_drain`. -/
  | drain (reason : String)
deriving DecidableEq

/-- `host_read`. -/
def hostRead (directive actor : String) : Request :=
  .call ⟨⟨"host-read", none,
    "device_offline: no running ArchHub app claimed this read",
    "device_offline: ArchHub is not open and signed in on your desktop, so nothing was read",
    "your ArchHub app took this read but has not answered yet"⟩, directive, actor⟩

/-- `host_effect`. -/
def hostEffect (directive actor : String) : Request :=
  .call ⟨⟨"host-effect", some "this effect is too long for one relay task; shorten it",
    "device_offline: no running ArchHub app claimed this effect",
    "device_offline: ArchHub is not open and signed in on your desktop, so nothing was run",
    "your ArchHub app took this effect but has not answered yet"⟩, directive, actor⟩

/-- `workshop_call`. -/
def workshopCall (directive actor : String) : Request :=
  .call ⟨⟨"workshop-call",
    some "this Workshop step is too long for one relay task; shorten the message",
    "device_offline: no running ArchHub app claimed this Workshop step",
    "device_offline: ArchHub is not open and signed in on the founder's desktop, so nothing " ++
      "was read or posted",
    "your ArchHub app took this Workshop step but has not answered yet; retry with the same " ++
      "idempotency_key"⟩, directive, actor⟩

/-- `session_call`. -/
def sessionCall (directive actor : String) : Request :=
  .call ⟨⟨"session-call", some "this session request is too long for one relay task; shorten it",
    "device_offline: no running ArchHub app claimed this session request",
    "device_offline: ArchHub is not open and signed in, so sessions are unavailable",
    "your ArchHub app took this session request but has not answered yet"⟩, directive, actor⟩

inductive Answer where
  /-- The id was taken. -/
  | raised
  | queued (id : String)
  | told (result : String)
  | refused (message : String)
  | offline (message : String)
  | unanswered (message : String)
  | pending (id : String)
  | idle
  | requeued
  | notFailed
  | drained (ids : List String)
deriving DecidableEq

/-- Where a request is between two statements. -/
inductive Phase where
  | called
  /-- The task is queued and `wait_for` polls it. -/
  | waiting (id : String)
  /-- The wait ran out before the task was finished. -/
  | leaving (id : String)
  /-- The task that the `SELECT` of a claim found. -/
  | picked (id : String)
  /-- The application has the task it claimed. -/
  | working (task : Task) (claim : ℕ)
  /-- The application has the answer it is to post. -/
  | answering (task : Task) (claim : ℕ) (ok : Bool) (text : String)
  /-- The answer was posted, and may arrive once more. -/
  | posted (task : Task) (claim : ℕ) (ok : Bool) (text : String) (accepted : Bool)
  | draining (ids : List String)
deriving DecidableEq

/-- What a step is given: the clock, the random part of an id, whether the wait is over, and
what the application makes of its task. -/
structure Reading where
  now : ℤ := 0
  hex : String := ""
  late : Bool := false
  ok : Bool := true
  text : String := ""
deriving DecidableEq

/-! ## The service -/

/-- What one look of `wait_for` finds.  `wait_for(…) or task` stands for a row that is gone. -/
inductive Waited where
  | answered (result : String)
  | refused (result : String)
  | gaveUp
  | again

def Db.waitFor (db : Db) (id : String) (late : Bool) : Waited :=
  match db.getAgentTask id with
  | none => .gaveUp
  | some row => match row.status with
      | .done => .answered row.result
      | .failed => .refused row.result
      | _ => if late then .gaveUp else .again

/-- `text or default`. -/
def orElse (text default : String) : String := if text = "" then default else text

/-- The post of an application reaches `api_agent_task_result`. -/
def Db.post (db : Db) (task : Task) (claim : ℕ) (ok : Bool) (text : String) (now : ℤ) :
    Db × (Phase ⊕ Answer) :=
  match db.finishAgentTask task.id ok (firstChars resultLimit text) now with
  | some (_, db') => (db', .inl (.posted task claim ok text true))
  | none => (db, .inl (.posted task claim ok text false))

/-- The next statement of a request. -/
def relayStep : Request → Phase → Reading → Db → Db × (Phase ⊕ Answer)
  | .direct directive kind actor, .called, i, db =>
      match db.enqueueAgentTask i.hex directive actor kind i.now with
      | none => (db, .inr .raised)
      | some (id, db') => (db', .inr (.queued id))
  | .relay text actor execute, .called, i, db =>
      match db.enqueueAgentTask i.hex text actor (if execute then "app-execute" else "app")
        i.now with
      | none => (db, .inr .raised)
      | some (id, db') => (db', .inl (.waiting id))
  | .relay _ _ _, .waiting id, i, db => match db.waitFor id i.late with
      | .answered result => (db, .inr (.told (orElse result "Your app answered with no text.")))
      | .refused result =>
          (db, .inr (.refused ("Your app refused: " ++ orElse result "no reason given")))
      | .gaveUp => (db, .inr (.pending id))
      | .again => (db, .inl (.waiting id))
  | .call c, .called, i, db => match c.refusal with
      | some message => (db, .inr (.refused message))
      | none => match db.enqueueAgentTask i.hex c.directive c.actor c.route.kind i.now with
          | none => (db, .inr .raised)
          | some (id, db') => (db', .inl (.waiting id))
  | .call _, .waiting id, i, db => match db.waitFor id i.late with
      | .answered result => (db, .inr (.told result))
      | .refused result =>
          (db, .inr (.refused ("your ArchHub app refused: " ++ orElse result "no reason given")))
      | .gaveUp => (db, .inl (.leaving id))
      | .again => (db, .inl (.waiting id))
  | .call c, .leaving id, i, db => match db.expireAgentTask id c.route.unclaimed i.now with
      | some (_, db') => (db', .inr (.offline c.route.offline))
      | none => (db, .inr (.unanswered c.route.unanswered))
  | .poll p, .called, _, db =>
      if p.account = "" then (db, .inr .idle)
      else match db.oldest p with
        | none => (db, .inr .idle)
        | some task => (db, .inl (.picked task.id))
  | .poll p, .picked id, i, db => match db.claimNext p i.now 3 id with
      | none => (db, .inr .idle)
      | some (task, db') => ({ db' with claims := db.claims + 1 }, .inl (.working task db.claims))
  | .poll _, .working task claim, i, db => (db, .inl (.answering task claim i.ok i.text))
  | .poll _, .answering task claim ok text, i, db => db.post task claim ok text i.now
  | .poll _, .posted task claim ok text _, i, db => db.post task claim ok text i.now
  | .retry id, .called, _, db => match db.retryAgentTask id with
      | some (_, db') => (db', .inr .requeued)
      | none => (db, .inr .notFailed)
  | .drain _, .called, _, db => (db, .inl (.draining db.queuedIds))
  | .drain reason, .draining ids, i, db =>
      (db.drainAgentTasks reason i.now, .inr (.drained ids))
  -- no other request is ever in such a phase
  | _, p, _, db => (db, .inl p)

/-- The queue under any number of callers, applications and founders. -/
def queue : Service Db Request Phase Answer Reading where
  first _ := .called
  step := relayStep

end ArchHub.Relay

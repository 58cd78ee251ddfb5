import Mathlib
import ArchHub.Hooks.Event
import ArchHub.Lib.Concurrent
import ArchHub.Lib.Dict
import ArchHub.Lib.Naming

/-!
# Approvals and their file

Every call that is held for approval is a row of one file.  What a locked section
does with the file is a function of what it has read: it returns the file to write,
where it writes one.

* `remember`, `takePermit`: what `decide` does with a call it holds.
* `claim`, `finish`: the two sections of `ask_apply`, around the release.
* `settle`, `closeApproval`: expiry and withdrawal.
* `HoldsFile.written`: what `_write_holds` leaves, the oldest closed rows dropped.

The id of a row is made from the call, so a row that is dropped leaves its id to the
next one for the same call.  A `ticket` tells the rows apart: it is no part of the
file, and no section looks at it.

Hook processes and the app share the approval file and reach it in sections, each
under a lock file.  A section is not one step: the lock file is made, the file is
read, the file is replaced, the lock file is removed; and a lock file that is older
than five seconds is removed by whoever waits for it, whether its section has ended
or not.  What is released is run outside of any section.

* `withAskFile`: `_with_ask_file` — the lock, a section, and the removal of the lock.
* `holdCall`, `askApply`, `settleApprovals`, `closeCall`: the calls.
* `approvals`: the calls of any workers in any order.  A worker makes one call; a
  call that crashes never makes its next step.

`Shared.log` and `Shared.hands` are not stored anywhere: they tell which tickets were
approved, closed and run, and which one a worker has claimed and not yet released.
-/

namespace ArchHub.Hooks

open Lib

/-- The status of a row. -/
inductive Status
  | pending
  | releasing
  | approved
  | failed
  | declined
  | expired
  | withdrawn
deriving DecidableEq, Repr

/-- `APPROVAL_OUTCOMES`. -/
inductive Outcome
  | approved
  | denied
  | expired
  | withdrawn
deriving DecidableEq, Repr

/-- What is run when a call is released. -/
inductive Replay
  | canvas (payload : Value)
  | connector (connector action : String) (arguments : Value)
  | remote (tool : String) (arguments : Value)
  | host (params : Value)
  | permit (tool : String) (arguments : Value)
deriving DecidableEq

/-- Whether a release only leaves a permit. -/
def Replay.isPermit : Replay → Bool
  | .permit _ _ => true
  | _ => false

/-- Who asked, when, for what. -/
structure Asked where
  who : String
  time : String
  what : String
deriving DecidableEq

/-- Who decided, when, and what. -/
structure Decided where
  who : String
  time : String
  outcome : Outcome
deriving DecidableEq

/-- A row of the approval file. -/
structure Hold where
  ticket : ℕ
  id : String
  inputDigest : String
  status : Status
  opened : ℚ
  title : String
  who : String
  text : String
  textLabel : String
  summary : String
  permitOpen : Bool
  replay : Replay
  asked : Asked
  decided : Option Decided
  error : String
  result : Option String
deriving DecidableEq

/-- The approval file. -/
structure HoldsFile where
  revision : ℤ
  holds : Dict String Hold

/-- A file with no rows. -/
def HoldsFile.empty : HoldsFile := ⟨0, Dict.empty⟩

/-- A row of the file. -/
def HoldsFile.row? (file : HoldsFile) (root : String) : Option Hold := file.holds.get? root

/-- The file with a row. -/
def HoldsFile.setRow (file : HoldsFile) (root : String) (row : Hold) : HoldsFile :=
  { file with holds := file.holds.set root row }

/-! ## Writing -/

/-- The closed rows that `_write_holds` drops. -/
def HoldsFile.dropped (file : HoldsFile) : List String :=
  let closed := file.holds.entries.filter (fun e => e.2.status ≠ .pending)
  let oldest := closed.mergeSort (fun a b => a.2.opened ≤ b.2.opened)
  (oldest.take (closed.length - 200)).map Prod.fst

/-- What `_write_holds` writes. -/
def HoldsFile.written (file : HoldsFile) : HoldsFile where
  revision := file.revision + 1
  holds := file.holds.filter (fun e => e.1 ∉ file.dropped)

/-! ## A call that is held -/

variable (host : Host)

/-- The input of a held call; where it is no dictionary, nothing. -/
def heldInput (event : Event) : Value := if event.input.isDict then event.input else .dict []

/-- `_call_digest`. -/
def callDigest (event : Event) (action : Action) (rule : String) : String :=
  let input := if event.input.isDict then event.input else .dict [("value", event.input)]
  host.sha256 (host.dumps (.dict
    [("vendor", .str event.vendor), ("session", .str event.session), ("tool", .str event.tool),
      ("action", .str action.name), ("rule", .str rule), ("input", input)]))

/-- The session of the remote relay. -/
def remoteRelay : String := "archhub-remote-relay"

/-- `_ASK_VENDORS`. -/
def askVendor : String → Option String
  | "claude-code" => some "Claude"
  | "codex" => some "Codex"
  | "gemini-cli" => some "Gemini"
  | "antigravity" => some "Gemini"
  | "opencode" => some "OpenCode"
  | _ => none

/-- `_ask_who`. -/
def askWho (event : Event) (data : Value) : String :=
  if event.session = remoteRelay then "Remote agent"
  else match askVendor event.vendor with
    | some name => name
    | none =>
        let connector := (data.get? "connector").getD .none
        if connector.truthy then host.label (host.text connector) else "This run"

/-- The first of some keys that holds a text that is not empty. -/
def firstText (data : Value) (keys : List Key) : Option String :=
  (textsAt data keys).find? (fun s => s ≠ "")

/-- `_ask_text`: the text to show, and its label. -/
def askText (action : Action) (data : Value) : String × String :=
  match data.get? "node", data.get? "feeds" with
  | some (.dict node), some (.dict feeds) =>
      (host.pretty (.dict [("parameters", ((Value.dict node).get? "params").getD .none),
        ("inputs", .dict feeds)]), "Parameters to run")
  | _, _ =>
      if action = .send || action = .publish then
        let label := if action = .publish then "Text to post" else "Text to send"
        let keys : List Key := ["text", "body", "content", "message", "query"]
        match firstText data keys with
        | some text => (text, label)
        | none => match data.get? "arguments" with
          | some (.dict es) => ((firstText (.dict es) keys).getD "", label)
          | _ => ("", label)
      else ("", "")

/-- `_ask_replay`. -/
def askReplay (event : Event) : Replay :=
  let data := heldInput event
  let field := fun k => (data.get? k).getD .none
  if event.tool = "canvas.run" then .canvas data
  else if (field "connector").truthy && (data.get? "arguments").isSome then
    .connector (host.text (field "connector")) event.tool (field "arguments")
  else if event.session = remoteRelay then .remote event.tool data
  else if event.tool = "write" && (data.get? "code").isSome && field "host" ≠ .none then
    .host (.dict [("host", orValue (data.get? "host") (.str "")),
      ("code", orValue (data.get? "code") (.str "")),
      ("document", orValue (data.get? "path") (.str "")),
      ("transaction_name", orValue (data.get? "transaction_name") (.str "")),
      ("transaction", .bool true)])
  else .permit event.tool data

/-- `_ASK_TITLES`. -/
def askTitle : Action → String
  | .send => "Send"
  | .publish => "Post"
  | .delete => "Delete"
  | .write => "Edit"
  | .shell => "Run a command"
  | .screen => "Use the screen"
  | _ => "Run"

/-- The ids a row for a call can have: the first that is free is taken. -/
def rowId (base : String) (n : ℕ) : String := if n = 0 then base else base ++ ":" ++ toString (n + 1)

/-- The first free id from the `n`-th on, among `fuel` of them. -/
def freeId (file : HoldsFile) (base : String) (n : ℕ) : ℕ → Option String
  | 0 => none
  | fuel + 1 =>
      if file.holds.contains (rowId base n) then freeId file base (n + 1) fuel
      else some (rowId base n)

/-- The id of a new row. -/
def newId (file : HoldsFile) (digest : String) : Option String :=
  freeId file ("app:ask:" ++ String.ofList (digest.toList.take 24)) 0 (file.holds.size + 1)

/-- The row of a call that is held. -/
def newRow (event : Event) (action : Action) (digest summary : String) (now : ℚ) (ticket : ℕ)
    (id : String) : Hold :=
  let shown := askText host action (heldInput event)
  let who := askWho host event (heldInput event)
  { ticket := ticket, id := id, inputDigest := digest, status := .pending, opened := now,
    title := askTitle action, who := who, text := shown.1, textLabel := shown.2,
    summary := summary, permitOpen := false, replay := askReplay host event,
    asked := ⟨who, host.approvalNow now, if summary ≠ "" then summary else shown.1⟩,
    decided := none, error := "", result := none }

/-! ## The sections -/

/-- What a section comes to: its answer, and the file it writes. -/
structure Section (α : Type) where
  answer : α
  next : Option HoldsFile

/-- `_remember`; the answer is the id of the row. -/
def remember (event : Event) (action : Action) (digest summary : String) (now : ℚ) (ticket : ℕ)
    (file : HoldsFile) : Section String :=
  match file.holds.values.find? (fun row => row.status = .pending && row.inputDigest = digest) with
  | some row => ⟨row.id, none⟩
  | none => match newId file digest with
    | none => ⟨"", none⟩
    | some id => ⟨id, some (file.setRow id (newRow host event action digest summary now ticket id))⟩

/-- The first row with an open permit for a call. -/
def openPermit (digest : String) (file : HoldsFile) : Option (String × Hold) :=
  file.holds.entries.find?
    (fun e => e.2.permitOpen && e.2.inputDigest = digest && e.2.status = .approved)

/-- `_take_permit`; the answer is the row whose permit is taken. -/
def takePermit (digest : String) (file : HoldsFile) : Section (Option Hold) :=
  match openPermit digest file with
  | none => ⟨none, none⟩
  | some (root, row) => ⟨some row, some (file.setRow root { row with permitOpen := false })⟩

/-- `_stamp_decision`. -/
def Hold.stamped (row : Hold) (who : String) (now : ℚ) (outcome : Outcome) : Hold :=
  { row with decided := some ⟨who, host.approvalNow now, outcome⟩ }

/-- `expire_seconds`. -/
def expireSeconds : ℚ := 86400

/-- A pending row whose time has run out. -/
def Hold.lapsed (now : ℚ) (row : Hold) : Bool :=
  row.status = .pending && expireSeconds ≤ now - row.opened

/-- `settle_approvals`; the answer are the rows it has closed. -/
def settle (now : ℚ) (file : HoldsFile) : Section (List Hold) :=
  let closed := file.holds.values.filter (Hold.lapsed now)
  let expire := fun (_ : String) (row : Hold) =>
    if row.lapsed now then { row.stamped host "clock" now .expired with status := .expired } else row
  ⟨closed, if closed = [] then none else some { file with holds := file.holds.map expire }⟩

/-- Why an approval cannot be decided. -/
def closedText : String := "This approval is closed."

/-- How an approval is closed without a decision. -/
inductive Closing
  | expired
  | withdrawn
deriving DecidableEq, Repr

/-- The status a closing leaves. -/
def Closing.status : Closing → Status
  | .expired => .expired
  | .withdrawn => .withdrawn

/-- The outcome of a closing. -/
def Closing.outcome : Closing → Outcome
  | .expired => .expired
  | .withdrawn => .withdrawn

/-- `_close_approval`; the answer is the row that is closed. -/
def closeApproval (root who : String) (closing : Closing) (now : ℚ) (file : HoldsFile) :
    Except String (Section Hold) :=
  match file.row? root with
  | none => .error root
  | some row =>
      if row.status ≠ .pending then .error closedText
      else
        let row' := { row.stamped host who now closing.outcome with status := closing.status }
        .ok ⟨row', some (file.setRow root row')⟩

/-- The founder's word. -/
inductive Decision
  | approve
  | deny
deriving DecidableEq, Repr

/-- What the first section of `ask_apply` comes to. -/
inductive Claimed
  /-- There is nothing to release: the card as it stands. -/
  | card (row : Hold)
  /-- The call is denied. -/
  | denied (row : Hold)
  /-- The call is to be released. -/
  | release (row : Hold)

/-- `ask_apply`: the section that claims the row. -/
def claim (root digest : String) (decision : Decision) (who : String) (now : ℚ)
    (file : HoldsFile) : Except String (Section Claimed) :=
  match file.row? root with
  | none => .error "Decide the exact approval shown."
  | some row =>
      if row.inputDigest ≠ digest then .error "Decide the exact approval shown."
      else if row.status = .approved && decision = .approve then .ok ⟨.card row, none⟩
      else if row.status ≠ .pending then .error closedText
      else match decision with
        | .deny =>
            let row' := { row.stamped host who now .denied with status := .declined }
            .ok ⟨.denied row', some (file.setRow root row')⟩
        | .approve =>
            let row' := { row.stamped host who now .approved with status := .releasing }
            .ok ⟨.release row', some (file.setRow root row')⟩

/-- What a release came to: a permit, what the call returned, or why it failed. -/
inductive Released
  | permit
  | done (result : Option String)
  | failed (error : String)
deriving DecidableEq

/-- `ask_apply`: the section that closes the row. -/
def finish (root : String) (released : Released) (file : HoldsFile) : Except String (Section Hold) :=
  match file.row? root with
  | none => .error "This approval is no longer in the file."
  | some row =>
      let row' := match released with
        | .permit => { row with status := .approved, permitOpen := true }
        | .done none => { row with status := .approved, permitOpen := false }
        | .done (some result) =>
            { row with status := .approved, permitOpen := false, result := some result }
        | .failed error =>
            { row with
              status := .failed, permitOpen := false,
              error := if error ≠ "" then error else row.error }
      .ok ⟨row', some (file.setRow root row')⟩

end ArchHub.Hooks

namespace ArchHub.Hooks

open Lib

/-- The lock file: who made it, and when. -/
structure Lock (W : Type) where
  owner : W
  made : ℚ

/-- What has been done with a ticket. -/
inductive Entry
  | approved (ticket : ℕ)
  | closed (ticket : ℕ)
  | ran (ticket : ℕ)
deriving DecidableEq, Repr

/-- A ticket a worker has claimed: its row, and whether a release only leaves a
permit. -/
structure Claim where
  ticket : ℕ
  root : String
  permit : Bool
deriving DecidableEq

/-- What the workers share. -/
structure Shared (W : Type) where
  file : Option HoldsFile
  /-- Whether the file can be read, and holds JSON text. -/
  readable : Bool
  /-- Whether the file can be replaced. -/
  writable : Bool
  lock : Option (Lock W)
  now : ℚ
  nextTicket : ℕ
  hands : W → Option Claim
  log : List Entry

variable {W : Type}

/-- The rows of the file. -/
def Shared.held (s : Shared W) : HoldsFile := s.file.getD HoldsFile.empty

/-- `_read_holds`: a file that cannot be read has no rows. -/
def Shared.seen (s : Shared W) : HoldsFile := if s.readable then s.held else HoldsFile.empty

/-- A write of a section: the file, what it does with which tickets, and what the
worker has claimed from then on. -/
structure Write where
  next : HoldsFile
  noted : List Entry
  hand : Option Claim

/-- What a step is. -/
inductive Label
  | create
  | look
  | break
  | read
  | write (x : Write)
  | unlock
  | run (ticket : ℕ)

/-- The rest of a call. -/
abbrev Calling (W α : Type) := Prog (Shared W) Label String α

variable [DecidableEq W]

/-- The file is replaced. -/
def Shared.write (w : W) (x : Write) (s : Shared W) : Shared W :=
  { s with
    file := some x.next.written,
    nextTicket := s.nextTicket + 1,
    hands := Function.update s.hands w x.hand,
    log := s.log ++ x.noted }

/-- A held call is run. -/
def Shared.run (w : W) (ticket : ℕ) (s : Shared W) : Shared W :=
  { s with hands := Function.update s.hands w none, log := s.log ++ [.ran ticket] }

variable (w : W)

/-- The lock file is made, where there is none. -/
def tryLock : Calling W Bool :=
  .step .create
    (fun s => .ok (if s.lock.isNone then { s with lock := some ⟨w, s.now⟩ } else s))
    (fun s => .ret s.lock.isNone)

/-- The lock file is removed. -/
def removeLock (label : Label) : Calling W Unit :=
  .step label (fun s => .ok { s with lock := none }) (fun _ => .ret ())

/-- The tries to make the lock file. -/
def acquire : ℕ → Calling W Bool
  | 0 => .ret false
  | n + 1 => do
      let made ← tryLock w
      if made then return true
      let stale ← Prog.observe .look (fun s => s.lock.any (fun lock => 5 < s.now - lock.made))
      if stale then removeLock .break
      acquire n

/-- What a section sees: the file, the time, and the ticket of a new row. -/
structure Seen where
  file : HoldsFile
  now : ℚ
  ticket : ℕ

/-- What a section does: its answer, and its write. -/
structure Change (α : Type) where
  answer : α
  write : Option Write

/-- `_with_ask_file`; `none` where an `OSError` is raised. -/
def withAskFile {α : Type} (change : Seen → Except String (Change α)) :
    Calling W (Option α) := do
  let held ← acquire w 40
  if held then
    let seen ← Prog.observe .read (fun s => (⟨s.seen, s.now, s.nextTicket⟩ : Seen))
    match change seen with
    | .error text =>
        removeLock .unlock
        .raise text
    | .ok ⟨answer, none⟩ =>
        removeLock .unlock
        return some answer
    | .ok ⟨answer, some x⟩ =>
        let saved ← Prog.step (.write x) (fun s => .ok (if s.writable then s.write w x else s))
          (fun s => .ret s.writable)
        removeLock .unlock
        if saved then return some answer else return none
  else return none

/-! ## The sections, with what they do to tickets -/

variable (host : Host)

/-- A section as a change. -/
def Section.change {α β : Type} (x : Section α) (answer : β) (noted : List Entry)
    (hand : Option Claim) : Change β :=
  ⟨answer, x.next.map (fun next => ⟨next, noted, hand⟩)⟩

/-- `_remember`. -/
def rememberChange (event : Event) (action : Action) (digest summary : String) (seen : Seen) :
    Change String :=
  let x := remember host event action digest summary seen.now seen.ticket seen.file
  x.change x.answer [] none

/-- `_take_permit`: a permit that is taken lets a call through. -/
def takePermitChange (digest : String) (seen : Seen) : Change Bool :=
  let x := takePermit digest seen.file
  x.change x.answer.isSome (x.answer.toList.map (fun row => .ran row.ticket)) none

/-- `settle_approvals`. -/
def settleChange (seen : Seen) : Change (List String) :=
  let x := settle host seen.now seen.file
  x.change (x.answer.map Hold.id) (x.answer.map (fun row => .closed row.ticket)) none

/-- `_close_approval`. -/
def closeChange (root who : String) (closing : Closing) (seen : Seen) :
    Except String (Change Hold) :=
  (closeApproval host root who closing seen.now seen.file).map fun x =>
    x.change x.answer [.closed x.answer.ticket] none

/-- `ask_apply`: the claim. -/
def claimChange (root digest : String) (decision : Decision) (who : String) (seen : Seen) :
    Except String (Change Claimed) :=
  (claim host root digest decision who seen.now seen.file).map fun x =>
    match x.answer with
    | .card _ => x.change x.answer [] none
    | .denied row => x.change x.answer [.closed row.ticket] none
    | .release row =>
        x.change x.answer [.approved row.ticket] (some ⟨row.ticket, root, row.replay.isPermit⟩)

/-- `ask_apply`: the end. -/
def finishChange (root : String) (released : Released) (seen : Seen) : Except String (Change Hold) :=
  (finish root released seen.file).map fun x => x.change x.answer [] none

/-! ## The calls -/

/-- A call. -/
inductive Call
  /-- `decide` has a call to hold. -/
  | hold (event : Event) (action : Action) (rule summary : String)
  /-- Approve or Deny; and what the held call comes to when it is run. -/
  | apply (root digest : String) (decision : Decision) (outcome : Except String (Option String))
  | settle
  | close (root who : String) (closing : Closing)

/-- What a call returns. -/
inductive Reply
  /-- The call goes through on a permit. -/
  | permitted
  /-- The call waits for approval, under this id. -/
  | waits (id : String)
  | card (row : Hold)
  | settled (ids : List String)

/-- `_take_permit`; a file that cannot be locked has no permit. -/
def takePermitCall (digest : String) : Calling W Bool := do
  let there ← Prog.observe .look (fun s => s.file.isSome)
  if there then
    let taken ← withAskFile w (fun seen => .ok (takePermitChange digest seen))
    return taken = some true
  else return false

/-- Where `decide` holds a call: a permit lets it through, or it is one pending
card. -/
def holdCall (event : Event) (action : Action) (rule summary : String) : Calling W Reply := do
  let digest := callDigest host event action rule
  let taken ← takePermitCall w digest
  if taken then return .permitted
  let id ← withAskFile w (fun seen => .ok (rememberChange host event action digest summary seen))
  return .waits (id.getD "")

/-- `_release_ask`: what a claimed row is released to. -/
def releaseAsk (row : Hold) (outcome : Except String (Option String)) : Calling W Released :=
  if row.replay.isPermit then .ret .permit
  else .step (.run row.ticket) (fun s => .ok (s.run w row.ticket)) fun _ =>
    .ret (match outcome with
      | .ok result => .done result
      | .error text => .failed text)

/-- `ask_apply`. -/
def askApply (root digest : String) (decision : Decision) (outcome : Except String (Option String)) :
    Calling W Reply := do
  match ← withAskFile w (claimChange host root digest decision "founder") with
  | none => .raise "The approval could not be saved."
  | some (.card row) => return .card row
  | some (.denied row) => return .card row
  | some (.release row) =>
      let released ← releaseAsk w row outcome
      match ← withAskFile w (finishChange root released) with
      | none => .raise "The approval could not be saved."
      | some row => match released with
        | .failed text => .raise (if text = "" then "The held action failed." else text)
        | _ => return .card row

/-- `settle_approvals`. -/
def settleApprovals : Calling W Reply := do
  let there ← Prog.observe .look (fun s => s.file.isSome)
  if there then
    match ← withAskFile w (fun seen => .ok (settleChange host seen)) with
    | none => .raise "The approval file is busy."
    | some ids => return .settled ids
  else return .settled []

/-- `expire_approval` and `withdraw_approval`. -/
def closeCall (root who : String) (closing : Closing) : Calling W Reply := do
  match ← withAskFile w (closeChange host root who closing) with
  | none => .raise "The approval file is busy."
  | some row => return .card row

/-- What a worker calls. -/
def program : W × Call → Calling W Reply
  | (w, .hold event action rule summary) => holdCall w host event action rule summary
  | (w, .apply root digest decision outcome) => askApply w host root digest decision outcome
  | (w, .settle) => settleApprovals w host
  | (w, .close root who closing) => closeCall w host root who closing

/-- What happens by itself: the time goes on, the file can be read and replaced or
cannot. -/
structure Weather where
  now : ℚ
  readable : Bool
  writable : Bool

/-- Calls of any workers, in any order. -/
def approvals : System (Shared W) Label String Reply (W × Call) Weather where
  program := program host
  env e s := { s with now := e.now, readable := e.readable, writable := e.writable }

/-- Nothing has been asked yet. -/
def Shared.start : Shared W :=
  { file := none, readable := true, writable := true, lock := none, now := 0, nextTicket := 0,
    hands := fun _ => none, log := [] }

end ArchHub.Hooks

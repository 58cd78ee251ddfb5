import Mathlib
import ArchHub.Lib.Dict
import ArchHub.Hooks.Event

/-!
# The decision on a tool call

`decide` classifies a call, lets the scanners look at it, asks the session's trace
and the policy, and returns a verdict.

* `policy`: the `forbid` statements of the Cedar policy.
* `traceRules`: the trace of a session, its last fifty calls in one file, and the two
  rules over it.
* `decide`: the decision, and what it leaves in the files.

Everything a call finds outside of its own payload is in its `Circumstances`: the
clock, the scanners, whether files can be read and written, the settings, and what
becomes of it where it is held.
-/

namespace ArchHub.Hooks

open Lib

/-! ## The policy -/

/-- The context of a request. -/
structure Context where
  secret : Bool
  clientData : Bool
  founderData : Bool
  trifecta : Bool
  bannedPackage : Bool
deriving DecidableEq

/-- A `forbid` statement: for which actions, and when. -/
structure Forbid where
  id : String
  actions : Option (List Action)
  condition : Context → Bool

/-- The `forbid` statements of `POLICY`, in their order. -/
def policy : List Forbid :=
  [⟨"secret-going-public", some [.publish, .send], Context.secret⟩,
    ⟨"client-data-going-public", some [.publish, .send], Context.clientData⟩,
    ⟨"delete-founder-data", some [.delete], Context.founderData⟩,
    ⟨"use-founder-screen", some [.screen], fun _ => true⟩,
    ⟨"lethal-trifecta", some [.publish, .send], Context.trifecta⟩,
    ⟨"banned-package", none, Context.bannedPackage⟩]

/-- The `@id` of every statement of `POLICY`: first the permit of everything. -/
def policyIds : List String := "baseline-permit" :: policy.map Forbid.id

/-- A statement forbids a request. -/
def Forbid.applies (f : Forbid) (action : Action) (context : Context) : Bool :=
  f.actions.all (·.contains action) && f.condition context

/-- What the engine answers; a denial gives the statements that forbid. -/
inductive Ruling
  | allow
  | deny (reasons : List String)
deriving DecidableEq

/-- `cedarpy.is_authorized` of `POLICY`, for the agent of a vendor. -/
abbrev Engine := Action → Context → String → Ruling

/-- The engine follows the policy: everything is permitted that no statement
forbids. -/
def Engine.Follows (engine : Engine) : Prop :=
  ∀ action context vendor,
    engine action context vendor = .allow ↔ ∀ f ∈ policy, f.applies action context = false

/-- The number in a reason. -/
def reasonNumber (reason : String) : Option ℕ :=
  let digits := reason.toList.drop 6
  if "policy".toList.isPrefixOf reason.toList && digits ≠ [] && digits.all Char.isDigit then
    some (Nat.ofDigitChars 10 digits 0)
  else none

/-- How a scanner went. -/
inductive ScanState
  | skipped
  | ok
  | unavailable
  | unwritable (error : String)
deriving DecidableEq, Repr

/-- `cedar_forbids`: how the engine went, and the ids that forbid. -/
def cedarForbids (engine : Option Engine) (action : Action) (context : Context) (vendor : String) :
    ScanState × List String :=
  match engine with
  | none => (.unavailable, [])
  | some engine => match engine action context vendor with
    | .allow => (.ok, [])
    | .deny reasons =>
        let named := reasons.filterMap fun r => (reasonNumber r).bind (policyIds[·]?)
        (.ok, if named ≠ [] then named else if reasons ≠ [] then reasons else ["forbid"])

/-! ## Settings -/

/-- `RUN_MODES`. -/
inductive RunMode
  | askFirst
  | acceptEdits
  | planOnly
deriving DecidableEq, Repr

/-- `TOOL_MODES`. -/
inductive ToolMode
  | off
  | ask
  | allowed
deriving DecidableEq, Repr

/-- `permissions.json`: the tools are names or patterns. -/
structure Permissions where
  runMode : RunMode
  tools : Dict String ToolMode

/-- `DEFAULT_PERMISSIONS`. -/
def defaultPermissions : Permissions := ⟨.acceptEdits, Dict.empty⟩

/-- A verdict. -/
inductive Verdict
  | allow
  | organize
  | ask
  | refuse
deriving DecidableEq, Repr

/-- `_ROUTINE`. -/
def routine : List Action := [.read, .write, .shell, .other]

/-- `mode_verdict`. -/
def modeVerdict (host : Host) (event : Event) (action : Action) (permissions : Permissions)
    (ownFolder : Bool) : Option (Verdict × String) :=
  let tool := host.lower event.tool
  match permissions.tools.entries.find? (fun e => host.fnmatch (host.lower e.1) tool) with
  | some (_, .allowed) => none
  | some (_, .off) => some (.refuse, "tool-off")
  | some (_, .ask) => some (.ask, "tool-ask")
  | none =>
      if action = .read ∨ permissions.runMode = .acceptEdits then none
      else if permissions.runMode = .planOnly then some (.refuse, "plan-only")
      else if routine.contains action && ownFolder then none
      else some (.ask, "ask-first")

/-- `_REASONS`. -/
def reasonText : String → String
  | "secret-going-public" => "a secret would go public"
  | "client-data-going-public" => "client or personal data would go public"
  | "delete-founder-data" => "this deletes the founder's data"
  | "use-founder-screen" => "this drives the founder's screen"
  | "lethal-trifecta" => "private data plus untrusted content would be sent out"
  | "banned-package" =>
      "LiteLLM is banned (PyPI litellm 1.82.7 and 1.82.8, March 2026, carried a credential " ++
        "stealer); route models through nodelang/model_router.py instead"
  | "raw-outlook-mail" =>
      "Use the Email draft node (it fills his signature template); sending only when he asks."
  | "tool-off" => "this tool is Off in Settings"
  | "plan-only" => "Plan only is on in Settings, so nothing changes"
  | "tool-ask" => "this tool is set to Ask in Settings"
  | "ask-first" =>
      "Ask first is on in Settings and this deletes, publishes, sends or works outside your folders"
  | rule => rule

/-! ## What a call finds -/

/-- What a finding is about. -/
inductive FindingKind
  | secret
  | pii
  | trace
deriving DecidableEq, Repr

/-- A finding. -/
structure Finding where
  kind : FindingKind
  rule : String
  place : String
deriving DecidableEq

/-- What a scan returns. -/
structure Scan where
  state : ScanState
  found : List Finding
  version : String

/-- What a call finds when it is decided. -/
structure Circumstances where
  /-- `os.getcwd()`. -/
  workingDir : String
  now : ℚ
  /-- Whether the trace file of the session can be read, and holds JSON text. -/
  traceReadable : Bool
  /-- The name of the error with which the trace file is not written. -/
  traceError : Option String
  /-- Where a written path leads, from a working directory. -/
  resolved : String → String → String
  /-- `scan_secrets` of a text. -/
  scanSecrets : String → Scan
  /-- `scan_secrets` of what a push from a directory would publish. -/
  scanPush : String → Scan
  /-- `scan_pii`. -/
  scanPii : String → Scan
  /-- The policy engine, where it is installed. -/
  engine : Option Engine
  /-- `permissions.json`, where it can be read and passes its check. -/
  permissions : Option Permissions
  /-- `own_folder`. -/
  ownFolder : Bool
  /-- `founder_data_targeted`. -/
  founderData : Bool
  /-- `_delete_targets`. -/
  deleteTargets : List String
  /-- The paths with a drive letter in a text. -/
  drivePaths : String → List String
  /-- `_RELEASING`. -/
  releasing : Bool
  /-- What `_take_permit` returns. -/
  permitTaken : Bool
  /-- What `_remember` returns. -/
  holdId : String
  /-- Whether the log of refusals can be written. -/
  refusalsWritable : Bool

/-- A call that comes in. -/
structure Request where
  payload : Value
  vendor : String
  found : Circumstances

/-! ## The trace of a session -/

/-- A call in the trace of a session. -/
structure TraceRow where
  time : ℚ
  tool : String
  action : Action
  key : String
  privateData : Bool
  untrusted : Bool
  /-- Only in the last row: what the session has written so far. -/
  writtenPaths : List String
deriving DecidableEq

/-- A refusal in the log. -/
structure Refusal where
  time : ℚ
  session : String
  tool : String
  paths : List String
  rules : List String

/-- What the calls leave behind: the traces, each in the file of its session, and the
log of refusals. -/
structure Files where
  traces : Dict String (List TraceRow)
  refusals : List Refusal

/-- Nothing has been called yet. -/
def Files.empty : Files := ⟨Dict.empty, []⟩

/-- What `trace_rules` returns, and the traces it leaves. -/
structure Traced where
  trifecta : Bool
  looping : Bool
  state : ScanState
  traces : Dict String (List TraceRow)

variable (host : Host)

/-- The name of the trace file of a session. -/
def traceName (session : String) : String := String.ofList ((host.sha256 session).toList.take 32)

/-- The trace that is read. -/
def readTrace (c : Circumstances) (traces : Dict String (List TraceRow)) (session : String) :
    List TraceRow :=
  if c.traceReadable then (traces.get? (traceName host session)).getD [] else []

/-- What the session has written, with a call. -/
def writtenPaths (c : Circumstances) (event : Event) (action : Action) (trace : List TraceRow) :
    List String :=
  let written := trace.flatMap TraceRow.writtenPaths
  let target := firstOf event.input ((event.input.get? "filePath").getD .none) ["file_path", "path"]
  let written : List String := match target with
    | .str s => if action = .write ∧ s ≠ "" then c.resolved s event.cwd :: written else written
    | _ => written
  written.dedup.mergeSort (fun a b => decide (a ≤ b))

/-- `trace_rules`. -/
def traceRules (c : Circumstances) (event : Event) (action : Action) (facts : Facts)
    (traces : Dict String (List TraceRow)) : Traced :=
  if event.session = "" then ⟨false, false, .skipped, traces⟩
  else
    let rows := readTrace host c traces event.session
    let written := writtenPaths c event action rows
    let trace := rows.map fun row => { row with writtenPaths := [] }
    let key := host.sha256 (event.tool ++ "\x00" ++ host.dumpsSpaced event.input)
    let privateData := facts.privateData || trace.any TraceRow.privateData
    let untrusted := facts.untrusted || trace.any TraceRow.untrusted
    -- His own workspace is not the outbound leg.
    let trifecta := leavesHisAccount host action event.tool event.input && privateData && untrusted
    let looping := 4 ≤ (trace.rtake 9).countP (fun row => row.key = key)
    let row : TraceRow := ⟨c.now, event.tool, action, key, facts.privateData, facts.untrusted, written⟩
    match c.traceError with
    | none => ⟨trifecta, looping, .ok,
        traces.set (traceName host event.session) ((trace ++ [row]).rtake 50)⟩
    | some error => ⟨trifecta, looping, .unwritable error, traces⟩

/-! ## The decision -/

/-- How the scanners of a decision went. -/
structure Scanners where
  secrets : ScanState
  pii : ScanState
  policy : ScanState
  trace : ScanState

/-- A decision. -/
structure CallDecision where
  verdict : Verdict
  vendor : String
  tool : String
  action : Action
  rules : List String
  notes : List String
  findings : List Finding
  scanners : Scanners
  mode : RunMode
  hold : Option String
  paths : Option (List String)

/-- What `decide` comes to. -/
inductive Answer
  | decision (d : CallDecision)
  /-- An Approve or Deny: its owner decides. -/
  | approval

/-- The verdict on a tool call. -/
def Answer.verdict : Answer → Option Verdict
  | .decision d => some d.verdict
  | .approval => none

/-- `_ALIAS`. -/
def vendorOf : String → String
  | "claude" => "claude-code"
  | "gemini" => "gemini-cli"
  | vendor => vendor

/-- The actions whose texts are scanned for secrets. -/
def scannedActions : List Action := [.write, .publish, .send, .shell, .other]

/-- The scan for secrets. -/
def secretScan (c : Circumstances) (event : Event) (action : Action) (facts : Facts) : Scan :=
  if action ∈ scannedActions ∧ facts.text ≠ "" then
    let text := c.scanSecrets facts.text
    if action = .publish ∧ host.search .gitPush facts.command ∧ event.cwd ≠ "" ∧
        text.state = .ok then
      let push := c.scanPush event.cwd
      ⟨push.state, text.found ++ push.found, if push.version ≠ "" then push.version else text.version⟩
    else text
  else ⟨.skipped, [], ""⟩

/-- The scan for personal data. -/
def piiScan (c : Circumstances) (action : Action) (facts : Facts) : Scan :=
  if (action = .publish ∨ action = .send) ∧ host.search .personalHint facts.text then
    c.scanPii facts.text
  else ⟨.skipped, [], ""⟩

/-- What the rules over the trace find. -/
def traceFindings (traced : Traced) : List Finding :=
  (if traced.trifecta then [⟨.trace, "lethal-trifecta", "session"⟩] else []) ++
    if traced.looping then [⟨.trace, "loop", "session"⟩] else []

/-- The findings hold a secret. -/
def hasSecret (findings : List Finding) : Bool := findings.any (·.kind = .secret)

/-- The context that the policy is asked in. -/
def contextOf (c : Circumstances) (event : Event) (action : Action) (facts : Facts)
    (traced : Traced) (findings : List Finding) : Context where
  secret := hasSecret findings
  clientData := (facts.others || findings.any (·.kind = .pii)) &&
    leavesHisAccount host action event.tool event.input
  founderData := action = .delete && c.founderData
  trifecta := traced.trifecta
  bannedPackage := facts.bannedPackage

/-- The start of the line that says which scanner ran. -/
def versionLine : String := "Secret scan: Betterleaks "

/-- The notes of the scanners. -/
def scanNotes (action : Action) (secret looping : Bool) (scan : Scan) : List String :=
  (if secret ∧ action ≠ .publish ∧ action ≠ .send then
      ["A secret is in this " ++ action.name ++ ". Keep it out of git (.gitignore or a credential " ++
        "store); a push carrying it will be refused."]
    else []) ++
  (if looping then
      ["The same call has repeated 5 times; change approach instead of retrying."]
    else []) ++
  if scan.state = .unavailable ∧ (action = .publish ∨ action = .send) then
    ["Secret scan unavailable (Betterleaks not found); nothing was refused for it."]
  else if scan.version ≠ "" ∧ scan.state = .ok then [versionLine ++ scan.version ++ "."]
  else []

/-- The rules of the policy, and the one that raw Outlook mail breaks. -/
def withOutlook (facts : Facts) (rules : List String) : List String :=
  if facts.rawOutlook && !rules.contains "raw-outlook-mail" then rules ++ ["raw-outlook-mail"]
  else rules

/-- The mode that stands, where a forbid wins and a held call that is released or has a
permit goes on. -/
def standingMode (c : Circumstances) (event : Event) (action : Action) (permissions : Permissions)
    (rules : List String) : Option (Verdict × String) :=
  let mode := if rules ≠ [] then none else modeVerdict host event action permissions c.ownFolder
  match mode with
  | some (.ask, rule) => if c.releasing || c.permitTaken then none else some (.ask, rule)
  | _ => mode

/-- The verdict: of the mode, of the rules, of the notes. -/
def verdictOf (mode : Option (Verdict × String)) (rules notes : List String) : Verdict :=
  match mode with
  | some (verdict, _) => verdict
  | none =>
      if rules ≠ [] then .refuse
      else if notes.any (fun note => !versionLine.toList.isPrefixOf note.toList) then .organize
      else .allow

/-- The paths a refusal names. -/
def refusedPaths (c : Circumstances) (event : Event) (action : Action) (facts : Facts) :
    List String :=
  ((if action = .delete then c.deleteTargets else []) ++
    textsAt event.input ["file_path", "path", "filePath"] ++ c.drivePaths facts.text).eraseDups

/-- `decide`. -/
def decide (q : Request) (files : Files) : Answer × Files :=
  if (q.payload.get? "approval").isSome then (.approval, files)
  else
    let c := q.found
    let vendor := vendorOf q.vendor
    let event := normalize host q.payload vendor c.workingDir
    let action := actionOf host event
    let facts := factsOf host event
    let secrets := secretScan host c event action facts
    let pii := piiScan host c action facts
    let traced := traceRules host c event action facts files.traces
    let findings := secrets.found ++ pii.found ++ traceFindings traced
    let context := contextOf host c event action facts traced findings
    let ruled := cedarForbids c.engine action context vendor
    let rules := withOutlook facts ruled.2
    let permissions := c.permissions.getD defaultPermissions
    let mode := standingMode host c event action permissions rules
    let waits : Option String := match mode with
      | some (.ask, rule) => some rule
      | _ => none
    let notes := scanNotes action (hasSecret findings) traced.looping secrets ++
      (if facts.rawOutlook then [reasonText "raw-outlook-mail"] else []) ++
      waits.toList.map (fun rule => reasonText rule ++ "; confirm to run it.")
    let verdict := verdictOf mode rules notes
    let rules := match mode with
      | some (_, rule) => [rule]
      | none => rules
    let refused : Bool := verdict = .refuse
    let paths := refusedPaths c event action facts
    let decision : CallDecision :=
      { verdict := verdict, vendor := vendor, tool := event.tool, action := action, rules := rules,
        notes := if refused && !c.refusalsWritable then
            notes ++ ["Refusal log unavailable; rule and paths remain in this decision."]
          else notes,
        findings := findings,
        scanners := ⟨secrets.state, pii.state, ruled.1, traced.state⟩,
        mode := permissions.runMode,
        hold := if waits.isSome && c.holdId ≠ "" then some c.holdId else none,
        paths := if refused then some paths else none }
    let refusal : Refusal := ⟨c.now, event.session, event.tool, paths, rules⟩
    (.decision decision,
      ⟨traced.traces,
        if refused && c.refusalsWritable then files.refusals ++ [refusal] else files.refusals⟩)

end ArchHub.Hooks

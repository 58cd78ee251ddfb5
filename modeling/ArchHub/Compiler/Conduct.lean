import Mathlib
import ArchHub.Compiler.Value

/-!
# Conduct

The conduct rules are data of the compiler.  A released list of cases that must pass extends
them, an overlay of parameters edits them, and events are checked against the result.

* `conduct`: the compiled rules; `mergeMustPass`: with released cases.
* `conductParameters`: an overlay is accepted, and edits the policy, or refused.
* `conductEvent`: an event is refused by a rule, or passes.
* `checkWithAuthority`: the check of a change.
-/

namespace ArchHub.Compiler

open Value

/-! ## The compiled rules -/

/-- Rule R100. -/
def r100 : Value :=
  .object [
    ("allowed_presence", texts ["idle", "away"]),
    ("command_markers", texts ["taskkill", "stop-process", "pyautogui", "sendkeys", "pytest",
      "python -m pytest", "python.exe -m pytest", "python3 -m pytest", "cargo test",
      "cargo build", "npm run build"]),
    ("count", .number (.nat 67)),
    ("effects", texts ["screen", "keyboard", "app_close", "heavy_foreground"]),
    ("fix", .string "Wait for fresh idle/away admission before a foreground effect."),
    ("guard_conditions", texts ["founder_away()", "idle_or_away()", "founderAway()", "idleOrAway()"]),
    ("heavy_commands", texts ["pytest", "python -m pytest", "python.exe -m pytest",
      "python3 -m pytest", "cargo test", "cargo build", "npm run build", "taskkill",
      "stop-process"]),
    ("launch_calls", texts ["subprocess.run", "subprocess.call", "subprocess.popen", "os.system",
      "execsync", "spawn", "exec_command", "start-process"]),
    ("literal_reference_commands", texts ["echo", "git grep"]),
    ("literal_reference_flags", texts ["-n", "-i", "-F", "-w", "-l", "-c", "--"]),
    ("max_presence_age_seconds", .number (.nat 5)),
    ("message", .string "Protect the working machine."),
    ("pattern", .string "operation"),
    ("severity", .string "ERROR"),
    ("source", .string "inputs/MASTER-REQUESTS-3-MONTHS-2026-10-16.md#R100"),
    ("source_calls", texts ["pyautogui.", "keyboard.", "mouse.", "sendkeys", "setforegroundwindow",
      "closemainwindow", "stop-process", "taskkill", "pkill", "killall"]),
    ("tool_markers", texts ["cua", "chrome", "playwright", "screenshot", "computer", "pyautogui",
      "sendkeys", "keyboard", "mcp__chrome__click", "mcp__chrome__type"])]

/-- Rule R102. -/
def r102 : Value :=
  .object [
    ("count", .number (.nat 43)),
    ("fix", .string "Record the owned next task in the ledger before returning a result."),
    ("message", .string "Keep unfinished work owned and moving."),
    ("pattern", .string "lane_result"),
    ("requires", texts ["ledger.next_task", "ledger.owner"]),
    ("severity", .string "ERROR"),
    ("source", .string "inputs/MASTER-REQUESTS-3-MONTHS-2026-10-16.md#R102")]

/-- Rule R104. -/
def r104 : Value :=
  .object [
    ("capabilities", .object [
      ("antigravity", texts ["review", "design"]),
      ("claude", texts ["coordinate", "review"]),
      ("codex", texts ["build", "review", "design"]),
      ("opencode", texts ["build", "review"])]),
    ("count", .number (.nat 56)),
    ("fix", .string "Choose a registered builder capability and a different capable reviewer."),
    ("message", .string "Assign work by capability with independent review."),
    ("pattern", .string "dispatch"),
    ("severity", .string "ERROR"),
    ("source", .string "inputs/MASTER-REQUESTS-3-MONTHS-2026-10-16.md#R104")]

/-- Rule R106. -/
def r106 : Value :=
  .object [
    ("allowed_reasons", texts ["intent", "safety"]),
    ("count", .number (.nat 39)),
    ("fix", .string "Resolve implementation details; ask only an intent or safety question."),
    ("message", .string "The request is the decision."),
    ("pattern", .string "question"),
    ("severity", .string "ERROR"),
    ("source", .string "inputs/MASTER-REQUESTS-3-MONTHS-2026-10-16.md#R106"),
    ("tool_markers", texts ["askuserquestion", "request_user_input", "ask_user"])]

/-- Rule R108. -/
def r108 : Value :=
  .object [
    ("banned_text", texts ["tomorrow", "monday", "tuesday", "wednesday", "thursday", "friday",
      "saturday", "sunday", "ratchet", "lane", "court", "queued", "ETA", "E010", "handoff",
      "sha256", "next I will", "next I’ll", "next I'll"]),
    ("count", .number (.nat 45)),
    ("fix", .string "Remove process jargon and dates/ETAs from the founder channel."),
    ("message", .string "Show the result in plain English."),
    ("pattern", .string "report"),
    ("severity", .string "ERROR"),
    ("source", .string "inputs/MASTER-REQUESTS-3-MONTHS-2026-10-16.md#R108")]

/-- Rule R110. -/
def r110 : Value :=
  .object [
    ("count", .number (.nat 21)),
    ("fix", .string "Repair the failed/missing must_pass case; a skip is not a pass."),
    ("manifest", .string "evidence/must_pass.json"),
    ("message", .string "Keep every released requirement passing."),
    ("must_pass", texts ["tests/test_zero_idle_growth.py::test_an_idle_app_grows_no_file",
      "tests/test_zero_idle_growth.py::test_a_canvas_change_undoes_and_redoes_exactly"]),
    ("pattern", .string "regression"),
    ("severity", .string "ERROR"),
    ("source", .string "inputs/MASTER-REQUESTS-3-MONTHS-2026-10-16.md#R110")]

/-- `machine_rules.conduct` of the compiled rules. -/
def conduct : Value :=
  .object [("R100", r100), ("R102", r102), ("R104", r104), ("R106", r106), ("R108", r108),
    ("R110", r110)]

/-! ## What values say -/

/-- `strings`. -/
def strings (v : Value) : List String := (v.asArray.getD []).filterMap asStr

/-- `nonempty`. -/
def nonempty (v : Value) : Bool := v.asStr.any fun s => !isBlank s

/-- `contains_any`. -/
def containsAny (u : Unicode) (text : List Char) (values : Value) : Bool :=
  (strings values).any fun s => containsText (u.lower text) (u.lower s.toList)

/-- A year, month and day, in either order. -/
def isDate (parts : List (List Char)) : Bool :=
  match parts with
  | [a, b, c] =>
      parts.all (fun p => !p.isEmpty && p.all isDigit) &&
        ((decide (a.length = 4) && decide (1 ≤ b.length ∧ b.length ≤ 2) &&
            decide (1 ≤ c.length ∧ c.length ≤ 2)) ||
          (decide (1 ≤ a.length ∧ a.length ≤ 2) && decide (1 ≤ b.length ∧ b.length ≤ 2) &&
            decide (c.length = 4)))
  | _ => false

/-- Hours and minutes, with seconds or without. -/
def isClock (parts : List (List Char)) : Bool :=
  match parts with
  | hours :: rest =>
      decide (rest.length = 1 ∨ rest.length = 2) &&
        decide (1 ≤ hours.length ∧ hours.length ≤ 2) && hours.all isDigit &&
        rest.all fun p => decide (p.length = 2) && p.all isDigit
  | [] => false

/-- `date_in`. -/
def dateIn (text : List Char) : Bool :=
  (splitOn (fun c => !(isDigit c || ['-', '/', ':'].contains c)) text).any fun token =>
    isDate (splitOn (· == '-') token) || isDate (splitOn (· == '/') token) ||
      isClock (splitOn (· == ':') token)

/-- A match of a word, none overlapping the one before it, that no alphanumeric character is
next to.  `skip` characters belong to the match before. -/
def wordMatch (u : Unicode) (word : List Char) : List Char → Option Char → ℕ → Bool
  | [], before, skip => decide (skip = 0) && word.isEmpty && !before.any u.alphanumeric
  | c :: cs, before, 0 =>
      (word.isPrefixOf (c :: cs) && !before.any u.alphanumeric &&
          !((c :: cs).drop word.length).head?.any u.alphanumeric) ||
        wordMatch u word cs (some c) (if word.isPrefixOf (c :: cs) then word.length - 1 else 0)
  | c :: cs, _, skip + 1 => wordMatch u word cs (some c) skip

/-- `banned_report`. -/
def bannedReport (u : Unicode) (text : List Char) (values : Value) : Bool :=
  (strings values).any fun word => wordMatch u (u.lower word.toList) (u.lower text) none 0

/-- `conduct_command_tokens`. -/
def conductCommandTokens (u : Unicode) (value : List Char) : List Char :=
  u.lower ([' '].intercalate
    (tokens (fun c => isWhite c || "'\"[],()".toList.contains c) value))

/-- `literal_reference`. -/
def literalReference (u : Unicode) (command : List Char) (policy : Value) : Bool :=
  if command.any fun c => !(u.alphanumeric c || " \t-_=./:'\"".toList.contains c) then false
  else
    let words := tokens isWhite command
    (strings (policy.field "literal_reference_commands")).any fun start =>
      let start := tokens isWhite start.toList
      start.isPrefixOf words && (words.drop start.length).all fun word =>
        let quote := fun c : Char => decide (c = '\'' ∨ c = '\"')
        let word := (word.dropWhile quote).rdropWhile quote
        !(word.head? == some '-') ||
          (strings (policy.field "literal_reference_flags")).contains (String.ofList word)

/-! ## The policy -/

/-- What `repository_authority` makes of a released list of cases. -/
def mergeMustPass (policy manifest : Value) : Except String Value :=
  match (manifest.field "must_pass").asArray with
  | none => .error "must_pass manifest requires named cases"
  | some cases =>
      if manifest.field "schema_version" ≠ .number (.nat 1) ∨ cases = [] ∨
          cases.any (fun v => !nonempty v) then .error "invalid must_pass authority"
      else
        let required := ((policy.field "R110").field "must_pass").asArray.getD []
        .ok (policy.set "R110" ((policy.field "R110").set "must_pass" (.array
          (cases.foldl (fun xs case => if xs.contains case then xs else xs ++ [case]) required))))

/-- The policies that changes are checked against. -/
inductive Authority : Value → Prop
  | compiled : Authority conduct
  | released {manifest policy : Value} (h : mergeMustPass conduct manifest = .ok policy) :
      Authority policy

/-- The severities. -/
def severities : List String :=
  ["ERROR", "WARNING", "INFO", "LOW", "MEDIUM", "HIGH", "CRITICAL"]

/-- What may replace a parameter. -/
def allowed (id name : String) (original value : Value) : Bool :=
  if name = "message" ∨ name = "fix" then
    value.asStr.any fun s => !isBlank s && decide (s.utf8ByteSize ≤ 4096)
  else if name = "severity" then value.asStr.any severities.contains
  else if name = "max_presence_age_seconds" ∧ id = "R100" then
    value.asU64.any fun v => decide (v ≤ original.asU64.getD 0)
  else if name = "allowed_presence" ∨ name = "allowed_reasons" then
    value.asArray.any fun xs => !xs.isEmpty && xs.all fun v =>
      original.asArray.any fun base => base.contains v
  else if name = "banned_text" ∧ id = "R108" then value.asArray.any fun xs => xs.all nonempty
  else false

/-- The parameter that an accepted value gives. -/
def edited (name : String) (old value : Value) : Value :=
  if name = "banned_text" then
    .array ((value.asArray.getD []).foldl
      (fun xs item => if xs.contains item then xs else xs ++ [item]) (old.asArray.getD []))
  else value

/-- One parameter of an overlay. -/
def editParameter (id : String) (original policy : Value) (entry : String × Value) :
    Except String Value :=
  match original.get? entry.1 with
  | none => .error ("unknown conduct parameter `" ++ id ++ "." ++ entry.1 ++ "`")
  | some old =>
      if entry.2 = old then .ok policy
      else if allowed id entry.1 old entry.2 then
        .ok (policy.set id ((policy.field id).set entry.1
          (edited entry.1 ((policy.field id).field entry.1) entry.2)))
      else .error ("invalid or weakening conduct parameter `" ++ id ++ "." ++ entry.1 ++ "`")

/-- One rule of an overlay. -/
def editRule (policy : Value) (entry : String × Value) : Except String Value :=
  let original := conduct.field entry.1
  if original.isObject then
    match entry.2 with
    | .object parameters => parameters.foldlM (editParameter entry.1 original) policy
    | _ => .error "conduct rule parameters must be an object"
  else .error ("unknown conduct rule `" ++ entry.1 ++ "`")

/-- The policy that an overlay gives. -/
def editPolicy (policy overlay : Value) : Except String Value :=
  match overlay with
  | .object entries => entries.foldlM editRule policy
  | _ => .error "conduct parameters must be an object"

/-- `conduct_parameters`: the result, and the policy after it. -/
def conductParameters (policy overlay : Value) : Except String Unit × Value :=
  match editPolicy policy overlay with
  | .ok policy' => (.ok (), policy')
  | .error message => (.error message, policy)

/-! ## Events -/

/-- A question without a reason for it. -/
def unreasoned (policy reason : Value) : Bool :=
  !(strings ((policy.field "R106").field "allowed_reasons")).contains reason.text

/-- An operation that reaches the screen. -/
def risky (u : Unicode) (event policy : Value) : Bool :=
  let rule := policy.field "R100"
  let tool := (event.field "tool").text.toList
  let command := (event.field "command").text.toList
  (strings (rule.field "effects")).contains (event.field "effect").text ||
    containsAny u tool (rule.field "tool_markers") ||
    (!literalReference u command rule &&
      (containsAny u (conductCommandTokens u command) (rule.field "command_markers") ||
        containsAny u command (rule.field "source_calls")))

/-- The founder is known to be away. -/
def awayNow (event policy : Value) : Bool :=
  let rule := policy.field "R100"
  (strings (rule.field "allowed_presence")).contains
      ((event.field "presence").field "state").text &&
    ((event.field "presence").field "age_seconds").asU64.any fun age =>
      decide (age ≤ (rule.field "max_presence_age_seconds").asU64.getD 0)

/-- `operation`. -/
def operationEvent (u : Unicode) (event policy : Value) : Option (String × String) :=
  let effect := (event.field "effect").text
  if containsAny u (event.field "tool").text.toList ((policy.field "R106").field "tool_markers") &&
      (!nonempty (event.field "text") || unreasoned policy (event.field "question_reason")) then
    some ("R106", "founder question tool has no intent/safety reason")
  else if effect = "" ∧ nonempty (event.field "tool") = false ∧
      nonempty (event.field "command") = false then
    some ("R100", "operation has no classified action")
  else if risky u event policy && !awayNow event policy then
    some ("R100", "foreground effect requires a fresh idle/away guard")
  else if risky u event policy = false ∧ effect ≠ "" ∧ effect ≠ "read" then
    some ("R100", "unknown effect cannot establish safe admission")
  else none

/-- `dispatch`. -/
def dispatchEvent (event policy : Value) : Option (String × String) :=
  let agent := (event.field "agent").text
  let capability := (event.field "capability").text
  let reviewer := (event.field "reviewer").text
  let capabilities := (policy.field "R104").field "capabilities"
  if capability = "" ∨ capability ∉ strings (capabilities.field agent) ∨ reviewer = agent ∨
      "review" ∉ strings (capabilities.field reviewer) then
    some ("R104", "dispatch needs a registered capability and an independent capable reviewer")
  else none

/-- `report`. -/
def reportEvent (u : Unicode) (event policy : Value) : Option (String × String) :=
  if event.field "channel" = .string "founder" then
    let text := (event.field "text").text
    if nonempty (event.field "text") = false then some ("R108", "founder report has no result")
    else if text.toList.any (fun c => c == '?' || c.toNat == 0x061f) &&
        unreasoned policy (event.field "question_reason") then
      some ("R106", "founder report contains a question without an intent/safety reason")
    else if bannedReport u text.toList ((policy.field "R108").field "banned_text") ||
        dateIn text.toList then
      some ("R108", "founder report contains process jargon or a date/ETA")
    else none
  else if event.field "channel" ≠ .string "internal" then
    some ("R108", "report channel must be explicit")
  else none

/-- `lane_result`. -/
def laneResultEvent (event : Value) : Option (String × String) :=
  if event.field "done" ≠ .bool true ∧ ¬ (event.field "done" = .bool false ∧
      nonempty ((event.field "ledger").field "next_task") ∧
      nonempty ((event.field "ledger").field "owner")) then
    some ("R102", "unfinished lane requires an owned ledger next-task")
  else none

/-- `question`. -/
def questionEvent (event policy : Value) : Option (String × String) :=
  if event.field "channel" = .string "founder" then
    if !nonempty (event.field "text") || unreasoned policy (event.field "reason") then
      some ("R106", "founder questions are limited to intent or safety")
    else none
  else if event.field "channel" ≠ .string "internal" then
    some ("R106", "question channel must be explicit")
  else none

/-- A case whose result is not a pass. -/
def notPassed (event case : Value) : Bool :=
  case.asStr.all fun id => decide ((event.field "results").field id ≠ .string "pass")

/-- `regression`. -/
def regressionEvent (event policy : Value) : Option (String × String) :=
  let required := ((policy.field "R110").field "must_pass").asArray
  let extra := (event.field "must_pass").asArray
  if extra.isNone || required.all (fun xs => xs.isEmpty || xs.any fun v =>
      v.asStr.all isBlank || notPassed event v) || extra.any (fun xs => xs.any (notPassed event)) then
    some ("R110", "every must_pass result must pass; missing/skipped is a regression")
  else none

/-- The rules of the policy. -/
def rulesOf (policy : Value) : List Value :=
  match policy with
  | .object entries => entries.map Prod.snd
  | _ => []

/-- `conduct_event`. -/
def conductEvent (u : Unicode) (event policy : Value) : Option (String × String) :=
  let kind := (event.field "kind").text
  if (rulesOf policy).any (fun rule => decide (rule.field "pattern" = .string kind)) then
    if kind = "operation" then operationEvent u event policy
    else if kind = "dispatch" then dispatchEvent event policy
    else if kind = "report" then reportEvent u event policy
    else if kind = "lane_result" then laneResultEvent event
    else if kind = "question" then questionEvent event policy
    else if kind = "regression" then regressionEvent event policy
    else some ("CONDUCT", "unknown or malformed conduct event")
  else some ("CONDUCT", "event matches no registered policy pattern")

/-! ## The check of a change -/

/-- What is reported. -/
structure Diagnostic where
  code : String
  note : String
  language : String
  file : String
  line : ℕ
  column : ℕ
  message : String
  help : String
deriving DecidableEq

/-- What the check takes from the rest of the compiler. -/
structure Host extends Unicode where
  /-- `explain`. -/
  explain : String → Option String
  /-- `language_name`. -/
  languageName : String → String
  /-- `serde_json::from_str`, where it succeeds. -/
  parse : String → Option Value
  /-- What the passes over scopes, machine rules and sources report, given the context, the
  sources, the authority and the conduct policy. -/
  others : Value → List (String × String) → Value → Value → List Diagnostic

variable (host : Host)

/-- `error`. -/
def error (code file message help : String) : Diagnostic where
  code := code
  note := (host.explain code).getD "intent authority pass"
  language := host.languageName file
  file := file
  line := 1
  column := 1
  message := message
  help := help

/-- `file_names`. -/
def fileNames (context : Value) : List String := strings (context.field "files")

/-- One event that is refused. -/
def eventDiagnostic (policy : Value) (file : String) (refusal : String × String) : Diagnostic :=
  let rule := policy.field refusal.1
  { error host "E0102" file
      (refusal.1 ++ ": " ++ ((rule.field "message").asStr.getD "Invalid conduct.") ++ " " ++
        refusal.2)
      ((rule.field "fix").asStr.getD "correct the action or its evidence before admission") with
    note := (rule.field "severity").asStr.getD "ERROR" }

/-- The events of one batch. -/
def batchChecks (policy : Value) (batch : String × Value) : List Diagnostic :=
  match batch.2.asArray with
  | some (event :: events) =>
      (event :: events).filterMap fun event =>
        (conductEvent host.toUnicode event policy).map (eventDiagnostic host policy batch.1)
  | _ => [error host "E0102" batch.1 "CONDUCT: events must be a nonempty array"
      "supply typed events from the trusted host adapter"]

/-- `conduct_checks`. -/
def conductChecks (context : Value) (sources : List (String × String)) (policy : Value)
    (anchor : String) : List Diagnostic :=
  let records := sources.filter fun source =>
    (fileNames context).contains source.1 &&
      ".conduct.json".toList.isSuffixOf source.1.toList
  let given := (context.get? "conduct_events").toList.map fun events => (anchor, events)
  let batches := given ++ records.filterMap fun source =>
    (host.parse source.2).map fun value => (source.1, value)
  (records.filter fun source => (host.parse source.2).isNone).map (fun source =>
      error host "E0102" source.1 "CONDUCT: unreadable event record"
        "write a JSON array of typed conduct events") ++
    batches.flatMap (batchChecks host policy)

/-- The overlay that a context brings. -/
def overlayOf (context : Value) : Option Value :=
  ((context.get? "machine_rule_parameters").orElse fun _ =>
    context.get? "intent_rule_overrides").bind fun parameters => parameters.get? "conduct"

/-- The policy that the events are checked against, and what is reported of the overlay. -/
def conductAuthority (policy context : Value) (anchor : String) : Value × List Diagnostic :=
  match overlayOf context with
  | none => (policy, [])
  | some overlay =>
      match conductParameters policy overlay with
      | (.ok (), policy') => (policy', [])
      | (.error message, policy') => (policy', [error host "E0102" anchor message
          "edit only typed conduct parameters; mandatory authority cannot be weakened"])

/-- The entry of the intent that a context names, where an author is named as well. -/
def registered (rules context : Value) : Option Value :=
  let intent := trimmed (context.field "intent").text
  if intent = "" ∨ trimmed (context.field "author").text = "" then none
  else (rules.field "intents").get? intent

/-- `check_with_authority`: the diagnostics, sorted and without repetitions. -/
def checkWithAuthority (context : Value) (sources : List (String × String)) (rules : Value) :
    Finset Diagnostic :=
  let anchor := (fileNames context).headD "COMMIT_EDITMSG"
  let policy := (rules.field "machine_rules").field "conduct"
  match registered rules context with
  | none => {error host "E0100" anchor
      "change has no registered intent and identified author"
      ("supply an authoritative founder-row or session-record intent and author; " ++
        "register its declared scope in rules.json")}
  | some _ =>
      let (edited, reported) := conductAuthority host policy context anchor
      (reported ++ conductChecks host context sources edited anchor ++
        host.others context sources rules edited).toFinset

end ArchHub.Compiler

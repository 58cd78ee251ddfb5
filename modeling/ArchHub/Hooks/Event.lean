import Mathlib
import ArchHub.Python.Value

/-!
# Tool calls

A hook turns an agent's payload into an event (`normalize`), and `classify` says
what kind of action it is and which facts the rules look at.

* `leavesHisAccount`: whether a call sends or publishes out of the account.
* `Facts.privateData`, `Facts.untrusted`: whether it reads private data, and outside
  content.

The regular expressions are those of the source, by their names; which texts they
match is a `Host`'s to say, as are the parser of JSON text, `str(x)`, the hash and
`fnmatch`.  The theorems hold for every host.
-/

namespace ArchHub.Hooks

/-- The regular expressions. -/
inductive Regex
  | read
  | leaves
  | write
  | shell
  | untrusted
  | sendTool
  | screenTool
  | publishCmd
  | privatePath
  | othersPath
  | bannedPackages
  | installCmd
  | dependencyFile
  | htmlBodySet
  | mailBodySet
  | mailSend
  | outlookCom
  | draftNodeCall
  | emailAddr
  /-- `\b(public|anyone)\b`. -/
  | publicWord
  /-- `notion\.site\b`. -/
  | notionSite
  /-- `https?://(?!(?:www\.)?notion\.so(?:/|$))`. -/
  | foreignUrl
  /-- `https?://`. -/
  | url
  /-- `send[-_]?draft|submit`. -/
  | submitWord
  /-- `google[-_]?drive|gdrive`. -/
  | googleDrive
  /-- `(?:^|[._])drive(?:[._]|$)`. -/
  | driveWord
  /-- `share|permission|publish`. -/
  | shareWord
  /-- `fetch|read|get|search|query`. -/
  | lookWord
  /-- `(requirements|pyproject|\.lock)`. -/
  | dependencyWord
  /-- A line that adds a banned package. -/
  | bannedAdded
  /-- `\bgit\s+push\b`. -/
  | gitPush
  /-- `@|\+\d|\d{4,}`. -/
  | personalHint
deriving DecidableEq, Repr

/-- What is asked of the language and its libraries. -/
structure Host where
  /-- `re.search`, or `re.match` of an anchored expression. -/
  search : Regex → String → Bool
  /-- `str.lower()`, and `str.casefold()`. -/
  lower : String → String
  /-- `str(x)` of a value that is no text. -/
  str : Value → String
  /-- `json.loads`, where it does not raise. -/
  loads : String → Option Value
  /-- `json.dumps`, with sorted keys and no blanks. -/
  dumps : Value → String
  /-- `json.dumps`, with sorted keys. -/
  dumpsSpaced : Value → String
  /-- `json.dumps`, indented. -/
  pretty : Value → String
  /-- The hexadecimal SHA-256 of a text. -/
  sha256 : String → String
  /-- `fnmatch.fnmatchcase`. -/
  fnmatch : String → String → Bool
  /-- `_deletes_files`: whether a command deletes files. -/
  deletesFiles : String → Bool
  /-- The label of a connector, `_LABELS.get(name, name)`. -/
  label : String → String
  /-- `_approval_now()` at a time. -/
  approvalNow : ℚ → String

/-- What an event is classified as. -/
inductive Action
  | read
  | write
  | shell
  | delete
  | publish
  | send
  | screen
  | other
deriving DecidableEq, Repr

/-- The text of an action. -/
def Action.name : Action → String
  | .read => "read"
  | .write => "write"
  | .shell => "shell"
  | .delete => "delete"
  | .publish => "publish"
  | .send => "send"
  | .screen => "screen"
  | .other => "other"

/-- A normalized tool call; its input is a dictionary. -/
structure Event where
  vendor : String
  session : String
  tool : String
  input : Value
  cwd : String
deriving DecidableEq

/-- The facts of a call. -/
structure Facts where
  bannedPackage : Bool
  text : String
  command : String
  untrusted : Bool
  privateData : Bool
  others : Bool
  rawOutlook : Bool
deriving DecidableEq

/-! ## Values -/

/-- `a or b`. -/
def orValue (a : Option Value) (b : Value) : Value :=
  match a with
  | some v => if v.truthy then v else b
  | none => b

/-- `data.get(k) or … or last`, for some keys. -/
def firstOf (data : Value) (last : Value) : List Key → Value
  | [] => last
  | k :: ks => orValue (data.get? k) (firstOf data last ks)

/-- `str(x)`. -/
def Host.text (host : Host) : Value → String
  | .str s => s
  | v => host.str v

mutual

/-- `_strings`: the texts in a value. -/
def strings : Value → List String
  | .str s => [s]
  | .dict es => stringsInFields es
  | .list xs => stringsInList xs
  | _ => []

/-- `_strings` of the values of a dictionary. -/
def stringsInFields : Fields → List String
  | [] => []
  | (_, v) :: es => strings v ++ stringsInFields es

/-- `_strings` of the members of a list. -/
def stringsInList : List Value → List String
  | [] => []
  | v :: vs => strings v ++ stringsInList vs

end

/-- `sep.join(texts)`. -/
def join (sep : String) (texts : List String) : String := sep.intercalate texts

/-- Whether one text stands in another. -/
def within (part whole : String) : Bool := whole.toList.tails.any (part.toList.isPrefixOf ·)

/-- `text.endswith(ends)`. -/
def endsWith (text ends : String) : Bool := ends.toList.isSuffixOf text.toList

/-- The last piece of `text.split("__")`, after the start of a piece. -/
def lastPiece (piece : List Char) : List Char → List Char
  | '_' :: '_' :: cs => lastPiece [] cs
  | c :: cs => lastPiece (piece ++ [c]) cs
  | [] => piece

/-- What follows the last character of a kind. -/
def afterLast (sep : Char → Bool) (text : List Char) : List Char :=
  (text.reverse.takeWhile (fun c => !sep c)).reverse

/-- `re.split(r"[._]", name.split("__")[-1])[-1]`. -/
def leafOf (name : String) : String :=
  String.ofList (afterLast (fun c => c = '.' || c = '_') (lastPiece [] name.toList))

/-! ## Normalizing -/

variable (host : Host)

/-- The input of a payload. -/
def inputOf (payload : Value) : Value :=
  let data := match payload.get? "tool_input" with
    | some v => v
    | none => .none
  let data := if data = .none then
      (((payload.get? "args").or (payload.get? "toolArgs")).or (payload.get? "input")).getD
        (.dict [])
    else data
  match data with
  | .str s => (host.loads s).getD (.dict [("value", data)])
  | _ => data

/-- `normalize`. -/
def normalize (payload : Value) (vendor cwd : String) : Event where
  vendor := vendor
  session := host.text (firstOf payload (.str "") ["session_id", "sessionId"])
  tool := host.text (firstOf payload (.str "") ["tool_name", "tool", "toolName"])
  input := if (inputOf host payload).isDict then inputOf host payload
    else .dict [("value", inputOf host payload)]
  cwd := host.text (firstOf payload (.str cwd) ["cwd"])

/-! ## Where a call goes -/

/-- `_DEST_KEYS`. -/
def destKeys : List Key :=
  ["page_id", "page_url", "url", "parent", "parent_id", "database_id", "target", "to", "recipient",
    "channel", "file_id"]

/-- The texts of some keys. -/
def textsAt (data : Value) (keys : List Key) : List String :=
  keys.filterMap fun k => match data.get? k with
    | some (.str s) => some s
    | _ => none

mutual

/-- `_destination_blob`. -/
def destinationBlob : Value → String
  | .dict es => join "\n" (textsAt (.dict es) destKeys ++ nestedBlob es)
  | _ => ""

/-- `_destination_blob` of the nested arguments. -/
def nestedBlob : Fields → List String
  | [] => []
  | (k, v) :: es =>
      if k = .str "arguments" then (if v.isDict then [destinationBlob v] else []) else nestedBlob es

end

/-- `_public_target`, of a dictionary. -/
def publicTarget (data : Value) : Bool :=
  data.get? "public" = some (.bool true) ||
    (textsAt data ["visibility", "permission", "permissions", "access", "share"]).any
      (host.search .publicWord) ||
    host.search .notionSite (destinationBlob data) || host.search .foreignUrl (destinationBlob data)

/-- `_outside_recipient`. -/
def outsideRecipient (value : Value) : Bool :=
  match value with
  | .str s => host.search .emailAddr s || host.search .url s
  | _ => host.search .emailAddr "" || host.search .url ""

/-- The `connector` of an input, in lower case. -/
def connectorOf (data : Value) : String :=
  host.lower (host.text (firstOf data (.str "") ["connector"]))

/-- `_own_workspace`. -/
def ownWorkspace (tool : String) (data : Value) : Bool :=
  let name := host.lower tool
  if within "categorize" name then true
  else if name = "sendmessage" || name = "collaboration.send_message" ||
      name = "collaboration.followup_task" then
    !outsideRecipient host (firstOf data ((data.get? "to").getD .none) ["recipient", "target"]) &&
      !publicTarget host data
  else if within "workshop" name || within "session_link" name ||
      connectorOf host data = "workshop" then
    !publicTarget host data
  else if leafOf name = "send" && (data.get? "to").isSome &&
      (firstOf data ((data.get? "body").getD .none) ["text", "message"]).isStr &&
      !outsideRecipient host ((data.get? "to").getD .none) then true
  else if within "draft" name && !host.search .submitWord name then true
  else if host.search .googleDrive name || host.search .driveWord name then
    !(host.search .shareWord name || publicTarget host data)
  else if within "notion" name then !publicTarget host data
  else false

/-- `_untrusted_content`. -/
def untrustedContent (tool : String) : Bool :=
  let name := host.lower tool
  if within "notion" name && host.search .lookWord name then false
  else host.search .untrusted tool

/-- `_leaves_his_account`. -/
def leavesHisAccount (action : Action) (tool : String) (data : Value) : Bool :=
  (action = .publish || action = .send) && !ownWorkspace host tool data

/-! ## Classifying -/

/-- `_DRAFT_NODES`. -/
def draftNodes : List String :=
  ["library.draft_email", "outlook.reply_draft", "outlook.forward_draft"]

/-- `_draft_node_tool`. -/
def draftNodeTool (tool : String) : Bool := draftNodes.any (within · (host.lower tool))

/-- `_outlook_mail_mutation`. -/
def outlookMailMutation (command : String) : Bool :=
  host.search .outlookCom command && (host.search .htmlBodySet command ||
    host.search .mailBodySet command || host.search .mailSend command)

/-- `_raw_outlook_mail`. -/
def rawOutlookMail (tool command : String) : Bool :=
  if draftNodeTool host tool || command = "" then false
  else if host.search .draftNodeCall command && !outlookMailMutation host command then false
  else outlookMailMutation host command

/-- The command of a call. -/
def commandOf (data : Value) : String :=
  match data.get? "command" with
  | some (.list xs) => join " " (xs.map host.text)
  | _ => host.text (firstOf data (.str "") ["command", "cmd"])

/-- Whether a call installs or declares a banned package. -/
def bannedPackage (tool text command target : String) : Bool :=
  (host.search .installCmd command && host.search .bannedPackages command) ||
    (host.search .dependencyFile target && host.search .bannedPackages text) ||
    (host.lower tool = "apply_patch" && host.search .dependencyWord text &&
      host.search .bannedAdded text)

/-- The facts of a call. -/
def factsOf (event : Event) : Facts :=
  let text := join "\n" (strings event.input)
  let command := commandOf host event.input
  let target := host.text (firstOf event.input (.str "") ["file_path", "path", "filePath"])
  { bannedPackage := bannedPackage host event.tool text command target,
    text := text,
    command := command,
    untrusted := untrustedContent host event.tool,
    privateData := host.search .privatePath text,
    others := host.search .othersPath text,
    rawOutlook := rawOutlookMail host event.tool command }

/-- `_REMOTE_READS`. -/
def remoteReads : List String :=
  ["hosts.status", "hosts.state", "revit.sessions", "connector.rows", "office.read", "outlook.inbox",
    "dropbox.list", "list_sessions", "open_session", "read_messages", "workshop.read"]

/-- The endings of tools that read. -/
def readEndings : List String := ["_read", "_list", "_search", "_get", "ping", "info"]

/-- The action of a call. -/
def actionOf (event : Event) : Action :=
  let tool := event.tool
  let command := commandOf host event.input
  if host.search .screenTool tool then .screen
  else if host.search .shell tool then
    if host.search .publishCmd command then .publish
    else if host.deletesFiles command then .delete
    else .shell
  else if host.search .write tool then .write
  else if remoteReads.contains tool || host.search .read tool ||
      readEndings.any (endsWith (host.lower tool)) then .read
  else if host.search .leaves tool || host.search .sendTool tool then .send
  else .other

/-- `classify`. -/
def classify (event : Event) : Action × Facts := (actionOf host event, factsOf host event)

/-- A host for plain texts: a few words stand for the regular expressions, and a value
is printed as its tool's name. -/
def Host.plain : Host where
  search r s := match r with
    | .read => s = "read"
    | .untrusted => s = "webfetch"
    | .sendTool => s = "send"
    | .privatePath => within "20.CLIENTS" s
    | .emailAddr => within "@" s
    | _ => false
  lower s := s
  str _ := ""
  loads _ := none
  dumps v := match v.get? "tool" with
    | some (.str tool) => tool
    | _ => ""
  dumpsSpaced _ := ""
  pretty _ := ""
  sha256 s := s
  fnmatch pattern s := pattern = s
  deletesFiles _ := false
  label s := s
  approvalNow _ := "now"

end ArchHub.Hooks

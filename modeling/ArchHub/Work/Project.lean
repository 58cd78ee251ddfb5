import Mathlib
import ArchHub.Work.Document

/-!
# The projection of agent work

The calls of an agent's transcript become step nodes of the document its session is in: a
declaration begins a step, or a turn does where nothing is declared.  `project` places a node
for each step, or finds the one it placed before, and draws the wires that the outputs of the
calls suggest.

* `steps`: the steps of a transcript.
* `mapping`: what a call does, and the engine that can do it again.
* `project`: the projection.

The tables of engines and tools, `sha256` and the reading of JSON text come from the
surroundings.
-/

namespace ArchHub.Work

open Lib

/-! ## Transcripts -/

/-- A call of a tool. -/
structure Call where
  id : String
  tool : String
  input : Json
  turn : String
  output : Json
deriving DecidableEq

/-- What `read_transcript` gives. -/
structure Transcript where
  calls : List Call
  model : String

/-- A step of a transcript. -/
structure Group where
  key : String
  title : Json
  calls : List Call
  done : Bool
deriving DecidableEq

/-- What a tool or a library item runs. -/
structure Spec where
  id : String
  engine : String
  params : Fields

/-- What comes from the surroundings. -/
structure Host where
  unicode : Unicode
  /-- `hexdigest` of the bytes of a text. -/
  sha256 : String → String
  hexdigest_length : ∀ s, (sha256 s).length = 64
  /-- `str` of a value that is no text. -/
  str : Json → String
  /-- `json.loads`; the value is no longer than its text. -/
  decode : (s : String) → Option { v : Json // v.weight ≤ s.length }
  /-- `HOST_TOOLS`. -/
  hostTools : List Spec
  /-- `LIBRARY_ITEM_ENGINES`. -/
  libraryItems : List Spec
  /-- The sockets of an engine in `THING_ENGINES`. -/
  things : String → Option Ports
  /-- `library_item_ports`. -/
  itemPorts : String → String → Ports

variable (host : Host)

/-- `s.rsplit(sep, 1)[-1]`. -/
def afterLast (sep cs : List Char) : List Char :=
  match (cs.tails.filter fun t => sep.isPrefixOf t).getLast? with
  | some t => t.drop sep.length
  | none => cs

/-- `_tool`. -/
def toolOf (c : Call) : String :=
  host.unicode.lower (String.ofList (afterLast ['.'] (afterLast ['_', '_'] c.tool.toList)))

/-- The fields of a value that is an object. -/
def fieldsOf : Json → Fields
  | .obj fields => fields
  | _ => []

/-- `args.get(a) or args.get(b) or …`, and what is left otherwise. -/
def firstOf (args : Fields) (keys : List String) (otherwise : Json) : Json :=
  ((keys.filterMap (field? args)).find? Json.truthy).getD otherwise

/-- The texts of a value, so many values deep. -/
def textsIn : ℕ → Json → List String
  | 0, _ => []
  | n + 1, .str s =>
      s :: match host.decode s with
        | some ⟨.obj fields, _⟩ => fields.flatMap fun e => textsIn n e.2
        | some ⟨.arr xs, _⟩ => xs.flatMap (textsIn n)
        | some ⟨.str decoded, _⟩ => if decoded ≠ s then [decoded] else []
        | _ => []
  | n + 1, .obj fields => fields.flatMap fun e => textsIn n e.2
  | n + 1, .arr xs => xs.flatMap (textsIn n)
  | _ + 1, _ => []

/-- `_texts`; a value that is in another one, or that its text has, weighs less. -/
def texts (v : Json) : List String := textsIn host v.weight v

/-! ## Steps -/

/-- A declaration. -/
def declares (c : Call) : Bool := toolOf host c = "declare"

/-- A completion. -/
def completes (c : Call) : Bool := ["task_complete", "complete"].contains (toolOf host c)

/-- The step that a declaration begins. -/
def declaredStep (c : Call) : Group :=
  ⟨c.id, firstOf (fieldsOf c.input) ["task"] (.str "Declared step"), [], false⟩

/-- The loop of `steps`, with the step that the next call belongs to. -/
def stepsFrom (declared : Bool) : Option Group → List Call → List Group
  | current, [] => current.toList
  | current, c :: cs =>
      if declares host c then current.toList ++ stepsFrom declared (some (declaredStep c)) cs
      else if completes host c then
        stepsFrom declared (current.map fun g => { g with done := true }) cs
      else
        match current.filter fun g => declared || g.key = c.turn with
        | some g => stepsFrom declared (some { g with calls := g.calls ++ [c] }) cs
        | none => current.toList ++
            stepsFrom declared (some ⟨c.turn, .str "Agent turn", [c], false⟩) cs

/-- `steps`. -/
def steps (t : Transcript) : List Group :=
  stepsFrom host (t.calls.any (declares host)) none t.calls

/-! ## Engines -/

/-- What a call does: its kind, the engine, the parameters, and the library item. -/
structure Mapped where
  kind : String
  engine : String
  params : Fields
  item : String
deriving DecidableEq

/-- `{**a, **b}`. -/
def merged (a b : Fields) : Fields := (Dict.ofList (a ++ b)).entries

/-- The tools that are `shell` or `edit`. -/
def editTools : List String := ["apply_patch", "edit", "edit_file", "multiedit"]

/-- The tools that run commands. -/
def shellTools : List String :=
  ["bash", "shell", "exec_command", "execute", "run_command", "powershell"]

/-- The tools that send messages. -/
def messageTools : List String := ["send", "send_message", "message"]

/-- The row of a tool in `LIBRARY_ITEM_ENGINES`. -/
def libraryItem (tool : String) : Option Spec :=
  if tool.startsWith "r_" || tool.startsWith "b_" then
    host.libraryItems.find? fun spec => spec.id = tool
  else none

/-- What an engine of the library or of a host does for a call. -/
def brokered (tool : String) (args : Fields) (item : Bool) (spec : Spec) : Mapped :=
  if ["code", "script", "command"].any fun k => (field? args k).isSome then
    ⟨"shell", "note", args, ""⟩
  else ⟨"broker", spec.engine, merged spec.params args, if item then tool else ""⟩

/-- What is left of `mapping`. -/
def unmapped (tool : String) (args : Fields) : Mapped :=
  ⟨if ["webfetch", "websearch", "search_query", "fetch", "browse"].contains tool then "web"
    else if messageTools.contains tool then "message" else "tool", "note", args, ""⟩

/-- `mapping`. -/
def mapping (c : Call) : Mapped :=
  let tool := toolOf host c
  let args := fieldsOf c.input
  let path := firstOf args ["file_path", "path"] (.str "")
  let told := firstOf args ["text", "message"] .null
  if ["read", "read_file"].contains tool then
    ⟨"file read", "thing.file", [("path", path)], ""⟩
  else if ["write", "write_file"].contains tool && (field? args "code").isNone then
    ⟨"file write", "thing.file.write",
      [("path", path), ("content", (field? args "content").getD (.str ""))], ""⟩
  else if (shellTools ++ editTools).contains tool then
    ⟨if editTools.contains tool then "edit" else "shell", "note", args, ""⟩
  else if messageTools.contains tool && (firstOf args ["to"] .null).truthy && told.truthy then
    ⟨"message", "thing.agent", [("agent", firstOf args ["to"] .null), ("instructions", told)], ""⟩
  else match libraryItem host tool, host.hostTools.find? fun spec => spec.id = tool with
    | some spec, _ => brokered tool args true spec
    | none, some spec => brokered tool args false spec
    | none, none => unmapped tool args

/-- What tells two ways of mapping apart: all but the parameters. -/
def Mapped.way (m : Mapped) : String × String × String := (m.kind, m.engine, m.item)

/-- The most common way, the first met of several. -/
def dominant (ms : List Mapped) : Option (String × String × String) :=
  ms.foldl (fun best m => match best with
    | none => some m.way
    | some way => if (ms.map Mapped.way).count way < (ms.map Mapped.way).count m.way then
        some m.way else some way) none

/-- The call that stands for a step, and what it does. -/
def chosen (calls : List Call) : Option (Call × Mapped) :=
  (dominant (calls.map (mapping host))).bind fun way =>
    (calls.map fun c => (c, mapping host c)).find? fun cm => cm.2.way = way

/-- What a step without calls does. -/
def idle : Mapped := ⟨"step", "note", [], ""⟩

/-- The type that a parameter has. -/
def paramType (k : String) : Json → String
  | .bool _ => "bool"
  | .int _ => "integer"
  | .float _ => "number"
  | .arr _ => "list"
  | .obj _ => "object"
  | _ =>
      if decide ("folder".toList <:+: k.toList) || k = "cwd" then "folder"
      else if ["path", "file", "file_path", "output_path"].contains k then "file" else "text"

/-- `_definitions`. -/
def definitions (params : Fields) : Json :=
  .arr (params.map fun e => .obj [("id", .str e.1),
    ("name", .str (host.unicode.capitalize (e.1.map fun c => if c = '_' then ' ' else c))),
    ("type", .str (paramType e.1 e.2))])

/-! ## Step nodes -/

/-- The parameters of a step that are stored: without what names a secret, and without what a
mark is in. -/
def stored (params : Fields) : Fields :=
  (redactFields host.unicode params).filter fun e => !e.2.mentions mark

/-- The identity of the node of a step. -/
def identity (session key : String) : String :=
  "work-" ++ String.ofList ((host.sha256 (session ++ "\x00" ++ key)).toList.take 24)

/-- What `declaration` holds that is read. -/
structure Declaration where
  runtime : String
  native : String
  model : String

/-- What a step does, as it is stored. -/
structure StepPlan where
  mapped : Mapped
  tool : String
  params : Fields
  engine : String
  item : String

/-- The plan of a step; what lost a parameter is not run again. -/
def planOf (g : Group) : StepPlan :=
  let picked := chosen host g.calls
  let m := (picked.map Prod.snd).getD idle
  let params := stored host m.params
  { mapped := m
    tool := (picked.map fun cm => cm.1.tool).getD "detail not available"
    params := params
    engine := if params = m.params then m.engine else "note"
    item := if params = m.params then m.item else "" }

/-- What `agentWork` says of a step. -/
def metadata (session : String) (declaration : Declaration) (g : Group) : StepWork :=
  let plan := planOf host g
  { owner := session
    runtime := declaration.runtime
    native := declaration.native
    calls := g.calls.map Call.id
    kind := plan.mapped.kind
    tool := plan.tool
    runnable := plan.engine ≠ "note" && plan.params.length = plan.mapped.params.length
    state := if g.done then "done" else "working" }

/-- The text of a title. -/
def titleText : Json → String
  | .str s => s
  | v => host.str v

/-- The node that is placed for a step. -/
def newNode (session : String) (declaration : Declaration) (index : ℕ) (g : Group) : Node :=
  let plan := planOf host g
  { id := identity host session g.key
    type := plan.engine
    title := some (redactText host.unicode (titleText host g.title))
    params := Dict.ofList plan.params
    position := ((464 + index % 4 * 320 : ℕ), (380 + index / 4 * 400 : ℕ))
    item := if plan.item = "" then none else some plan.item
    parent := none
    children := []
    ports := some ((host.things plan.engine).getD (host.itemPorts plan.item plan.engine))
    paramDefs := some (definitions host plan.params)
    approvalRequired := some (.bool true)
    agentWork := some (.step (metadata host session declaration g))
    rest := [] }

/-- The first node of an identity is changed. -/
def revise (id : String) (f : Node → Node) : List Node → List Node
  | [] => []
  | n :: ns => if n.id = id then f n :: ns else n :: revise id f ns

/-- A step is placed, or its node is found. -/
def place (session : String) (declaration : Declaration) (index : ℕ) (g : Group)
    (nodes : List Node) : List Node :=
  if nodes.any fun n => n.id = identity host session g.key then
    revise (identity host session g.key)
      (fun n => { n with agentWork := some (.step (metadata host session declaration g)) }) nodes
  else nodes ++ [newNode host session declaration index g]

/-- The steps are placed one after the other, from an index on. -/
def placeAll (session : String) (declaration : Declaration) : ℕ → List Group → List Node → List Node
  | _, [], nodes => nodes
  | index, g :: gs, nodes =>
      placeAll session declaration (index + 1) gs (place host session declaration index g nodes)

/-- The session's own node. -/
def reviseSession (declaration : Declaration) (t : Transcript) (title : String) (n : Node) : Node :=
  { n with
    agentWork := some (.session declaration.runtime declaration.native)
    params := ((n.params.set "model" (.str (if t.model ≠ "" then t.model
          else if declaration.model ≠ "" then declaration.model
          else "detail not available"))).set "goal" (.str title)).set "detail"
        (.str (if t.calls = [] then "detail not available" else "")) }

/-! ## Wires -/

/-- The node of an identity. -/
def nodeOf (nodes : List Node) (id : String) : Option Node := nodes.find? fun n => n.id = id

/-- What suggests a wire: an earlier step with its calls, a later one, and a parameter. -/
structure Hint where
  earlier : Node
  calls : List Call
  later : Node
  key : String
  value : Json

/-- The hints, in the order in which they are looked at. -/
def hints (placed : List (Node × List Call)) : List Hint :=
  placed.flatMap fun later =>
    (placed.takeWhile fun earlier => earlier.1.id ≠ later.1.id).flatMap fun earlier =>
      later.1.params.entries.map fun e => ⟨earlier.1, earlier.2, later.1, e.1, e.2⟩

/-- Whether a text of an output is in a parameter. -/
def suggests (h : Hint) : Bool :=
  match h.value with
  | .str value => decide (4 ≤ value.length) && h.calls.any fun c =>
      (texts host c.output).any fun text =>
        decide (4 ≤ text.length) && decide (text.toList <:+: value.toList)
  | _ => false

/-- The socket a wire comes from. -/
def sourceSocket (ports : List Port) : Option String :=
  if ports.any fun p => p.id = "path" then some "path" else ports.head?.map Port.id

/-- The input of a parameter. -/
def inputOf (h : Hint) : End := ⟨h.later.id, "param:" ++ h.key⟩

/-- The wire that a hint suggests. -/
def inferredWire (session : String) (h : Hint) (socket : String) : Wire :=
  { id := "inferred-" ++ h.earlier.id ++ "-" ++ h.later.id ++ "-" ++ h.key
    source := ⟨h.earlier.id, socket⟩
    target := inputOf h
    inferred := some (.bool true)
    agentOwner := some (.str session)
    rest := [] }

/-- A wire is drawn, unless its input has one. -/
def draw (session : String) (wires : List Wire) (h : Hint) : List Wire :=
  if !suggests host h || wires.any fun w => w.target = inputOf h then wires
  else match sourceSocket ((h.earlier.ports.map Ports.source).getD []) with
    | none => wires
    | some socket => wires ++ [inferredWire session h socket]

/-- A wire that is inferred for a session. -/
def Wire.inferredFor (session : String) (w : Wire) : Bool := w.agentOwner = some (.str session)

/-! ## The projection -/

/-- The steps with their nodes. -/
def placedSteps (session : String) (nodes : List Node) (gs : List Group) :
    List (Node × List Call) :=
  gs.filterMap fun g => (nodeOf nodes (identity host session g.key)).map fun n => (n, g.calls)

/-- `project`, where the session's node has a title. -/
def projectTitled (session title : String) (declaration : Declaration) (t : Transcript)
    (d : Document) : Document :=
  let nodes := placeAll host session declaration 0 (steps host t)
    (revise session (reviseSession declaration t title) d.nodes)
  { d with
    nodes := nodes
    wires := (hints (placedSteps host session nodes (steps host t))).foldl (draw host session)
      (d.wires.filter fun w => !w.inferredFor session) }

/-- `project`, for the node of a session in a document; none where `KeyError` is raised. -/
def project (session : String) (declaration : Declaration) (t : Transcript) (d : Document) :
    Option Document :=
  ((nodeOf d.nodes session).bind Node.title).map fun title =>
    projectTitled host session title declaration t d

end ArchHub.Work

import Mathlib
import ArchHub.Flow.Builder

/-!
# Node-RED and Langflow

The flows of two other programs are imported.  Each step of a flow becomes a node of an engine that
does the same, or a foreign node where there is none; a switch of Node-RED becomes a chain of Ifs.

* `Source.plan`: what an import makes of a flow.
* `import_keeps_iff`: **when an import returns a document that has lost nothing**: the flow has no
  step.
* `import_refused`: a flow of one step.
-/

namespace ArchHub.Flow

open Lib Work List

/-! ## The language -/

/-- What a conversion raises. -/
inductive Raised
  | valueError (text : String)
  | typeError (text : String)

/-- The functions of the language and of the importers' neighbours that are used. -/
structure Language extends Host where
  /-- `float`. -/
  Number : Type
  /-- `float(value)`. -/
  float : Work.Json → Except Raised Number
  /-- A number as it is saved. -/
  number : Number → Work.Json
  /-- `repr` of a number, which is also its `str`. -/
  repr : Number → String
  same : Number → Number → Bool
  min : Number → Number → Number
  max : Number → Number → Number
  sub : Number → Number → Number
  div : Number → Number → Number
  /-- `str(value)`. -/
  str : Work.Json → String
  /-- `text.strip() == ""`. -/
  blank : String → Bool
  lower : String → String
  casefold : String → String
  /-- `json.loads`. -/
  loads : String → Except Raised Work.Json
  /-- The template of `text.ops` for a template whose only tags are `payload`. -/
  mustache : String → Option String
  /-- The variables of a prompt in single braces, each once. -/
  promptNames : String → List String
  /-- The template of `text.ops` for a prompt. -/
  prompt : String → String
  /-- The identity of a parameter of a name. -/
  paramId : String → String

variable (py : Language) {α β : Type} {f : α → Except Raised β} {xs : List α} {ys : List β}

/-- What stays in an identity. -/
def idChar (c : Char) : Bool := c.isAlphanum || c = '_' || c = '-'

/-- `re.sub(r"[^A-Za-z0-9_-]+", "_", ..)`: runs of other characters become one underscore; `run`
tells whether one has begun. -/
def collapse : Bool → List Char → List Char
  | _, [] => []
  | run, c :: cs =>
      if idChar c then c :: collapse false cs
      else if run then collapse true cs else '_' :: collapse true cs

/-- `_sid`. -/
def sid (front value : String) : String :=
  front ++ String.ofList ((collapse false value.toList).take 100)

/-- `_escape`. -/
def escape (s : String) : String :=
  String.ofList (s.toList.flatMap fun c => if c = '\x7b' ∨ c = '\x7d' then [c, c] else [c])

/-- `a or b`, of texts. -/
def orElse (a b : String) : String := if a = "" then b else a

/-- `_foreign`. -/
def foreignFit (format kind title why : String) (sources targets : List String) : Fit :=
  { engine := foreign, title := orElse title kind, sources := sources, targets := targets
    params := [("format", .str format), ("kind", .str kind), ("reason", .str why)] }

/-! ## Steps -/

/-- What a step becomes: nodes, the wires between them, where ways lead in, and where they lead
out. -/
structure Step where
  id : String
  nodes : List Node
  drawn : List (End × End) := []
  into : Option End
  outs : List End

/-! ## Node-RED -/

/-- A rule of a `change` or of a `switch`; an absent text is empty, and `value` is the field
`to`. -/
structure NrRule where
  t : String := ""
  p : String := ""
  pt : String := ""
  tot : String := ""
  value : Work.Json := .str ""
  vt : String := ""
  v : Work.Json := .str ""

/-- An item of a flow; `x` is absent where it is not on the canvas, and `every` and `markup` are
the fields `repeat` and `syntax`. -/
structure NrItem where
  id : String
  type : String := ""
  label : String := ""
  name : String := ""
  x : Option ℚ := none
  y : ℚ := 0
  wires : List (List String) := []
  info : String := ""
  every : String := ""
  crontab : String := ""
  payloadType : String := "date"
  payload : String := ""
  rules : List NrRule := []
  property : String := "payload"
  propertyType : String := "msg"
  action : String := ""
  minin : Option Work.Json := none
  maxin : Option Work.Json := none
  minout : Option Work.Json := none
  maxout : Option Work.Json := none
  round : Bool := false
  field : String := "payload"
  markup : String := ""
  template : String := ""
  func : Bool := false

/-- `LOOP_CAP`. -/
def loopCap : ℤ := 100

/-- `repeat_seconds`. -/
def repeatSeconds (item : NrItem) : Except Raised Work.Json :=
  if py.blank item.every then .ok .null else (py.float (.str item.every)).map py.number

/-- The budget of an inject. -/
def injectBudget (item : NrItem) : Except Raised Work.Fields :=
  if py.blank item.every && py.blank item.crontab then .ok defaultBudget
  else (repeatSeconds py item).map fun seconds =>
    [("seconds", .int 60), ("runs", .int loopCap), ("repeat_seconds", seconds),
      ("crontab", .str item.crontab), ("stop", .str "Stop, or after 100 runs")]

/-- `_nr_value`. -/
def nrValue (kind value : String) : Except Raised Work.Json :=
  if kind = "num" then
    if py.blank value then .ok (.int 0) else (py.float (.str value)).map py.number
  else if kind = "json" then if py.blank value then .ok .null else py.loads value
  else if kind = "bool" then .ok (.bool (py.lower value = "true"))
  else .ok (.str value)

/-- An engine with one input and one output. -/
def through (engine title : String) (params : Work.Fields) (target source : String) :
    Fit × Option String × List String :=
  ({ engine := engine, title := title, params := params, sources := [source], targets := [target] },
    some target, [source])

/-- A limit of a range; one that is absent is a `KeyError`, which is caught like a `ValueError`. -/
def limit (v : Option Work.Json) : Except Raised py.Number :=
  v.elim (.error (.valueError "KeyError")) py.float

/-- The limits of a range, if they are numbers. -/
def rangeLimits (item : NrItem) :
    Except Raised (Option (py.Number × py.Number × py.Number × py.Number)) :=
  let limits : Except Raised (py.Number × py.Number × py.Number × py.Number) := do
    return (← limit py item.minin, ← limit py item.maxin, ← limit py item.minout,
      ← limit py item.maxout)
  match limits with
  | .error (.valueError _) => .ok none
  | .error e => .error e
  | .ok r => .ok (some r)

/-- The expression of a range. -/
def rangeText (item : NrItem) (a b c d : py.Number) : String :=
  let scaled := "(x - " ++ py.repr a ++ ") * " ++ py.repr (py.div (py.sub d c) (py.sub b a)) ++
    " + " ++ py.repr c
  let clamped := if item.action = "clamp" then
    "min(max(" ++ scaled ++ ", " ++ py.repr (py.min c d) ++ "), " ++ py.repr (py.max c d) ++ ")"
    else scaled
  if item.round then "round(" ++ clamped ++ ")" else clamped

/-- An engine, its input, and its outputs in the order of the ports. -/
abbrev Fitted := Fit × Option String × List String

/-- The outputs of an item: one for each of its ports. -/
def portNames (item : NrItem) : List String :=
  (List.range item.wires.length).map fun k => "out" ++ toString k

/-- An item that stays foreign. -/
def alien (item : NrItem) (why : String) : Except Raised Fitted :=
  .ok (foreignFit "node-red" item.type item.name why (portNames item) ["in"], some "in",
    portNames item)

/-- `_nr_node` of an inject. -/
def nrInject (item : NrItem) : Except Raised Fitted :=
  (injectBudget py item).bind fun budget =>
    if ["num", "str", "json", "bool"].contains item.payloadType then
      match nrValue py item.payloadType item.payload with
      | .ok value => .ok ({ engine := "data.constant", title := orElse item.name "Inject"
                            params := [("value", value)], sources := ["value"], budget := budget },
          none, ["value"])
      | .error (.valueError _) => alien item ("payload is not valid " ++ item.payloadType)
      | .error e => .error e
    else .ok ({ engine := "trigger.emit", title := orElse item.name "Inject", sources := ["out"]
                budget := budget }, none, ["out"])

/-- Why a change stays foreign. -/
def changeWhy : String :=
  "change rules other than \"set payload to text or number\" have no ArchHub engine yet"

/-- `_nr_node` of a change. -/
def nrChange (item : NrItem) : Except Raised Fitted :=
  match item.rules with
  | [rule] =>
      if rule.t ≠ "set" ∨ rule.p ≠ "payload" ∨ rule.pt ≠ "msg" then alien item changeWhy
      else if rule.tot = "str" then
        .ok (through "text.ops" (orElse item.name "Change") [("operation", .str "format"),
          ("template", .str (escape (py.str rule.value)))] "text" "text")
      else if rule.tot = "num" then
        (py.float (if rule.value.truthy then rule.value else .int 0)).bind fun number =>
          .ok (through "math.expression" (orElse item.name "Change")
            [("expression", .str (py.repr number))] "x" "value")
      else alien item changeWhy
  | _ => alien item changeWhy

/-- `_nr_node` of a range. -/
def nrRange (item : NrItem) : Except Raised Fitted :=
  (rangeLimits py item).bind fun
    | none => alien item "range limits are not numbers"
    | some (a, b, c, d) =>
        if py.same a b then alien item "range input limits are equal"
        else .ok (through "math.expression" (orElse item.name "Range")
          [("expression", .str (rangeText py item a b c d))] "x" "value")

/-- `_nr_node`. -/
def nrNode (item : NrItem) : Except Raised Fitted :=
  if item.type = "comment" then
    .ok ({ engine := "note", title := orElse item.name "Comment"
           params := [("text", .str (orElse item.info item.name))] }, none, [])
  else if item.type = "inject" then nrInject py item
  else if item.type = "debug" then
    .ok ({ engine := "watch.preview", title := orElse item.name "Debug"
           params := [("as", .str "table")], sources := ["out"], targets := ["in"] }, some "in", [])
  else if item.type = "change" then nrChange py item
  else if item.type = "range" ∧ item.property = "payload" ∧
      (item.action = "scale" ∨ item.action = "clamp") then nrRange py item
  else if item.type = "json" ∧ item.property = "payload" then
    .ok (through "data.convert" (orElse item.name "JSON")
      [("target_type", .str (if item.action = "str" then "text" else "object"))] "in" "out")
  else if item.type = "template" ∧ item.field = "payload" ∧ item.markup = "plain" then
    .ok (through "text.ops" (orElse item.name "Template") [("operation", .str "format"),
      ("template", .str (escape item.template))] "text" "text")
  else if item.type = "template" ∧ item.field = "payload" ∧ (py.mustache item.template).isSome then
    .ok (through "text.ops" (orElse item.name "Template") [("operation", .str "format"),
      ("template", .str ((py.mustache item.template).getD ""))] "text" "text")
  else
    alien item ("Node-RED " ++ item.type ++ " nodes have no ArchHub engine yet" ++
      if item.type = "function" ∨ item.type = "exec" ∨ item.func then
        "; their code is untrusted and never runs" else "")

/-- `_COMPARE`. -/
def compare : List (String × String) :=
  [("lt", "<"), ("lte", "<="), ("gt", ">"), ("gte", ">="), ("eq", "=="), ("neq", "!=")]

/-- Whether `_nr_switch` makes a chain of Ifs. -/
def chained (item : NrItem) : Bool :=
  item.property = "payload" && item.propertyType = "msg" && !item.rules.isEmpty &&
    item.rules.all fun r => (compare.lookup r.t).isSome && (r.vt = "num" || r.vt = "str")

/-- The condition of an If. -/
def ruleText (r : NrRule) : Except Raised String := do
  let literal ← if r.vt = "num" then (py.float r.v).map py.repr
    else .ok ("\"" ++ String.ofList ((py.str r.v).toList.filter (· ≠ '"')) ++ "\"")
  return "value " ++ (compare.lookup r.t).getD "" ++ " " ++ literal

/-- The identity of an If of a chain. -/
def ruleId (nid : String) (index : ℕ) : String := nid ++ "-r" ++ toString (index + 1)

/-- The source of a node of a Node-RED flow. -/
def nrSource (item : NrItem) : Work.Fields :=
  [("format", .str "node-red"), ("type", .str item.type), ("id", .str item.id)]

/-- `_nr_switch`. -/
def nrSwitch (item : NrItem) (nid : String) (position : ℚ × ℚ) : Except Raised Step := do
  let texts ← item.rules.mapM (ruleText py)
  return {
    id := item.id
    nodes := texts.mapIdx fun k text => node py.toHost (ruleId nid k)
      { engine := "control.if"
        title := orElse item.name "Switch" ++ " rule " ++ toString (k + 1)
        params := [("condition", .str text)], sources := ["true", "false"], targets := ["value"] }
      (position.1 + 40 * k, position.2 + 30 * k) (nrSource item ++ [("rule", .int k)])
    drawn := (List.range (texts.length - 1)).map fun k =>
      (⟨ruleId nid k, "false"⟩, ⟨ruleId nid (k + 1), "value"⟩)
    into := some ⟨ruleId nid 0, "value"⟩
    outs := (List.range texts.length).map fun k => ⟨ruleId nid k, "true"⟩ }

/-- Tabs, groups and config nodes carry no step. -/
def skipped (item : NrItem) : Bool :=
  ["tab", "subflow", "group"].contains item.type || item.x.isNone

/-- A step of a Node-RED flow. -/
def nrStep (item : NrItem) : Except Raised Step :=
  let nid := sid "nr-" item.id
  let position := (item.x.getD 0, item.y)
  if item.type = "switch" ∧ chained item then nrSwitch py item nid position
  else do
    let (fit, socket, sockets) ← nrNode py item
    return {
      id := item.id
      nodes := [node py.toHost nid fit position (nrSource item)]
      into := socket.map fun s => ⟨nid, s⟩
      outs := sockets.map fun s => ⟨nid, s⟩ }

/-- The connections of a flow: a step, a port of it, and what is connected to the port. -/
def nrConnections (items : List NrItem) : List (String × ℕ × String) :=
  items.flatMap fun item => item.wires.zipIdx.flatMap fun port =>
    port.1.map fun target => (item.id, port.2, target)

/-- A connection of a flow. -/
def nrLink (steps : List Step) (c : String × ℕ × String) : Link where
  source := c.1
  target := c.2.2
  entry := [("from", .str c.1), ("port", .int c.2.1), ("to", .str c.2.2)]
  way := do
    let source ← (((Dict.ofList (steps.map fun s => (s.id, s.outs))).get? c.1).getD [])[c.2.1]?
    let target ← (Dict.ofList (steps.filterMap fun s => s.into.map fun e => (s.id, e))).get? c.2.2
    return (source, target)

/-- `import_node_red`, up to the document. -/
def nrPlan (items : List NrItem) : Except Raised Plan := do
  let steps ← (items.filter fun item => !skipped item).mapM (nrStep py)
  return {
    format := "node-red"
    nodes := steps.flatMap Step.nodes
    drawn := steps.flatMap Step.drawn
    inputs := []
    links := (nrConnections items).map (nrLink steps) }

/-! ## Langflow -/

/-- A node of a graph; `kind` is the type of its component, and the names of its outputs are not
empty. -/
structure LfNode where
  id : String
  type : String := ""
  kind : String
  position : ℚ × ℚ := (0, 0)
  displayName : String := ""
  description : String := ""
  template : Work.Fields := []
  outputs : List String := []

/-- An edge of a graph; an absent text is empty. -/
structure LfEdge where
  source : String := ""
  target : String := ""
  output : String := ""
  fieldName : String := ""

/-- The inputs and outputs of a mapped node, by the names that the graph has for them; a foreign
node has the names of the graph. -/
structure Sockets where
  inputs : Option (List (String × String))
  outputs : Option (List (String × String))

/-- `_field`. -/
def fieldOf (template : Work.Fields) (key : String) (default : Work.Json) : Work.Json :=
  match field? template key with
  | some (.obj held) => (field? held "value").getD default
  | _ => default

/-- `_field(..) or other`. -/
def fieldOr (template : Work.Fields) (key other : String) : Work.Json :=
  if (fieldOf template key (.str "")).truthy then fieldOf template key (.str "")
  else fieldOf template other (.str "")

/-- `str(value or "")`. -/
def textOf (v : Work.Json) : String := if v.truthy then py.str v else ""

/-- `add_param`, of a text without a value. -/
def addParam (n : Node) (name : String) : Except Raised Node :=
  let id := py.paramId name
  let entry : Work.Json := .obj [("id", .str id), ("name", .str (cutTo 80 name)), ("type", .str "text")]
  if id = "" ∨ n.params.contains id = true then
    .error (.valueError "Choose a new parameter name for this node.")
  else .ok { n with
    params := n.params.set id (.str "")
    paramDefs := some (.arr ((match n.paramDefs with
      | some (.arr defs) => defs
      | _ => []) ++ [entry])) }

/-- A node with the inputs of the variables of a prompt. -/
def withVariables (n : Node) (names : List String) : Node :=
  let more : List Port := names.map fun v => ⟨"param:" ++ py.casefold v, "string"⟩
  { n with ports := n.ports.map fun p => { p with target := p.target ++ more } }

/-- Whether a node is a model. -/
def isModel (tools : List String) (item : LfNode) : Bool :=
  item.kind = "LanguageModelComponent" || "Model".toList.isSuffixOf item.kind.toList ||
    item.kind = "Agent" && !tools.contains item.id

/-- A node of a graph: what it becomes, and where it is mapped to. -/
def lfNode (tools : List String) (item : LfNode) : Except Raised (Node × Option Sockets) :=
  let source : Work.Fields :=
    [("format", .str "langflow"), ("type", .str item.kind), ("id", .str item.id)]
  let made (fit : Fit) (more : Work.Fields) : Node :=
    node py.toHost (sid "lf-" item.id) fit item.position (source ++ more)
  let name := orElse item.displayName item.kind
  if item.type = "noteNode" then
    .ok (made { engine := "note", title := "Note"
                params := [("text", .str (cutTo 20000 item.description))] } [], none)
  else if ["ChatInput", "TextInput"].contains item.kind then
    .ok (made { engine := "param.value", title := name, sources := ["value"]
                params := [("type", .str "text"),
                  ("value", .str (py.str (fieldOf item.template "input_value" (.str ""))))] } [],
      some ⟨some [], some [("message", "value"), ("text", "value")]⟩)
  else if ["ChatOutput", "TextOutput"].contains item.kind then
    .ok (made { engine := "watch.preview", title := name, params := [("as", .str "table")]
                sources := ["out"], targets := ["in"] } [],
      some ⟨some [("input_value", "in")], some [("message", "out")]⟩)
  else if item.kind = "Prompt" ∧
      (fieldOf item.template "use_double_brackets" (.bool false)).truthy = false then
    let text := py.str (fieldOf item.template "template" (.str ""))
    let names := py.promptNames text
    (names.foldlM (addParam py) (made { engine := "text.ops", title := name, sources := ["text"]
                                        targets := ["text"]
                                        params := [("operation", .str "format"),
                                          ("template", .str (py.prompt text))] } [])).map fun n =>
      (withVariables py n names, some ⟨some (names.map fun v => (v, "param:" ++ py.casefold v)),
        some [("prompt", "text")]⟩)
  else if isModel tools item then
    .ok (made { engine := "thing.model", title := name, sources := ["text", "model"]
                targets := ["prompt", "system"]
                params := [("prompt", .str ""), ("system", .str (textOf py
                  (fieldOr item.template "system_prompt" "system_message")))] }
        [("model", .str (cutTo 200 (textOf py (fieldOr item.template "model_name" "model"))))],
      some ⟨some [("input_value", "prompt"), ("system_message", "system")],
        some [("text_output", "text"), ("response", "text"), ("model_output", "text")]⟩)
  else
    .ok (made (foreignFit "langflow" item.kind name
      ("Langflow " ++ item.kind ++ " has no ArchHub engine yet" ++
        if (field? item.template "code").isSome then
          "; its component code is untrusted and never runs" else "") item.outputs []) [],
      some ⟨none, none⟩)

/-- `mapped`: the mapped nodes by the identities that the graph has for them. -/
def mappedOf (made : List (LfNode × Node × Option Sockets)) : Dict String (String × Sockets) :=
  Dict.ofList (made.filterMap fun m => m.2.2.map fun s => (m.1.id, m.2.1.id, s))

/-- An edge of a graph, and the input that its target is given for it if it is foreign. -/
def lfLink (mapped : Dict String (String × Sockets)) (e : LfEdge) : Link × Option End :=
  let none' : Link := ⟨e.source, e.target, [("from", .str e.source), ("to", .str e.target),
    ("field", .str e.fieldName)], none⟩
  match mapped.get? e.source, mapped.get? e.target with
  | some src, some dst =>
      if e.output = "" ∨ e.fieldName = "" then (none', none)
      else
        match src.2.outputs.elim (some e.output) (·.lookup e.output),
          dst.2.inputs.elim (some e.fieldName) (·.lookup e.fieldName) with
        | some out, some into =>
            ({ none' with way := some (⟨src.1, out⟩, ⟨dst.1, into⟩) },
              if dst.2.inputs.isNone then some ⟨dst.1, into⟩ else none)
        | _, _ => ({ none' with entry := [("from", .str e.source), ("output", .str e.output),
            ("to", .str e.target), ("field", .str e.fieldName)] }, none)
  | _, _ => (none', none)

/-- `import_langflow`, up to the document. -/
def lfPlan (nodes : List LfNode) (edges : List LfEdge) : Except Raised Plan := do
  let tools := (edges.filter fun e => e.fieldName = "tools").map LfEdge.target
  let made ← nodes.mapM fun item => (lfNode py tools item).map fun r => (item, r)
  return {
    format := "langflow"
    nodes := made.map fun m => m.2.1
    drawn := []
    inputs := edges.filterMap fun e => (lfLink (mappedOf made) e).2
    links := edges.map fun e => (lfLink (mappedOf made) e).1 }

/-! ## Sources -/

/-- What is imported: the items of a Node-RED flow, with the title for a flow that has none, or a
Langflow graph with its name. -/
inductive Source
  | nodeRed (items : List NrItem) (title : String)
  | langflow (nodes : List LfNode) (edges : List LfEdge) (name : String)

/-- What an import makes of a source. -/
def Source.plan : Source → Except Raised Plan
  | .nodeRed items _ => nrPlan py items
  | .langflow nodes edges _ => lfPlan py nodes edges

/-- The title of the document. -/
def Source.title : Source → String
  | .nodeRed items title =>
      match items.filter fun item => item.type = "tab" with
      | [tab] => orElse tab.label title
      | _ => title
  | .langflow _ _ name => cutTo 200 (orElse name "Langflow flow")

/-- What the document reports besides what is dropped. -/
def Source.report : Source → Work.Fields
  | .nodeRed items _ => [("skipped", .arr ((items.filter skipped).map fun item => .str item.type))]
  | .langflow _ _ _ => []

/-- `identity or "nodered-" + digest`, or the same for a graph. -/
def Source.identity (s : Source) (identity : Option String) (digest : String) : String :=
  let made := match s with
    | .nodeRed _ _ => "nodered-" ++ digest
    | .langflow _ _ _ => "langflow-" ++ digest
  identity.elim made fun given => orElse given made

/-- `import_node_red` and `import_langflow`, with the digest of the source. -/
def importFlow (size : Document → ℕ) (s : Source) (identity : Option String) (digest : String) :
    Except Raised Document :=
  (s.plan py).bind fun p =>
    (p.finish py.toHost size s.title (s.identity identity digest) s.report).mapError
      Raised.valueError

/-! ## Results -/

theorem bind_eq_ok {x : Except Raised α} {y : β} (h : x.bind f = .ok y) :
    ∃ a, x = .ok a ∧ f a = .ok y := by
  cases x with
  | error e => cases h
  | ok a => exact ⟨a, rfl, h⟩

theorem map_eq_ok {x : Except Raised α} {f : α → β} {y : β} (h : x.map f = .ok y) :
    ∃ a, x = .ok a ∧ f a = y := by
  cases x with
  | error e => cases h
  | ok a => exact ⟨a, rfl, Except.ok.inj h⟩

/-- A list of results, where there is none that raises. -/
theorem forall₂_of_mapM (h : xs.mapM f = .ok ys) : List.Forall₂ (fun x y => f x = .ok y) xs ys := by
  induction xs generalizing ys with
  | nil =>
      cases h
      exact .nil
  | cons x xs ih =>
      rw [mapM_cons] at h
      obtain ⟨y, hx, h⟩ := bind_eq_ok h
      obtain ⟨ys', hxs, h⟩ := bind_eq_ok h
      cases h
      exact .cons hx (ih hxs)

theorem exists_of_forall₂ {R : α → β → Prop} (h : List.Forall₂ R xs ys) {y : β} (hy : y ∈ ys) :
    ∃ x ∈ xs, R x y := by
  induction h with
  | nil => exact absurd hy not_mem_nil
  | cons hxy _ ih =>
      rcases List.mem_cons.1 hy with rfl | hy
      · exact ⟨_, mem_cons_self, hxy⟩
      · obtain ⟨x, hx, hR⟩ := ih hy
        exact ⟨x, mem_cons_of_mem _ hx, hR⟩

/-! ## Every step counts runs -/

variable {py} {size : Document → ℕ} {s : Source} {p : Plan} {d : Document} {identity : String}

/-- A result with a budget that counts runs. -/
def Fits (x : Except Raised Fitted) : Prop := ∀ r, x = .ok r → ∃ e ∈ r.1.budget, e.1 = "runs"

theorem runs_default : ∃ e ∈ defaultBudget, e.1 = "runs" :=
  ⟨("runs", .int 1), by simp [defaultBudget], rfl⟩

theorem fits_ok {r : Fitted} (h : ∃ e ∈ r.1.budget, e.1 = "runs") : Fits (.ok r) := by
  rintro r' ⟨⟩
  exact h

theorem fits_error (e : Raised) : Fits (.error e) := by
  rintro r ⟨⟩

theorem fits_bind {x : Except Raised α} {f : α → Except Raised Fitted}
    (h : ∀ a, x = .ok a → Fits (f a)) : Fits (x.bind f) := by
  cases x with
  | error e => exact fits_error e
  | ok a => exact h a rfl

theorem fits_alien (item : NrItem) (why : String) : Fits (alien item why) := fits_ok runs_default

theorem fits_nrInject (item : NrItem) : Fits (nrInject py item) := by
  refine fits_bind fun budget hbudget => ?_
  have hruns : ∃ e ∈ budget, e.1 = "runs" := by
    unfold injectBudget at hbudget
    split at hbudget
    · cases hbudget
      exact runs_default
    · obtain ⟨seconds, -, rfl⟩ := map_eq_ok hbudget
      exact ⟨("runs", .int loopCap), by simp, rfl⟩
  split
  · split
    · exact fits_ok hruns
    · exact fits_alien _ _
    · exact fits_error _
  · exact fits_ok hruns

theorem fits_nrChange (item : NrItem) : Fits (nrChange py item) := by
  unfold nrChange
  split
  · split
    · exact fits_alien _ _
    split
    · exact fits_ok runs_default
    split
    · exact fits_bind fun number _ => fits_ok runs_default
    · exact fits_alien _ _
  · exact fits_alien _ _

theorem fits_nrRange (item : NrItem) : Fits (nrRange py item) := by
  refine fits_bind fun limits _ => ?_
  split
  · exact fits_alien _ _
  · split
    · exact fits_alien _ _
    · exact fits_ok runs_default

theorem fits_nrNode (item : NrItem) : Fits (nrNode py item) := by
  unfold nrNode
  split
  · exact fits_ok runs_default
  split
  · exact fits_nrInject item
  split
  · exact fits_ok runs_default
  split
  · exact fits_nrChange item
  split
  · exact fits_nrRange item
  split
  · exact fits_ok runs_default
  split
  · exact fits_ok runs_default
  split
  · exact fits_ok runs_default
  · exact fits_alien _ _

/-- What a step of Node-RED becomes: at least one node, and nodes that count runs. -/
theorem counts_nrStep {item : NrItem} {step : Step} (h : nrStep py item = .ok step) :
    step.nodes ≠ [] ∧ ∀ n ∈ step.nodes, CountsRuns n := by
  unfold nrStep at h
  dsimp only at h
  split at h
  · rename_i hswitch
    obtain ⟨texts, htexts, hstep⟩ := bind_eq_ok h
    cases hstep
    have hlength : item.rules.length = texts.length := (forall₂_of_mapM htexts).length_eq
    constructor
    · intro hnil
      have hchained := hswitch.2
      rw [mapIdx_eq_nil_iff] at hnil
      rw [hnil] at hlength
      simp [chained, List.length_eq_zero_iff.1 hlength] at hchained
    · intro n hn
      obtain ⟨k, hk, rfl⟩ := List.mem_mapIdx.1 hn
      exact countsRuns_node runs_default
  · obtain ⟨r, hfit, hstep⟩ := bind_eq_ok h
    cases hstep
    refine ⟨cons_ne_nil _ _, fun n hn => ?_⟩
    rw [List.mem_singleton.1 hn]
    exact countsRuns_node (fits_nrNode item r hfit)

/-- A node with a further parameter has the budget it had. -/
theorem counts_addParams {names : List String} {n n' : Node} (hn : CountsRuns n)
    (h : names.foldlM (addParam py) n = .ok n') : CountsRuns n' := by
  induction names generalizing n with
  | nil =>
      cases h
      exact hn
  | cons name names ih =>
      rw [foldlM_cons] at h
      obtain ⟨n₁, hadd, hrest⟩ := bind_eq_ok h
      refine ih ?_ hrest
      unfold addParam at hadd
      dsimp only at hadd
      split at hadd
      · cases hadd
      · cases hadd
        exact hn

/-- What a node of a graph becomes counts runs. -/
theorem counts_lfNode {tools : List String} {item : LfNode} {r : Node × Option Sockets}
    (h : lfNode py tools item = .ok r) : CountsRuns r.1 := by
  unfold lfNode at h
  dsimp only at h
  split at h
  · cases h
    exact countsRuns_node runs_default
  split at h
  · cases h
    exact countsRuns_node runs_default
  split at h
  · cases h
    exact countsRuns_node runs_default
  split at h
  · obtain ⟨n, hn, rfl⟩ := map_eq_ok h
    have hn' : CountsRuns n := counts_addParams (countsRuns_node runs_default) hn
    exact hn'
  split at h
  · cases h
    exact countsRuns_node runs_default
  · cases h
    exact countsRuns_node runs_default

/-! ## Sources without steps -/

/-- A source without a step. -/
def Source.Empty : Source → Prop
  | .nodeRed items _ => ∀ item ∈ items, skipped item = true
  | .langflow nodes _ _ => nodes = []

/-- The name of the format of a source. -/
def Source.format : Source → String
  | .nodeRed _ _ => "node-red"
  | .langflow _ _ _ => "langflow"

/-- The connections of a source, none of which leads anywhere. -/
def Source.unled : Source → List Link
  | .nodeRed items _ => (nrConnections items).map fun c =>
      ⟨c.1, c.2.2, [("from", .str c.1), ("port", .int c.2.1), ("to", .str c.2.2)], none⟩
  | .langflow _ edges _ => edges.map fun e =>
      ⟨e.source, e.target, [("from", .str e.source), ("to", .str e.target),
        ("field", .str e.fieldName)], none⟩

/-- The document of a source without steps: it lists the connections as dropped. -/
def Source.blank (s : Source) (identity : String) : Document where
  id := identity
  title := s.title
  nodes := []
  wires := []
  groups := []
  notes := []
  viewport := some ⟨0, 0, 1, []⟩
  properties := some (.obj [("import", .obj (Assoc.put (Assoc.put (Assoc.put s.report
    "format" (.str s.format)) "dropped" (.arr (s.unled.map fun l => .obj l.entry)))
    "foreign" (.int 0)))])

theorem identity_ne (s : Source) (identity : Option String) (digest : String) :
    s.identity identity digest ≠ "" := by
  have hmade : ∀ front : String, front ≠ "" → front ++ digest ≠ "" := by
    intro front hfront h
    exact hfront (String.append_eq_empty_iff.1 h).1
  cases s <;> cases identity with
  | none => exact hmade _ (by decide)
  | some given =>
      show orElse given _ ≠ ""
      unfold orElse
      split
      · exact hmade _ (by decide)
      · assumption

/-- What is made of a source without steps. -/
theorem plan_of_empty (hs : s.Empty) : s.plan py = .ok ⟨s.format, [], [], [], s.unled⟩ := by
  cases s with
  | nodeRed items title =>
      have hnone : (items.filter fun item => !skipped item) = [] :=
        List.filter_eq_nil_iff.2 fun item hitem => by simp [hs item hitem]
      show nrPlan py items = _
      rw [nrPlan, hnone]
      refine congrArg Except.ok ?_
      rw [Plan.mk.injEq]
      refine ⟨rfl, rfl, rfl, rfl, map_congr_left fun c _ => ?_⟩
      simp [nrLink, Dict.ofList]
  | langflow nodes edges name =>
      obtain rfl : nodes = [] := hs
      refine congrArg Except.ok ?_
      rw [Plan.mk.injEq]
      exact ⟨rfl, rfl, rfl, List.filterMap_eq_nil_iff.2 fun _ _ => rfl, rfl⟩

theorem unled_way (s : Source) : ∀ l ∈ s.unled, l.way = none := by
  intro l hl
  cases s with
  | nodeRed items title =>
      obtain ⟨c, -, rfl⟩ := List.mem_map.1 hl
      rfl
  | langflow nodes edges name =>
      obtain ⟨e, -, rfl⟩ := List.mem_map.1 hl
      rfl

theorem document_of_empty (host : Host) (s : Source) (id : String) :
    (⟨s.format, [], [], [], s.unled⟩ : Plan).document host s.title id s.report = s.blank id := by
  have hways : (⟨s.format, [], [], [], s.unled⟩ : Plan).ways = [] :=
    List.filterMap_eq_nil_iff.2 (unled_way s)
  have hdropped : s.unled.filter (fun l => l.way.isNone) = s.unled :=
    List.filter_eq_self.2 fun l hl => by rw [unled_way s l hl]; rfl
  have hbuilt : (⟨s.format, [], [], [], s.unled⟩ : Plan).built host = ⟨Dict.empty, []⟩ := by
    rw [Plan.built, Builder.connect, hways]
    rfl
  unfold Plan.document Plan.dropped
  rw [hbuilt, hdropped]
  rfl

/-- A source with a step has a plan with one. -/
theorem empty_of_plan (h : s.plan py = .ok p) (hnodes : p.nodes = []) : s.Empty := by
  cases s with
  | nodeRed items title =>
      obtain ⟨steps, hsteps, hp⟩ := bind_eq_ok (show Except.bind _ _ = _ from h)
      cases hp
      have hall := forall₂_of_mapM hsteps
      intro item hitem
      by_contra hskipped
      have hshown : item ∈ items.filter fun item => !skipped item :=
        List.mem_filter.2 ⟨hitem, by simpa using hskipped⟩
      obtain ⟨step, hmem, hstep⟩ := exists_of_forall₂ hall.flip hshown
      exact (counts_nrStep hstep).1 (List.flatMap_eq_nil_iff.1 hnodes step hmem)
  | langflow nodes edges name =>
      obtain ⟨made, hmade, hp⟩ := bind_eq_ok (show Except.bind _ _ = _ from h)
      cases hp
      have hlength := (forall₂_of_mapM hmade).length_eq
      rw [List.map_eq_nil_iff.1 hnodes] at hlength
      exact List.length_eq_zero_iff.1 hlength

theorem counts_plan (h : s.plan py = .ok p) : ∀ n ∈ p.nodes, CountsRuns n := by
  intro n hn
  cases s with
  | nodeRed items title =>
      obtain ⟨steps, hsteps, hp⟩ := bind_eq_ok (show Except.bind _ _ = _ from h)
      cases hp
      obtain ⟨step, hmem, hn⟩ := List.mem_flatMap.1 hn
      obtain ⟨item, -, hstep⟩ := exists_of_forall₂ (forall₂_of_mapM hsteps) hmem
      exact (counts_nrStep hstep).2 n hn
  | langflow nodes edges name =>
      obtain ⟨made, hmade, hp⟩ := bind_eq_ok (show Except.bind _ _ = _ from h)
      cases hp
      obtain ⟨m, hm, rfl⟩ := List.mem_map.1 hn
      obtain ⟨item, -, hitem⟩ := exists_of_forall₂ (forall₂_of_mapM hmade) hm
      obtain ⟨r, hr, rfl⟩ := map_eq_ok hitem
      exact counts_lfNode hr

/-! ## What an import keeps -/

theorem safeList_of_forall {xs : List Work.Json} (h : ∀ x ∈ xs, safe x = .ok ()) :
    safeList xs = .ok () := by
  induction xs with
  | nil => rw [safeList]
  | cons x xs ih =>
      rw [forall_mem_cons] at h
      rw [safeList, Check.seq_ok_iff]
      exact ⟨h.1, ih h.2⟩

/-- The names of what is reported name no secrets. -/
theorem reported_safe : (["import", "skipped", "format", "dropped", "foreign", "from", "port", "to",
    "field"].all fun k => !secretKey.search none k.toList) = true := by
  decide +kernel

theorem safeField_reported {k : String} {v : Work.Json} (hk : k ∈ ["import", "skipped", "format",
    "dropped", "foreign", "from", "port", "to", "field"]) (hv : safe v = .ok ()) :
    SafeField (k, v) := by
  refine ⟨?_, hv⟩
  have hall := List.all_eq_true.1 reported_safe k hk
  show (!secretKey.search none k.toList || _ || _) = true
  rw [hall]
  rfl

theorem safe_int (n : ℤ) : safe (.int n) = .ok () := by
  rw [safe] <;> simp

theorem safe_unled {l : Link} (hl : l ∈ s.unled) : safe (.obj l.entry) = .ok () := by
  rw [safe, safeFields_ok_iff]
  cases s with
  | nodeRed items title =>
      obtain ⟨c, -, rfl⟩ := List.mem_map.1 hl
      simp only [forall_mem_cons, not_mem_nil, false_imp_iff, implies_true, and_true]
      exact ⟨safeField_reported (by decide) (safe_str _), safeField_reported (by decide)
        (safe_int _), safeField_reported (by decide) (safe_str _)⟩
  | langflow nodes edges name =>
      obtain ⟨e, -, rfl⟩ := List.mem_map.1 hl
      simp only [forall_mem_cons, not_mem_nil, false_imp_iff, implies_true, and_true]
      exact ⟨safeField_reported (by decide) (safe_str _), safeField_reported (by decide)
        (safe_str _), safeField_reported (by decide) (safe_str _)⟩

theorem safe_report {e : String × Work.Json} (he : e ∈ s.report) : SafeField e := by
  cases s with
  | nodeRed items title =>
      rw [List.mem_singleton.1 he]
      refine safeField_reported (by decide) ?_
      rw [safe]
      refine safeList_of_forall fun x hx => ?_
      obtain ⟨item, -, rfl⟩ := List.mem_map.1 hx
      exact safe_str _
  | langflow nodes edges name => exact absurd he not_mem_nil

/-- The document of a source without steps is valid where it is not too long. -/
theorem valid_blank_iff {id : String} (hid : id ≠ "") :
    Valid size (s.blank id) ↔ size (s.blank id) ≤ maxBytes := by
  rw [valid_iff]
  refine ⟨fun h => h.bytes, fun hbytes => ?_⟩
  have hsafe : safeDocument (s.blank id) = .ok () := by
    rw [safeDocument_ok_iff]
    refine ⟨fun n hn => absurd hn not_mem_nil, fun w hw => absurd hw not_mem_nil,
      fun g hg => absurd hg not_mem_nil, fun n hn => absurd hn not_mem_nil,
      fun v hv => ?_, ?_⟩
    · rw [List.mem_singleton.1 hv]
      rfl
    · show safe (.obj [("import", _)]) = _
      rw [safe, safeFields_ok_iff]
      intro e he
      rw [List.mem_singleton.1 he]
      refine safeField_reported (by decide) ?_
      rw [safe, safeFields_ok_iff]
      intro e he
      rcases Assoc.mem_put he with he | rfl
      · rcases Assoc.mem_put he with he | rfl
        · rcases Assoc.mem_put he with he | rfl
          · exact safe_report he
          · exact safeField_reported (by decide) (safe_str _)
        · refine safeField_reported (by decide) ?_
          rw [safe]
          refine safeList_of_forall fun x hx => ?_
          obtain ⟨l, hl, rfl⟩ := List.mem_map.1 hx
          exact safe_unled hl
      · exact safeField_reported (by decide) (safe_int 0)
  exact
    { named := hid
      nodeCount := Nat.zero_le _
      wireCount := Nat.zero_le _
      safe := hsafe
      nodes := fun n hn => absurd hn not_mem_nil
      ids := nodup_nil
      members := fun n hn => absurd hn not_mem_nil
      groups := fun g hg => absurd hg not_mem_nil
      wires := fun w hw => absurd hw not_mem_nil
      wireIds := nodup_nil
      inputs := nodup_nil
      viewport := by
        show (decide ((0 : ℚ) < 1) && decide ((1 : ℚ) ≤ 10)) = true
        decide +kernel
      bytes := hbytes }

theorem droppedIn_blank (s : Source) (id : String) :
    droppedIn (s.blank id) = some (.arr (s.unled.map fun l => .obj l.entry)) := by
  show field? (Assoc.put (Assoc.put (Assoc.put s.report _ _) _ _) _ _) "dropped" = _
  rw [field?, Assoc.find_put, if_neg (by decide), Assoc.find_put, if_pos rfl]

/-- **An import returns a document that has lost nothing exactly where its source has no step, and
the list of what is dropped is not too long.** -/
theorem import_keeps_iff (py : Language) (size : Document → ℕ) (s : Source)
    (identity : Option String) (digest : String) :
    (∃ p d, s.plan py = .ok p ∧ importFlow py size s identity digest = .ok d ∧ Kept size p d) ↔
      s.Empty ∧ size (s.blank (s.identity identity digest)) ≤ maxBytes := by
  have hid := identity_ne s identity digest
  have himport : ∀ p, s.plan py = .ok p → importFlow py size s identity digest =
      (p.finish py.toHost size s.title (s.identity identity digest) s.report).mapError
        Raised.valueError := by
    intro p hplan
    rw [importFlow, hplan]
    rfl
  constructor
  · rintro ⟨p, d, hplan, h, -⟩
    rw [himport p hplan] at h
    have hfinish :
        p.finish py.toHost size s.title (s.identity identity digest) s.report = .ok d := by
      cases hcases : p.finish py.toHost size s.title (s.identity identity digest) s.report with
      | error text =>
          rw [hcases] at h
          cases h
      | ok d' =>
          rw [hcases] at h
          cases h
          rfl
    have hnodes : p.nodes = [] := by
      by_contra hne
      exact refused_of_steps (counts_plan hplan) hne hfinish
    have hempty := empty_of_plan hplan hnodes
    rw [plan_of_empty hempty] at hplan
    cases hplan
    have hvalid := (finish_ok hfinish).1
    rw [document_of_empty] at hvalid
    exact ⟨hempty, (valid_blank_iff hid).1 hvalid⟩
  · rintro ⟨hempty, hbytes⟩
    have hplan := @plan_of_empty py s hempty
    have hvalid := (valid_blank_iff hid).2 hbytes
    refine ⟨_, s.blank (s.identity identity digest), hplan, ?_, ⟨rfl, List.nodup_nil,
      fun l hl => .inr ⟨unled_way s l hl, _, droppedIn_blank s _, List.mem_map_of_mem hl⟩, hvalid⟩⟩
    have hcheck : validate size (s.blank (s.identity identity digest)) = .ok () := hvalid
    rw [himport _ hplan, Plan.finish, document_of_empty, hcheck]
    rfl

/-- A language that raises at numbers and JSON. -/
def plainLanguage : Language where
  isPure _ := true
  word c := c.isAlphanum || c = '_'
  Number := ℚ
  float _ := .error (.valueError "could not convert string to float")
  number q := .float (some q)
  repr _ := ""
  same a b := a = b
  min a b := min a b
  max a b := max a b
  sub a b := a - b
  div a b := a / b
  str
    | .str s => s
    | _ => ""
  blank s := s.toList.all (· = ' ')
  lower s := String.ofList (s.toList.map Char.toLower)
  casefold s := String.ofList (s.toList.map Char.toLower)
  loads _ := .error (.valueError "Expecting value")
  mustache _ := none
  promptNames _ := []
  prompt s := s
  paramId s := s

/-- A flow of one `debug`. -/
def debugFlow : Source := .nodeRed [{ id := "a", type := "debug", x := some 0 }] "Flow"

/-- **A flow of one step is refused**, for the budget that its node is given. -/
theorem import_refused : importFlow plainLanguage (fun _ => 1000) debugFlow none "0" =
    .error (.valueError "Node budget must hold non-negative seconds, calls and cost_usd") := by
  obtain ⟨p, hplan, hcheck⟩ : ∃ p, debugFlow.plan plainLanguage = .ok p ∧
      validate (fun _ => 1000) (p.document plainLanguage.toHost debugFlow.title
        (debugFlow.identity none "0") debugFlow.report) =
          .error "Node budget must hold non-negative seconds, calls and cost_usd" :=
    ⟨_, rfl, by decide +kernel⟩
  rw [importFlow, hplan, Except.bind, Plan.finish, hcheck]
  rfl

end ArchHub.Flow

import Mathlib
import ArchHub.Work.Reimport

/-!
# Building an imported document

An import lists the nodes that the steps of a flow become and the ways that lead from one to
another.  An input of a node takes one wire: where several ways lead to it, the builder puts a chain
of Merges before it, and a node that stays foreign is given an input for each.

* `Builder.connect`: the wires and Merges for some ways.
* `Kept`: that a document has lost nothing of a plan.
* `refused_of_steps`: **a document with a step is refused**, for the budget that every imported node
  is given is not one that `validate` knows.
-/

namespace ArchHub.Flow

open Lib Work List

/-! ## Nodes -/

/-- `FOREIGN`. -/
def foreign : String := "import.foreign"

/-- The engine of a Merge. -/
def mergeEngine : String := "control.merge"

/-- `DEFAULT_BUDGET`. -/
def defaultBudget : Work.Fields := [("seconds", .int 60), ("runs", .int 1)]

/-- The first characters of a text. -/
def cutTo (n : ℕ) (s : String) : String := String.ofList (s.toList.take n)

/-- The functions that are used of the language, and `is_pure`. -/
structure Host where
  /-- `is_pure(engine)`. -/
  isPure : String → Bool
  /-- What `\\w` matches. -/
  word : Char → Bool

/-- What an imported node is, wherever it stands. -/
structure Fit where
  engine : String
  title : String
  params : Work.Fields := []
  sources : List String := []
  targets : List String := []
  budget : Work.Fields := defaultBudget

variable (host : Host)

/-- `_node`. -/
def node (id : String) (fit : Fit) (position : ℚ × ℚ) (source : Work.Fields) : Node where
  id := id
  type := fit.engine
  title := some (cutTo 200 fit.title)
  params := Dict.ofList fit.params
  position := position
  item := none
  parent := none
  children := []
  ports := some ⟨fit.sources.map (⟨·, "any"⟩), fit.targets.map (⟨·, "any"⟩)⟩
  paramDefs := none
  approvalRequired := none
  agentWork := none
  rest := [("pure", .bool (host.isPure fit.engine)), ("budget", .obj fit.budget),
    ("source", .obj source)]

/-- A node with one more input, where it does not have it. -/
def withInput (n : Node) (socket : String) : Node :=
  { n with ports := n.ports.map fun p =>
      if (p.target.map Port.id).contains socket then p
      else { p with target := p.target ++ [⟨socket, "any"⟩] } }

/-! ## The builder -/

/-- `_Builder`: nodes by their identities, and wires. -/
structure Builder where
  nodes : Dict String Node
  wires : List Wire

/-- A wire as `_wire` makes it. -/
def importedWire (source target : End) : Wire where
  id := "w-" ++ source.node ++ "-" ++ source.socket ++ "-" ++ target.node ++ "-" ++ target.socket
  source := source
  target := target
  inferred := none
  agentOwner := none
  rest := []

/-- What is done to a builder. -/
inductive Move
  /-- `add`. -/
  | add (n : Node)
  /-- `_wire`. -/
  | wire (source target : End)
  /-- An input that a foreign node is given. -/
  | input (e : End)

/-- A builder after a move. -/
def Builder.move (b : Builder) : Move → Builder
  | .add n => { b with nodes := b.nodes.set n.id n }
  | .wire source target => { b with wires := b.wires ++ [importedWire source target] }
  | .input e => (b.nodes.get? e.node).elim b fun n =>
      { b with nodes := b.nodes.set e.node (withInput n e.socket) }

/-- A builder after some moves. -/
def Builder.run (b : Builder) (ms : List Move) : Builder := ms.foldl Builder.move b

/-- The identity of a Merge before an input. -/
def mergeId (target : End) (index : ℕ) : String :=
  target.node ++ "-merge" ++ toString index ++ "-" ++
    String.ofList (target.socket.toList.filter host.word)

/-- A Merge before an input of a node. -/
def mergeNode (format : String) (position : ℚ × ℚ) (target : End) (index : ℕ) : Node :=
  node host (mergeId host target index)
    { engine := mergeEngine, title := "Merge (first value wins)", sources := ["value"],
      targets := ["a", "b"] }
    (position.1 - 120, position.2 + 40 * index)
    [("format", .str format), ("type", .str "fan-in"),
      ("id", .str (target.node ++ ":" ++ target.socket ++ ":" ++ toString index))]

/-- The Merges from an index on, after what is held so far. -/
def chain (format : String) (position : ℚ × ℚ) (target : End) : ℕ → End → List End → List Move
  | _, held, [] => [.wire held target]
  | index, held, source :: sources =>
      .add (mergeNode host format position target index) ::
      .wire held ⟨mergeId host target index, "a"⟩ ::
      .wire source ⟨mergeId host target index, "b"⟩ ::
      chain format position target (index + 1) ⟨mergeId host target index, "value"⟩ sources

/-- The numbered input of a foreign node. -/
def numbered (target : End) (index : ℕ) : End :=
  ⟨target.node, if index = 0 then target.socket
    else target.socket ++ "#" ++ toString (index + 1)⟩

/-- The inputs of a foreign node from an index on. -/
def spread (target : End) : ℕ → List End → List Move
  | _, [] => []
  | index, source :: sources =>
      .input (numbered target index) :: .wire source (numbered target index) ::
      spread target (index + 1) sources

/-- What `connect` does for the ways that lead to one input of a node. -/
def fanIn (format : String) (target : End) (n : Node) : List End → List Move
  | [] => []
  | [source] => [.wire source target]
  | source :: sources =>
      if n.type = foreign then spread target 0 (source :: sources)
      else chain host format n.position target 1 source sources

/-- `by_target`: where the ways come from, for each input. -/
def byTarget (ways : List (End × End)) : Dict End (List End) :=
  ways.foldl (fun d w => d.set w.2 ((d.get? w.2).getD [] ++ [w.1])) Dict.empty

/-- `connect`, for one input; the node is there. -/
def Builder.connectGroup (format : String) (b : Builder) (g : End × List End) : Builder :=
  (b.nodes.get? g.1.node).elim b fun n => b.run (fanIn host format g.1 n g.2)

/-- `connect`. -/
def Builder.connect (format : String) (b : Builder) (ways : List (End × End)) : Builder :=
  (byTarget ways).entries.foldl (Builder.connectGroup host format) b

/-! ## Plans -/

/-- A connection of the source, between two of its steps: the way that stands for it, or what is
listed among the dropped ones. -/
structure Link where
  source : String
  target : String
  entry : Work.Fields
  way : Option (End × End)

/-- What an import makes of its source: the nodes of the steps, the wires of the If chains, the
inputs that foreign nodes are given, and the connections. -/
structure Plan where
  format : String
  nodes : List Node
  drawn : List (End × End)
  inputs : List End
  links : List Link

/-- The ways of a plan. -/
def Plan.ways (p : Plan) : List (End × End) := p.links.filterMap Link.way

/-- The builder before the ways are connected. -/
def Plan.begun (p : Plan) : Builder :=
  (⟨Dict.empty, []⟩ : Builder).run
    (p.nodes.map .add ++ p.drawn.map (fun w => .wire w.1 w.2) ++ p.inputs.map .input)

/-- The builder of a plan. -/
def Plan.built (p : Plan) : Builder := p.begun.connect host p.format p.ways

/-- `dropped`. -/
def Plan.dropped (p : Plan) : List Work.Json :=
  (p.links.filter fun l => l.way.isNone).map fun l => .obj l.entry

/-- The document of a plan, before it is checked. -/
def Plan.document (p : Plan) (title identity : String) (report : Work.Fields) : Document :=
  let b := p.built host
  { id := identity
    title := title
    nodes := b.nodes.values
    wires := b.wires
    groups := []
    notes := []
    viewport := some ⟨0, 0, 1, []⟩
    properties := some (.obj [("import", .obj (Assoc.put (Assoc.put (Assoc.put report
      "format" (.str p.format)) "dropped" (.arr p.dropped)) "foreign"
      (.int (b.nodes.values.countP fun n => n.type = foreign))))]) }

variable (size : Document → ℕ)

/-- `document`. -/
def Plan.finish (p : Plan) (title identity : String) (report : Work.Fields) :
    Except String Document := do
  validate size (p.document host title identity report)
  return p.document host title identity report

/-! ## What is kept -/

/-- A step as it is told apart from others, whatever inputs it has been given; a Merge is none. -/
def stepOf (n : Node) : Option Node :=
  if n.type = mergeEngine then none else some { n with ports := none }

/-- A node that comes of a step of the source. -/
def ComesOf (n : Node) (id : String) : Prop :=
  ∃ source, field? n.rest "source" = some (.obj source) ∧ field? source "id" = some (.str id)

/-- A way from one end to another, over wires and through Merges. -/
inductive Carries (wired : End → End → Prop) (merges : String → Prop) : End → End → Prop
  | wire {s t : End} : wired s t → Carries wired merges s t
  | merge {s t : End} {id side : String} : wired s ⟨id, side⟩ → merges id →
      Carries wired merges ⟨id, "value"⟩ t → Carries wired merges s t

/-- A wire of a document. -/
def wiredIn (d : Document) (s t : End) : Prop := ∃ w ∈ d.wires, w.source = s ∧ w.target = t

/-- A Merge of a document. -/
def mergesIn (d : Document) (id : String) : Prop := ∃ n ∈ d.nodes, n.id = id ∧ n.type = mergeEngine

/-- `document["properties"]["import"]["dropped"]`. -/
def droppedIn (d : Document) : Option Work.Json :=
  match d.properties with
  | some (.obj fields) => (field? fields "import").bind fun
      | .obj report => field? report "dropped"
      | _ => none
  | _ => none

/-- A connection that a document holds: there is a way from a node of its source to a node of its
target, into its own input or into one that a foreign node is given for it. -/
def Held (d : Document) (l : Link) : Prop :=
  ∃ w k, l.way = some w ∧
    (k = 0 ∨ ∃ n ∈ d.nodes, n.id = w.2.node ∧ n.type = foreign) ∧
    Carries (wiredIn d) (mergesIn d) w.1 (numbered w.2 k) ∧
    (∃ n ∈ d.nodes, n.id = w.1.node ∧ ComesOf n l.source) ∧
      ∃ n ∈ d.nodes, n.id = w.2.node ∧ ComesOf n l.target

/-- **A document that has lost nothing of a plan**: besides Merges, its nodes are the steps, one
after another, each with an identity of its own; each connection is held or listed among the dropped
ones; and it is valid. -/
structure Kept (size : Document → ℕ) (p : Plan) (d : Document) : Prop where
  steps : d.nodes.filterMap stepOf = p.nodes.map fun n => { n with ports := none }
  ids : d.ids.Nodup
  links : ∀ l ∈ p.links, Held d l ∨
    l.way = none ∧ ∃ listed, droppedIn d = some (.arr listed) ∧ .obj l.entry ∈ listed
  valid : Valid size d

variable {host size} {b : Builder} {p : Plan} {d : Document} {format : String} {identity : String}
  {report : Work.Fields}

/-! ## Budgets -/

/-- A node with the budget that an import gives: it counts runs, which `check_contract` does not
know. -/
def CountsRuns (n : Node) : Prop :=
  ∃ fields, field? n.rest "budget" = some (.obj fields) ∧ ∃ e ∈ fields, e.1 = "runs"

theorem countsRuns_node {id : String} {fit : Fit} {position : ℚ × ℚ} {source : Work.Fields}
    (h : ∃ e ∈ fit.budget, e.1 = "runs") : CountsRuns (node host id fit position source) :=
  ⟨fit.budget, rfl, h⟩

/-- No node that counts runs is let pass. -/
theorem checkRest_countsRuns {n : Node} (h : CountsRuns n) : checkRest n.rest ≠ .ok () := by
  obtain ⟨fields, hfields, e, he, hruns⟩ := h
  intro hok
  unfold checkRest at hok
  rw [Check.seq_ok_iff, Check.require_ok_iff, hfields] at hok
  have hall := List.all_eq_true.1 hok.1 e he
  rw [hruns, Bool.and_eq_true] at hall
  exact absurd hall.1 (by decide)

/-- Every node that is added counts runs. -/
def AddsCounting (ms : List Move) : Prop := ∀ n, .add n ∈ ms → CountsRuns n

theorem addsCounting_spread (target : End) (sources : List End) :
    ∀ index, AddsCounting (spread target index sources) := by
  induction sources with
  | nil => exact fun _ n hn => absurd hn not_mem_nil
  | cons source sources ih =>
      intro index n hn
      rcases List.mem_cons.1 hn with hn | hn
      · cases hn
      · rcases List.mem_cons.1 hn with hn | hn
        · cases hn
        · exact ih _ n hn

theorem addsCounting_chain (position : ℚ × ℚ) (target : End) (sources : List End) :
    ∀ index held, AddsCounting (chain host format position target index held sources) := by
  induction sources with
  | nil =>
      intro index held n hn
      cases List.mem_singleton.1 hn
  | cons source sources ih =>
      intro index held n hn
      rcases List.mem_cons.1 hn with hn | hn
      · cases hn
        exact countsRuns_node ⟨("runs", .int 1), by simp [defaultBudget], rfl⟩
      · rcases List.mem_cons.1 hn with hn | hn
        · cases hn
        · rcases List.mem_cons.1 hn with hn | hn
          · cases hn
          · exact ih _ _ n hn

theorem addsCounting_fanIn (target : End) (n : Node) (sources : List End) :
    AddsCounting (fanIn host format target n sources) := by
  unfold fanIn
  split
  · exact fun m hm => absurd hm not_mem_nil
  · intro m hm
    cases List.mem_singleton.1 hm
  · split
    · exact addsCounting_spread _ _ _
    · exact addsCounting_chain _ _ _ _ _

/-- A builder that holds a node that counts runs. -/
def Counting (b : Builder) : Prop := ∃ e ∈ b.nodes.entries, CountsRuns e.2

/-- A value is put, and the others stay. -/
theorem mem_put_or {es : List (String × Node)} {e : String × Node} (he : e ∈ es) (k : String)
    (v : Node) : e ∈ Assoc.put es k v ∨ (k, v) ∈ Assoc.put es k v ∧ Assoc.find es k = some e.2 := by
  induction es with
  | nil => exact absurd he not_mem_nil
  | cons e' es ih =>
      by_cases hk : e'.1 = k
      · rw [Assoc.put, if_pos hk, Assoc.find_cons, if_pos hk]
        rcases List.mem_cons.1 he with rfl | he
        · exact .inr ⟨mem_cons_self, rfl⟩
        · exact .inl (mem_cons_of_mem _ he)
      · rw [Assoc.put, if_neg hk, Assoc.find_cons, if_neg hk]
        rcases List.mem_cons.1 he with rfl | he
        · exact .inl mem_cons_self
        · exact (ih he).imp (mem_cons_of_mem _) (And.imp_left (mem_cons_of_mem _))

theorem counting_move {m : Move} (hm : ∀ n, m = .add n → CountsRuns n) (hb : Counting b) :
    Counting (b.move m) := by
  obtain ⟨e, he, hcounts⟩ := hb
  cases m with
  | add n =>
      rcases mem_put_or he n.id n with he | ⟨hput, -⟩
      · exact ⟨e, he, hcounts⟩
      · exact ⟨_, hput, hm n rfl⟩
  | wire s t => exact ⟨e, he, hcounts⟩
  | input i =>
      cases hn : b.nodes.get? i.node with
      | none =>
          simp only [Builder.move, hn]
          exact ⟨e, he, hcounts⟩
      | some n =>
          simp only [Builder.move, hn]
          rcases mem_put_or he i.node (withInput n i.socket) with he | ⟨hput, hfind⟩
          · exact ⟨e, he, hcounts⟩
          · -- the node that is given an input is the one that counts
            have heq : n = e.2 := Option.some.inj (hn.symm.trans hfind)
            exact ⟨_, hput, by rw [heq]; exact hcounts⟩

theorem counting_run {ms : List Move} (hms : AddsCounting ms) (hb : Counting b) :
    Counting (b.run ms) := by
  induction ms generalizing b with
  | nil => exact hb
  | cons m ms ih =>
      refine ih (fun n hn => hms n (mem_cons_of_mem _ hn)) (counting_move (fun n heq => ?_) hb)
      exact hms n (heq ▸ mem_cons_self)

theorem counting_connect (gs : List (End × List End)) (hb : Counting b) :
    Counting (gs.foldl (Builder.connectGroup host format) b) := by
  induction gs generalizing b with
  | nil => exact hb
  | cons g gs ih =>
      refine ih ?_
      unfold Builder.connectGroup
      cases b.nodes.get? g.1.node with
      | none => exact hb
      | some n => exact counting_run (addsCounting_fanIn _ _ _) hb

/-- A plan with a step is built with a node that counts runs. -/
theorem counting_built (hcounts : ∀ n ∈ p.nodes, CountsRuns n) (hne : p.nodes ≠ []) :
    Counting (p.built host) := by
  have hadds : AddsCounting (p.nodes.map .add ++ p.drawn.map (fun w => .wire w.1 w.2) ++
      p.inputs.map .input) := by
    intro n hn
    rw [mem_append, mem_append] at hn
    rcases hn with (hn | hn) | hn
    · obtain ⟨m, hm, heq⟩ := List.mem_map.1 hn
      cases heq
      exact hcounts n hm
    · obtain ⟨w, -, heq⟩ := List.mem_map.1 hn
      cases heq
    · obtain ⟨e, -, heq⟩ := List.mem_map.1 hn
      cases heq
  refine counting_connect _ ?_
  unfold Plan.begun
  obtain ⟨n, ns, hns⟩ := exists_cons_of_ne_nil hne
  rw [hns] at hadds hcounts ⊢
  rw [map_cons, cons_append, cons_append] at hadds ⊢
  have hfirst : Counting ((⟨Dict.empty, []⟩ : Builder).move (.add n)) :=
    ⟨(n.id, n), List.mem_singleton.2 rfl, hcounts n mem_cons_self⟩
  show Counting (((⟨Dict.empty, []⟩ : Builder).move (.add n)).run _)
  exact counting_run (fun m hm => hadds m (mem_cons_of_mem _ hm)) hfirst

theorem finish_ok {title : String} (h : p.finish host size title identity report = .ok d) :
    Valid size (p.document host title identity report) ∧
      p.document host title identity report = d := by
  unfold Plan.finish at h
  cases hcheck : validate size (p.document host title identity report) with
  | error text =>
      rw [hcheck] at h
      cases h
  | ok u =>
      rw [hcheck] at h
      cases h
      exact ⟨hcheck, rfl⟩

/-- **A document with a step is refused.** -/
theorem refused_of_steps (hcounts : ∀ n ∈ p.nodes, CountsRuns n) (hne : p.nodes ≠ [])
    {title : String} : p.finish host size title identity report ≠ .ok d := by
  intro h
  obtain ⟨e, he, hruns⟩ := @counting_built host p hcounts hne
  obtain ⟨hvalid, -⟩ := finish_ok h
  exact checkRest_countsRuns hruns
    (((valid_iff size).1 hvalid).nodes e.2 (List.mem_map.2 ⟨e, he, rfl⟩)).2

end ArchHub.Flow

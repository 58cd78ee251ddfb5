import Mathlib

/-!
# Calls of functions

The semantic pass reduces the parameters of a function to names, counts and flags, which it
takes from the text of each parameter, and checks the calls of the function against them.

* `Signature`, `signature`: what is kept of the parameters.
* `Call`, `call`: what is kept of the arguments.
* `wrongArity`: the verdict, E0025.
* `Parameters.bind`: how Python binds arguments.
-/

namespace ArchHub.Compiler

/-! ## Parameters -/

/-- The kinds of the children of a parameter list that the pass tells apart. -/
inductive PartKind
  /-- `identifier`, `typed_parameter`, `default_parameter` and `typed_default_parameter`. -/
  | parameter
  /-- `list_splat_pattern` and `dictionary_splat_pattern`, with an annotation or without. -/
  | splat
  | keywordSeparator
  | positionalSeparator
  | comment
deriving DecidableEq

/-- A child of a parameter list: what `parameter_name` finds in it, and its text. -/
structure Part where
  kind : PartKind
  name : Option String
  raw : List Char

/-- `Signature`. -/
structure Signature where
  min : ℕ
  max : Option ℕ
  parameters : List String
  positional : List String
  keywordVariadic : Bool
  required : List String

/-- What the loop over the parts has read. -/
structure Reading where
  min : ℕ
  keywordVariadic : Bool
  variadic : Bool
  parameters : List String
  positional : List String
  keywordOnly : Bool
  required : List String

/-- `!raw.contains('=') && !raw.contains('?')`. -/
def unmarked (raw : List Char) : Bool := !raw.contains '=' && !raw.contains '?'

/-- One part. -/
def Reading.part (r : Reading) (p : Part) : Reading :=
  let r := if p.kind = .keywordSeparator then { r with keywordOnly := true } else r
  if p.kind = .keywordSeparator ∨ p.kind = .positionalSeparator then r
  else if ['*'].isPrefixOf p.raw || ['.', '.', '.'].isPrefixOf p.raw then
    { r with
      keywordVariadic := r.keywordVariadic || ['*', '*'].isPrefixOf p.raw
      variadic := r.variadic || !(['*', '*'].isPrefixOf p.raw)
      keywordOnly := true }
  else
    let named := match p.name with
      | some name =>
          { r with
            parameters := r.parameters ++ [name]
            positional := if r.keywordOnly then r.positional else r.positional ++ [name]
            required := if unmarked p.raw then r.required ++ [name] else r.required }
      | none => r
    if unmarked p.raw then { named with min := r.min + 1 } else named

/-- Before the first part. -/
def Reading.start : Reading := ⟨0, false, false, [], [], false, []⟩

/-- The signature of a function. -/
def signature (parts : List Part) : Signature :=
  let r := parts.foldl Reading.part Reading.start
  { min := r.min
    max := if r.variadic then none else some r.positional.length
    parameters := r.parameters
    positional := r.positional
    keywordVariadic := r.keywordVariadic
    required := r.required }

/-! ## Arguments -/

variable {α : Type}

/-- A child of an argument list, with what it evaluates to. -/
inductive Argument (α : Type)
  | positional (x : α)
  | keyword (name : String) (x : α)
  | comment

/-- The arguments of a call: a list, or a generator expression alone, whose children are a body
and clauses. -/
inductive Arguments (α : Type)
  | list (items : List (Argument α))
  | generator (clauses : ℕ) (x : α)

/-- A keyword argument. -/
def Argument.keyword? : Argument α → Option (String × α)
  | keyword name x => some (name, x)
  | _ => none

/-- A positional argument. -/
def Argument.positional? : Argument α → Option α
  | positional x => some x
  | _ => none

/-- `Call`. -/
structure Call where
  count : ℕ
  keywords : List String

/-- The call that the pass keeps: every child that is no keyword argument counts. -/
def call : Arguments α → Call
  | .list items =>
      { count := (items.filter fun a => a.keyword?.isNone).length
        keywords := (items.filterMap Argument.keyword?).map Prod.fst }
  | .generator clauses _ => ⟨clauses + 1, []⟩

/-- The condition of E0025. -/
def wrongArity (sig : Signature) (c : Call) : Bool :=
  let assigned := sig.positional.take c.count ++ c.keywords
  let keywordError := (c.keywords.any fun key => (sig.positional.take c.count).contains key ||
      (!sig.keywordVariadic && !sig.parameters.contains key)) ||
    decide (c.keywords.dedup.length ≠ c.keywords.length)
  let missing := sig.required.any fun key => !assigned.contains key
  missing || keywordError || sig.max.any fun max => decide (max < c.count)

/-! ## How Python binds -/

/-- A parameter with its annotation and default, as it is written. -/
structure Parameter where
  name : String
  default : Bool
  text : List Char
  /-- A name begins with no star and no dot. -/
  named : name.toList.head?.all (fun c => c ≠ '*' ∧ c ≠ '.') ∧ name.toList ≠ []
  /-- The text begins with the name. -/
  opens : name.toList <+: text
  /-- A default is written behind `=`. -/
  equals : default = true → '=' ∈ text

/-- What stands before the keyword-only parameters. -/
inductive Star
  | none
  | bare
  | args (text : List Char)

/-- The parameters of a Python function. -/
structure Parameters where
  positionalOnly : List Parameter
  ordinary : List Parameter
  star : Star
  keywordOnly : List Parameter
  kwargs : Option (List Char)
  /-- Keyword-only parameters stand behind a star. -/
  starred : keywordOnly ≠ [] → star ≠ .none
  /-- The name of `*args` begins with no star. -/
  single : ∀ text, star = .args text → text.head? ≠ some '*'
  /-- No two parameters have one name. -/
  nodup : ((positionalOnly ++ ordinary ++ keywordOnly).map Parameter.name).Nodup

namespace Parameters

variable (s : Parameters)

/-- All parameters that have a slot. -/
def all : List Parameter := s.positionalOnly ++ s.ordinary ++ s.keywordOnly

/-- Those that positional arguments fill. -/
def positional : List String := (s.positionalOnly ++ s.ordinary).map Parameter.name

/-- Those that keyword arguments fill. -/
def keyword : List String := (s.ordinary ++ s.keywordOnly).map Parameter.name

/-- There is `*args`. -/
def variadic : Bool :=
  match s.star with
  | .args _ => true
  | _ => false

end Parameters

/-- The part of a parameter. -/
def Parameter.part (p : Parameter) : Part := ⟨.parameter, some p.name, p.text⟩

/-- The part of a star. -/
def Star.parts : Star → List Part
  | .none => []
  | .bare => [⟨.keywordSeparator, Option.none, ['*']⟩]
  | .args text => [⟨.splat, Option.none, '*' :: text⟩]

/-- The children of the parameter list, but for comments. -/
def Parameters.parts (s : Parameters) : List Part :=
  s.positionalOnly.map Parameter.part ++
    (if s.positionalOnly = [] then [] else [⟨.positionalSeparator, none, ['/']⟩]) ++
    s.ordinary.map Parameter.part ++ s.star.parts ++ s.keywordOnly.map Parameter.part ++
    (s.kwargs.map fun text => (⟨.splat, none, '*' :: '*' :: text⟩ : Part)).toList

/-- The children of a parameter list: comments stand anywhere in it. -/
structure Parameters.WrittenAs (s : Parameters) (parts : List Part) : Prop where
  shown : parts.filter (fun p : Part => decide (p.kind ≠ .comment)) = s.parts
  comments : ∀ p ∈ parts, p.kind = .comment → p.name = none ∧ p.raw.head? = some '#'

/-- Arguments that are bound: the slots, `args` and `kwargs`. -/
structure Binding (α : Type) where
  slots : List (String × α)
  args : List α
  kwargs : List (String × α)

/-- One keyword argument. -/
def Parameters.bindKeyword (s : Parameters) (b : Binding α) (kw : String × α) :
    Option (Binding α) :=
  if kw.1 ∈ s.keyword then
    if kw.1 ∈ b.slots.map Prod.fst then none else some { b with slots := b.slots ++ [kw] }
  else if s.kwargs.isSome then
    if kw.1 ∈ b.kwargs.map Prod.fst then none else some { b with kwargs := b.kwargs ++ [kw] }
  else none

/-- **How Python binds arguments**: the positional ones fill the slots in their order, then the
keyword ones do, and every slot that is left needs a default. -/
def Parameters.bind (s : Parameters) (positional : List α) (keywords : List (String × α)) :
    Option (Binding α) :=
  if s.positional.length < positional.length ∧ s.variadic = false then none
  else do
    let b ← keywords.foldlM s.bindKeyword
      ⟨s.positional.zip positional, positional.drop s.positional.length, []⟩
    if s.all.all fun p => p.default || (b.slots.map Prod.fst).contains p.name then some b
    else none

/-- The positional arguments of a call. -/
def Arguments.positional : Arguments α → List α
  | .list items => items.filterMap Argument.positional?
  | .generator _ x => [x]

/-- The keyword arguments of a call. -/
def Arguments.keywords : Arguments α → List (String × α)
  | .list items => items.filterMap Argument.keyword?
  | .generator _ _ => []

end ArchHub.Compiler

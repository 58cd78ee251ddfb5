import Mathlib
import ArchHub.Stem.Value

/-!
# Rules

A rule is a comparison that is written as one text, `name op literal`.  The evaluator looks for the
operators one after the other in the whole text, and splits it at the first that it finds.

* `comparison`: what is compared, as `rule_holds` reads it out of a rule.
* `ruleHolds`: `rule_holds`.
* `readLiteral`: a literal as it is written, in quotes or not.
* `rule_parses_iff`: **when a rule is read as it is written**.
-/

namespace ArchHub.Stem

open List Option

variable (py : Python)

/-! ## `rule_holds` -/

/-- The quotes that are stripped off a literal. -/
def quote (c : Char) : Bool := c = '\'' || c = '"'

/-- The characters that operators are made of. -/
def operatorChar (c : Char) : Bool := c = '<' || c = '>' || c = '=' || c = '!'

/-- `text.split(part, 1)`, where the part is in the text. -/
def splitOnce (part : List Char) : List Char → Option (List Char × List Char)
  | [] => if part = [] then some ([], []) else none
  | c :: cs =>
    if part.isPrefixOf (c :: cs) then some ([], (c :: cs).drop part.length)
    else (splitOnce part cs).map fun e => (c :: e.1, e.2)

/-- The operator that is found in a text, and the texts on its sides. -/
def scan (text : List Char) : Option (Operator × List Char × List Char) :=
  operators.findSome? fun op => (splitOnce op.text.toList text).map fun e => (op, e)

/-- What a rule compares: the field it names and the value that is wanted. -/
structure Comparison where
  op : Operator
  name : String
  wanted : Value

/-- A text without the quotes at its ends. -/
def unquote (s : String) : String := String.ofList (stripBoth quote s.toList)

/-- What `rule_holds` reads out of a rule. -/
def comparison (rule : String) : Option Comparison :=
  (scan (py.strip rule).toList).map fun (op, left, right) =>
    ⟨op, py.strip (String.ofList left), coerce py (unquote (py.strip (String.ofList right)))⟩

/-- A text without a word at its start. -/
def dropStart (word s : String) : String :=
  if word.toList.isPrefixOf s.toList then String.ofList (s.toList.drop word.length) else s

/-- What a name names of a value. -/
def heldBy (name : String) (value : Value) : Value :=
  if name = "count" then .int (asList py value).length
  else if name = "" ∨ name = "value" ∨ name = "item" then value
  else field py value (dropStart "value." (dropStart "item." name))

/-- `rule_holds`. -/
def ruleHolds (rule : String) (value : Value) : Option Bool :=
  (comparison py rule).map fun c => c.op.test (heldBy py c.name value) c.wanted

/-! ## What is written -/

/-- The text between two quotes of one kind. -/
def quotedText : List Char → Option (List Char)
  | [] => none
  | c :: cs => if quote c && cs.getLast? = some c then some cs.dropLast else none

/-- A literal: a text in quotes is a text, another one may be a number or a truth value. -/
def readLiteral (s : String) : Value :=
  match quotedText s.toList with
  | some inner => .str (String.ofList inner)
  | none => coerce py s

/-- A literal that is read as it is written.  In quotes it looks like nothing but a text; quotes
stand nowhere else at its ends. -/
def LiteralReads (s : String) : Prop :=
  match quotedText s.toList with
  | some inner => unquote (String.ofList inner) = String.ofList inner ∧
      coerce py (String.ofList inner) = .str (String.ofList inner)
  | none => unquote s = s

/-- The operators that are looked for before one. -/
def Operator.earlier (op : Operator) : List Operator := operators.takeWhile (· ≠ op)

/-- A rule that is read as it is written, from its operator on: no operator that is looked for
before occurs in it, and its literal is read. -/
structure Reads (op : Operator) (rest : String) : Prop where
  first : ∀ op' ∈ op.earlier, ¬ op'.text.toList <:+: op.text.toList ++ rest.toList
  literal : LiteralReads py (py.strip rest)

/-- The functions of the language as they are documented: a space is blank, and neither letters nor
operators nor quotes are; what has a quote in it is no number. -/
structure Python.Documented : Prop where
  space_blank : py.space ' ' = true
  space_letter : ∀ c, c.isAlpha = true → py.space c = false
  space_operator : ∀ c, operatorChar c = true → py.space c = false
  space_quote : ∀ c, quote c = true → py.space c = false
  int_quote : ∀ s c, c ∈ s.toList → quote c = true → py.int s = none
  float_quote : ∀ s c, c ∈ s.toList → quote c = true → py.float s = none

variable {py} {drop : Char → Bool} {c : Char} {cs front : List Char} {op' : Operator}
  {block part : List Char} {s : String}

/-! ## Stripping -/

/-- What is not to be dropped ends the stripping. -/
theorem stripLeft_append (hne : block ≠ []) (hblock : ∀ c ∈ block, drop c = false)
    (cs ds : List Char) :
    stripLeft drop (cs ++ (block ++ ds)) = stripLeft drop cs ++ (block ++ ds) := by
  obtain ⟨c, tail, rfl⟩ := exists_cons_of_ne_nil hne
  have hc := hblock c mem_cons_self
  unfold stripLeft
  rw [dropWhile_append]
  split
  · next hempty =>
    rw [List.isEmpty_iff.1 hempty, cons_append, nil_append,
      dropWhile_cons_of_neg (by rw [hc]; exact Bool.false_ne_true)]
  · rfl

theorem stripRight_append (hne : block ≠ []) (hblock : ∀ c ∈ block, drop c = false)
    (cs ds : List Char) :
    stripRight drop (cs ++ (block ++ ds)) = cs ++ (block ++ stripRight drop ds) := by
  have hleft := stripLeft_append (List.reverse_eq_nil_iff.not.2 hne)
    (fun c hc => hblock c (List.mem_reverse.1 hc)) ds.reverse cs.reverse
  unfold stripLeft at hleft
  unfold stripRight
  rw [reverse_append, reverse_append, append_assoc, hleft]
  simp

/-- What is dropped at the end of a text. -/
theorem stripRight_append_tail (drop : Char → Bool) (cs : List Char) :
    stripRight drop cs ++ (cs.reverse.takeWhile drop).reverse = cs := by
  unfold stripRight
  rw [← reverse_append, takeWhile_append_dropWhile, reverse_reverse]

/-- What is dropped at the end is dropped in any case. -/
theorem stripBoth_append {drop : Char → Bool} {tail : List Char} (h : ∀ c ∈ tail, drop c = true)
    (cs : List Char) : stripBoth drop (cs ++ tail) = stripBoth drop cs := by
  have hright : ∀ ds, stripRight drop (ds ++ tail) = stripRight drop ds := by
    intro ds
    unfold stripRight
    rw [reverse_append, dropWhile_append_of_pos fun c hc => h c (List.mem_reverse.1 hc)]
  unfold stripBoth stripLeft
  rw [dropWhile_append]
  split
  · next hempty =>
    rw [List.isEmpty_iff.1 hempty, List.dropWhile_eq_nil_iff.2 fun c hc => h c hc]
  · exact hright _

theorem stripBoth_stripRight (drop : Char → Bool) (cs : List Char) :
    stripBoth drop (stripRight drop cs) = stripBoth drop cs := by
  have happend := @stripBoth_append drop (cs.reverse.takeWhile drop).reverse
    (fun c hc => mem_takeWhile_imp (List.mem_reverse.1 hc)) (stripRight drop cs)
  rw [stripRight_append_tail] at happend
  exact happend.symm

theorem stripBoth_stripLeft (drop : Char → Bool) (cs : List Char) :
    stripBoth drop (stripLeft drop cs) = stripBoth drop cs := by
  unfold stripBoth stripLeft
  rw [dropWhile_idempotent]

/-- What is not to be dropped stays. -/
theorem mem_stripBoth (hc : drop c = false) (h : c ∈ cs) : c ∈ stripBoth drop cs := by
  have hblock : ∀ d ∈ [c], drop d = false := fun d hd => List.mem_singleton.1 hd ▸ hc
  obtain ⟨as, bs, rfl⟩ := append_of_mem h
  unfold stripBoth
  rw [← singleton_append, stripLeft_append (cons_ne_nil c []) hblock,
    stripRight_append (cons_ne_nil c []) hblock]
  exact mem_append_right _ mem_cons_self

/-- Quotes around a text are stripped with those of the text. -/
theorem stripBoth_quoted (hc : drop c = true) (cs : List Char) :
    stripBoth drop (c :: cs ++ [c]) = stripBoth drop cs := by
  rw [stripBoth_append (fun d hd => (List.mem_singleton.1 hd).symm ▸ hc)]
  unfold stripBoth stripLeft
  rw [dropWhile_cons_of_pos hc]

/-! ## Splitting -/

theorem splitOnce_eq_none_iff (part : List Char) (cs : List Char) :
    splitOnce part cs = none ↔ ¬ part <:+: cs := by
  induction cs with
  | nil =>
    unfold splitOnce
    rw [infix_nil]
    split <;> simp_all
  | cons c cs ih =>
    unfold splitOnce
    rw [infix_cons_iff, not_or]
    by_cases hstart : part.isPrefixOf (c :: cs) = true
    · rw [if_pos hstart]
      exact ⟨fun h => absurd h (by simp), fun h => absurd ( List.isPrefixOf_iff_prefix.1 hstart) h.1⟩
    · rw [if_neg hstart, map_eq_none_iff, ih]
      exact ⟨fun h => ⟨fun hp => hstart ( List.isPrefixOf_iff_prefix.2 hp), h⟩, And.right⟩

theorem splitOnce_self (hpart : part ≠ []) (cs : List Char) :
    splitOnce part (part ++ cs) = some ([], cs) := by
  obtain ⟨c, tail, rfl⟩ := exists_cons_of_ne_nil hpart
  rw [cons_append, splitOnce, if_pos]
  · simp
  · exact List.isPrefixOf_iff_prefix.2 (prefix_append (c :: tail) cs)

/-- A text in front that has none of the characters is passed over. -/
theorem splitOnce_append (hpart : part ≠ []) (hfront : ∀ c ∈ front, c ∉ part) (cs : List Char) :
    splitOnce part (front ++ cs) = (splitOnce part cs).map fun e => (front ++ e.1, e.2) := by
  induction front with
  | nil => simp
  | cons c front ih =>
    obtain ⟨d, tail, rfl⟩ := exists_cons_of_ne_nil hpart
    have hne : ¬ (d :: tail).isPrefixOf (c :: (front ++ cs)) = true := by
      intro h
      obtain ⟨rfl, -⟩ := List.cons_prefix_cons.1 ( List.isPrefixOf_iff_prefix.1 h)
      exact hfront d mem_cons_self mem_cons_self
    rw [cons_append, splitOnce, if_neg hne, ih fun c hc => hfront c (mem_cons_of_mem _ hc),
      Option.map_map]
    rfl

/-! ## Operators -/

theorem Operator.chars (op : Operator) : ∀ c ∈ op.text.toList, operatorChar c = true := by
  cases op with
  | ge | le | ne | eq | gt | lt => simp [Operator.text, operatorChar]

theorem Operator.text_ne_nil (op : Operator) : op.text.toList ≠ [] := by
  cases op with
  | ge | le | ne | eq | gt | lt => exact cons_ne_nil _ _

/-- An operator stands in the list after the earlier ones. -/
theorem operators_eq (op : Operator) : ∃ later, operators = op.earlier ++ op :: later := by
  cases op with
  | ge | le | ne | eq | gt | lt => exact ⟨_, rfl⟩

theorem Operator.ne_of_earlier {op : Operator} (h : op' ∈ op.earlier) : op' ≠ op := by
  have hne := mem_takeWhile_imp h
  exact of_decide_eq_true hne

section

variable (hfront : ∀ c ∈ front, operatorChar c = false)

include hfront

/-- Where an operator stands in a rule, behind a name that is free of operators. -/
theorem splitOnce_rule (op : Operator) (cs : List Char) : splitOnce op.text.toList (front ++ cs) =
      (splitOnce op.text.toList cs).map fun e => (front ++ e.1, e.2) := by
  refine splitOnce_append op.text_ne_nil (fun c hc hmem => ?_) cs
  have hchar := hfront c hc
  rw [op.chars c hmem] at hchar
  cases hchar

/-- The operator of a rule is found where no earlier one is in it. -/
theorem scan_rule {op : Operator} {rest : List Char}
    (hfirst : ∀ op' ∈ op.earlier, ¬ op'.text.toList <:+: op.text.toList ++ rest) :
    scan (front ++ (op.text.toList ++ rest)) = some (op, front, rest) := by
  obtain ⟨later, hlater⟩ := operators_eq op
  unfold scan
  rw [hlater, List.findSome?_append, List.findSome?_eq_none_iff.2, none_or,
    List.findSome?_cons_of_isSome]
  · rw [splitOnce_rule hfront, splitOnce_self op.text_ne_nil, map_some, map_some, append_nil]
  · rw [splitOnce_rule hfront, splitOnce_self op.text_ne_nil]
    rfl
  · intro op' hop'
    rw [splitOnce_rule hfront, (splitOnce_eq_none_iff _ _).2 (hfirst op' hop')]
    rfl

/-- Another operator is found where an earlier one is in the rule. -/
theorem scan_earlier {op : Operator} {rest : List Char} (hop' : op' ∈ op.earlier)
    (hpart : op'.text.toList <:+: op.text.toList ++ rest) :
    ∃ op'' e, op'' ≠ op ∧ scan (front ++ (op.text.toList ++ rest)) = some (op'', e) := by
  obtain ⟨later, hlater⟩ := operators_eq op
  have hfound : (op.earlier.findSome? fun op' => (splitOnce op'.text.toList
      (front ++ (op.text.toList ++ rest))).map fun e => (op', e)).isSome := by
    rw [List.findSome?_isSome_iff]
    refine ⟨op', hop', ?_⟩
    rw [splitOnce_rule hfront, isSome_map, isSome_map, isSome_iff_ne_none]
    exact fun hnone => (splitOnce_eq_none_iff _ _).1 hnone hpart
  obtain ⟨found, hsome⟩ := Option.isSome_iff_exists.1 hfound
  obtain ⟨op'', hmem, hmap⟩ := List.exists_of_findSome?_eq_some hsome
  obtain ⟨e, -, rfl⟩ := Option.map_eq_some_iff.1 hmap
  refine ⟨op'', e, Operator.ne_of_earlier hmem, ?_⟩
  unfold scan
  rw [hlater, List.findSome?_append, hsome, some_or]

end

/-! ## Literals -/

/-- What is coerced to a text is the text. -/
theorem eq_of_coerce {t : String} (h : coerce py s = .str t) : s = t := by
  unfold coerce at h
  dsimp only at h
  split at h
  · cases h
  · split at h
    · cases h
    · split at h
      · cases h
      · split at h
        · cases h
        · exact Value.str.inj h

/-- A text that has a quote in it is no number and no truth value. -/
theorem coerce_quote (hpy : py.Documented) (hc : quote c = true) (h : c ∈ s.toList) :
    coerce py s = .str s := by
  have hstrip : c ∈ (py.strip s).toList := by
    unfold Python.strip
    rw [String.toList_ofList]
    exact mem_stripBoth (hpy.space_quote c hc) h
  have hword : ∀ word : String, (∀ d ∈ word.toList, quote d = false) → py.strip s ≠ word := by
    intro word hword heq
    rw [heq] at hstrip
    rw [hword c hstrip] at hc
    cases hc
  unfold coerce
  dsimp only
  rw [if_neg (hword "true" (by simp [quote])), if_neg (hword "false" (by simp [quote])),
    hpy.int_quote _ c hstrip hc, hpy.float_quote _ c hstrip hc]

theorem quotedText_eq_some {inner : List Char} (h : quotedText cs = some inner) :
    ∃ c, quote c = true ∧ cs = c :: inner ++ [c] := by
  cases cs with
  | nil => cases h
  | cons c cs =>
    rw [quotedText] at h
    by_cases hquote : (quote c && cs.getLast? = some c) = true
    · rw [if_pos hquote] at h
      obtain ⟨hc, hlast⟩ := Bool.and_eq_true_iff.1 hquote
      obtain ⟨front, rfl⟩ := List.getLast?_eq_some_iff.1 (of_decide_eq_true hlast)
      rw [dropLast_concat] at h
      exact ⟨c, hc, congrArg (c :: · ++ [c]) (Option.some.inj h)⟩
    · rw [if_neg hquote] at h
      cases h

theorem unquote_ofList (cs : List Char) :
    unquote (String.ofList cs) = String.ofList (stripBoth quote cs) := by
  unfold unquote
  rw [String.toList_ofList]

/-- **A literal is read as it is written** under the condition, and only then. -/
theorem coerce_unquote_iff (hpy : py.Documented) (s : String) :
    coerce py (unquote s) = readLiteral py s ↔ LiteralReads py s := by
  unfold readLiteral LiteralReads
  cases hquoted : quotedText s.toList with
  | some inner =>
    obtain ⟨c, hc, hs⟩ := quotedText_eq_some hquoted
    have hunquote : unquote s = unquote (String.ofList inner) := by
      rw [unquote_ofList]
      unfold unquote
      rw [hs, stripBoth_quoted hc]
    rw [hunquote]
    dsimp only
    constructor
    · intro h
      have hends := eq_of_coerce h
      rw [hends] at h
      exact ⟨hends, h⟩
    · rintro ⟨hends, h⟩
      rw [hends, h]
  | none =>
    dsimp only
    constructor
    · intro h
      by_contra hends
      have hquote : ∃ c ∈ s.toList, quote c = true := by
        by_contra hnone
        push Not at hnone
        refine hends ?_
        unfold unquote stripBoth stripRight stripLeft
        have hdrop : ∀ cs : List Char, (∀ c ∈ cs, quote c ≠ true) → cs.dropWhile quote = cs := by
          intro cs hcs
          cases cs with
          | nil => rfl
          | cons c cs => exact dropWhile_cons_of_neg (hcs c mem_cons_self)
        rw [hdrop _ hnone, hdrop _ fun c hc => hnone c (List.mem_reverse.1 hc), reverse_reverse,
          String.ofList_toList]
      obtain ⟨c, hmem, hc⟩ := hquote
      rw [coerce_quote hpy hc hmem] at h
      exact hends (eq_of_coerce h)
    · intro h
      rw [h]

theorem Reads.wanted (hpy : py.Documented) {op : Operator} {rest : String} (h : Reads py op rest) :
    coerce py (unquote (py.strip rest)) = readLiteral py (py.strip rest) :=
  (coerce_unquote_iff hpy _).2 h.literal

/-! ## Rules -/

/-- What is stripped off a rule is stripped off its name and its literal. -/
theorem strip_rule (hpy : py.Documented) (op : Operator) (name rest : List Char) :
    stripBoth py.space (name ++ (op.text.toList ++ rest)) =
      stripLeft py.space name ++ (op.text.toList ++ stripRight py.space rest) := by
  have hop : ∀ c ∈ op.text.toList, py.space c = false := fun c hc =>
    hpy.space_operator c (op.chars c hc)
  unfold stripBoth
  rw [stripLeft_append op.text_ne_nil hop, stripRight_append op.text_ne_nil hop]

/-- An operator is in a rule just where it is in the rule without the blanks at its end. -/
theorem infix_stripRight (hpy : py.Documented) (op op' : Operator) (rest : List Char) :
    op'.text.toList <:+: op.text.toList ++ stripRight py.space rest ↔
      op'.text.toList <:+: op.text.toList ++ rest := by
  have hops : ∀ op : Operator, ∀ c ∈ op.text.toList, py.space c = false := fun op c hc =>
    hpy.space_operator c (op.chars c hc)
  have hstrip : op.text.toList ++ stripRight py.space rest =
      stripRight py.space (op.text.toList ++ rest) :=
    (stripRight_append op.text_ne_nil (hops op) [] rest).symm
  rw [hstrip]
  generalize op.text.toList ++ rest = cs
  constructor
  · intro h
    rw [← stripRight_append_tail py.space cs]
    exact h.trans (prefix_append _ _).isInfix
  · rintro ⟨as, bs, rfl⟩
    rw [append_assoc, stripRight_append op'.text_ne_nil (hops op')]
    exact ⟨as, stripRight py.space bs, append_assoc _ _ _⟩

theorem strip_strip (s : String) : py.strip (py.strip s) = py.strip s := by
  have hright := stripBoth_stripRight py.space (stripLeft py.space s.toList)
  rw [stripBoth_stripLeft] at hright
  unfold Python.strip
  rw [String.toList_ofList]
  exact congrArg String.ofList hright

theorem strip_stripLeft (s : String) :
    py.strip (String.ofList (stripLeft py.space s.toList)) = py.strip s := by
  unfold Python.strip
  rw [String.toList_ofList, stripBoth_stripLeft]

theorem strip_stripRight (s : String) :
    py.strip (String.ofList (stripRight py.space s.toList)) = py.strip s := by
  unfold Python.strip
  rw [String.toList_ofList, stripBoth_stripRight]

/-- A rule as it is scanned. -/
theorem comparison_rule (hpy : py.Documented) (op : Operator) (name rest : String) :
    comparison py (name ++ op.text ++ rest) =
      (scan (stripLeft py.space name.toList ++
        (op.text.toList ++ stripRight py.space rest.toList))).map fun (op, left, right) =>
          ⟨op, py.strip (String.ofList left),
            coerce py (unquote (py.strip (String.ofList right)))⟩ := by
  unfold comparison
  have hstrip : (py.strip (name ++ op.text ++ rest)).toList = stripLeft py.space name.toList ++
      (op.text.toList ++ stripRight py.space rest.toList) := by
    rw [← strip_rule hpy, Python.strip, String.toList_ofList, String.toList_append,
      String.toList_append, append_assoc]
  rw [hstrip]

section

variable (hpy : py.Documented) {op : Operator} {name rest : String}
  (hname : ∀ c ∈ name.toList, operatorChar c = false)

include hpy hname

/-- A rule whose operator is the first to be found. -/
theorem comparison_of_first
    (hfirst : ∀ op' ∈ op.earlier, ¬ op'.text.toList <:+: op.text.toList ++ rest.toList) :
    comparison py (name ++ op.text ++ rest) =
      some ⟨op, py.strip name, coerce py (unquote (py.strip rest))⟩ := by
  have hfront : ∀ c ∈ stripLeft py.space name.toList, operatorChar c = false := fun c hc =>
    hname c ((dropWhile_suffix _).subset hc)
  have hscan : scan (stripLeft py.space name.toList ++
      (op.text.toList ++ stripRight py.space rest.toList)) =
        some (op, stripLeft py.space name.toList, stripRight py.space rest.toList) :=
    scan_rule hfront fun op' hop' hpart =>
      hfirst op' hop' ((infix_stripRight hpy op op' rest.toList).1 hpart)
  rw [comparison_rule hpy, hscan]
  show some (Comparison.mk op _ _) = _
  rw [strip_stripLeft, strip_stripRight]

/-- A rule that another operator is found in. -/
theorem comparison_of_earlier (hop' : op' ∈ op.earlier)
    (hpart : op'.text.toList <:+: op.text.toList ++ rest.toList) :
    ∃ c, comparison py (name ++ op.text ++ rest) = some c ∧ c.op ≠ op := by
  have hfront : ∀ c ∈ stripLeft py.space name.toList, operatorChar c = false := fun c hc =>
    hname c ((dropWhile_suffix _).subset hc)
  obtain ⟨found, e, hne, hscan⟩ := scan_earlier hfront hop'
    ((infix_stripRight hpy op op' rest.toList).2 hpart)
  rw [comparison_rule hpy, hscan]
  exact ⟨_, rfl, hne⟩

/-- **When a rule is read as it is written**: the operator, the name and the literal.  Then the
rule holds of a value where the comparison does. -/
theorem rule_parses_iff :
    (comparison py (name ++ op.text ++ rest) =
        some ⟨op, py.strip name, readLiteral py (py.strip rest)⟩ ↔ Reads py op rest) ∧
      (Reads py op rest → ∀ value, ruleHolds py (name ++ op.text ++ rest) value =
        some (op.test (heldBy py (py.strip name) value) (readLiteral py (py.strip rest)))) := by
  have hparse : Reads py op rest → comparison py (name ++ op.text ++ rest) =
      some ⟨op, py.strip name, readLiteral py (py.strip rest)⟩ := by
    intro h
    rw [comparison_of_first hpy hname h.first, h.wanted hpy]
  refine ⟨⟨fun h => ?_, hparse⟩, fun h value => ?_⟩
  · have hfirst : ∀ op' ∈ op.earlier, ¬ op'.text.toList <:+: op.text.toList ++ rest.toList := by
      intro op' hop' hpart
      obtain ⟨c, hc, hne⟩ := comparison_of_earlier hpy hname hop' hpart
      rw [h] at hc
      exact hne (congrArg Comparison.op (Option.some.inj hc)).symm
    rw [comparison_of_first hpy hname hfirst] at h
    rw [Option.some_inj, Comparison.mk.injEq] at h
    exact ⟨hfirst, (coerce_unquote_iff hpy _).1 h.2.2⟩
  · unfold ruleHolds
    rw [hparse h]
    rfl

end

/-! ## Rules in a language to compute with -/

theorem readNat_quote (hmem : c ∈ cs) (hc : quote c = true) : readNat cs = none := by
  have hdigit : c.isDigit = false := by
    rcases Bool.or_eq_true_iff.1 hc with h | h
    · rw [of_decide_eq_true h]
      rfl
    · rw [of_decide_eq_true h]
      rfl
  have hall : cs.all Char.isDigit = false :=
    List.all_eq_false.2 ⟨c, hmem, by rw [hdigit]; exact Bool.false_ne_true⟩
  unfold readNat
  rw [hall, Bool.not_false, Bool.or_true, if_pos rfl]

theorem readInt_quote (hmem : c ∈ cs) (hc : quote c = true) : readInt cs = none := by
  unfold readInt
  split
  · next tail =>
    have htail : c ∈ tail := by
      rcases List.mem_cons.1 hmem with rfl | h
      · cases hc
      · exact h
    rw [readNat_quote htail hc]
    rfl
  · rw [readNat_quote hmem hc]
    rfl

theorem plainPython_documented : plainPython.Documented where
  space_blank := rfl
  space_letter c hc := decide_eq_false fun h => by
    rw [h] at hc
    cases hc
  space_operator c hc := decide_eq_false fun h => by
    rw [h] at hc
    cases hc
  space_quote c hc := decide_eq_false fun h => by
    rw [h] at hc
    cases hc
  int_quote s c hmem hc := readInt_quote hmem hc
  float_quote s c hmem hc := by
    unfold plainPython
    dsimp only
    rw [readInt_quote hmem hc]
    rfl

/-- A rule with a number. -/
theorem rule_parses_number :
    (comparison plainPython ("x " ++ Operator.ge.text ++ " 5") =
        some ⟨.ge, plainPython.strip "x ", readLiteral plainPython (plainPython.strip " 5")⟩ ↔
      Reads plainPython .ge " 5") ∧
      (Reads plainPython .ge " 5" → ∀ value,
        ruleHolds plainPython ("x " ++ Operator.ge.text ++ " 5") value =
          some (Operator.ge.test (heldBy plainPython (plainPython.strip "x ") value)
            (readLiteral plainPython (plainPython.strip " 5")))) :=
  rule_parses_iff plainPython_documented (by simp [operatorChar])

/-- A value with a text. -/
def held (text : String) : Value := .dict [("x", .str text)]

/-- A number in quotes is compared as a number, and operators in quotes are taken for the
operator. -/
theorem rules_misread :
    ¬ (∀ (op : Operator) (name rest : String), (∀ c ∈ name.toList, operatorChar c = false) →
      ∀ value, ruleHolds plainPython (name ++ op.text ++ rest) value =
        some (op.test (heldBy plainPython (plainPython.strip name) value)
          (readLiteral plainPython (plainPython.strip rest)))) ∧
      ruleHolds plainPython "x == '5'" (held "5") = some false ∧
      ruleHolds plainPython "x > 'a>=b'" (held "b") = some false := by
  have hnumber : ruleHolds plainPython "x == '5'" (held "5") = some false := by decide
  have hscan : ruleHolds plainPython "x > 'a>=b'" (held "b") = some false := by decide
  refine ⟨fun h => ?_, hnumber, hscan⟩
  have htext := h .eq "x " " '5'" (by simp [operatorChar]) (held "5")
  exact absurd (hnumber.symm.trans htext) (by decide)

end ArchHub.Stem

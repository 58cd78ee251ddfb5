import Mathlib
import ArchHub.Stem.Rule

/-!
# Imported switches

A switch of a Node-RED flow has an output for each of its rules.  It is imported as a chain of Ifs,
one for a rule: each holds the rule as a text, and passes a message on to the next where the rule
does not hold.

* `nrSwitch`: the conditions of the chain.
* `chainFires`: the outputs that fire in the chain.
* `switchFires`: the outputs that fire in the switch.
* `switch_fires_iff`: **when they are the same**.
-/

namespace ArchHub.Stem

open List

variable (py : Python)

/-! ## The import -/

/-- `_COMPARE`. -/
def compare : List (String × Operator) :=
  [("lt", .lt), ("lte", .le), ("gt", .gt), ("gte", .ge), ("eq", .eq), ("neq", .ne)]

/-- `_COMPARE.get(t)`. -/
def compareOf (t : String) : Option Operator := (compare.find? fun e => e.1 = t).map Prod.snd

/-- A rule of a switch. -/
structure SwitchRule where
  t : String
  vt : String
  v : Value := .str ""

/-- A switch. -/
structure SwitchNode where
  property : String := "payload"
  propertyType : String := "msg"
  rules : List SwitchRule
  checkall : Bool := true

/-- `float(value)`, where it does not raise. -/
def floatOf : Value → Option Double
  | .str s => py.float s
  | v => v.number?

/-- A rule as it is declared: the comparison, and the literal in its type. -/
structure Declared where
  op : Operator
  literal : Value

/-- What a rule declares, where it is one that is converted. -/
def declared (rule : SwitchRule) : Option Declared :=
  (compareOf rule.t).bind fun op =>
    if rule.vt = "num" then (floatOf py rule.v).map fun x => ⟨op, .float x⟩
    else if rule.vt = "str" then some ⟨op, .str (py.str rule.v)⟩
    else none

/-- `'"%s"' % value.replace('"', '')`. -/
def quoted (s : String) : String :=
  String.ofList ('"' :: s.toList.filter (· ≠ '"') ++ ['"'])

/-- A literal as it is written into a condition; `repr` writes a number. -/
def written (repr : Double → String) : Value → String
  | .float x => repr x
  | .str s => quoted s
  | _ => ""

/-- The condition of an If. -/
def condition (repr : Double → String) (d : Declared) : String :=
  "value " ++ d.op.text ++ (" " ++ written repr d.literal)

/-- What the rules of a switch declare, where `_nr_switch` makes a chain of it: another one is left
as it is, or the import raises. -/
def nrRules (node : SwitchNode) : Option (List Declared) :=
  if node.property ≠ "payload" ∨ node.propertyType ≠ "msg" ∨ node.rules = [] then none
  else node.rules.mapM (declared py)

/-- `_nr_switch`: the conditions of the Ifs. -/
def nrSwitch (repr : Double → String) (node : SwitchNode) : Option (List String) :=
  (nrRules py node).map fun ds => ds.map (condition repr)

/-! ## What fires -/

/-- `control.if` without a wired condition. -/
def ifTakes (rule : String) (value : Value) : Option Bool :=
  if py.strip rule = "" then some value.truthy else ruleHolds py (py.strip rule) value

/-- The outputs that fire in a chain of Ifs: the first whose condition holds. -/
def chainFires (value : Value) : ℕ → List String → List ℕ
  | _, [] => []
  | i, c :: cs =>
    match ifTakes py c value with
    | none => []
    | some true => [i]
    | some false => chainFires value (i + 1) cs

/-- A rule that matches a message: the literal is compared in its declared type. -/
def Declared.fits (value : Value) (d : Declared) : Bool := d.op.test value d.literal

/-- The outputs of the rules that match. -/
def fitting (value : Value) : ℕ → List Declared → List ℕ
  | _, [] => []
  | i, d :: ds =>
    if d.fits value then i :: fitting value (i + 1) ds else fitting value (i + 1) ds

/-- The outputs that fire in a switch: of all rules that match, or of the first only. -/
def switchFires (checkall : Bool) (value : Value) (ds : List Declared) : List ℕ :=
  if checkall then fitting value 0 ds else (fitting value 0 ds).take 1

/-! ## What is asked of a switch -/

/-- A rule whose literal is read as it is declared.  A text has no double quotes, and in quotes it
is read as it is written. -/
def Declared.Told (d : Declared) : Prop :=
  match d.literal with
  | .str s => '"' ∉ s.toList ∧ Reads py d.op (" " ++ quoted s)
  | _ => True

/-- A number that is written so that it is read again, as `repr` of a `float` does. -/
structure WrittenBack (repr : Double → String) (x : Double) : Prop where
  char : ∀ c ∈ (repr x).toList, operatorChar c = false ∧ quote c = false ∧ py.space c = false
  word : repr x ≠ "true" ∧ repr x ≠ "false"
  int : py.int (repr x) = none
  float : py.float (repr x) = some x

/-- The numbers of a switch are written so that they are read again. -/
def Numbers (repr : Double → String) (ds : List Declared) : Prop :=
  ∀ d ∈ ds, ∀ x, d.literal = .float x → WrittenBack py repr x

variable {py} {s : String} {repr : Double → String} {d : Declared} {drop : Char → Bool}
  {cs : List Char} {ds : List Declared}

/-! ## Conditions -/

/-- What is not to be stripped stays as it is. -/
theorem stripBoth_eq_self (h : ∀ c ∈ cs, drop c = false) : stripBoth drop cs = cs := by
  cases cs with
  | nil => rfl
  | cons c cs =>
    have hleft := stripLeft_append (cons_ne_nil c cs) h [] []
    have hright := stripRight_append (cons_ne_nil c cs) h [] []
    rw [append_nil, nil_append] at hleft hright
    unfold stripBoth
    rw [hleft]
    exact hright.trans (append_nil _)

theorem stripBoth_ends {c : Char} (hc : drop c = false) (cs : List Char) :
    stripBoth drop (c :: cs ++ [c]) = c :: cs ++ [c] := by
  have hblock : ∀ d ∈ [c], drop d = false := fun d hd => (List.mem_singleton.1 hd).symm ▸ hc
  have hleft := stripLeft_append (cons_ne_nil c []) hblock [] (cs ++ [c])
  have hright := stripRight_append (cons_ne_nil c []) hblock (c :: cs) []
  exact (congrArg (stripRight drop) hleft).trans hright

/-- A part of a text that ends in what the text behind has not. -/
theorem infix_of_append {p : Char → Bool} {part ds : List Char} (hne : part ≠ [])
    (hpart : ∀ c ∈ part, p c = true) (hds : ∀ c ∈ ds, p c = false) (h : part <:+: cs ++ ds) :
    part <:+: cs := by
  obtain ⟨as, bs, heq⟩ := h
  rcases List.append_eq_append_iff.1 heq with ⟨es, rfl, -⟩ | ⟨es, hfront, rfl⟩
  · exact ⟨as, es, rfl⟩
  · induction es using List.reverseRecOn with
    | nil => exact ⟨as, [], by rw [append_nil, hfront, append_nil]⟩
    | append_singleton es e =>
      obtain ⟨last, x, rfl⟩ := eq_nil_or_concat' part |>.resolve_left hne
      rw [← append_assoc, ← append_assoc] at hfront
      have hlast : x = e := by
        have := congrArg List.getLast? hfront
        rw [List.getLast?_concat, List.getLast?_concat] at this
        exact Option.some.inj this
      have hx := hpart x (by simp)
      rw [hlast, hds e (by simp)] at hx
      cases hx

theorem not_infix_text {op op' : Operator} (h : op' ∈ op.earlier) :
    ¬ op'.text.toList <:+: op.text.toList := by
  cases op <;> cases op' <;> revert h <;> decide

/-- Behind an operator there are none, in a text without their characters. -/
theorem first_of_chars {op : Operator} {rest : List Char}
    (hrest : ∀ c ∈ rest, operatorChar c = false) :
    ∀ op' ∈ op.earlier, ¬ op'.text.toList <:+: op.text.toList ++ rest := fun op' hop' hpart =>
  not_infix_text hop' (infix_of_append op'.text_ne_nil op'.chars hrest hpart)

theorem strip_blank (hpy : py.Documented) (s : String) : py.strip (" " ++ s) = py.strip s := by
  unfold Python.strip stripBoth stripLeft
  rw [String.toList_append]
  exact congrArg (fun cs => String.ofList (stripRight py.space cs))
    (dropWhile_cons_of_pos hpy.space_blank)

theorem strip_eq_self (h : ∀ c ∈ s.toList, py.space c = false) : py.strip s = s := by
  unfold Python.strip
  rw [stripBoth_eq_self h, String.ofList_toList]

/-- The name in a condition. -/
theorem strip_value (hpy : py.Documented) : py.strip "value " = "value" := by
  have hletters : ∀ c ∈ "value".toList, py.space c = false := fun c hc =>
    hpy.space_letter c (by simp at hc; rcases hc with rfl | rfl | rfl | rfl | rfl <;> rfl)
  have hblank : ∀ c ∈ [' '], py.space c = true := fun c hc =>
    (List.mem_singleton.1 hc).symm ▸ hpy.space_blank
  have hends : "value ".toList = "value".toList ++ [' '] := by simp
  unfold Python.strip
  rw [hends, stripBoth_append hblank, stripBoth_eq_self hletters, String.ofList_toList]

/-- A number that is written so that it is read again, is read as a literal. -/
theorem coerce_repr (hpy : py.Documented) {x : Double} (h : WrittenBack py repr x) :
    coerce py (unquote (py.strip (" " ++ repr x))) = .float x := by
  have hstrip : py.strip (repr x) = repr x := strip_eq_self fun c hc => (h.char c hc).2.2
  have hunquote : unquote (repr x) = repr x := by
    unfold unquote
    rw [stripBoth_eq_self fun c hc => (h.char c hc).2.1, String.ofList_toList]
  unfold coerce
  rw [strip_blank hpy, hstrip, hunquote, hstrip]
  dsimp only
  rw [if_neg h.word.1, if_neg h.word.2, h.int, h.float]

theorem toList_quoted (hs : '"' ∉ s.toList) : (quoted s).toList = '"' :: s.toList ++ ['"'] := by
  have hfilter : s.toList.filter (· ≠ '"') = s.toList :=
    List.filter_eq_self.2 fun c hc => decide_eq_true (ne_of_mem_of_not_mem hc hs)
  unfold quoted
  rw [String.toList_ofList, hfilter]

/-- A text without double quotes is read in quotes. -/
theorem readLiteral_quoted (hpy : py.Documented) (hs : '"' ∉ s.toList) :
    readLiteral py (py.strip (" " ++ quoted s)) = .str s := by
  have hstrip : py.strip (quoted s) = quoted s := by
    unfold Python.strip
    rw [toList_quoted hs, stripBoth_ends (hpy.space_quote '"' rfl), ← toList_quoted hs,
      String.ofList_toList]
  have htext : quotedText ('"' :: s.toList ++ ['"']) = some s.toList := by
    rw [cons_append, quotedText, if_pos, dropLast_concat]
    rw [List.getLast?_concat]
    rfl
  unfold readLiteral
  rw [strip_blank hpy, hstrip, toList_quoted hs, htext]
  dsimp only
  rw [String.ofList_toList]

/-- **A condition reads as its rule declares**, where the literal is told. -/
theorem comparison_condition (hpy : py.Documented)
    (hliteral : (∃ x, d.literal = .float x ∧ WrittenBack py repr x) ∨
      ∃ s, d.literal = .str s ∧ d.Told py) :
    comparison py (py.strip (condition repr d)) = some ⟨d.op, "value", d.literal⟩ := by
  have hname : ∀ c ∈ "value ".toList, operatorChar c = false := by simp [operatorChar]
  have hagain : comparison py (py.strip (condition repr d)) = comparison py (condition repr d) := by
    unfold comparison
    rw [strip_strip]
  rw [hagain, condition]
  rcases hliteral with ⟨x, hx, hback⟩ | ⟨s, hs, htold⟩
  · have hrest : ∀ c ∈ (" " ++ repr x).toList, operatorChar c = false := by
      intro c hc
      rw [String.toList_append] at hc
      rcases List.mem_append.1 hc with h | h
      · rw [List.mem_singleton.1 h]
        rfl
      · exact (hback.char c h).1
    rw [hx, written, comparison_of_first hpy hname (first_of_chars hrest), strip_value hpy,
      coerce_repr hpy hback]
  · unfold Declared.Told at htold
    rw [hs] at htold
    obtain ⟨hmarks, hreads⟩ := htold
    have hwanted := hreads.wanted hpy
    rw [readLiteral_quoted hpy hmarks] at hwanted
    rw [hs, written, comparison_of_first hpy hname hreads.first, strip_value hpy, hwanted]

/-- **An If takes what its rule fits**, where the literal is told. -/
theorem ifTakes_condition (hpy : py.Documented)
    (hliteral : (∃ x, d.literal = .float x ∧ WrittenBack py repr x) ∨
      ∃ s, d.literal = .str s ∧ d.Told py) (value : Value) :
    ifTakes py (condition repr d) value = some (d.fits value) := by
  have hread := comparison_condition hpy hliteral
  have hne : py.strip (condition repr d) ≠ "" := by
    intro hempty
    have hmem : 'v' ∈ (condition repr d).toList := by simp [condition]
    have hstays := mem_stripBoth (hpy.space_letter 'v' rfl) hmem
    have hnil : stripBoth py.space (condition repr d).toList = [] := by
      rw [← String.toList_ofList (l := stripBoth py.space _)]
      exact congrArg String.toList hempty
    rw [hnil] at hstays
    cases hstays
  unfold ifTakes ruleHolds
  rw [if_neg hne, hread, Option.map_some]
  have hheld : heldBy py "value" value = value := by
    unfold heldBy
    rw [if_neg (by decide), if_pos (.inr (.inl rfl))]
  rw [hheld]
  rfl

/-! ## The chain -/

/-- The chain fires the first rule that fits. -/
theorem chainFires_eq {value : Value}
    (htakes : ∀ d ∈ ds, ifTakes py (condition repr d) value = some (d.fits value)) (i : ℕ) :
    chainFires py value i (ds.map (condition repr)) = (fitting value i ds).take 1 := by
  induction ds generalizing i with
  | nil => rfl
  | cons d ds ih =>
    have hrest := ih (fun d' hd' => htakes d' (mem_cons_of_mem d hd')) (i + 1)
    rw [map_cons, chainFires, htakes d mem_cons_self, fitting]
    cases hfits : d.fits value with
    | true => rfl
    | false => exact hrest

theorem length_fitting (value : Value) (ds : List Declared) (i : ℕ) :
    (fitting value i ds).length = ds.countP (Declared.fits value) := by
  induction ds generalizing i with
  | nil => rfl
  | cons d ds ih =>
    rw [fitting, countP_cons]
    by_cases hfits : d.fits value = true
    · rw [if_pos hfits, if_pos hfits, length_cons, ih]
    · rw [if_neg hfits, if_neg hfits, ih, Nat.add_zero]

/-- What a rule declares is a number or a text. -/
theorem declared_literal {rule : SwitchRule} (h : declared py rule = some d) :
    (∃ x, d.literal = .float x) ∨ ∃ s, d.literal = .str s := by
  obtain ⟨op, -, h⟩ := Option.bind_eq_some_iff.1 h
  split at h
  · obtain ⟨x, -, rfl⟩ := Option.map_eq_some_iff.1 h
    exact .inl ⟨x, rfl⟩
  · split at h
    · cases h
      exact .inr ⟨_, rfl⟩
    · cases h

theorem declares {node : SwitchNode} (h : nrRules py node = some ds) (hd : d ∈ ds) :
    ∃ rule ∈ node.rules, declared py rule = some d := by
  unfold nrRules at h
  split at h
  · cases h
  · generalize node.rules = rules at h
    induction rules generalizing ds with
    | nil =>
      rw [mapM_nil] at h
      cases h
      cases hd
    | cons rule rules ih =>
      rw [mapM_cons] at h
      obtain ⟨d', hrule, h⟩ := Option.bind_eq_some_iff.1 h
      obtain ⟨ds', hrules, h⟩ := Option.bind_eq_some_iff.1 h
      cases h
      rcases List.mem_cons.1 hd with rfl | hd
      · exact ⟨rule, mem_cons_self, hrule⟩
      · obtain ⟨rule', hmem, hrule'⟩ := ih hd hrules
        exact ⟨rule', mem_cons_of_mem rule hmem, hrule'⟩

/-- A language that reads one more number, and how it is written. -/
def fivePython : Python :=
  { plainPython with
    float := fun s => if s = "5.0" then some (Double.finite 5) else plainPython.float s }

def fiveRepr (x : Double) : String := if x = Double.finite 5 then "5.0" else "nan"

theorem fivePython_documented : fivePython.Documented :=
  { plainPython_documented with
    float_quote := fun s c hmem hc => by
      have hne : s ≠ "5.0" := by
        rintro rfl
        simp at hmem
        rcases hmem with rfl | rfl | rfl <;> cases hc
      exact (if_neg hne).trans (plainPython_documented.float_quote s c hmem hc) }

/-- A switch with a number and a text, which checks no further than the first rule. -/
def mixed : SwitchNode :=
  { rules := [⟨"gt", "num", .str "5.0"⟩, ⟨"eq", "str", .str "a"⟩], checkall := false }

theorem told_a : Declared.Told fivePython ⟨.eq, .str "a"⟩ := by
  refine ⟨by simp, first_of_chars (by simp [quoted, operatorChar]), ?_⟩
  exact (coerce_unquote_iff fivePython_documented _).1 rfl

/-- A switch that checks all its rules, both of which may fit. -/
def bothRules : SwitchNode := { rules := [⟨"gte", "str", .str "a"⟩, ⟨"gte", "str", .str "b"⟩] }

/-- A switch with a text that looks like a number. -/
def textFive : SwitchNode := { rules := [⟨"eq", "str", .str "5"⟩], checkall := false }

end ArchHub.Stem

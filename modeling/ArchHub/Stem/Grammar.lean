import Mathlib
import ArchHub.Stem.Rule

/-!
# Three readers of one grammar

Rules are read in three places: on a wire, by the Filter card, and by the condition of a wire in the
core store.  All of them look for the operators in the same order; what they take the sides of the
operator for is not the same.

* `filtered`: `_filtered`, as the Filter card keeps items.
* `conditionHolds`: `_condition_holds` of the core store.
* `grammars_agree`: **when they give the verdict of `rule_holds`**.
-/

namespace ArchHub.Stem

variable (py : Python)

/-! ## The Filter card -/

/-- `name.removeprefix("item").lstrip(".")`. -/
def filterName (name : String) : String :=
  String.ofList ((dropStart "item" name).toList.dropWhile (· = '.'))

/-- What a name names of an item, for the Filter card. -/
def filterHeld (name : String) (item : Value) : Value :=
  if filterName name = "" then item else field py item (filterName name)

/-- `_filtered`: the items that a rule keeps; the card has stripped the rule. -/
def filtered (items : List Value) (rule : String) : Option (List Value) :=
  (scan rule.toList).map fun (op, left, right) =>
    items.filter fun item => op.test (filterHeld py (py.strip (String.ofList left)) item)
      (coerce py (unquote (py.strip (String.ofList right))))

/-! ## The core store -/

/-- `str.lower`. -/
structure Lower where
  lower : String → String
  lower_true : lower "true" = "true"
  lower_false : lower "false" = "false"

variable (low : Lower)

/-- `_coerce_literal`. -/
def coerceLiteral (text : String) : Value :=
  let raw := py.strip text
  if low.lower raw = "true" then .bool true
  else if low.lower raw = "false" then .bool false
  else match py.int raw with
    | some n => .int n
    | none => match py.float raw with
      | some x => .float x
      | none => .str raw

/-- `_as_list` of the core store. -/
def coreList : Value → List Value
  | .list xs => xs
  | v => [v]

/-- `_field` of the core store: `getattr(value, name, None)` where the value is no mapping. -/
def coreField (value : Value) (name : String) : Value :=
  match value with
  | .dict fields => lookup fields name
  | v => (py.getattr v name).getD .none

/-- What a name names of a value, for the core store. -/
def coreHeld (name : String) (value : Value) : Value :=
  if name = "count" then .int (coreList value).length
  else if name = "" ∨ name = "value" ∨ name = "item" then value
  else coreField py value (dropStart "value." (dropStart "item." name))

/-- `_condition_holds`. -/
def conditionHolds (rule : String) (value : Value) : Option Bool :=
  match scan (py.strip rule).toList with
  | some (op, left, right) =>
    some (op.test (coreHeld py (py.strip (String.ofList left)) value)
      (coerceLiteral py low (unquote (py.strip (String.ofList right)))))
  | none =>
    if py.strip rule = "always" ∨ py.strip rule = "true" then some true
    else if py.strip rule = "never" ∨ py.strip rule = "false" then some false
    else none

/-! ## Where they agree -/

/-- A name that the Filter card takes for what a rule takes it for: the item itself, or a field of
it under one name. -/
def NameAgrees (name : String) : Prop :=
  name = "" ∨ name = "item" ∨
    name ≠ "count" ∧ name ≠ "value" ∧ filterName name ≠ "" ∧
      filterName name = dropStart "value." (dropStart "item." name)

/-- A literal that the core store takes for what a rule takes it for: a truth value is written in
small letters, and a text has no blanks at its ends. -/
def LiteralAgrees (text : String) : Prop :=
  (low.lower (py.strip text) = "true" → py.strip text = "true") ∧
    (low.lower (py.strip text) = "false" → py.strip text = "false") ∧
      (coerce py text = .str text → py.strip text = text)

/-- A value that has what is named: as many items either way, or the field. -/
def Carries (name : String) (value : Value) : Prop :=
  if name = "count" then (asList py value).length = (coreList value).length
  else if name = "" ∨ name = "value" ∨ name = "item" then True
  else (∃ fields, value = .dict fields) ∨
    (py.getattr value (dropStart "value." (dropStart "item." name))).isSome = true

/-- A rule that the Filter card reads as `rule_holds` does: it has no operator, or its name agrees. -/
def FilterReads (rule : String) : Prop :=
  ∀ op left right, scan (py.strip rule).toList = some (op, left, right) →
    NameAgrees (py.strip (String.ofList left))

/-- A rule that the core store reads of a value as `rule_holds` does. -/
def CoreReads (rule : String) (value : Value) : Prop :=
  match scan (py.strip rule).toList with
  | some (_, left, right) => Carries py (py.strip (String.ofList left)) value ∧
      LiteralAgrees py low (unquote (py.strip (String.ofList right)))
  | none => py.strip rule ∉ ["always", "true", "never", "false"]

variable {py low}

theorem filterHeld_eq {name : String} (h : NameAgrees name) (item : Value) :
    filterHeld py name item = heldBy py name item := by
  have hself : ∀ name : String, filterName name = "" → (name = "" ∨ name = "value" ∨ name = "item") →
      name ≠ "count" → filterHeld py name item = heldBy py name item := by
    intro name hfilter hname hcount
    unfold filterHeld heldBy
    rw [if_pos hfilter, if_neg hcount, if_pos hname]
  rcases h with rfl | rfl | ⟨hcount, hvalue, hne, hname⟩
  · exact hself "" (by decide) (by decide) (by decide)
  · exact hself "item" (by decide) (by decide) (by decide)
  · by_cases hplain : name = "" ∨ name = "value" ∨ name = "item"
    · rcases hplain with rfl | rfl | rfl
      · exact absurd (by decide) hne
      · exact absurd rfl hvalue
      · exact absurd (by decide) hne
    · unfold filterHeld heldBy
      rw [if_neg hne, if_neg hcount, if_neg hplain, hname]

theorem coerceLiteral_eq {text : String} (h : LiteralAgrees py low text) :
    coerceLiteral py low text = coerce py text := by
  obtain ⟨htrue, hfalse, htext⟩ := h
  unfold coerceLiteral coerce
  dsimp only
  by_cases ht : py.strip text = "true"
  · rw [ht, low.lower_true, if_pos rfl, if_pos rfl]
  · rw [if_neg (fun h => ht (htrue h)), if_neg ht]
    by_cases hf : py.strip text = "false"
    · rw [hf, low.lower_false, if_pos rfl, if_pos rfl]
    · rw [if_neg (fun h => hf (hfalse h)), if_neg hf]
      cases hint : py.int (py.strip text) with
      | some n => rfl
      | none =>
        cases hfloat : py.float (py.strip text) with
        | some x => rfl
        | none =>
          refine congrArg Value.str (htext ?_)
          unfold coerce
          dsimp only
          rw [if_neg ht, if_neg hf, hint, hfloat]

theorem coreHeld_eq {name : String} {value : Value} (h : Carries py name value) :
    coreHeld py name value = heldBy py name value := by
  unfold Carries at h
  unfold coreHeld heldBy
  by_cases hcount : name = "count"
  · rw [if_pos hcount] at h
    rw [if_pos hcount, if_pos hcount, h]
  · rw [if_neg hcount] at h
    rw [if_neg hcount, if_neg hcount]
    by_cases hplain : name = "" ∨ name = "value" ∨ name = "item"
    · rw [if_pos hplain, if_pos hplain]
    · rw [if_neg hplain] at h
      rw [if_neg hplain, if_neg hplain]
      generalize dropStart "value." (dropStart "item." name) = n at h
      rcases h with ⟨fields, rfl⟩ | hsome
      · rfl
      · obtain ⟨held, hheld⟩ := Option.isSome_iff_exists.1 hsome
        unfold coreField field
        cases value with
        | dict fields => rfl
        | none | bool | int | float | str | list | object =>
          simp only [hheld, Option.getD_some]

/-- The Filter card keeps what `rule_holds` holds of. -/
theorem filtered_eq {rule : String} (h : FilterReads py rule) (items : List Value) :
    filtered py items (py.strip rule) =
      (comparison py rule).map fun _ => items.filter fun item => ruleHolds py rule item = some true := by
  unfold filtered ruleHolds comparison
  cases hscan : scan (py.strip rule).toList with
  | none => rfl
  | some found =>
    obtain ⟨op, left, right⟩ := found
    have hname := h op left right hscan
    refine congrArg some (List.filter_congr fun item _ => ?_)
    rw [filterHeld_eq hname]
    simp

/-- **One grammar**, where the name agrees, the literal agrees and the value carries what is named:
the Filter card, which strips its rule, keeps just the items of which the rule holds, and the core
store's condition is the verdict of the rule. -/
theorem grammars_agree (rule : String) :
    (FilterReads py rule → ∀ items, filtered py items (py.strip rule) =
      (comparison py rule).map fun _ =>
        items.filter fun item => ruleHolds py rule item = some true) ∧
    ∀ value, CoreReads py low rule value →
      conditionHolds py low rule value = ruleHolds py rule value := by
  refine ⟨fun h items => filtered_eq h items, fun value h => ?_⟩
  unfold CoreReads at h
  unfold conditionHolds ruleHolds comparison
  cases hscan : scan (py.strip rule).toList with
  | none =>
    rw [hscan] at h
    dsimp only at h ⊢
    simp only [List.mem_cons, List.not_mem_nil, or_false, not_or] at h
    obtain ⟨halways, htrue, hnever, hfalse⟩ := h
    rw [if_neg (not_or.2 ⟨halways, htrue⟩), if_neg (not_or.2 ⟨hnever, hfalse⟩)]
    rfl
  | some found =>
    obtain ⟨op, left, right⟩ := found
    rw [hscan] at h
    obtain ⟨hcarries, hliteral⟩ := h
    dsimp only
    simp only [coreHeld_eq hcarries, coerceLiteral_eq hliteral, Option.map_some]

/-! ## Rules that are read in three ways -/

/-- A language in which lists have a method `count`. -/
def listPython : Python :=
  { plainPython with
    getattr := fun v name =>
      match v with
      | .list _ => if name = "count" then some (.object "count") else none
      | _ => none }

def plainLower : Lower := ⟨fun s => String.ofList (s.toList.map Char.toLower), rfl, rfl⟩

/-- A rule on which the three agree. -/
theorem grammars_agree_number :
    (∀ items, filtered listPython items (listPython.strip "x > 5") =
      (comparison listPython "x > 5").map fun _ =>
        items.filter fun item => ruleHolds listPython "x > 5" item = some true) ∧
    conditionHolds listPython plainLower "x > 5" (.dict [("x", .int 7)]) =
      ruleHolds listPython "x > 5" (.dict [("x", .int 7)]) := by
  have hscan : scan (listPython.strip "x > 5").toList =
      some (.gt, ['x', ' '], [' ', '5']) := by decide
  refine ⟨(@grammars_agree _ plainLower "x > 5").1 ?_, (grammars_agree "x > 5").2 _ ?_⟩
  · intro op left right h
    rw [hscan] at h
    cases h
    exact .inr (.inr (by decide))
  · unfold CoreReads
    rw [hscan]
    refine ⟨.inl ⟨_, rfl⟩, by decide, by decide, fun h => ?_⟩
    decide

/-- A list of one list of two. -/
def pairs : List Value := [.list [.int 1, .int 2]]

/-- Of a list of two items it holds that their count is above one; the Filter card drops it, and the
core store wants a text without its blanks. -/
theorem grammars_differ :
    (filtered listPython pairs "count > 1").map List.length = some 0 ∧
      (pairs.filter fun item => ruleHolds listPython "count > 1" item = some true).length = 1 ∧
      conditionHolds listPython plainLower "x == ' a '" (.dict [("x", .str " a ")]) = some false ∧
      ruleHolds listPython "x == ' a '" (.dict [("x", .str " a ")]) = some true := by
  refine ⟨by decide, by decide, by decide, by decide⟩

end ArchHub.Stem

import Mathlib
import ArchHub.Stem.Value

/-!
# Typed parameters

A parameter has a definition: its type, and what its values are limited to.  One check stands for
all of them, `coerce`, which turns what is entered into a value of the type.

* `coerce`, `default`: `coerce`, `default`.
* `coerce_again`: a value that was coerced is not changed by coercing it again, unless it is a text
  that stands for JSON.
* `coercion_stable_iff`: **when coercion is stable, and the default passes**.
-/

namespace ArchHub.Params

open Stem Option

/-! ## Definitions -/

/-- `TYPES`. -/
inductive Kind
  | bool
  | integer
  | number
  | text
  | choice
  | date
  | file
  | folder
  | object
  | list
  | path
  | color
  | enum
  | json
deriving DecidableEq

/-- The definition of a parameter, or of a field of a dataset; a bound that is not set is `None`. -/
structure Entry where
  id : String
  name : String
  type : Kind
  min : Stem.Value := .none
  max : Stem.Value := .none
  options : List Stem.Value := []
  optional : Bool := false

/-- The functions of the language and its library that are used. -/
structure Host where
  /-- `str(value)`. -/
  str : Stem.Value → String
  /-- `str.casefold`. -/
  casefold : String → String
  /-- `json.loads(text)`. -/
  loads : String → Option Stem.Value
  /-- `float(value)`. -/
  float : Stem.Value → Option Double
  /-- `datetime.date.fromisoformat(text).isoformat()`. -/
  date : String → Option String
  /-- `datetime.date.today().isoformat()`. -/
  today : String
  /-- `re.sub(r"[^a-z0-9_]+", "_", name.strip().casefold()).strip("_")[:60]`. -/
  identity : String → String
  /-- `name.strip()[:80]`. -/
  shown : String → String
  str_str : ∀ s, str (.str s) = s
  /-- A JSON text of a text has quotes more than the text. -/
  loads_str : ∀ {s t}, loads s = some (.str t) → t.length < s.length
  float_float : ∀ x, float (.float x) = some x
  /-- A `float` that is a whole number is the `float` of that number. -/
  float_int : ∀ {v} {n : ℤ}, float v = some (Double.finite n) → float (.int n) = some (Double.finite n)
  float_zero : float (.int 0) = some (Double.finite 0)
  date_date : ∀ {s d}, date s = some d → date d = some d
  date_today : date today = some today

variable (host : Host)

/-- `value in ("", None)`. -/
def blank : Stem.Value → Bool
  | .none => true
  | .str s => s = ""
  | _ => false

/-- A number that is finite. -/
def finite? : Double → Option ℚ
  | none => none
  | some x => WithBot.recBotCoe none (fun y => WithTop.recTopCoe none some y) x

/-! ## `coerce` -/

/-- A bound that is not passed: `op` tells what passes it. -/
def keepsBound (op : Operator) (bound : Stem.Value) (number : Double) : Option Bool :=
  if blank bound then some true
  else (host.float bound).map fun b => !op.numbers number b

/-- `coerce` of a number or an integer. -/
def coerceNumber (e : Entry) (value : Stem.Value) : Option Stem.Value :=
  if blank value && e.optional then some .none
  else (host.float value).bind fun number => (finite? number).bind fun q =>
    if e.type = .integer ∧ q.den ≠ 1 then none
    else if keepsBound host .lt e.min number = some true ∧
        keepsBound host .gt e.max number = some true then
      some (if e.type = .integer then .int q.num else .float number)
    else none

/-- `coerce` of a truth value. -/
def coerceBool (value : Stem.Value) : Option Stem.Value :=
  match value with
  | .bool b => some (.bool b)
  | v =>
    let word := host.casefold (host.str v)
    if word ∈ ["true", "false", "1", "0", "yes", "no"] then
      some (.bool (word ∈ ["true", "1", "yes"]))
    else none

/-- `json.loads(value) if isinstance(value, str) else value`. -/
def parsed : Stem.Value → Option Stem.Value
  | .str s => host.loads s
  | v => some v

/-- A hexadecimal digit. -/
def hexDigit (c : Char) : Bool :=
  ('0' ≤ c ∧ c ≤ '9') ∨ ('a' ≤ c ∧ c ≤ 'f') ∨ ('A' ≤ c ∧ c ≤ 'F')

/-- `re.fullmatch(r"#[0-9a-fA-F]{6}", text)`. -/
def isColor (s : String) : Bool :=
  match s.toList with
  | '#' :: digits => digits.length = 6 && digits.all hexDigit
  | _ => false

/-- Whether a text is one of the options. -/
def isOption (e : Entry) (s : String) : Bool :=
  e.options.any fun
    | .str o => o = s
    | _ => false

/-- `coerce`: the one value check. -/
def coerce (e : Entry) (value : Stem.Value) : Option Stem.Value :=
  match e.type with
  | .number | .integer => coerceNumber host e value
  | .bool => coerceBool host value
  | .list => (parsed host value).filter fun
    | .list _ => true
    | _ => false
  | .object => (parsed host value).filter fun
    | .dict _ => true
    | _ => false
  | .json => parsed host value
  | .date => (host.date (host.str value)).map .str
  | .color => if isColor (host.str value) then some (.str (host.str value)) else none
  | .enum | .choice => if isOption e (host.str value) then some (.str (host.str value)) else none
  | .text | .file | .folder | .path => some (.str (host.str value))

/-! ## `default` -/

/-- The value that the default of a type starts from. -/
def emptyOf (e : Entry) : Stem.Value :=
  match e.type with
  | .number | .integer => .int 0
  | .bool => .bool false
  | .list => .list []
  | .json | .object => .dict []
  | .color => .str "#d97757"
  | .date => .str host.today
  | .enum | .choice => e.options.headD (.str "")
  | .text | .file | .folder | .path => .str ""

/-- `max(value, float(minimum))`, of nought and a number. -/
def raised (minimum : Double) : Stem.Value :=
  if Operator.gt.numbers minimum (Double.finite 0) then .float minimum else .int 0

/-- What `default` coerces. -/
def startOf (e : Entry) : Option Stem.Value :=
  if (e.type = .number ∨ e.type = .integer) ∧ blank e.min = false then
    (host.float e.min).map raised
  else some (emptyOf host e)

/-- `default`: the empty value of a parameter of a type. -/
def default (e : Entry) : Option Stem.Value := (startOf host e).bind (coerce host e)

/-- The value that a new parameter is given: what is entered, or the default. -/
def firstValue (e : Entry) (value : Stem.Value) : Option Stem.Value :=
  if blank value then (default host e).bind (coerce host e) else coerce host e value

/-- A definition that `add_param` accepts, with some value: it never takes `optional`. -/
def Accepted (e : Entry) : Prop := e.optional = false ∧ ∃ value, (firstValue host e value).isSome

/-! ## What is asked -/

/-- A value that is coerced to what it stays: it is no JSON text of a text. -/
def Settled (e : Entry) (value : Stem.Value) : Prop :=
  ¬ (e.type = .json ∧ ∃ s t, value = .str s ∧ host.loads s = some (.str t))

/-- A definition whose default passes: of numbers, the least that is not below nought nor the
minimum is no more than the maximum, and whole where it has to be; what the first option is written
as is an option. -/
def DefaultFits (e : Entry) : Prop :=
  match e.type with
  | .number | .integer => ∃ v x, startOf host e = some v ∧ host.float v = some x ∧
      (e.type = .integer → ∃ n : ℤ, x = Double.finite n) ∧ keepsBound host .gt e.max x = some true
  | .enum | .choice => ∃ o, e.options.head? = some o ∧ isOption e (host.str o) = true
  | _ => True

variable {host} {e : Entry} {value r : Stem.Value} {x : Double} {q : ℚ}

/-! ## Coercing again -/

theorem finite?_eq_some : finite? x = some q ↔ x = Double.finite q := by
  unfold finite? Double.finite
  cases x with
  | none => simp
  | some x =>
    induction x using WithBot.recBotCoe with
    | bot => simp
    | coe y =>
      induction y using WithTop.recTopCoe with
      | top =>
        refine iff_of_false ?_ (by simp)
        show (none : Option ℚ) ≠ some q
        simp
      | coe p => simp

theorem coerceNumber_eq_some (hoptional : e.optional = false) :
    coerceNumber host e value = some r ↔ ∃ q : ℚ, host.float value = some (Double.finite q) ∧
      (e.type = .integer → q.den = 1) ∧ keepsBound host .lt e.min (Double.finite q) = some true ∧
        keepsBound host .gt e.max (Double.finite q) = some true ∧
          r = if e.type = .integer then .int q.num else .float (Double.finite q) := by
  unfold coerceNumber
  rw [hoptional, Bool.and_false, if_neg Bool.false_ne_true]
  constructor
  · intro h
    obtain ⟨number, hnumber, h⟩ := Option.bind_eq_some_iff.1 h
    obtain ⟨q, hq, h⟩ := Option.bind_eq_some_iff.1 h
    obtain rfl := finite?_eq_some.1 hq
    split at h
    · cases h
    · next hwhole =>
      split at h
      · next hbounds =>
        refine ⟨q, hnumber, fun hint => ?_, hbounds.1, hbounds.2, (Option.some.inj h).symm⟩
        by_contra hden
        exact hwhole ⟨hint, hden⟩
      · cases h
  · rintro ⟨q, hnumber, hwhole, hmin, hmax, rfl⟩
    rw [hnumber, bind_some, finite?_eq_some.2 rfl, bind_some,
      if_neg fun h => h.2 (hwhole h.1), if_pos ⟨hmin, hmax⟩]

/-- A number is coerced to the same number. -/
theorem coerceNumber_again (hoptional : e.optional = false)
    (h : coerceNumber host e value = some r) : coerceNumber host e r = some r := by
  obtain ⟨q, hnumber, hwhole, hmin, hmax, rfl⟩ := (coerceNumber_eq_some hoptional).1 h
  refine (coerceNumber_eq_some hoptional).2 ⟨q, ?_, hwhole, hmin, hmax, rfl⟩
  by_cases hint : e.type = .integer
  · have hq : ((q.num : ℤ) : ℚ) = q := Rat.den_eq_one_iff q |>.1 (hwhole hint)
    rw [if_pos hint]
    rw [← hq] at hnumber
    rw [host.float_int hnumber, hq]
  · rw [if_neg hint, host.float_float]

theorem coerceBool_again (h : coerceBool host value = some r) : coerceBool host r = some r := by
  have hbool : ∃ b, r = .bool b := by
    unfold coerceBool at h
    split at h
    · exact ⟨_, (Option.some.inj h).symm⟩
    · dsimp only at h
      split at h
      · exact ⟨_, (Option.some.inj h).symm⟩
      · cases h
  obtain ⟨b, rfl⟩ := hbool
  rfl

/-- What is parsed to no text is not parsed again. -/
theorem parsed_again {v : Stem.Value} (h : ∀ s, v ≠ .str s) : parsed host v = some v := by
  cases v with
  | str s => exact absurd rfl (h s)
  | none | bool | int | float | list | dict | object => rfl

/-- **Coercing again changes nothing**, but for what a JSON text says in a text. -/
theorem coerce_again (hoptional : e.optional = false) (h : coerce host e value = some r)
    (htext : e.type = .json → ∀ s, r ≠ .str s) : coerce host e r = some r := by
  have hstr : ∀ {s}, host.str (.str s) = s := host.str_str _
  unfold coerce at h ⊢
  cases htype : e.type with
  | number | integer =>
    rw [htype] at h
    exact coerceNumber_again hoptional h
  | bool =>
    rw [htype] at h
    exact coerceBool_again h
  | list | object =>
    rw [htype] at h
    dsimp only at h ⊢
    obtain ⟨hparsed, hshape⟩ := Option.filter_eq_some_iff.1 h
    have hagain : parsed host r = some r := parsed_again fun s hs => by
      rw [hs] at hshape
      cases hshape
    rw [hagain]
    exact Option.filter_eq_some_iff.2 ⟨rfl, hshape⟩
  | json =>
    exact parsed_again (htext htype)
  | date =>
    rw [htype] at h
    obtain ⟨d, hd, rfl⟩ := Option.map_eq_some_iff.1 h
    dsimp only
    rw [hstr, host.date_date hd]
    rfl
  | color | enum | choice =>
    rw [htype] at h
    dsimp only at h ⊢
    split at h
    · next hok =>
      cases h
      rw [hstr, if_pos hok]
    · cases h
  | text | file | folder | path =>
    rw [htype] at h
    cases h
    exact congrArg (fun s => some (Stem.Value.str s)) hstr

/-- A text that a JSON text says is changed by coercing it again. -/
theorem coerce_text (htype : e.type = .json) (t : String) :
    coerce host e (.str t) ≠ some (.str t) := by
  intro h
  unfold coerce at h
  rw [htype] at h
  exact absurd (host.loads_str h) (lt_irrefl t.length)

theorem coerce_json (htype : e.type = .json) (value : Stem.Value) :
    coerce host e value = parsed host value := by
  unfold coerce
  rw [htype]

/-- **When coercion is stable** on a value. -/
theorem coerce_stable_iff (hoptional : e.optional = false) (value : Stem.Value) :
    (∀ r, coerce host e value = some r → coerce host e r = some r) ↔ Settled host e value := by
  constructor
  · rintro h ⟨htype, s, t, rfl, hloads⟩
    exact coerce_text htype t (h _ ((coerce_json htype _).trans hloads))
  · intro hsettled r hr
    refine coerce_again hoptional hr fun htype t ht => hsettled ⟨htype, ?_⟩
    subst ht
    rw [coerce_json htype] at hr
    cases value with
    | str s => exact ⟨s, t, rfl, hr⟩
    | none | bool | int | float | list | dict | object => cases hr

/-! ## The default -/

/-- What was accepted was coerced. -/
theorem Accepted.coerced (h : Accepted host e) : ∃ value r, coerce host e value = some r := by
  obtain ⟨-, value, hsome⟩ := h
  obtain ⟨r, hr⟩ := Option.isSome_iff_exists.1 hsome
  unfold firstValue at hr
  split at hr
  · obtain ⟨d, -, hd⟩ := Option.bind_eq_some_iff.1 hr
    exact ⟨d, r, hd⟩
  · exact ⟨value, r, hr⟩

theorem keepsBound_eq_true {op : Operator} {bound : Stem.Value} :
    keepsBound host op bound x = some true ↔ blank bound = true ∨
      ∃ b, host.float bound = some b ∧ op.numbers x b = false := by
  unfold keepsBound
  split
  · next hblank => exact iff_of_true rfl (.inl hblank)
  · next hblank => simp [hblank]

/-- A number that is not below a minimum keeps what is raised to it finite. -/
theorem raised_finite {m : Double} (hq : Operator.lt.numbers (Double.finite q) m = false) :
    ∃ p : ℚ, host.float (raised m) = some (Double.finite p) ∧
      Operator.lt.numbers (Double.finite p) m = false := by
  unfold raised
  split
  · next hpos =>
    rw [host.float_float]
    cases m with
    | none => cases hpos
    | some x =>
      have hle : x ≤ ((q : WithTop ℚ) : WithBot (WithTop ℚ)) := not_lt.1 (of_decide_eq_false hq)
      have hlt : ((0 : ℚ) : WithTop ℚ) < x := of_decide_eq_true hpos
      induction x using WithBot.recBotCoe with
      | bot => exact absurd hlt not_lt_bot
      | coe y =>
        induction y using WithTop.recTopCoe with
        | top => exact absurd (WithBot.coe_le_coe.1 hle) (WithTop.coe_lt_top q).not_ge
        | coe p => exact ⟨p, rfl, decide_eq_false (lt_irrefl _)⟩
  · next hpos =>
    refine ⟨0, host.float_zero, ?_⟩
    cases m with
    | none => rfl
    | some x => exact Bool.eq_false_iff.2 hpos

/-- The default of a number: it keeps the minimum in any case. -/
theorem coerceNumber_start (hoptional : e.optional = false)
    (htype : e.type = .number ∨ e.type = .integer) (h : coerceNumber host e value = some r) :
    ∃ v q, startOf host e = some v ∧ host.float v = some (Double.finite q) ∧
      keepsBound host .lt e.min (Double.finite q) = some true := by
  obtain ⟨p, -, -, hmin, -, -⟩ := (coerceNumber_eq_some hoptional).1 h
  unfold startOf
  cases hblank : blank e.min with
  | true =>
    rw [if_neg fun h => Bool.noConfusion h.2]
    have hempty : emptyOf host e = .int 0 := by
      unfold emptyOf
      rcases htype with htype | htype <;> rw [htype]
    exact ⟨_, 0, rfl, hempty.symm ▸ host.float_zero, keepsBound_eq_true.2 (.inl hblank)⟩
  | false =>
    rw [if_pos ⟨htype, rfl⟩]
    rcases keepsBound_eq_true.1 hmin with hyes | ⟨m, hm, hkeeps⟩
    · rw [hblank] at hyes
      cases hyes
    · obtain ⟨q, hfloat, hq⟩ := raised_finite hkeeps
      exact ⟨_, q, congrArg (Option.map raised) hm, hfloat, keepsBound_eq_true.2 (.inr ⟨m, hm, hq⟩)⟩

theorem default_number_iff (htype : e.type = .number ∨ e.type = .integer)
    (haccepted : Accepted host e) : (default host e).isSome ↔
      ∃ v x, startOf host e = some v ∧ host.float v = some x ∧
        (e.type = .integer → ∃ n : ℤ, x = Double.finite n) ∧
          keepsBound host .gt e.max x = some true := by
  have hcoerce : ∀ v, coerce host e v = coerceNumber host e v := by
    intro v
    unfold coerce
    rcases htype with htype | htype <;> rw [htype]
  obtain ⟨value, r, hr⟩ := haccepted.coerced
  rw [hcoerce] at hr
  obtain ⟨v, q, hstart, hfloat, hmin⟩ := coerceNumber_start haccepted.1 htype hr
  unfold default
  rw [hstart, bind_some, hcoerce, isSome_iff_exists]
  constructor
  · rintro ⟨d, hd⟩
    obtain ⟨p, hp, hwhole, -, hmax, -⟩ := (coerceNumber_eq_some haccepted.1).1 hd
    refine ⟨v, _, rfl, hp, fun hint => ⟨p.num, ?_⟩, hmax⟩
    rw [(Rat.den_eq_one_iff p).1 (hwhole hint)]
  · rintro ⟨v', x, hv', hx, hwhole, hmax⟩
    cases hv'
    rw [hfloat] at hx
    cases hx
    refine ⟨_, (coerceNumber_eq_some haccepted.1).2 ⟨q, hfloat, fun hint => ?_, hmin, hmax, rfl⟩⟩
    obtain ⟨n, hn⟩ := hwhole hint
    obtain rfl : q = n := Option.some.inj ((finite?_eq_some.2 rfl).symm.trans (finite?_eq_some.2 hn))
    exact Rat.den_intCast n

/-- **When the default passes.** -/
theorem default_isSome_iff (haccepted : Accepted host e) :
    (default host e).isSome ↔ DefaultFits host e := by
  have hstart : ¬ (e.type = .number ∨ e.type = .integer) →
      default host e = coerce host e (emptyOf host e) := by
    intro htype
    unfold default startOf
    rw [if_neg fun h => htype h.1]
    rfl
  unfold DefaultFits
  cases htype : e.type with
  | number | integer =>
    rw [default_number_iff (by simp [htype]) haccepted, htype]
  | enum | choice =>
    rw [hstart (by simp [htype])]
    unfold coerce emptyOf
    rw [htype]
    dsimp only
    cases hoptions : e.options with
    | nil => simp [isOption, hoptions]
    | cons o os => simp
  | bool | list | object | json | date | color | text | file | folder | path =>
    rw [hstart (by simp [htype])]
    unfold coerce emptyOf
    rw [htype]
    simp [coerceBool, parsed, host.str_str, host.date_today, isColor, hexDigit]

/-- **When coercion is stable, and the default passes**: the value is no JSON text of a text, and the
definition's default fits it. -/
theorem coercion_stable_iff {e : Entry} (haccepted : Accepted host e) (value : Stem.Value) :
    ((∀ r, coerce host e value = some r → coerce host e r = some r) ∧ (default host e).isSome) ↔
      Settled host e value ∧ DefaultFits host e := by
  rw [default_isSome_iff haccepted, coerce_stable_iff haccepted.1]

/-! ## A language to compute with -/

/-- A number in plain values. -/
def plainFloat : Stem.Value → Option Double
  | .str s => (readInt s.toList).map fun n => Double.finite n
  | v => v.number?

/-- Functions that do as Python's on integers, on one JSON text and on one day. -/
def plainHost : Host where
  str := plainPython.str
  casefold s := s
  loads s := if s = "\"5\"" then some (.str "5") else if s = "5" then some (.int 5) else none
  float := plainFloat
  date s := if s = "2026-01-01" then some s else none
  today := "2026-01-01"
  identity name := name
  shown name := name
  str_str := plainPython.str_str
  loads_str {s t} h := by
    split at h
    · next hs =>
      cases h
      rw [hs]
      decide
    · split at h <;> cases h
  float_float _ := rfl
  float_int _ := rfl
  float_zero := rfl
  date_date {s d} h := by
    split at h
    · next hs =>
      cases h
      rw [if_pos hs]
    · cases h
  date_today := rfl

/-- An integer below nought. -/
def debt : Entry := { id := "debt", name := "Debt", type := .integer, max := .int (-1) }

theorem accepted_debt : Accepted plainHost debt := ⟨rfl, .int (-5), by decide⟩

/-- A value of any JSON. -/
def note : Entry := { id := "note", name := "Note", type := .json }

theorem accepted_note : Accepted plainHost note := ⟨rfl, .int 5, rfl⟩

theorem coercion_stable_note :
    ((∀ r, coerce plainHost note (.int 5) = some r → coerce plainHost note r = some r) ∧
      (default plainHost note).isSome) ↔
    Settled plainHost note (.int 5) ∧ DefaultFits plainHost note :=
  coercion_stable_iff accepted_note (.int 5)

/-- A JSON text of a text is coerced to a number the second time, and the default of an integer below
nought does not pass. -/
theorem coercion_unstable :
    ¬ (∀ r, coerce plainHost note (.str "\"5\"") = some r → coerce plainHost note r = some r) ∧
      (default plainHost debt).isSome = false := by
  refine ⟨fun h => ?_, by decide⟩
  have hagain : coerce plainHost note (.str "5") = some (.str "5") := h _ rfl
  exact coerce_text rfl "5" hagain

end ArchHub.Params

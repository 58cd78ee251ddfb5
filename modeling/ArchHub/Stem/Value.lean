import Mathlib

/-!
# What the stem evaluator computes with

The evaluator walks a graph of small operations over Python values.  It reads texts as numbers
where it can, looks up fields however an item carries them, and compares.

* `Value`: the values that flow along the wires.
* `Python`: the functions of the language that are used.
* `coerce`, `asList`, `field`: `_coerce`, `_as_list`, `_field`.
* `Operator.test`: the six comparisons.
-/

namespace ArchHub.Stem

/-! ## Values -/

/-- A number of type `float`: NaN is `none`. -/
abbrev Double := Option (WithBot (WithTop ℚ))

/-- A number that is finite. -/
def Double.finite (q : ℚ) : Double := some ((q : WithTop ℚ) : WithBot (WithTop ℚ))

/-- A value; `object` is an object of another kind, such as a method. -/
inductive Value
  | none
  | bool (b : Bool)
  | int (n : ℤ)
  | float (x : Double)
  | str (s : String)
  | list (xs : List Value)
  | dict (fields : List (String × Value))
  | object (name : String)

/-- `bool(value)`; objects are true. -/
def Value.truthy : Value → Bool
  | .none => false
  | .bool b => b
  | .int n => n ≠ 0
  | .float x => x ≠ Double.finite 0
  | .str s => s ≠ ""
  | .list xs => !xs.isEmpty
  | .dict fields => !fields.isEmpty
  | .object _ => true

/-- The number that a value is; a `bool` is one, too. -/
def Value.number? : Value → Option Double
  | .bool b => some (Double.finite (if b then 1 else 0))
  | .int n => some (Double.finite n)
  | .float x => some x
  | _ => Option.none

/-! ## The language -/

/-- What a list is sorted by: a number, or a text after all numbers. -/
inductive SortKey
  | number (x : Double)
  | text (s : String)
deriving DecidableEq

/-- Whether a key is NaN. -/
def SortKey.isNan : SortKey → Bool
  | .number x => x.isNone
  | .text _ => false

/-- Whether a key is before another one, or equal to it. -/
def SortKey.le : SortKey → SortKey → Bool
  | .number (some x), .number (some y) => x ≤ y
  | .number _, .number _ => false
  | .number _, .text _ => true
  | .text _, .number _ => false
  | .text s, .text t => s ≤ t

/-- The functions of Python that are used.  `sorted` is stable in either direction, whatever it
sorts; keys that are NaN are in no order. -/
structure Python where
  /-- `str.isspace` of a character. -/
  space : Char → Bool
  /-- `int(text)`. -/
  int : String → Option ℤ
  /-- `float(text)`. -/
  float : String → Option Double
  /-- `str(value)`. -/
  str : Value → String
  /-- `json.loads(text)`. -/
  loads : String → Option Value
  /-- `getattr(value, name)`. -/
  getattr : Value → String → Option Value
  /-- `sorted(items, key=..., reverse=...)`. -/
  sorted : Bool → (Value → SortKey) → List Value → List Value
  str_str : ∀ s, str (.str s) = s
  sorted_perm : ∀ reverse key items, (sorted reverse key items).Perm items
  sorted_stable : ∀ reverse key items k, (sorted reverse key items).filter (key · = k) =
    items.filter (key · = k)
  sorted_ordered : ∀ reverse key items, (∀ x ∈ items, (key x).isNan = false) →
    (sorted reverse key items).Pairwise fun a b =>
      if reverse then (key b).le (key a) = true else (key a).le (key b) = true

variable (py : Python)

/-- A text without the characters at its start that are to be dropped. -/
def stripLeft (drop : Char → Bool) (cs : List Char) : List Char := cs.dropWhile drop

/-- A text without the characters at its end that are to be dropped. -/
def stripRight (drop : Char → Bool) (cs : List Char) : List Char :=
  (cs.reverse.dropWhile drop).reverse

/-- A text without the characters at both ends that are to be dropped. -/
def stripBoth (drop : Char → Bool) (cs : List Char) : List Char :=
  stripRight drop (stripLeft drop cs)

/-- `text.strip()`. -/
def Python.strip (s : String) : String := String.ofList (stripBoth py.space s.toList)

/-- `_coerce` of a text. -/
def coerce (text : String) : Value :=
  let stripped := py.strip text
  if stripped = "true" then .bool true
  else if stripped = "false" then .bool false
  else match py.int stripped with
    | some n => .int n
    | Option.none => match py.float stripped with
      | some x => .float x
      | Option.none => .str text

/-- `_coerce`. -/
def coerceValue : Value → Value
  | .str text => coerce py text
  | v => v

/-- `text.split(",")`. -/
def commaParts (s : String) : List String := (s.toList.splitOn ',').map String.ofList

/-- `_as_list`. -/
def asList : Value → List Value
  | .list xs => xs
  | .none => []
  | v =>
    let text := py.strip (py.str v)
    match text.toList with
    | [] => []
    | c :: cs =>
      if c = '[' || c = '{' then
        match py.loads text with
        | Option.none => [.str text]
        | some (.list held) => held
        | some held => [held]
      else if ',' ∈ c :: cs then
        ((commaParts text).map py.strip).filterMap fun part =>
          if part = "" then Option.none else some (coerce py part)
      else [coerce py text]

/-- `item.get(name)`. -/
def lookup (fields : List (String × Value)) (name : String) : Value :=
  ((fields.find? fun e => e.1 = name).map Prod.snd).getD .none

/-- `_field`: `getattr(item, name, item)` where the item is no mapping. -/
def field (item : Value) (name : String) : Value :=
  match item with
  | .dict fields => lookup fields name
  | v => (py.getattr v name).getD v

/-! ## Comparisons -/

/-- The comparisons a rule may use. -/
inductive Operator
  | ge
  | le
  | ne
  | eq
  | gt
  | lt
deriving DecidableEq

/-- How a comparison is written. -/
def Operator.text : Operator → String
  | .ge => ">="
  | .le => "<="
  | .ne => "!="
  | .eq => "=="
  | .gt => ">"
  | .lt => "<"

/-- `_OPERATORS`, in the order in which they are looked for. -/
def operators : List Operator := [.ge, .le, .ne, .eq, .gt, .lt]

/-- A comparison in an order. -/
def Operator.holds {α : Type} [LinearOrder α] : Operator → α → α → Bool
  | .ge, a, b => b ≤ a
  | .le, a, b => a ≤ b
  | .ne, a, b => a ≠ b
  | .eq, a, b => a = b
  | .gt, a, b => b < a
  | .lt, a, b => a < b

/-- A comparison of numbers; NaN is different from every number, and in no order with any. -/
def Operator.numbers (op : Operator) : Double → Double → Bool
  | some x, some y => op.holds x y
  | _, _ => op = .ne

/-- A comparison with what a rule wants, which is a number or a text; where two values have no
order the comparison raises `TypeError`, which is read as `False`. -/
def Operator.test (op : Operator) (held wanted : Value) : Bool :=
  match held.number?, wanted.number? with
  | some x, some y => op.numbers x y
  | _, _ =>
    match held, wanted with
    | .str s, .str t => op.holds s t
    | _, _ => op = .ne

/-! ## A language to compute with -/

/-- Sorting leaves what is equal to each other in its order. -/
theorem filter_mergeSort {α : Type} {le : α → α → Bool}
    (htrans : ∀ a b c, le a b = true → le b c = true → le a c = true)
    (htotal : ∀ a b, (le a b || le b a) = true) {p : α → Bool}
    (hp : ∀ a b, p a = true → p b = true → le a b = true) (items : List α) :
    (items.mergeSort le).filter p = items.filter p := by
  have hpairwise : (items.filter p).Pairwise fun a b => le a b = true := by
    refine List.Pairwise.imp_of_mem (fun ha hb _ => ?_) (List.pairwise_of_forall fun _ _ => trivial)
    exact hp _ _ (List.mem_filter.1 ha).2 (List.mem_filter.1 hb).2
  have hsub : (items.filter p).Sublist (items.mergeSort le) :=
    List.sublist_mergeSort htrans htotal hpairwise List.filter_sublist
  have hfilter : (items.filter p).Sublist ((items.mergeSort le).filter p) := by
    have := hsub.filter p
    rwa [List.filter_filter, List.filter_congr fun x _ => Bool.and_self (p x)] at this
  exact (hfilter.eq_of_length ((List.mergeSort_perm items le).filter p).length_eq.symm).symm

/-- A natural number in decimal digits. -/
def readNat (cs : List Char) : Option ℕ :=
  if cs.isEmpty || !cs.all Char.isDigit then none
  else some (cs.foldl (fun n c => 10 * n + (c.toNat - '0'.toNat)) 0)

/-- An integer in decimal digits. -/
def readInt : List Char → Option ℤ
  | '-' :: cs => (readNat cs).map fun n => -n
  | cs => (readNat cs).map fun n => n

/-- The place of a key in a total order, NaN after all numbers. -/
def SortKey.rank : SortKey → Bool ×ₗ WithTop (WithBot (WithTop ℚ)) ×ₗ String
  | .number none => toLex (false, toLex (⊤, ""))
  | .number (some x) => toLex (false, toLex (↑x, ""))
  | .text s => toLex (true, toLex (⊤, s))

/-- Whether an item may stand before another one. -/
def rankLe (reverse : Bool) (key : Value → SortKey) (a b : Value) : Bool :=
  if reverse then (key b).rank ≤ (key a).rank else (key a).rank ≤ (key b).rank

theorem rankLe_trans (reverse : Bool) (key : Value → SortKey) (a b c : Value)
    (hab : rankLe reverse key a b = true) (hbc : rankLe reverse key b c = true) :
    rankLe reverse key a c = true := by
  unfold rankLe at hab hbc ⊢
  cases reverse with
  | false => exact decide_eq_true ((of_decide_eq_true hab).trans (of_decide_eq_true hbc))
  | true =>
    have hba : (key b).rank ≤ (key a).rank := of_decide_eq_true hab
    have hcb : (key c).rank ≤ (key b).rank := of_decide_eq_true hbc
    exact decide_eq_true (hcb.trans hba)

theorem rankLe_total (reverse : Bool) (key : Value → SortKey) (a b : Value) :
    (rankLe reverse key a b || rankLe reverse key b a) = true := by
  have htotal := le_total (key a).rank (key b).rank
  rw [Bool.or_eq_true]
  unfold rankLe
  cases reverse with
  | false => exact htotal.imp decide_eq_true decide_eq_true
  | true => exact htotal.symm.imp decide_eq_true decide_eq_true

/-- Keys that are no NaN are in the order of their places. -/
theorem SortKey.le_of_rank {k l : SortKey} (hk : k.isNan = false) (hl : l.isNan = false)
    (h : k.rank ≤ l.rank) : k.le l = true := by
  cases k with
  | text s =>
    cases l with
    | text t =>
      rcases Prod.Lex.toLex_le_toLex.1 h with hlt | ⟨-, hle⟩
      · exact absurd hlt (lt_irrefl true)
      · rcases Prod.Lex.toLex_le_toLex.1 hle with hlt | ⟨-, hst⟩
        · exact absurd hlt (lt_irrefl ⊤)
        · exact decide_eq_true hst
    | number y =>
      cases y with
      | none => cases hl
      | some y =>
        rcases Prod.Lex.toLex_le_toLex.1 h with hlt | ⟨heq, -⟩
        · exact absurd (show true < false from hlt) (by decide)
        · cases heq
  | number x =>
    cases x with
    | none => cases hk
    | some x =>
      cases l with
      | text t => rfl
      | number y =>
        cases y with
        | none => cases hl
        | some y =>
          rcases Prod.Lex.toLex_le_toLex.1 h with hlt | ⟨-, hle⟩
          · exact absurd hlt (lt_irrefl false)
          · rcases Prod.Lex.toLex_le_toLex.1 hle with hlt | ⟨heq, -⟩
            · exact decide_eq_true (WithTop.coe_lt_coe.1 hlt).le
            · exact decide_eq_true (WithTop.coe_inj.1 heq).le

/-- Functions that do as Python's on decimal integers and on texts without blanks but spaces; no
value has an attribute. -/
def plainPython : Python where
  space c := c = ' '
  int s := readInt s.toList
  float s := (readInt s.toList).map fun n => Double.finite n
  str
    | .str s => s
    | .int n => toString n
    | _ => ""
  loads _ := none
  getattr _ _ := none
  sorted reverse key items := items.mergeSort (rankLe reverse key)
  str_str _ := rfl
  sorted_perm _ _ items := List.mergeSort_perm items _
  sorted_stable reverse key items k := by
    refine filter_mergeSort (rankLe_trans reverse key) (rankLe_total reverse key) ?_ items
    intro a b ha hb
    unfold rankLe
    rw [of_decide_eq_true ha, of_decide_eq_true hb]
    cases reverse with
    | false => exact decide_eq_true (le_refl k.rank)
    | true => exact decide_eq_true (le_refl k.rank)
  sorted_ordered reverse key items h := by
    have hsorted := List.pairwise_mergeSort (rankLe_trans reverse key) (rankLe_total reverse key) items
    refine hsorted.imp_of_mem fun {a b} ha hb hab => ?_
    have ha' := h a (List.mem_mergeSort.1 ha)
    have hb' := h b (List.mem_mergeSort.1 hb)
    cases reverse with
    | false => exact SortKey.le_of_rank ha' hb' (of_decide_eq_true hab)
    | true => exact SortKey.le_of_rank hb' ha' (of_decide_eq_true hab)

end ArchHub.Stem

import Mathlib
import ArchHub.Lib.Dict

/-!
# Python values

The records of the application are plain Python data: what JSON text can hold.
`Value` is that data and this module is the part of the language the modelled
functions use on it.

* Dictionaries keep insertion order, as Python's do, and their keys are hashed:
  `True`, `1` and `1.0` are one key (`Key.num`).
* `Value.canon` forgets what `==` does not see — the order of a dictionary's
  entries and whether a number is a `bool`, an `int` or a `float` — so that
  `pyEq` is equality of canonical forms, an equivalence by construction.
* `getItem`, `setItem`, `delItem`, `contains` are `obj[key]`, `obj[key] = v`,
  `del obj[key]` and `key in obj`, with the exceptions they raise.

A `float` is a finite one, kept as the rational it is; NaN and the infinities,
which JSON text does not have, are left out.  Values are trees: two places of a
record that hold the same Python object are not told apart from two equal ones.
`noValue` is the sentinel a closed wire of the one-table engine conducts.
-/

namespace ArchHub

/-! ## Exceptions -/

/-- The class of a raised exception. -/
inductive Exception where
  | keyError
  | indexError
  | typeError
  | attributeError
  | valueError
  | runtimeError
  | recursionError
  | oneTableViolation
  | historyImmutable
  | frozenNode
deriving DecidableEq, Repr

/-- A hashable value, up to `==`. -/
inductive Key where
  | none
  | num (q : ℚ)
  | str (s : String)
  | noValue
deriving DecidableEq, Repr, Inhabited

instance : Coe String Key := ⟨Key.str⟩

/-- A Python value of the kind JSON text can hold. -/
inductive Value where
  | none
  | bool (b : Bool)
  | int (n : ℤ)
  | float (q : ℚ)
  | str (s : String)
  | list (xs : List Value)
  | dict (es : List (Key × Value))
  | noValue
deriving Repr, Inhabited

/-- A raised exception: its class, its message as the source formats it, and
the values the message is formatted with. -/
structure Raised where
  /-- The class. -/
  kind : Exception
  /-- The message, with `%` where a value is shown. -/
  text : String
  /-- The values shown. -/
  shown : List Value
deriving Repr

/-- A mapping with keys as in Python. -/
abbrev Fields := List (Key × Value)

namespace Value

/-! ## Deciding equality -/

mutual

/-- Whether two values are the same. -/
def same : Value → Value → Bool
  | .none, .none => true
  | .bool a, .bool b => a == b
  | .int a, .int b => a == b
  | .float a, .float b => a == b
  | .str a, .str b => a == b
  | .noValue, .noValue => true
  | .list a, .list b => sameList a b
  | .dict a, .dict b => sameFields a b
  | _, _ => false

/-- Whether two lists of values are the same. -/
def sameList : List Value → List Value → Bool
  | [], [] => true
  | a :: as, b :: bs => same a b && sameList as bs
  | _, _ => false

/-- Whether two lists of entries are the same. -/
def sameFields : Fields → Fields → Bool
  | [], [] => true
  | (k, a) :: as, (l, b) :: bs => decide (k = l) && (same a b && sameFields as bs)
  | _, _ => false

end

mutual

theorem same_iff : ∀ a b, same a b = true ↔ a = b
  | .none, b => by cases b <;> simp [same]
  | .bool a, b => by cases b <;> simp [same]
  | .int a, b => by cases b <;> simp [same]
  | .float a, b => by cases b <;> simp [same]
  | .str a, b => by cases b <;> simp [same]
  | .noValue, b => by cases b <;> simp [same]
  | .list a, b => by cases b <;> simp [same, sameList_iff a]
  | .dict a, b => by cases b <;> simp [same, sameFields_iff a]

theorem sameList_iff : ∀ a b, sameList a b = true ↔ a = b
  | [], b => by cases b <;> simp [sameList]
  | a :: as, b => by cases b <;> simp [sameList, same_iff a, sameList_iff as]

theorem sameFields_iff : ∀ a b, sameFields a b = true ↔ a = b
  | [], b => by cases b <;> simp [sameFields]
  | (k, a) :: as, b => by
      cases b <;> simp [sameFields, same_iff a, sameFields_iff as, Prod.ext_iff, and_assoc]

end

instance : DecidableEq Value := fun a b => decidable_of_iff _ (same_iff a b)

deriving instance DecidableEq for Raised

/-! ## `==` and `json.dumps` -/

end Value

/-- An order of the keys, to sort entries by. -/
def Key.ble : Key → Key → Bool
  | .none, _ => true
  | .num a, .num b => decide (a ≤ b)
  | .num _, .str _ => true
  | .str a, .str b => decide (a ≤ b)
  | _, .noValue => true
  | _, _ => false

/-- Insert an entry at its place among sorted entries. -/
def Fields.insertSorted {ν : Type*} (e : Key × ν) : List (Key × ν) → List (Key × ν)
  | [] => [e]
  | f :: fs => if e.1.ble f.1 then e :: f :: fs else f :: insertSorted e fs

namespace Value

mutual

/-- The value up to `==`. -/
def canon : Value → Value
  | .none => .none
  | .bool b => .int (if b then 1 else 0)
  | .int n => .int n
  | .float q => if q.den = 1 then .int q.num else .float q
  | .str s => .str s
  | .list xs => .list (canonList xs)
  | .dict es => .dict (canonFields es)
  | .noValue => .noValue

/-- A list of values up to `==`. -/
def canonList : List Value → List Value
  | [] => []
  | x :: xs => canon x :: canonList xs

/-- The entries of a dictionary up to `==`. -/
def canonFields : Fields → Fields
  | [] => []
  | (k, v) :: es => Fields.insertSorted (k, canon v) (canonFields es)

end

/-- `a == b`. -/
def pyEq (a b : Value) : Bool := decide (canon a = canon b)

@[simp] theorem pyEq_iff {a b : Value} : pyEq a b = true ↔ canon a = canon b := by
  simp [pyEq]

/-- A text is equal to nothing but itself. -/
@[simp] theorem pyEq_str {a : Value} {s : String} : pyEq a (.str s) = true ↔ a = .str s := by
  rw [pyEq_iff]
  cases a with
  | float q =>
      simp only [canon]
      split <;> simp
  | _ => simp [canon]

/-! ## Truth, hashing, types -/

/-- `bool(v)`. -/
def truthy : Value → Bool
  | .none => false
  | .bool b => b
  | .int n => decide (n ≠ 0)
  | .float q => decide (q ≠ 0)
  | .str s => decide (s ≠ "")
  | .list xs => !xs.isEmpty
  | .dict es => !es.isEmpty
  | .noValue => false

/-- The key a value is hashed to; lists and dictionaries are unhashable. -/
def key? : Value → Option Key
  | .none => some .none
  | .bool b => some (.num (if b then 1 else 0))
  | .int n => some (.num n)
  | .float q => some (.num q)
  | .str s => some (.str s)
  | .noValue => some .noValue
  | .list _ => Option.none
  | .dict _ => Option.none

/-- The key a value is hashed to, or `TypeError: unhashable type`. -/
def hashed (v : Value) : Except Raised Key :=
  match v.key? with
  | some k => .ok k
  | Option.none => .error ⟨.typeError, "unhashable type", [v]⟩

@[simp] theorem hashed_str (s : String) : hashed (.str s) = .ok (.str s) := rfl

variable {v : Value} {k : Key}

theorem key?_of_hashed (h : v.hashed = .ok k) : v.key? = some k := by
  unfold hashed at h
  split at h
  · cases h
    assumption
  · cases h

theorem hashed_of_key? (h : v.key? = some k) : v.hashed = .ok k := by
  rw [hashed, h]

/-- `isinstance(v, str)`. -/
def isStr : Value → Bool
  | .str _ => true
  | _ => false

/-- `isinstance(v, list)`. -/
def isList : Value → Bool
  | .list _ => true
  | _ => false

/-- `isinstance(v, dict)`. -/
def isDict : Value → Bool
  | .dict _ => true
  | _ => false

/-- The value of a key of a dictionary, when it is there. -/
def get? : Value → Key → Option Value
  | .dict es, k => Lib.Assoc.find es k
  | _, _ => Option.none

/-- The items of a list, none for anything else. -/
def items : Value → List Value
  | .list xs => xs
  | _ => []

/-- The entries of a dictionary, none for anything else. -/
def fields : Value → Fields
  | .dict es => es
  | _ => []

/-- The value a key stands for. -/
def ofKey : Key → Value
  | .none => .none
  | .num q => if q.den = 1 then .int q.num else .float q
  | .str s => .str s
  | .noValue => .noValue

@[simp] theorem key?_ofKey (k : Key) : (ofKey k).key? = some k := by
  cases k with
  | num q =>
      show (if q.den = 1 then Value.int q.num else Value.float q).key? = _
      split
      · rename_i h
        simp [key?, (Rat.den_eq_one_iff q).mp h]
      · rfl
  | _ => rfl

theorem hashed_ofKey (k : Key) : (ofKey k).hashed = .ok k := hashed_of_key? (key?_ofKey k)

/-- `for x in v`. -/
def iterate : Value → Except Raised (List Value)
  | .list xs => .ok xs
  | .dict es => .ok (es.map (fun e => ofKey e.1))
  | .str s => .ok (s.toList.map (fun c => .str (String.ofList [c])))
  | v => .error ⟨.typeError, "object is not iterable", [v]⟩

/-- `v.items()`. -/
def entriesOf : Value → Except Raised Fields
  | .dict es => .ok es
  | v => .error ⟨.attributeError, "object has no attribute 'items'", [v]⟩

/-! ## Subscripts -/

/-- The position an index names in a sequence of length `n`: counted from the
end when it is negative. -/
def position (n : ℕ) : Value → Except Raised ℕ
  | .int i => seek i
  | .bool b => seek (if b then 1 else 0)
  | v => .error ⟨.typeError, "list indices must be integers or slices", [v]⟩
where
  /-- The position a number names. -/
  seek (i : ℤ) : Except Raised ℕ :=
    let j := if i < 0 then i + n else i
    if 0 ≤ j ∧ j < n then .ok j.toNat else .error ⟨.indexError, "list index out of range", []⟩

/-- `obj[key]`. -/
def getItem (obj key : Value) : Except Raised Value :=
  match obj with
  | .dict es => do
      let k ← key.hashed
      match Lib.Assoc.find es k with
      | some v => .ok v
      | Option.none => .error ⟨.keyError, "%r", [key]⟩
  | .list xs => do
      let i ← position xs.length key
      .ok (xs.getD i .none)
  | .str s => do
      let i ← position s.toList.length key
      .ok (.str (String.ofList ((s.toList.drop i).take 1)))
  | _ => .error ⟨.typeError, "object is not subscriptable", [obj]⟩

/-- The object after `obj[key] = v`. -/
def setItem (obj key v : Value) : Except Raised Value :=
  match obj with
  | .dict es => do
      let k ← key.hashed
      .ok (.dict (Lib.Assoc.put es k v))
  | .list xs => do
      let i ← position xs.length key
      .ok (.list (xs.set i v))
  | _ => .error ⟨.typeError, "object does not support item assignment", [obj]⟩

/-- The object after `del obj[key]`. -/
def delItem (obj key : Value) : Except Raised Value :=
  match obj with
  | .dict es => do
      let k ← key.hashed
      match Lib.Assoc.find es k with
      | some _ => .ok (.dict (Lib.Assoc.drop es k))
      | Option.none => .error ⟨.keyError, "%r", [key]⟩
  | .list xs => do
      let i ← position xs.length key
      .ok (.list (xs.eraseIdx i))
  | _ => .error ⟨.typeError, "object does not support item deletion", [obj]⟩

/-- `key in obj`. -/
def contains (obj key : Value) : Except Raised Bool :=
  match obj, key with
  | .dict es, _ => do
      let k ← key.hashed
      .ok (Lib.Assoc.find es k).isSome
  | .list xs, _ => .ok (xs.any (pyEq key))
  | .str s, .str t => .ok (decide (t.toList <:+: s.toList))
  | .str _, _ => .error ⟨.typeError, "'in <string>' requires string as left operand", [key]⟩
  | _, _ => .error ⟨.typeError, "argument is not iterable", [obj]⟩

/-- `obj.get(key)`, with `default` for a key that is not there. -/
def getDefault (obj : Value) (key : Key) (default : Value) : Except Raised Value :=
  match obj with
  | .dict es => .ok ((Lib.Assoc.find es key).getD default)
  | _ => .error ⟨.attributeError, "object has no attribute 'get'", [obj]⟩

/-- Rewrite what is reached along `path`, as `obj[k₁][k₂]…` reaches it. -/
def rewriteAt (f : Value → Except Raised Value) : Value → List Value → Except Raised Value
  | obj, [] => f obj
  | obj, k :: ks => do
      let sub ← obj.getItem k
      let sub ← rewriteAt f sub ks
      obj.setItem k sub

/-- `obj[k₁][k₂]…`. -/
def walk : Value → List Value → Except Raised Value
  | obj, [] => .ok obj
  | obj, k :: ks => do
      let sub ← obj.getItem k
      walk sub ks

/-- The dictionary with `key` assigned; anything else is left alone. -/
def put (obj : Value) (key : Key) (v : Value) : Value :=
  match obj with
  | .dict es => .dict (Lib.Assoc.put es key v)
  | _ => obj

variable {obj : Value}

/-- A text subscripts dictionaries only. -/
theorem getItem_str_ok {k : String} : obj.getItem (.str k) = .ok v ↔ obj.get? k = some v := by
  cases obj with
  | dict es =>
      simp only [getItem, hashed_str, get?]
      show (match Lib.Assoc.find es (Key.str k) with
        | some v => Except.ok v
        | Option.none => Except.error (Raised.mk .keyError "%r" [.str k])) = Except.ok v ↔ _
      cases Lib.Assoc.find es (Key.str k) <;> simp
  | list xs => simp [getItem, position, get?, bind, Except.bind]
  | str s => simp [getItem, position, get?, bind, Except.bind]
  | _ => simp [getItem, get?]

theorem isDict_of_get? (h : obj.get? k = some v) : obj.isDict = true := by
  cases obj <;> simp_all [get?, isDict]

/-- Only a dictionary has a text assigned. -/
theorem setItem_str_ok {obj' : Value} {k : String} :
    obj.setItem (.str k) v = .ok obj' ↔ obj.isDict = true ∧ obj' = obj.put k v := by
  cases obj with
  | dict es => simp [setItem, isDict, put, bind, Except.bind, eq_comm]
  | list xs => simp [setItem, position, isDict, bind, Except.bind]
  | _ => simp [setItem, isDict]

theorem getDefault_ok {default : Value} :
    obj.getDefault k default = .ok v ↔ obj.isDict = true ∧ (obj.get? k).getD default = v := by
  cases obj <;> simp [getDefault, isDict, get?]

theorem entriesOf_ok {es : Fields} : v.entriesOf = .ok es ↔ v = .dict es := by
  cases v <;> simp [entriesOf]

theorem get?_put (h : obj.isDict = true) (k k' : Key) (v : Value) :
    (obj.put k v).get? k' = if k' = k then some v else obj.get? k' := by
  cases obj <;> simp_all [isDict, put, get?, Lib.Assoc.find_put]

/-- One equality of two dictionaries with distinct keys is equality of what
they hold under each key. -/
example : pyEq (.dict [("b", .int 1), ("a", .bool true)]) (.dict [("a", .float 1), ("b", .int 1)])
    = true := by decide

end Value

end ArchHub

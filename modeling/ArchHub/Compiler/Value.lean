import Mathlib

/-!
# JSON values and text of the compiler

The compiler is written in Rust, and its policies, events and contexts are values of
`serde_json`.

* `Value`: such a value; `Value.field` is `value[key]`, which is null where nothing is there.
* `isBlank`, `containsText`, `splitOn`: what the standard library does with text.

The order of the entries of an object is that of their keys, and two objects are equal if
their entries are.  Text is in Unicode scalars; what needs a table of Unicode comes from
`Unicode`.
-/

namespace ArchHub.Compiler

/-- A number: an integer as far as it fits 64 bits, and a float otherwise. -/
inductive Number
  | nat (n : ℕ)
  | neg (n : ℤ)
  | float (q : ℚ)
deriving DecidableEq

/-- A value of `serde_json`. -/
inductive Value
  | null
  | bool (b : Bool)
  | number (n : Number)
  | string (s : String)
  | array (xs : List Value)
  | object (entries : List (String × Value))

namespace Value

/-! ## Equality -/

mutual

/-- `a == b`. -/
def same : Value → Value → Bool
  | null, null => true
  | bool a, bool b => a == b
  | number a, number b => a == b
  | string a, string b => a == b
  | array a, array b => sameList a b
  | object a, object b => sameEntries a b
  | _, _ => false

/-- `a == b`, of the values of arrays. -/
def sameList : List Value → List Value → Bool
  | [], [] => true
  | a :: as, b :: bs => same a b && sameList as bs
  | _, _ => false

/-- `a == b`, of the entries of objects. -/
def sameEntries : List (String × Value) → List (String × Value) → Bool
  | [], [] => true
  | (k, a) :: as, (l, b) :: bs => decide (k = l) && (same a b && sameEntries as bs)
  | _, _ => false

end

mutual

theorem same_iff : ∀ a b, same a b = true ↔ a = b
  | null, b => by cases b <;> simp [same]
  | bool a, b => by cases b <;> simp [same]
  | number a, b => by cases b <;> simp [same]
  | string a, b => by cases b <;> simp [same]
  | array a, b => by cases b <;> simp [same, sameList_iff a]
  | object a, b => by cases b <;> simp [same, sameEntries_iff a]

theorem sameList_iff : ∀ a b, sameList a b = true ↔ a = b
  | [], b => by cases b <;> simp [sameList]
  | a :: as, b => by cases b <;> simp [sameList, same_iff a, sameList_iff as]

theorem sameEntries_iff : ∀ a b, sameEntries a b = true ↔ a = b
  | [], b => by cases b <;> simp [sameEntries]
  | (k, a) :: as, b => by
      cases b <;> simp [sameEntries, same_iff a, sameEntries_iff as, Prod.ext_iff, and_assoc]

end

instance : DecidableEq Value := fun a b => decidable_of_iff _ (same_iff a b)

/-! ## Reading and writing -/

/-- The value of a key among entries. -/
def find (key : String) : List (String × Value) → Option Value
  | [] => none
  | e :: es => if e.1 = key then some e.2 else find key es

/-- The entries with another value of a key. -/
def put (key : String) (x : Value) : List (String × Value) → List (String × Value)
  | [] => [(key, x)]
  | e :: es => if e.1 = key then (key, x) :: es else e :: put key x es

/-- `value.get(key)`. -/
def get? : Value → String → Option Value
  | object entries, key => find key entries
  | _, _ => none

/-- `value[key]`. -/
def field (v : Value) (key : String) : Value := (v.get? key).getD null

/-- `value[key] = x`. -/
def set : Value → String → Value → Value
  | object entries, key, x => object (put key x entries)
  | _, key, x => object [(key, x)]

/-- `value.is_object()`. -/
def isObject : Value → Bool
  | object _ => true
  | _ => false

/-- `value.as_str()`. -/
def asStr : Value → Option String
  | string s => some s
  | _ => none

/-- `value.as_str().unwrap_or("")`. -/
def text (v : Value) : String := v.asStr.getD ""

/-- `value.as_u64()`. -/
def asU64 : Value → Option ℕ
  | number (.nat n) => some n
  | _ => none

/-- `value.as_array()`. -/
def asArray : Value → Option (List Value)
  | array xs => some xs
  | _ => none

/-- An array of strings. -/
def texts (xs : List String) : Value := array (xs.map string)

theorem find_put (key key' : String) (x : Value) (entries : List (String × Value)) :
    find key' (put key x entries) = if key' = key then some x else find key' entries := by
  induction entries with
  | nil =>
      unfold put find
      by_cases h : key' = key
      · rw [if_pos h.symm, if_pos h]
      · rw [if_neg (Ne.symm h), if_neg h]
        rfl
  | cons e es ih =>
      unfold put
      by_cases he : e.1 = key
      · rw [if_pos he]
        unfold find
        by_cases h : key' = key
        · rw [if_pos h.symm, if_pos h]
        · rw [if_neg (Ne.symm h), if_neg h, if_neg (he ▸ Ne.symm h)]
      · rw [if_neg he]
        unfold find
        rw [ih]
        by_cases h : e.1 = key'
        · rw [if_pos h, if_pos h, if_neg (h ▸ he)]
        · rw [if_neg h, if_neg h]

/-- What was written is read back, and no other key changes. -/
theorem field_set (v : Value) (key key' : String) (x : Value) :
    (v.set key x).field key' = if key' = key then x else v.field key' := by
  have hentries : ∀ entries, (object (put key x entries)).field key' =
      if key' = key then x else (object entries).field key' := by
    intro entries
    unfold field get?
    dsimp only
    rw [find_put]
    split <;> rfl
  cases v with
  | object entries => exact hentries entries
  | null => exact hentries []
  | bool => exact hentries []
  | number => exact hentries []
  | string => exact hentries []
  | array => exact hentries []

end Value

/-! ## Text -/

/-- What needs a table of Unicode. -/
structure Unicode where
  /-- `to_lowercase`. -/
  lower : List Char → List Char
  /-- `char::is_alphanumeric`. -/
  alphanumeric : Char → Bool

/-- `char::is_whitespace`. -/
def isWhite (c : Char) : Bool :=
  let n := c.toNat
  decide (0x09 ≤ n ∧ n ≤ 0x0d) || decide (0x2000 ≤ n ∧ n ≤ 0x200a) ||
    [0x20, 0x85, 0xa0, 0x1680, 0x2028, 0x2029, 0x202f, 0x205f, 0x3000].contains n

/-- `text.trim().is_empty()`. -/
def isBlank (s : String) : Bool := s.toList.all isWhite

/-- `text.trim()`. -/
def trimmed (s : String) : String :=
  String.ofList ((s.toList.dropWhile isWhite).rdropWhile isWhite)

/-- `text.contains(part)`. -/
def containsText (text part : List Char) : Bool := text.tails.any part.isPrefixOf

/-- `text.split(separator)`. -/
def splitOn (separator : Char → Bool) : List Char → List (List Char)
  | [] => [[]]
  | c :: cs =>
      if separator c then [] :: splitOn separator cs
      else match splitOn separator cs with
        | [] => [[c]]
        | token :: tokens => (c :: token) :: tokens

/-- `text.split(separator)` without what is empty. -/
def tokens (separator : Char → Bool) (text : List Char) : List (List Char) :=
  (splitOn separator text).filter (· ≠ [])

/-- `c.is_ascii_digit()`. -/
def isDigit (c : Char) : Bool := decide ('0' ≤ c ∧ c ≤ '9')

end ArchHub.Compiler

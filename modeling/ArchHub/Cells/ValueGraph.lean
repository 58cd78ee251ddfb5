import Mathlib
import ArchHub.Lib.Naming
import ArchHub.Lib.Paths
import ArchHub.Cells.Protocol
import ArchHub.Cells.Fingerprint

/-!
# Values as graphs of cells

A structured value is laid out as relations of cells: each value has a relation with its variant
and its content or its entries, each entry one with its index, its value and, in an object, its
key.  A value is read back from the relations, and the root of each value is registered.

* `scalarVariant`, `buildNode`, `prepareValueGraph`, `buildValueGraph`: building a value.
* `readEntry`, `readNode`, `readValueGraph`: reading it.
* `signature`: what values are compared by; `signature_variant`.

The identities of the cells are names made of parts.  What Python writes for a float, and what it
reads a number as, is a parameter.
-/

namespace ArchHub.Cells

open Lib Lib.Paths

/-! ## Values -/

/-- `ROLE_NAMES`. -/
inductive GraphRole
  | valueMember | variant | content | entryMember | key | value | index
deriving DecidableEq

def GraphRole.label : GraphRole → String
  | .valueMember => "value-member"
  | .variant => "variant"
  | .content => "content"
  | .entryMember => "entry-member"
  | .key => "key"
  | .value => "value"
  | .index => "index"

def GraphRole.all : List GraphRole :=
  [.valueMember, .variant, .content, .entryMember, .key, .value, .index]

/-- `VARIANT_NAMES`. -/
inductive Variant
  | null | boolean | integer | number | text | bytes | object | array
deriving DecidableEq

def Variant.label : Variant → String
  | .null => "null"
  | .boolean => "boolean"
  | .integer => "integer"
  | .number => "number"
  | .text => "text"
  | .bytes => "bytes"
  | .object => "object"
  | .array => "array"

def Variant.all : List Variant :=
  [.null, .boolean, .integer, .number, .text, .bytes, .object, .array]

/-- A variant whose values have entries. -/
def Variant.composite (k : Variant) : Bool := k = .object || k = .array

/-- `MAX_DEPTH`. -/
def maxDepth : ℕ := 64

/-- `MAX_VALUE_NODES`. -/
def maxValueNodes : ℕ := 10000

/-- `MAX_SCALAR_BYTES`. -/
def maxScalarBytes : ℕ := 64 * 1024

/-- `ValueGraphProtocol`, as it is made for a prefix. -/
structure ValueProtocol where
  name : String

def ValueProtocol.root (p : ValueProtocol) : String := nested p.name ["root"]

def ValueProtocol.role (p : ValueProtocol) (r : GraphRole) : String := nested p.name ["role", r.label]

def ValueProtocol.variant (p : ValueProtocol) (k : Variant) : String :=
  nested p.name ["variant", k.label]

/-- Floats, and what Python writes and reads numbers as: the atoms hold ASCII. -/
structure Numerals (F : Type) where
  isfinite : F → Bool
  repr : F → List UInt8
  float : List UInt8 → Option F
  int : List UInt8 → Option ℤ
  float_repr : ∀ x, isfinite x → float (repr x) = some x
  /-- `int` and `str` raise for more than 4300 digits. -/
  int_str : ∀ n : ℤ, n.natAbs < 10 ^ 4300 → int (utf8 (toString n)) = some n

/-- A value; `F` are the floats. -/
inductive GraphValue (F : Type)
  | null
  | boolean (b : Bool)
  | integer (n : ℤ)
  | number (x : F)
  | text (s : String)
  | bytes (b : List UInt8)
  | object (entries : List (String × GraphValue F))
  | array (items : List (GraphValue F))
  | tuple (items : List (GraphValue F))

/-- What is raised: an error of the store, or a `ValueError`. -/
inductive GraphError
  | refused (e : CellError)
  | valueError

/-- A character that `quote` keeps. -/
def unreserved (c : Char) : Bool := c.isAlphanum || c ∈ ['_', '.', '-', '~']

/-- A byte as `quote` writes it. -/
def quoteByte (b : UInt8) : List Char :=
  let digit := fun n => if n < 10 then Char.ofNat (48 + n) else Char.ofNat (55 + n)
  if unreserved (Char.ofNat b.toNat) then [Char.ofNat b.toNat]
  else ['%', digit (b.toNat / 16), digit (b.toNat % 16)]

/-- `quote`, without a character that is safe besides. -/
def quote (text : String) : String := String.ofList ((utf8 text).flatMap quoteByte)

variable {F : Type}

/-- The variant of a value. -/
def GraphValue.variant : GraphValue F → Variant
  | .null => .null
  | .boolean _ => .boolean
  | .integer _ => .integer
  | .number _ => .number
  | .text _ => .text
  | .bytes _ => .bytes
  | .object _ => .object
  | .array _ | .tuple _ => .array

/-- The items of an object, by their keys, or of an array. -/
def GraphValue.items : GraphValue F → Option (Variant × List (Option String × GraphValue F))
  | .object entries => some (.object,
      (entries.mergeSort fun a b => a.1 ≤ b.1).map fun e => (some e.1, e.2))
  | .array items => some (.array, items.map fun v => (none, v))
  | .tuple items => some (.array, items.map fun v => (none, v))
  | _ => none

/-- The part of an entry in its name. -/
def entryPart (key : Option String) (i : ℕ) : String := key.elim (toString i) quote

/-- What an entry is built of, in this order. -/
def entryFields (key : Option String) (v : GraphValue F) (i : ℕ) : List (GraphRole × GraphValue F) :=
  match key with
  | some k => [(.key, .text k), (.value, v), (.index, .integer i)]
  | none => [(.index, .integer i), (.value, v)]

section

variable (num : Numerals F) (p : ValueProtocol)

/-- `_scalar_variant`. -/
def scalarVariant : GraphValue F → Except GraphError (Variant × List UInt8)
  | .null => .ok (.null, [])
  | .boolean b => .ok (.boolean, utf8 (if b then "true" else "false"))
  | .integer n =>
      if n.natAbs < 10 ^ 4300 then .ok (.integer, utf8 (toString n)) else .error .valueError
  | .number x =>
      if num.isfinite x then .ok (.number, num.repr x)
      else .error (.refused (.invalid "value-graph numbers must be finite"))
  | .text s => .ok (.text, utf8 s)
  | .bytes b => .ok (.bytes, b)
  | _ => .error (.refused (.invalid "value-graph scalar type is not admitted"))

/-! ## Building -/

/-- `_Builder.add`. -/
def addCell (cells : Dict String Cell) (c : Cell) : Except GraphError (Dict String Cell) :=
  if (cells.get? c.id).any (· ≠ c) then
    .error (.refused (.invalid "value-graph identity collision"))
  else if maxValueNodes < (cells.set c.id c).size then
    .error (.refused (.invalid "value-graph exceeds its node budget"))
  else .ok (cells.set c.id c)

def addCells (cells : Dict String Cell) (cs : List Cell) : Except GraphError (Dict String Cell) :=
  cs.foldlM addCell cells

/-- The cells of a relation with a name. -/
def relationCells (root : String) (pairs : List Pair) : List Cell :=
  (composeRelationCells pairs (some root) fun _ => "").cells

/-- `bootstrap_value_graph_protocol`. -/
def bootstrapValueGraphProtocol (s : Store) (refusal : Option CellError) : Except CellError Store :=
  s.commit refusal s.revision (GraphRole.all.map (fun r => ⟨p.role r, nullId, nullId, utf8 r.label⟩) ++
    Variant.all.map (fun k => ⟨p.variant k, nullId, nullId, utf8 k.label⟩) ++
    relationCells p.root (Variant.all.map fun k => (p.role .variant, p.variant k))) []

/-- The name of an entry. -/
def entryRoot (root : String) (e : (Option String × GraphValue F) × ℕ) : String :=
  nested root ["entry", entryPart e.1.1 e.2]

/-- The members of an entry. -/
def entryPairs (root : String) (e : (Option String × GraphValue F) × ℕ) : List Pair :=
  (entryFields e.1.1 e.1.2 e.2).map fun f => (p.role f.1, nested (entryRoot root e) [f.1.label])

/-- The members of a value with entries. -/
def itemPairs (root : String) (k : Variant) (items : List (Option String × GraphValue F)) :
    List Pair :=
  (p.role .variant, p.variant k) ::
    items.zipIdx.map fun e => (p.role .entryMember, entryRoot root e)

/-- The members of a scalar. -/
def scalarPairs (root : String) (k : Variant) : List Pair :=
  [(p.role .variant, p.variant k), (p.role .content, nested root ["content"])]

/-- `_Builder.build`, at a depth below which there are `n` more. -/
def buildNode : ℕ → String → GraphValue F → Dict String Cell → Except GraphError (Dict String Cell)
  | 0, _, _, _ => .error (.refused (.invalid "value-graph exceeds its depth budget"))
  | n + 1, root, v, cells =>
      match v.items with
      | some (k, items) => do
          let cells ← items.zipIdx.foldlM (fun cells e => do
            let cells ← (entryFields e.1.1 e.1.2 e.2).foldlM (fun cells f =>
              buildNode n (nested (entryRoot root e) [f.1.label]) f.2 cells) cells
            addCells cells (relationCells (entryRoot root e) (entryPairs p root e))) cells
          addCells cells (relationCells root (itemPairs p root k items))
      | none => do
          let (k, atom) ← scalarVariant num v
          if maxScalarBytes < atom.length then
            .error (.refused (.invalid "value-graph scalar exceeds its inline byte budget"))
          else do
            let cells ← addCell cells ⟨nested root ["content"], nullId, nullId, atom⟩
            addCells cells (relationCells root (scalarPairs p root k))

variable (s : Store)

/-- `prepare_value_graph`: the cells that are created and replaced. -/
def prepareValueGraph (v : GraphValue F) (root : String) (uuid : ℕ → String) :
    Except GraphError (List Cell × List Cell) :=
  if root = "" then .error (.refused (.invalid "value-graph root identity is invalid"))
  else if (s.get root).isSome then .error (.refused (.invalid "value-graph root already exists"))
  else do
    let cells ← buildNode num p (maxDepth + 1) root v .empty
    if cells.keys.any fun id => (s.get id).isSome then
      .error (.refused (.invalid "value-graph would overwrite an existing Cell"))
    else do
      let patch ← (prepareAppendRelationMembers s p.root [(p.role .valueMember, root)] 100000
        uuid).mapError .refused
      .ok (cells.values ++ patch.create, patch.replace)

/-! ## Comparing -/

/-- What values are compared by. -/
inductive Signature
  | scalar (k : Variant) (atom : List UInt8)
  | group (k : Variant) (items : List (Option String × Signature))

def Signature.variant : Signature → Variant
  | .scalar k _ => k
  | .group k _ => k

/-- `signature`, at a depth below which there are `n` more; what remains of the budget is
returned. -/
def signature : ℕ → ℤ → GraphValue F → Except GraphError (Signature × ℤ)
  | 0, _, _ => .error (.refused (.invalid "value-graph comparison exceeds its budget"))
  | n + 1, remaining, v =>
      if remaining - 1 < 0 then
        .error (.refused (.invalid "value-graph comparison exceeds its budget"))
      else match v.items with
      | some (k, items) =>
          if remaining - 1 < items.length then
            .error (.refused (.invalid "value-graph comparison exceeds its budget"))
          else if items.any fun e => e.1.any fun key => maxScalarBytes < (utf8 key).length then
            .error (.refused (.invalid "value-graph object key exceeds its inline byte budget"))
          else do
            let (made, remaining) ← items.foldlM (fun (made, remaining) e => do
              let (sig, remaining) ← signature n remaining e.2
              .ok (made ++ [(e.1, sig)], remaining)) ([], remaining - 1)
            .ok (.group k made, remaining)
      | none => do
          let (k, atom) ← scalarVariant num v
          if maxScalarBytes < atom.length then
            .error (.refused (.invalid "value-graph scalar exceeds its inline byte budget"))
          else .ok (.scalar k atom, remaining - 1)

/-! ## Reading -/

/-- The roles and participants of a relation. -/
def readPairs (root : String) (budget : ℤ) : Except CellError (List Pair) :=
  (readRelation s root budget).map fun ms => ms.map fun m => (m.role, m.participant)

/-- `_one`. -/
def one (pairs : List Pair) (role label : String) : Except CellError String :=
  match pairs.filter (·.1 = role) with
  | [pair] => .ok pair.2
  | _ => .error (.invalid ("value-graph requires one " ++ label))

/-- A scalar is read from its atom. -/
def scalarOf : Variant → List UInt8 → Except CellError (GraphValue F)
  | .null, atom =>
      if atom ≠ [] then .error (.invalid "value-graph null content is not empty") else .ok .null
  | .boolean, atom =>
      if atom = utf8 "true" then .ok (.boolean true)
      else if atom = utf8 "false" then .ok (.boolean false)
      else .error (.invalid "value-graph boolean content is invalid")
  | .integer, atom => match num.int atom with
      | some n => .ok (.integer n)
      | none => .error (.invalid "value-graph scalar content is invalid")
  | .number, atom => match num.float atom with
      | some x => if num.isfinite x then .ok (.number x)
          else .error (.invalid "value-graph number is not finite")
      | none => .error (.invalid "value-graph scalar content is invalid")
  | .text, atom => match String.fromUTF8? ⟨atom.toArray⟩ with
      | some s => .ok (.text s)
      | none => .error (.invalid "value-graph scalar content is invalid")
  | .bytes, atom => .ok (.bytes atom)
  | _, _ => .error (.invalid "value-graph scalar variant is invalid")

/-- What an entry is read as. -/
structure Projected (F : Type) where
  index : ℤ
  key : Option String
  value : GraphValue F

/-- One entry is read, where `read` reads the values below it. -/
def readEntry (read : List String → String → Except CellError (GraphValue F × List String))
    (k : Variant) (st : List (Projected F) × List String) (root : String) :
    Except CellError (List (Projected F) × List String) := do
  let entry ← readPairs s root 64
  Check.require (entry.all fun m => m.1 ∈ [p.role .key, p.role .value, p.role .index])
    (.invalid "value-graph entry contains an undeclared role")
  let indexRoot ← one entry (p.role .index) "entry index"
  let (i, seen) ← read st.2 indexRoot
  match i with
  | .integer i => do
      let valueRoot ← one entry (p.role .value) "entry value"
      if k = .object then do
        let keyRoot ← one entry (p.role .key) "entry key"
        let (key, seen) ← read seen keyRoot
        match key with
        | .text key => do
            let (v, seen) ← read seen valueRoot
            .ok (st.1 ++ [⟨i, some key, v⟩], seen)
        | _ => .error (.invalid "value-graph entry key is not text")
      else do
        Check.require (entry.all fun m => m.1 ≠ p.role .key)
          (.invalid "value-graph array entry has a key")
        let (v, seen) ← read seen valueRoot
        .ok (st.1 ++ [⟨i, none, v⟩], seen)
  | _ => .error (.invalid "value-graph entry index is not an integer")

/-- An item of an object. -/
def addItem (entries : List (String × GraphValue F)) (e : Projected F) :
    Except CellError (List (String × GraphValue F)) :=
  let key := e.key.getD ""
  if key ∈ entries.map Prod.fst then .error (.invalid "value-graph object key is duplicated")
  else .ok (entries ++ [(key, e.value)])

/-- `read`, at a depth below which there are `n` more; the values read so far are returned. -/
def readNode : ℕ → List String → String → Except CellError (GraphValue F × List String)
  | 0, _, _ => .error (.invalid "value-graph exceeds its read depth budget")
  | n + 1, seen, root => do
      Check.require (root ∉ seen) (.invalid "value-graph contains a cycle")
      Check.require (seen.length + 1 ≤ maxValueNodes)
        (.invalid "value-graph exceeds its read node budget")
      let members ← readPairs s root maxValueNodes
      let variantRoot ← one members (p.role .variant) "variant"
      match Variant.all.find? (p.variant · = variantRoot) with
      | none => .error (.invalid "value-graph variant is outside the protocol")
      | some k => do
          let part := if k.composite then p.role .entryMember else p.role .content
          Check.require (members.all fun m => m.1 = p.role .variant ∨ m.1 = part)
            (.invalid "value-graph node contains an undeclared role")
          if k.composite then do
            let (projected, seen) ← ((members.filter (·.1 = part)).map Prod.snd).foldlM
              (readEntry p s (readNode n) k) ([], root :: seen)
            let projected := projected.mergeSort fun a b => a.index ≤ b.index
            Check.require
              (projected.map Projected.index = (List.range projected.length).map Int.ofNat)
              (.invalid "value-graph entry indexes are not contiguous")
            if k = .array then .ok (.array (projected.map Projected.value), seen)
            else (projected.foldlM addItem []).map fun entries => (.object entries, seen)
          else do
            let contentRoot ← one members part "content"
            match s.get contentRoot with
            | none => .error (.invalid "value-graph content is missing")
            | some c => do
                Check.require (c.link0 = nullId ∧ c.link1 = nullId)
                  (.invalid "value-graph scalar content is not terminal")
                (scalarOf num k c.atom).map fun v => (v, root :: seen)

/-- `read_value_graph`. -/
def readValueGraph (root : String) (depth : ℕ) : Except CellError (GraphValue F) := do
  let registered ← readPairs s p.root 100000
  Check.require (registered.count (p.role .valueMember, root) = 1)
    (.invalid "value-graph root is not registered exactly once")
  (readNode num p s (depth + 1) [] root).map Prod.fst

/-- `build_value_graph`: the root and the revision, and the store then. -/
def buildValueGraph (refusal : Option CellError) (v : GraphValue F) (root : String)
    (uuid : ℕ → String) : Except GraphError (String × ℕ) × Store :=
  match prepareValueGraph num p s v root uuid with
  | .error e => (.error e, s)
  | .ok (create, replace) =>
      match s.commit refusal s.revision create replace with
      | .error e => (.error (.refused e), s)
      | .ok t => (((readValueGraph num p t root maxDepth).mapError .refused).map fun _ =>
          (root, t.revision), t)

end

/-- **A signature tells the variant.** -/
theorem signature_variant {num : Numerals F} {n : ℕ} {remaining : ℤ} {v : GraphValue F}
    {made : Signature × ℤ} (h : signature num n remaining v = .ok made) :
    made.1.variant = v.variant := by
  cases n with
  | zero => cases h
  | succ n =>
      unfold signature at h
      split at h
      · cases h
      · split at h
        · next k items hitems =>
          have hk : v.variant = k := by
            cases v <;> cases hitems <;> rfl
          split at h
          · cases h
          · split at h
            · cases h
            · obtain ⟨⟨parts, rest⟩, -, h⟩ := Check.bind_ok_iff.1 h
              cases h
              exact hk.symm
        · obtain ⟨⟨k, atom⟩, hscalar, h⟩ := Check.bind_ok_iff.1 h
          dsimp only at h
          split at h
          · cases h
          · cases h
            cases v <;> simp only [scalarVariant] at hscalar <;> (try split at hscalar) <;>
              cases hscalar <;> rfl

end ArchHub.Cells

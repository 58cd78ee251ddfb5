import Mathlib
import ArchHub.Lib.Pattern

/-!
# Redaction

What an agent's tool was called with may hold secrets.  `redact` takes the keys that name
secrets out of the objects of a value, and replaces what looks like a secret in its texts.

* `Json`: the values of a transcript.
* `redactText`, `redact`: the three substitutions, one after the other, and the walk.
* `redactText_of_unmarked`: a text without a mark after its redaction is as it was.
* `redact_of_unmarked`: **a value without a mark after its redaction is redacted no further**.

A text that holds a mark may be redacted further: a substitution can make a match for the
one before it.
-/

namespace ArchHub.Work

open Lib

/-! ## Values -/

/-- A value of JSON text as Python reads it; a number that is no integer may be NaN or
infinite, which is `float none`. -/
inductive Json
  | null
  | bool (b : Bool)
  | int (n : ℤ)
  | float (q : Option ℚ)
  | str (s : String)
  | arr (xs : List Json)
  | obj (fields : List (String × Json))

namespace Json

mutual

/-- Whether two values are the same. -/
def same : Json → Json → Bool
  | null, null => true
  | bool a, bool b => a == b
  | int a, int b => a == b
  | float a, float b => a == b
  | str a, str b => a == b
  | arr a, arr b => sameList a b
  | obj a, obj b => sameFields a b
  | _, _ => false

/-- Whether two lists of values are the same. -/
def sameList : List Json → List Json → Bool
  | [], [] => true
  | a :: as, b :: bs => same a b && sameList as bs
  | _, _ => false

/-- Whether two lists of fields are the same. -/
def sameFields : List (String × Json) → List (String × Json) → Bool
  | [], [] => true
  | (k, a) :: as, (l, b) :: bs => k == l && (same a b && sameFields as bs)
  | _, _ => false

end

mutual

theorem same_iff : ∀ a b : Json, same a b = true ↔ a = b
  | null, b => by cases b <;> simp [same]
  | bool _, b => by cases b <;> simp [same]
  | int _, b => by cases b <;> simp [same]
  | float _, b => by cases b <;> simp [same]
  | str _, b => by cases b <;> simp [same]
  | arr a, b => by cases b <;> simp [same, sameList_iff a]
  | obj a, b => by cases b <;> simp [same, sameFields_iff a]

theorem sameList_iff : ∀ a b : List Json, sameList a b = true ↔ a = b
  | [], b => by cases b <;> simp [sameList]
  | a :: as, b => by cases b <;> simp [sameList, same_iff a, sameList_iff as]

theorem sameFields_iff : ∀ a b : List (String × Json), sameFields a b = true ↔ a = b
  | [], b => by cases b <;> simp [sameFields]
  | (k, a) :: as, b => by
      cases b <;> simp [sameFields, same_iff a, sameFields_iff as, Prod.ext_iff, and_assoc]

end

instance : DecidableEq Json := fun a b => decidable_of_iff _ (same_iff a b)

/-- Truth. -/
def truthy : Json → Bool
  | null => false
  | bool b => b
  | int n => n ≠ 0
  | float q => q ≠ some 0
  | str s => s ≠ ""
  | arr xs => !xs.isEmpty
  | obj fields => !fields.isEmpty

mutual

/-- A measure of a value; the JSON text of a value is at least as long. -/
def weight : Json → ℕ
  | str s => s.length + 1
  | arr xs => weightList xs + 1
  | obj fields => weightFields fields + 1
  | _ => 1

/-- The weight of some values. -/
def weightList : List Json → ℕ
  | [] => 0
  | x :: xs => weight x + weightList xs

/-- The weight of some fields. -/
def weightFields : List (String × Json) → ℕ
  | [] => 0
  | (_, x) :: fields => weight x + weightFields fields

end

mutual

/-- Whether a text is in the JSON text of a value: in one of its texts or keys, where the
text holds nothing that JSON escapes and no quote. -/
def mentions (mark : List Char) : Json → Bool
  | str s => decide (mark <:+: s.toList)
  | arr xs => mentionsList mark xs
  | obj fields => mentionsFields mark fields
  | _ => false

/-- Whether a text is in one of some values. -/
def mentionsList (mark : List Char) : List Json → Bool
  | [] => false
  | x :: xs => mentions mark x || mentionsList mark xs

/-- Whether a text is in one of some fields. -/
def mentionsFields (mark : List Char) : List (String × Json) → Bool
  | [] => false
  | (k, x) :: fields =>
      decide (mark <:+: k.toList) || (mentions mark x || mentionsFields mark fields)

end

end Json

/-- What comes from Python's tables of Unicode. -/
structure Unicode where
  /-- `str.isalnum` of a character. -/
  alnum : Char → Bool
  casefold : String → String
  lower : String → String
  capitalize : String → String

/-! ## The patterns -/

/-- `re.I`: whether a character is a letter of a pattern; four more characters than the
letters of ASCII are one. -/
def sameLetter (letter c : Char) : Bool :=
  let fold := fun c : Char =>
    if c = '\u0130' ∨ c = '\u0131' then 'i'
    else if c = '\u017f' then 's'
    else if c = '\u212a' then 'k'
    else c.toLower
  fold letter = fold c

/-- `str.isspace`. -/
def isSpace (c : Char) : Bool :=
  let n := c.toNat
  (9 ≤ n && n ≤ 13) || (28 ≤ n && n ≤ 32) || (0x2000 ≤ n && n ≤ 0x200a) ||
    [0x85, 0xa0, 0x1680, 0x2028, 0x2029, 0x202f, 0x205f, 0x3000].contains n

/-- A text in any case. -/
def anyCase (s : String) : Pattern := .text sameLetter s

/-- A text as it is. -/
def exactly (s : String) : Pattern := .text (fun a b => a = b) s

/-- `\s`. -/
def space : Pattern := .one isSpace

/-- `$`. -/
def finish : Pattern := .here fun _ behind => behind = [] || behind = ['\n']

/-- `_SECRET`. -/
def secretKey : Pattern :=
  .all [.alt (.here fun before _ => before = none) (exactly "_"),
    .any (["password", "secret", "token", "api_key", "private_key", "credential"].map anyCase),
    .alt (exactly "_") finish]

/-- A private key. -/
def privateKey : Pattern :=
  let line := fun edge => Pattern.all [anyCase ("-----" ++ edge ++ " "), .many true (.noneOf "-"),
    anyCase "PRIVATE KEY", .many true (.noneOf "-"), anyCase "-----"]
  .all [line "BEGIN", .many false (.one fun _ => true), .alt (line "END") finish]

/-- A quoted text. -/
def quoted (quote : String) : Pattern :=
  .all [exactly quote, .many true (.alt (.seq (exactly "\\") (.noneOf "\n"))
    (.noneOf (quote ++ "\\"))), exactly quote]

/-- The value of something that names a secret; the name is kept. -/
def namedSecret : Pattern :=
  let name := Pattern.any [anyCase "password", anyCase "secret", anyCase "token",
    .all [anyCase "api", .optional (.oneOf "_-"), anyCase "key"],
    .all [anyCase "private", .optional (.oneOf "_-"), anyCase "key"], anyCase "credential"]
  .seq
    (.keep (.alt (.seq (anyCase "bearer") (.atLeast 1 space))
      (.all [name, .optional (.oneOf "\"'"), .many true space, .oneOf "=:", .many true space])))
    (.any [quoted "\"", quoted "'", .atLeast 1 (.one fun c => !isSpace c && !",;\"'\x7d".toList.contains c)])

/-- `[A-Za-z0-9_-]`. -/
def keyChar : Pattern := .one fun c => c.isAlphanum || c = '_' || c = '-'

/-- `\b`. -/
def edge (u : Unicode) : Pattern :=
  let word := fun c : Char => u.alnum c || c = '_'
  .here fun before behind => before.any word != behind.head?.any word

/-- A key in the format of a provider. -/
def providerKey (u : Unicode) : Pattern :=
  .all [edge u,
    .any [.seq (exactly "sk-") (.atLeast 8 keyChar),
      .seq (.any [exactly "sk_live_", exactly "rk-",
          .all [exactly "gh", .oneOf "pousr", exactly "_"], exactly "github_pat_", exactly "AIza",
          .all [exactly "xox", .oneOf "bpas", exactly "-"]])
        (.atLeast 10 keyChar),
      .all [exactly "eyJ", .atLeast 8 keyChar, exactly ".", .atLeast 8 keyChar, exactly ".",
        .atLeast 8 keyChar]],
    edge u]

/-- `[redacted]`. -/
def mark : List Char := "[redacted]".toList

/-! ## Redaction -/

variable (u : Unicode)

/-- `redact` of a text. -/
def redactText (s : String) : String :=
  String.ofList ((providerKey u).sub mark (namedSecret.sub mark (privateKey.sub mark s.toList)))

/-- Whether a key of an object names a secret. -/
def namesSecret (k : String) : Bool :=
  secretKey.search none k.toList ||
    ["authorization", "cookie", "set-cookie", "x-api-key"].contains (u.casefold k)

mutual

/-- `redact`. -/
def redact : Json → Json
  | .obj fields => .obj (redactFields fields)
  | .arr xs => .arr (redactList xs)
  | .str s => .str (redactText u s)
  | v => v

/-- `redact` of each of some values. -/
def redactList : List Json → List Json
  | [] => []
  | x :: xs => redact x :: redactList xs

/-- `redact` of the fields of an object. -/
def redactFields : List (String × Json) → List (String × Json)
  | [] => []
  | (k, x) :: fields =>
      if namesSecret u k then redactFields fields else (k, redact x) :: redactFields fields

end

/-! ## What is redacted no further -/

variable {u} {fields : List (String × Json)}

/-- A text without a mark after its redaction is as it was. -/
theorem redactText_of_unmarked {s : String} (h : ¬mark <:+: (redactText u s).toList) :
    redactText u s = s := by
  unfold redactText at h ⊢
  rw [String.toList_ofList] at h
  have hthird := ((providerKey u).sub_cases mark _).resolve_right h
  rw [hthird] at h ⊢
  have hsecond := (namedSecret.sub_cases mark _).resolve_right h
  rw [hsecond] at h ⊢
  rw [(privateKey.sub_cases mark _).resolve_right h, String.ofList_toList]

mutual

/-- **A value without a mark** after its redaction is redacted no further. -/
theorem redact_of_unmarked : ∀ v : Json, (redact u v).mentions mark = false →
    redact u (redact u v) = redact u v
  | .str s, h => by
      rw [redact, Json.mentions, decide_eq_false_iff_not] at h
      rw [redact, redactText_of_unmarked h, redact, redactText_of_unmarked h]
  | .arr xs, h => by
      rw [redact, Json.mentions] at h
      rw [redact, redact, redactList_of_unmarked xs h]
  | .obj fields, h => by
      rw [redact, Json.mentions] at h
      rw [redact, redact, redactFields_of_unmarked fields h]
  | .null, _ => rfl
  | .bool _, _ => rfl
  | .int _, _ => rfl
  | .float _, _ => rfl

theorem redactList_of_unmarked : ∀ xs : List Json,
    Json.mentionsList mark (redactList u xs) = false →
    redactList u (redactList u xs) = redactList u xs
  | [], _ => rfl
  | x :: xs, h => by
      rw [redactList, Json.mentionsList, Bool.or_eq_false_iff] at h
      rw [redactList, redactList, redact_of_unmarked x h.1, redactList_of_unmarked xs h.2]

theorem redactFields_of_unmarked : ∀ fields : List (String × Json),
    Json.mentionsFields mark (redactFields u fields) = false →
    redactFields u (redactFields u fields) = redactFields u fields
  | [], _ => rfl
  | (k, x) :: fields, h => by
      rw [redactFields] at h ⊢
      by_cases hk : namesSecret u k = true
      · rw [if_pos hk] at h ⊢
        exact redactFields_of_unmarked fields h
      · rw [if_neg hk, Json.mentionsFields, Bool.or_eq_false_iff, Bool.or_eq_false_iff] at h
        rw [if_neg hk, redactFields, if_neg hk, redact_of_unmarked x h.2.1,
          redactFields_of_unmarked fields h.2.2]

end

/-- What is known of the fields that are left. -/
theorem mem_redactFields {e : String × Json} (h : e ∈ redactFields u fields) :
    namesSecret u e.1 = false ∧ ∃ x, (e.1, x) ∈ fields ∧ e.2 = redact u x := by
  induction fields with
  | nil => cases h
  | cons f fields ih =>
      obtain ⟨k, x⟩ := f
      rw [redactFields] at h
      have hrest : ∀ {e'}, e' ∈ redactFields u fields → e' = e → namesSecret u e.1 = false ∧
          ∃ y, (e.1, y) ∈ (k, x) :: fields ∧ e.2 = redact u y := by
        rintro e' he rfl
        obtain ⟨hname, y, hy, heq⟩ := ih he
        exact ⟨hname, y, List.mem_cons_of_mem _ hy, heq⟩
      split at h
      · exact hrest h rfl
      · next hk =>
        rcases List.mem_cons.1 h with rfl | hmem
        · exact ⟨Bool.eq_false_iff.2 hk, x, List.mem_cons_self, rfl⟩
        · exact hrest hmem rfl

/-- Fields that hold no secrets are left as they are. -/
theorem redactFields_of_fixed (h : ∀ e ∈ fields, namesSecret u e.1 = false ∧ redact u e.2 = e.2) :
    redactFields u fields = fields := by
  induction fields with
  | nil => rfl
  | cons f fields ih =>
      obtain ⟨hf, hfields⟩ := List.forall_mem_cons.1 h
      obtain ⟨k, x⟩ := f
      rw [redactFields, if_neg (Bool.eq_false_iff.1 hf.1), hf.2, ih hfields]

end ArchHub.Work

import Mathlib
import ArchHub.Cloud.Table

/-!
# The secret scanner

`_is_secret_like` cuts the references out of a text — `op://…`, `inline:…` and the
like, which are resolved on the user's machine — and searches what is left for a
token in the format of a provider's keys.

* `cutRefs`: `_REF_TOKEN_RE.sub(" ", s)`.
* `secretAt`: a match of `_SECRET_TOKEN_RE`.
* `bareSecret`: the scanner, and `Host.scanning` the host that uses it.
* `not_bareSecret`: a text with none of the letters every key has one of is no
  secret, whatever the tables of Unicode say.

A value is scanned through its texts (`strings`), the keys of its dictionaries
(`names`) are not.
-/

namespace ArchHub

open Bool

/-! ## The texts of a value -/

namespace Value

mutual

/-- The texts in a value, the keys of dictionaries apart. -/
def strings : Value → List String
  | .str s => [s]
  | .list xs => stringsOfList xs
  | .dict es => stringsOfFields es
  | _ => []

/-- The texts in the members of a list. -/
def stringsOfList : List Value → List String
  | [] => []
  | v :: vs => strings v ++ stringsOfList vs

/-- The texts in the values of a dictionary. -/
def stringsOfFields : Fields → List String
  | [] => []
  | (_, v) :: es => strings v ++ stringsOfFields es

end

mutual

/-- The keys of the dictionaries in a value. -/
def names : Value → List String
  | .list xs => namesOfList xs
  | .dict es => namesOfFields es
  | _ => []

/-- The keys of the dictionaries in the members of a list. -/
def namesOfList : List Value → List String
  | [] => []
  | v :: vs => names v ++ namesOfList vs

/-- The keys of a dictionary, and those in its values. -/
def namesOfFields : Fields → List String
  | [] => []
  | (.str k, v) :: es => k :: (names v ++ namesOfFields es)
  | (_, v) :: es => names v ++ namesOfFields es

end

/-- All texts in a value. -/
def texts (v : Value) : List String := v.strings ++ v.names

end Value

namespace Cloud

variable {host : Host} {cs : List Char} {c : Char} {prev : Option Char}

mutual

/-- The scan of a value is the scan of its texts. -/
theorem isSecretAnywhere_eq : ∀ v, isSecretAnywhere host v = v.strings.any host.secretLike
  | .str s => by simp [isSecretAnywhere, Value.strings]
  | .list xs => isSecretInList_eq xs
  | .dict es => isSecretInFields_eq es
  | .none => rfl
  | .bool _ => rfl
  | .int _ => rfl
  | .float _ => rfl
  | .noValue => rfl

theorem isSecretInList_eq : ∀ vs, isSecretInList host vs =
    (Value.stringsOfList vs).any host.secretLike
  | [] => rfl
  | v :: vs => by
      rw [isSecretInList, Value.stringsOfList, List.any_append, isSecretAnywhere_eq v,
        isSecretInList_eq vs]

theorem isSecretInFields_eq : ∀ es, isSecretInFields host es =
    (Value.stringsOfFields es).any host.secretLike
  | [] => rfl
  | (_, v) :: es => by
      rw [isSecretInFields, Value.stringsOfFields, List.any_append, isSecretAnywhere_eq v,
        isSecretInFields_eq es]

end

/-! ## References -/

/-- `\w`. -/
def Host.word (host : Host) (c : Char) : Bool := host.alnum c || c = '_'

/-- `[^\s"'<>]`. -/
def Host.refChar (host : Host) (c : Char) : Bool := !host.space c && !"\"'<>".toList.contains c

/-- How the references of `_REF_TOKEN_RE` begin. -/
def schemes : List String := ["op://", "wcm://", "env://", "inline:", "file://"]

variable (host) in
/-- The length of the reference that begins here, after the character `prev`. -/
def refLength (prev : Option Char) (cs : List Char) : Option ℕ :=
  if prev.any host.word then none
  else schemes.findSome? fun scheme =>
    let body := ((cs.drop scheme.length).takeWhile host.refChar).length
    if scheme.toList.isPrefixOf cs && body ≠ 0 then some (scheme.length + body) else none

variable (host) in
/-- `_REF_TOKEN_RE.sub(" ", …)`, where `skip` characters of a reference are still to
be cut. -/
def cutRefs : ℕ → Option Char → List Char → List Char
  | _, _, [] => []
  | skip + 1, _, c :: cs => cutRefs skip (some c) cs
  | 0, prev, c :: cs =>
      match refLength host prev (c :: cs) with
      | some n => ' ' :: cutRefs (n - 1) (some c) cs
      | none => c :: cutRefs 0 (some c) cs

/-! ## Tokens -/

/-- `[A-Za-z0-9_\-]`. -/
def keyChar (c : Char) : Bool := c.isAlphanum || c = '_' || c = '-'

/-- How many characters of a key follow. -/
def run (cs : List Char) : ℕ := (cs.takeWhile keyChar).length

/-- How the keys of eight characters and more begin. -/
def keyMarks : List String :=
  ["sk-", "sk_live_", "sk_test_", "rk_live_", "rk_test_", "AKIA", "AIza", "ghp_", "gho_", "ghu_",
    "ghs_", "ghr_", "xoxb-", "xoxp-", "xoxa-", "xoxr-", "xoxs-"]

/-- What follows a run of at least `n` characters and a dot. -/
def afterDot (n : ℕ) (cs : List Char) : Option (List Char) :=
  if n ≤ run cs then
    match cs.drop (run cs) with
    | '.' :: rest => some rest
    | _ => none
  else none

/-- A key with its mark. -/
def keyAt (cs : List Char) : Bool :=
  keyMarks.any fun mark => mark.toList.isPrefixOf cs && 8 ≤ run (cs.drop mark.length)

/-- `ya29\.…`. -/
def accessTokenAt (cs : List Char) : Bool :=
  "ya29.".toList.isPrefixOf cs && 6 ≤ run (cs.drop 5)

/-- `eyJ….….…`. -/
def webTokenAt (cs : List Char) : Bool :=
  "eyJ".toList.isPrefixOf cs &&
    ((afterDot 6 (cs.drop 3)).bind (afterDot 4)).any fun rest => 4 ≤ run rest

/-- `_SECRET_TOKEN_RE` matches here, after the character `prev`. -/
def secretAt (prev : Option Char) (cs : List Char) : Bool :=
  !prev.any keyChar && (keyAt cs || accessTokenAt cs || webTokenAt cs)

/-- `_SECRET_TOKEN_RE.search`. -/
def search : Option Char → List Char → Bool
  | _, [] => false
  | prev, c :: cs => secretAt prev (c :: cs) || search (some c) cs

variable (host) in
/-- `_is_secret_like` of a text. -/
def bareSecret (s : String) : Bool := search none (cutRefs host 0 none (host.strip s).toList)

/-- The host whose gate is the scanner. -/
def Host.scanning (host : Host) : Host := { host with secretLike := bareSecret host }

@[simp] theorem scanning_secretLike : host.scanning.secretLike = bareSecret host := by
  simp only [Host.scanning]

/-! ## Texts that are no secrets -/

/-- Every key has one of these letters in its mark. -/
def markLetters : List Char := ['k', 'I', 'g', 'o', 'y']

/-- A text without any of them. -/
def unmarked (s : String) : Bool := s.toList.all fun c => !markLetters.contains c

theorem mem_of_isPrefixOf {mark : String} (h : mark.toList.isPrefixOf cs = true)
    (hc : c ∈ mark.toList) : c ∈ cs :=
  ( List.isPrefixOf_iff_prefix.1 h).subset hc

theorem mark_of_secretAt (h : secretAt prev cs = true) : ∃ c ∈ cs, c ∈ markLetters := by
  have hmarks : ∀ mark ∈ keyMarks, ∃ c ∈ mark.toList, c ∈ markLetters := by
    simp [keyMarks, markLetters]
  unfold secretAt at h
  simp only [and_eq_true, or_eq_true] at h
  obtain ⟨-, (hkey | haccess) | hweb⟩ := h
  · obtain ⟨mark, hmem, hmatch⟩ := List.any_eq_true.1 hkey
    obtain ⟨hstart, -⟩ := (and_eq_true _ _).mp hmatch
    obtain ⟨c, hc, hletter⟩ := hmarks mark hmem
    exact ⟨c, mem_of_isPrefixOf hstart hc, hletter⟩
  · obtain ⟨hstart, -⟩ := (and_eq_true _ _).mp haccess
    exact ⟨'y', mem_of_isPrefixOf hstart (by decide), by decide⟩
  · obtain ⟨hstart, -⟩ := (and_eq_true _ _).mp hweb
    exact ⟨'y', mem_of_isPrefixOf hstart (by decide), by decide⟩

theorem mark_of_search (h : search prev cs = true) : ∃ c ∈ cs, c ∈ markLetters := by
  induction cs generalizing prev with
  | nil => cases h
  | cons d cs ih =>
      rw [search, or_eq_true] at h
      rcases h with h | h
      · exact mark_of_secretAt h
      · obtain ⟨c, hc, hletter⟩ := ih h
        exact ⟨c, List.mem_cons_of_mem d hc, hletter⟩

/-- Cutting leaves characters of the text, and blanks. -/
theorem mem_cutRefs {skip : ℕ} (h : c ∈ cutRefs host skip prev cs) : c = ' ' ∨ c ∈ cs := by
  induction cs generalizing skip prev with
  | nil =>
      rw [cutRefs] at h
      cases h
  | cons d cs ih =>
      have hlater : ∀ skip, c ∈ cutRefs host skip (some d) cs → c = ' ' ∨ c ∈ d :: cs :=
        fun skip h => (ih h).imp_right (List.mem_cons_of_mem d)
      cases skip with
      | succ skip =>
          rw [cutRefs] at h
          exact hlater skip h
      | zero =>
          rw [cutRefs] at h
          split at h
          · rcases List.mem_cons.1 h with rfl | h
            · exact Or.inl rfl
            · exact hlater _ h
          · rcases List.mem_cons.1 h with rfl | h
            · exact Or.inr List.mem_cons_self
            · exact hlater 0 h

theorem mem_stripChars {drop : Char → Bool} (h : c ∈ stripChars drop cs) : c ∈ cs := by
  unfold stripChars at h
  have htail := (List.dropWhile_suffix drop).subset (List.mem_reverse.1 h)
  exact (List.dropWhile_suffix drop).subset (List.mem_reverse.1 htail)

/-- **A text without the letters of the marks is no secret.** -/
theorem not_bareSecret {s : String} (h : unmarked s = true) : bareSecret host s = false := by
  rw [eq_false_iff]
  intro hsecret
  obtain ⟨c, hc, hletter⟩ := mark_of_search hsecret
  rcases mem_cutRefs hc with rfl | hc
  · revert hletter
    decide
  · have hmem : c ∈ s.toList := by
      rw [Host.strip, String.toList_ofList] at hc
      exact mem_stripChars hc
    have hnot := List.all_eq_true.1 h c hmem
    rw [not_eq_true', ← not_eq_true, List.contains_iff_mem] at hnot
    exact hnot hletter

end Cloud

end ArchHub

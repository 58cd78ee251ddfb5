import Mathlib

/-!
# JSON text

The compact text of a JSON value: no blanks, the fields of an object in the
order they are given, and nothing outside ASCII escaped.

The text is a *code*.  No value's text continues into another's, so a value can
be cut off the front of a longer text (`chars_cancel`), and two values with one
text are one value (`text_injective`).
-/

namespace Lib

open List

/-- A JSON value. -/
inductive Json
  | null
  | bool (b : Bool)
  | num (n : ℤ)
  | str (s : String)
  | arr (xs : List Json)
  | obj (fields : List (String × Json))

namespace Json

/-! ## The text of a value -/

/-- A character of a string, as its JSON text has it. -/
def escape (c : Char) : List Char :=
  if c.toNat = '\"'.toNat then ['\\', '\"']
  else if c.toNat = '\\'.toNat then ['\\', '\\']
  else if c.toNat = '\n'.toNat then ['\\', 'n']
  else if c.toNat = '\r'.toNat then ['\\', 'r']
  else if c.toNat = '\t'.toNat then ['\\', 't']
  else if c.toNat = '\x08'.toNat then ['\\', 'b']
  else if c.toNat = '\x0c'.toNat then ['\\', 'f']
  else if c.toNat < 32 then
    ['\\', 'u', '0', '0', (c.toNat / 16).digitChar, (c.toNat % 16).digitChar]
  else [c]

/-- The text of a string. -/
def quoted (s : String) : List Char := '\"' :: (s.toList.flatMap escape ++ ['\"'])

mutual

/-- The characters of the text of a value. -/
def chars : Json → List Char
  | null => ['n', 'u', 'l', 'l']
  | bool true => ['t', 'r', 'u', 'e']
  | bool false => ['f', 'a', 'l', 's', 'e']
  | num n => n.repr.toList
  | str s => quoted s
  | arr [] => ['[', ']']
  | arr (x :: xs) => '[' :: (chars x ++ elements xs)
  | obj [] => ['{', '}']
  | obj ((k, x) :: fs) => '{' :: (quoted k ++ ':' :: (chars x ++ members fs))

/-- The elements of an array behind its first. -/
def elements : List Json → List Char
  | [] => [']']
  | x :: xs => ',' :: (chars x ++ elements xs)

/-- The members of an object behind its first. -/
def members : List (String × Json) → List Char
  | [] => ['}']
  | (k, x) :: fs => ',' :: (quoted k ++ ':' :: (chars x ++ members fs))

end

/-- The text of a value. -/
def text (v : Json) : String := String.ofList v.chars

/-- The number of bytes of the text of a value, in UTF-8. -/
def bytes (v : Json) : ℕ := v.text.utf8ByteSize

/-- A string, or null. -/
def ofOption : Option String → Json
  | none => null
  | some s => str s

/-- An array of strings. -/
def strings (xs : List String) : Json := arr (xs.map str)

theorem strings_injective {xs ys : List String} (h : strings xs = strings ys) : xs = ys := by
  have hmap : xs.map str = ys.map str := by
    injection h
  exact List.map_injective_iff.2 (fun a b hab => by injection hab) hmap

theorem ofOption_injective {a b : Option String} (h : ofOption a = ofOption b) : a = b := by
  cases a <;> cases b <;> simp_all [ofOption]

example : (obj [("a", arr [num 1, num (-2)]), ("b", null), ("c", str "x\n")]).text =
    "\x7b\"a\":[1,-2],\"b\":null,\"c\":\"x\\n\"\x7d" := by decide +kernel

/-! ## Strings -/

/-- The character an escape at the front of a text stands for, and the text
behind it; none at the end of a string. -/
def unescape : List Char → Option (Char × List Char)
  | [] => none
  | '\\' :: 'n' :: r => some ('\n', r)
  | '\\' :: 'r' :: r => some ('\r', r)
  | '\\' :: 't' :: r => some ('\t', r)
  | '\\' :: 'b' :: r => some ('\x08', r)
  | '\\' :: 'f' :: r => some ('\x0c', r)
  | '\\' :: 'u' :: _ :: _ :: h :: l :: r =>
      (List.range 32).find? (fun n => (n / 16).digitChar = h ∧ (n % 16).digitChar = l)
        |>.map fun n => (Char.ofNat n, r)
  | '\\' :: c :: r => some (c, r)
  | c :: r => if c = '\"' then none else some (c, r)

theorem unescape_quote (r : List Char) : unescape ('\"' :: r) = none := rfl

/-- The two digits of a control character name it. -/
theorem find_control (n : ℕ) (hn : n < 32) :
    (List.range 32).find? (fun m => (m / 16).digitChar = (n / 16).digitChar ∧
      (m % 16).digitChar = (n % 16).digitChar) = some n := by
  revert n
  decide

/-- An escape is read back, whatever stands behind it. -/
theorem unescape_escape (c : Char) (r : List Char) : unescape (escape c ++ r) = some (c, r) := by
  unfold escape
  simp only [Char.toNat_inj]
  split_ifs with h1 h2 h3 h4 h5 h6 h7 h8
  · subst h1; rfl
  · subst h2; rfl
  · subst h3; rfl
  · subst h4; rfl
  · subst h5; rfl
  · subst h6; rfl
  · subst h7; rfl
  · have hfind := find_control c.toNat h8
    show Option.map _ (List.find? _ _) = _
    rw [hfind, Option.map_some, Char.ofNat_toNat]
    rfl
  · show unescape (c :: r) = _
    unfold unescape
    split <;> simp_all

variable {r s : List Char} {n : ℤ} {c : Char} {a b : Json}

/-- The text of a string can be cut off the front of a text. -/
theorem quoted_cancel {a b : String} (h : quoted a ++ r = quoted b ++ s) : a = b ∧ r = s := by
  have hcut : ∀ xs ys : List Char, xs.flatMap escape ++ '\"' :: r = ys.flatMap escape ++ '\"' :: s →
      xs = ys ∧ r = s := by
    intro xs
    induction xs with
    | nil =>
        intro ys h
        cases ys with
        | nil => exact ⟨rfl, by simpa using h⟩
        | cons y ys =>
            have hread := congrArg unescape h
            rw [flatMap_nil, nil_append, unescape_quote, flatMap_cons,
              append_assoc, unescape_escape] at hread
            cases hread
    | cons x xs ih =>
        intro ys h
        cases ys with
        | nil =>
            have hread := congrArg unescape h
            rw [flatMap_nil, nil_append, unescape_quote, flatMap_cons,
              append_assoc, unescape_escape] at hread
            cases hread
        | cons y ys =>
            have hread := congrArg unescape h
            rw [flatMap_cons, flatMap_cons, append_assoc, append_assoc,
              unescape_escape, unescape_escape] at hread
            obtain ⟨hxy, hrest⟩ := Prod.mk.inj (Option.some.inj hread)
            obtain ⟨hxs, hrs⟩ := ih ys hrest
            exact ⟨by rw [hxy, hxs], hrs⟩
  have hstart : a.toList.flatMap escape ++ '\"' :: r = b.toList.flatMap escape ++ '\"' :: s := by
    simpa [quoted] using h
  obtain ⟨hchars, hrest⟩ := hcut _ _ hstart
  exact ⟨String.toList_inj.1 hchars, hrest⟩

/-! ## Numbers -/

/-- A character of a number. -/
def ofNumber (c : Char) : Bool := c.isDigit || c = '-'

/-- A text no number continues into. -/
def Closed (r : List Char) : Prop := ∀ c ∈ r.head?, ofNumber c = false

theorem ofNumber_of_mem_repr (h : c ∈ n.repr.toList) : ofNumber c = true := by
  have hnat : ∀ m : ℕ, c ∈ m.repr.toList → c.isDigit = true := by
    intro m hm
    rw [Nat.toList_repr] at hm
    exact Nat.isDigit_of_mem_toDigits (by decide) (by decide) hm
  unfold ofNumber
  rw [Int.repr_eq_if] at h
  split at h
  · rw [hnat _ h, Bool.true_or]
  · rw [String.toList_append, mem_append] at h
    rcases h with h | h
    · simp only [String.reduceToList, mem_singleton] at h
      subst h
      decide
    · rw [hnat _ h, Bool.true_or]

theorem repr_ne_nil (n : ℤ) : n.repr.toList ≠ [] := by
  rw [Int.repr_eq_if]
  split
  · rw [Nat.toList_repr]
    exact Nat.toDigits_ne_nil
  · simp [String.toList_append]

/-- The text of a number can be cut off the front of a text. -/
theorem num_cancel {m : ℤ} (hr : Closed r) (hs : Closed s)
    (h : m.repr.toList ++ r = n.repr.toList ++ s) : m = n ∧ r = s := by
  have htake : ∀ (k : ℤ) (t : List Char), Closed t →
      (k.repr.toList ++ t).takeWhile ofNumber = k.repr.toList := by
    intro k t ht
    rw [takeWhile_append_of_pos fun c hc => ofNumber_of_mem_repr hc]
    cases t with
    | nil => simp
    | cons c t => rw [takeWhile_cons_of_neg (by simp [ht c rfl]), append_nil]
  have hchars : m.repr.toList = n.repr.toList := by
    rw [← htake m r hr, h, htake n s hs]
  rw [hchars] at h
  exact ⟨Int.repr_injective (String.toList_inj.1 hchars), append_cancel_left h⟩

/-! ## Values -/

/-- Which kind of value a first character announces. -/
def kindOf (c : Char) : ℕ :=
  if c = 'n' then 0 else if c = 't' ∨ c = 'f' then 1 else if ofNumber c then 2
  else if c = '\"' then 3 else if c = '[' then 4 else if c = '{' then 5 else 6

/-- The kind of a value. -/
def kind : Json → ℕ
  | null => 0
  | bool _ => 1
  | num _ => 2
  | str _ => 3
  | arr _ => 4
  | obj _ => 5

theorem kindOf_number (h : ofNumber c = true) : kindOf c = 2 := by
  have hn : c ≠ 'n' := by rintro rfl; revert h; decide
  have ht : c ≠ 't' := by rintro rfl; revert h; decide
  have hf : c ≠ 'f' := by rintro rfl; revert h; decide
  simp [kindOf, hn, ht, hf, h]

/-- The first character of a text announces its kind. -/
theorem exists_chars (v : Json) : ∃ c cs, v.chars = c :: cs ∧ kindOf c = v.kind := by
  cases v with
  | null => exact ⟨_, _, rfl, rfl⟩
  | bool b => cases b <;> exact ⟨_, _, rfl, rfl⟩
  | num n =>
      cases hc : n.repr.toList with
      | nil =>
          exact absurd hc (repr_ne_nil n)
      | cons c cs =>
          have hmem : c ∈ n.repr.toList := by
            rw [hc]
            exact mem_cons_self
          exact ⟨c, cs, by rw [chars, hc], kindOf_number (ofNumber_of_mem_repr hmem)⟩
  | str s => exact ⟨_, _, rfl, rfl⟩
  | arr xs => cases xs <;> exact ⟨_, _, by rw [chars], rfl⟩
  | obj fs => cases fs <;> exact ⟨_, _, by rw [chars], rfl⟩

theorem kind_eq (h : a.chars ++ r = b.chars ++ s) : a.kind = b.kind := by
  obtain ⟨c, cs, hc, hkind⟩ := exists_chars a
  obtain ⟨d, ds, hd, hkind'⟩ := exists_chars b
  rw [hc, hd, cons_append, cons_append] at h
  rw [← hkind, ← hkind', (List.cons.inj h).1]

theorem closed_elements (xs : List Json) (r : List Char) : Closed (elements xs ++ r) := by
  cases xs <;> simp [elements, Closed, ofNumber]

theorem closed_members (fs : List (String × Json)) (r : List Char) : Closed (members fs ++ r) := by
  cases fs with
  | nil => simp [members, Closed, ofNumber]
  | cons f fs => obtain ⟨k, x⟩ := f; simp [members, Closed, ofNumber]

theorem chars_ne_close (v : Json) (c : Char) (hc : kindOf c = 6) (r s : List Char) :
    v.chars ++ r ≠ c :: s := by
  intro h
  obtain ⟨d, ds, hd, hkind⟩ := exists_chars v
  rw [hd, cons_append] at h
  rw [(List.cons.inj h).1, hc] at hkind
  cases v <;> simp [kind] at hkind

mutual

/-- **The text of a value can be cut off the front of a text** that does not
continue a number. -/
theorem chars_cancel : ∀ (a b : Json) {r s : List Char}, Closed r → Closed s →
    a.chars ++ r = b.chars ++ s → a = b ∧ r = s
  | null, b, r, s, _, _, h => by
      have hkind := kind_eq h
      cases b <;> simp_all [kind, chars]
  | bool x, b, r, s, _, _, h => by
      have hkind := kind_eq h
      cases b with
      | bool y => cases x <;> cases y <;> simp_all [chars]
      | _ => cases hkind
  | num n, b, r, s, hr, hs, h => by
      have hkind := kind_eq h
      cases b with
      | num m =>
          obtain ⟨hnm, hrs⟩ := num_cancel hr hs (by simpa only [chars] using h)
          exact ⟨by rw [hnm], hrs⟩
      | _ => cases hkind
  | str x, b, r, s, _, _, h => by
      have hkind := kind_eq h
      cases b with
      | str y =>
          obtain ⟨hxy, hrs⟩ := quoted_cancel (by simpa only [chars] using h)
          exact ⟨by rw [hxy], hrs⟩
      | _ => cases hkind
  | arr xs, b, r, s, _, _, h => by
      have hkind := kind_eq h
      cases b with
      | arr ys =>
          match xs, ys with
          | [], [] => exact ⟨rfl, by simpa [chars] using h⟩
          | [], y :: ys =>
              have h : ']' :: r = chars y ++ (elements ys ++ s) := by simpa [chars] using h
              exact absurd h.symm (chars_ne_close y ']' (by decide) _ _)
          | x :: xs, [] =>
              have h : chars x ++ (elements xs ++ r) = ']' :: s := by simpa [chars] using h
              exact absurd h (chars_ne_close x ']' (by decide) _ _)
          | x :: xs, y :: ys =>
              have h : chars x ++ (elements xs ++ r) = chars y ++ (elements ys ++ s) := by
                simpa [chars] using h
              obtain ⟨hxy, hrest⟩ := chars_cancel x y (closed_elements xs r) (closed_elements ys s) h
              obtain ⟨hxs, hrs⟩ := elements_cancel xs ys hrest
              exact ⟨by rw [hxy, hxs], hrs⟩
      | _ => cases hkind
  | obj fs, b, r, s, _, _, h => by
      have hkind := kind_eq h
      cases b with
      | obj gs =>
          match fs, gs with
          | [], [] => exact ⟨rfl, by simpa [chars] using h⟩
          | [], (_, _) :: _ => simp [chars, quoted] at h
          | (_, _) :: _, [] => simp [chars, quoted] at h
          | (k, x) :: fs, (l, y) :: gs =>
              have h : quoted k ++ (':' :: (chars x ++ (members fs ++ r))) =
                  quoted l ++ (':' :: (chars y ++ (members gs ++ s))) := by
                simpa [chars] using h
              obtain ⟨hkl, hrest⟩ := quoted_cancel h
              obtain ⟨hxy, hrest⟩ := chars_cancel x y (closed_members fs r) (closed_members gs s)
                (List.cons.inj hrest).2
              obtain ⟨hfs, hrs⟩ := members_cancel fs gs hrest
              exact ⟨by rw [hkl, hxy, hfs], hrs⟩
      | _ => cases hkind

theorem elements_cancel : ∀ (xs ys : List Json) {r s : List Char},
    elements xs ++ r = elements ys ++ s → xs = ys ∧ r = s
  | [], [], _, _, h => ⟨rfl, by simpa [elements] using h⟩
  | [], _ :: _, _, _, h => by simp [elements] at h
  | _ :: _, [], _, _, h => by simp [elements] at h
  | x :: xs, y :: ys, r, s, h => by
      have h : chars x ++ (elements xs ++ r) = chars y ++ (elements ys ++ s) := by
        simpa [elements] using h
      obtain ⟨hxy, hrest⟩ := chars_cancel x y (closed_elements xs r) (closed_elements ys s) h
      obtain ⟨hxs, hrs⟩ := elements_cancel xs ys hrest
      exact ⟨by rw [hxy, hxs], hrs⟩

theorem members_cancel : ∀ (fs gs : List (String × Json)) {r s : List Char},
    members fs ++ r = members gs ++ s → fs = gs ∧ r = s
  | [], [], _, _, h => ⟨rfl, by simpa [members] using h⟩
  | [], (_, _) :: _, _, _, h => by simp [members] at h
  | (_, _) :: _, [], _, _, h => by simp [members] at h
  | (k, x) :: fs, (l, y) :: gs, r, s, h => by
      have h : quoted k ++ (':' :: (chars x ++ (members fs ++ r))) =
          quoted l ++ (':' :: (chars y ++ (members gs ++ s))) := by
        simpa [members] using h
      obtain ⟨hkl, hrest⟩ := quoted_cancel h
      obtain ⟨hxy, hrest⟩ := chars_cancel x y (closed_members fs r) (closed_members gs s)
        (List.cons.inj hrest).2
      obtain ⟨hfs, hrs⟩ := members_cancel fs gs hrest
      exact ⟨by rw [hkl, hxy, hfs], hrs⟩

end

/-- **Two values with one text are one value.** -/
theorem text_injective (h : a.text = b.text) : a = b := by
  have hchars : a.chars ++ [] = b.chars ++ [] := by
    rw [append_nil, append_nil]
    exact String.ofList_injective h
  have hclosed : Closed [] := fun c hc => nomatch hc
  exact (chars_cancel a b hclosed hclosed hchars).1

/-! ## Sizes -/

/-- The size of the characters of a text. -/
def size (cs : List Char) : ℕ := (String.ofList cs).utf8ByteSize

theorem size_append (xs ys : List Char) : size (xs ++ ys) = size xs + size ys := by
  unfold size
  rw [String.ofList_append, String.utf8ByteSize_append]

theorem bytes_eq (v : Json) : v.bytes = size v.chars := rfl

theorem size_elements (xs : List Json) :
    size (elements xs) = 1 + (xs.map fun x => 1 + x.bytes).sum := by
  induction xs with
  | nil => rfl
  | cons x xs ih =>
      have hcons : elements (x :: xs) = [','] ++ (chars x ++ elements xs) := by
        rw [elements]
        rfl
      have hcomma : size [','] = 1 := rfl
      rw [hcons, size_append, size_append, ih, hcomma, map_cons, sum_cons, bytes_eq]
      omega

/-- The size of an array: its brackets, its elements and the commas between them. -/
theorem bytes_arr (x : Json) (xs : List Json) :
    (arr (x :: xs)).bytes = 2 + x.bytes + (xs.map fun y => 1 + y.bytes).sum := by
  have hcons : (arr (x :: xs)).chars = ['['] ++ (chars x ++ elements xs) := by
    rw [chars]
    rfl
  have hbracket : size ['['] = 1 := rfl
  rw [bytes_eq, hcons, size_append, size_append, size_elements, hbracket, bytes_eq]
  omega

theorem bytes_arr_nil : (arr []).bytes = 2 := rfl

/-- What an object has around its first value does not depend on the value. -/
theorem bytes_obj_first (k : String) (x y : Json) (fs : List (String × Json)) :
    (obj ((k, x) :: fs)).bytes + y.bytes = (obj ((k, y) :: fs)).bytes + x.bytes := by
  have hcons : ∀ v, (obj ((k, v) :: fs)).chars =
      (['{'] ++ quoted k ++ [':']) ++ (chars v ++ members fs) := by
    intro v
    rw [chars]
    simp
  simp only [bytes_eq, hcons, size_append]
  omega

end Json

end Lib

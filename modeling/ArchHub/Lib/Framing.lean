import Mathlib

/-!
# Codes that say where they end

A code is self-delimiting when what follows a word can be told from the word: two words
with something behind each of them are equal only when the values and what is behind them
are.  Records and lists of self-delimiting codes are read back without any separator.

* `SelfDelimiting`: the notion, for the values a code is meant for.
* `SelfDelimiting.append`, `SelfDelimiting.contramap`: records.
* `SelfDelimiting.flatMap_inj`: lists.
* `bigEndian`: numbers of a fixed width.
* `framed`: a value behind its length, `selfDelimiting_framed`.
* `toUTF8_toList_inj`: texts.
-/

namespace Lib

open List

namespace Framing

universe u v w

variable {α : Type u} {β : Type v} {γ : Type w}

/-- Words of valid values, with something behind them, are told apart. -/
def SelfDelimiting (valid : α → Prop) (enc : α → List β) : Prop :=
  ∀ ⦃a b : α⦄ ⦃r s : List β⦄, valid a → valid b → enc a ++ r = enc b ++ s → a = b ∧ r = s

namespace SelfDelimiting

variable {valid : α → Prop} {enc : α → List β}

/-- A value is told by a word for what determines it. -/
theorem contramap (h : SelfDelimiting valid enc) {f : γ → α} {valid' : γ → Prop}
    (hvalid : ∀ c, valid' c → valid (f c))
    (hinj : ∀ c d, valid' c → valid' d → f c = f d → c = d) :
    SelfDelimiting valid' (fun c => enc (f c)) := by
  intro c d r s hc hd heq
  obtain ⟨hvalue, hrest⟩ := h (hvalid c hc) (hvalid d hd) heq
  exact ⟨hinj c d hc hd hvalue, hrest⟩

/-- **Records.** Two words in a row tell two values. -/
theorem append {valid' : γ → Prop} {enc' : γ → List β} (h : SelfDelimiting valid enc)
    (h' : SelfDelimiting valid' enc') :
    SelfDelimiting (fun p : α × γ => valid p.1 ∧ valid' p.2) (fun p => enc p.1 ++ enc' p.2) := by
  rintro ⟨a, c⟩ ⟨b, d⟩ r s ⟨ha, hc⟩ ⟨hb, hd⟩ heq
  dsimp only at ha hc hb hd heq
  rw [append_assoc, append_assoc] at heq
  obtain ⟨rfl, hsecond⟩ := h ha hb heq
  obtain ⟨rfl, hrest⟩ := h' hc hd hsecond
  exact ⟨rfl, hrest⟩

/-- **Lists.** Words that are not empty, one behind the other, tell a list. -/
theorem flatMap_inj (h : SelfDelimiting valid enc) (hne : ∀ a, valid a → enc a ≠ [])
    {as bs : List α} (has : ∀ a ∈ as, valid a) (hbs : ∀ b ∈ bs, valid b)
    (heq : as.flatMap enc = bs.flatMap enc) : as = bs := by
  induction as generalizing bs with
  | nil =>
      cases bs with
      | nil => rfl
      | cons b bs =>
          rw [flatMap_nil, flatMap_cons] at heq
          exact absurd (List.append_eq_nil_iff.1 heq.symm).1 (hne b (hbs b mem_cons_self))
  | cons a as ih =>
      cases bs with
      | nil =>
          rw [flatMap_nil, flatMap_cons] at heq
          exact absurd (List.append_eq_nil_iff.1 heq).1 (hne a (has a mem_cons_self))
      | cons b bs =>
          rw [flatMap_cons, flatMap_cons] at heq
          obtain ⟨rfl, hrest⟩ :=
            h (has a mem_cons_self) (hbs b mem_cons_self) heq
          rw [ih (fun a' ha' => has a' (mem_cons_of_mem _ ha'))
            (fun b' hb' => hbs b' (mem_cons_of_mem _ hb')) hrest]

end SelfDelimiting

/-! ## Numbers of a fixed width -/

/-- A number in so many bytes, the most significant first. -/
def bigEndian (width n : ℕ) : List UInt8 :=
  (List.range width).map fun i => UInt8.ofNat (n / 256 ^ (width - 1 - i))

@[simp] theorem length_bigEndian (width n : ℕ) : (bigEndian width n).length = width := by
  rw [bigEndian, length_map, length_range]

theorem bigEndian_succ (width n : ℕ) :
    bigEndian (width + 1) n = bigEndian width (n / 256) ++ [UInt8.ofNat n] := by
  have hbyte : ∀ i ∈ List.range width, UInt8.ofNat (n / 256 ^ (width + 1 - 1 - i)) =
      UInt8.ofNat (n / 256 / 256 ^ (width - 1 - i)) := by
    intro i hi
    have hlt := List.mem_range.1 hi
    rw [Nat.div_div_eq_div_mul, ← pow_succ', show width - 1 - i + 1 = width + 1 - 1 - i by omega]
  rw [bigEndian, range_succ, map_append, map_congr_left hbyte, bigEndian]
  simp

theorem bigEndian_inj {width n m : ℕ} (hn : n < 256 ^ width) (hm : m < 256 ^ width)
    (h : bigEndian width n = bigEndian width m) : n = m := by
  induction width generalizing n m with
  | zero =>
      rw [pow_zero, Nat.lt_one_iff] at hn hm
      rw [hn, hm]
  | succ width ih =>
      rw [bigEndian_succ, bigEndian_succ] at h
      obtain ⟨hhigh, hlow⟩ := append_inj' h rfl
      have hdiv : n / 256 = m / 256 :=
        ih (Nat.div_lt_of_lt_mul (by rwa [pow_succ'] at hn))
          (Nat.div_lt_of_lt_mul (by rwa [pow_succ'] at hm)) hhigh
      have hmod : n % 256 = m % 256 := by
        have hbyte := congrArg UInt8.toNat (List.singleton_inj.1 hlow)
        simpa using hbyte
      rw [← Nat.div_add_mod n 256, ← Nat.div_add_mod m 256, hdiv, hmod]

/-! ## Values behind their length -/

/-- A value behind its length. -/
def framed (width : ℕ) (value : List UInt8) : List UInt8 :=
  bigEndian width value.length ++ value

theorem framed_ne_nil {width : ℕ} (hwidth : 0 < width) (value : List UInt8) :
    framed width value ≠ [] := by
  intro h
  have hlength := congrArg List.length (List.append_eq_nil_iff.1 h).1
  rw [length_bigEndian, length_nil] at hlength
  omega

/-- **A value behind its length** is told from what follows it. -/
theorem selfDelimiting_framed (width : ℕ) :
    SelfDelimiting (fun value : List UInt8 => value.length < 256 ^ width) (framed width) := by
  intro a b r s ha hb heq
  rw [framed, framed, append_assoc, append_assoc] at heq
  obtain ⟨hheader, hrest⟩ := append_inj heq (by rw [length_bigEndian, length_bigEndian])
  exact append_inj hrest (bigEndian_inj ha hb hheader)

/-! ## The bytes of a text -/

theorem toList_loop (bytes : ByteArray) (i : ℕ) (before : List UInt8) :
    ByteArray.toList.loop bytes i before = before.reverse ++ bytes.data.toList.drop i := by
  fun_induction ByteArray.toList.loop bytes i before with
  | case1 i before hi ih =>
      have hlt : i < bytes.data.toList.length := hi
      have hbyte : bytes.get! i = bytes.data.toList[i] := by
        have hsize : i < bytes.data.size := hi
        rw [Array.getElem_toList]
        exact getElem!_pos bytes.data i hsize
      rw [ih, drop_eq_getElem_cons hlt, reverse_cons, append_assoc, singleton_append, hbyte]
  | case2 i before hi =>
      rw [drop_eq_nil_of_le (Nat.le_of_not_lt hi), append_nil]

theorem toList_byteArray (bytes : ByteArray) : bytes.toList = bytes.data.toList := by
  rw [ByteArray.toList, toList_loop, reverse_nil, nil_append, drop_zero]

/-- A text is told by its bytes. -/
theorem toUTF8_toList_inj {s t : String} (h : s.toUTF8.toList = t.toUTF8.toList) : s = t := by
  rw [toList_byteArray, toList_byteArray] at h
  exact String.toByteArray_inj.1 (ByteArray.ext (Array.ext' h))

end Framing

end Lib

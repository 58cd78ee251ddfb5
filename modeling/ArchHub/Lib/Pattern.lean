import Mathlib

/-!
# Patterns

Regular expressions as a backtracking matcher reads them: of two choices the first is taken
that lets the rest match, and a repetition takes as many or as few turns as it can.

* `Pattern.run`: matching, with what has to match behind the pattern.
* `Pattern.search`: whether a text has a match.
* `Pattern.sub`: the text with every match replaced by a mark.
* `Pattern.sub_cases`: a text is replaced by itself, or the mark is in it.
-/

namespace Lib

/-- A regular expression. -/
inductive Pattern
  /-- Nothing. -/
  | nothing
  /-- One character. -/
  | one (test : Char → Bool)
  /-- A condition on the character before and on the text behind. -/
  | here (test : Option Char → List Char → Bool)
  | seq (p q : Pattern)
  | alt (p q : Pattern)
  /-- Repetition, of as many turns as possible or of as few. -/
  | many (greedy : Bool) (p : Pattern)
  /-- What a substitution keeps. -/
  | keep (p : Pattern)

namespace Pattern

/-! ## Matching -/

/-- A place in a text; `kept` is what lay behind when the kept part ended. -/
structure Place where
  before : Option Char
  behind : List Char
  kept : Option (List Char)

/-- The turns of a repetition; each takes some text. -/
def turns (greedy : Bool) (body : Place → (Place → Option Place) → Option Place)
    (next : Place → Option Place) : ℕ → Place → Option Place
  | 0, at' => next at'
  | n + 1, at' =>
      let turn := body at' fun then' =>
        if then'.behind.length < at'.behind.length then turns greedy body next n then' else none
      if greedy then turn.or (next at') else (next at').or turn

/-- Match a pattern at a place; what is behind it has to match too. -/
def run : Pattern → Place → (Place → Option Place) → Option Place
  | nothing, at', next => next at'
  | one test, at', next =>
      match at'.behind with
      | [] => none
      | c :: cs => if test c then next ⟨some c, cs, at'.kept⟩ else none
  | here test, at', next => if test at'.before at'.behind then next at' else none
  | seq p q, at', next => p.run at' fun then' => q.run then' next
  | alt p q, at', next => (p.run at' next).or (q.run at' next)
  | many greedy p, at', next => turns greedy p.run next at'.behind.length at'
  | keep p, at', next => p.run at' fun then' => next { then' with kept := some then'.behind }

/-- The end of a match that begins behind a character. -/
def matchAt (p : Pattern) (before : Option Char) (cs : List Char) : Option Place :=
  p.run ⟨before, cs, none⟩ some

/-- Whether a text has a match. -/
def search (p : Pattern) : Option Char → List Char → Bool
  | before, [] => (p.matchAt before []).isSome
  | before, c :: cs => (p.matchAt before (c :: cs)).isSome || p.search (some c) cs

/-- Replace the matches of a pattern that matches no empty text, but for what is kept of
them, where `skip` characters of a match are still to be left out. -/
def subFrom (p : Pattern) (mark : List Char) : ℕ → Option Char → List Char → List Char
  | _, _, [] => []
  | skip + 1, _, c :: cs => p.subFrom mark skip (some c) cs
  | 0, before, c :: cs =>
      match p.matchAt before (c :: cs) with
      | none => c :: p.subFrom mark 0 (some c) cs
      | some end' =>
          if end'.behind.length ≤ cs.length then
            (c :: cs).take (cs.length + 1 - (end'.kept.getD (c :: cs)).length) ++ mark ++
              p.subFrom mark (cs.length - end'.behind.length) (some c) cs
          else c :: p.subFrom mark 0 (some c) cs

/-- Replace the matches of a pattern. -/
def sub (p : Pattern) (mark : List Char) (cs : List Char) : List Char := p.subFrom mark 0 none cs

theorem subFrom_cases (p : Pattern) (mark : List Char) (before : Option Char) (cs : List Char) :
    p.subFrom mark 0 before cs = cs ∨ mark <:+: p.subFrom mark 0 before cs := by
  induction cs generalizing before with
  | nil => exact .inl rfl
  | cons c cs ih =>
      have hcopy : (c :: p.subFrom mark 0 (some c) cs) = c :: cs ∨
          mark <:+: (c :: p.subFrom mark 0 (some c) cs) := by
        rcases ih (some c) with heq | hin
        · exact .inl (by rw [heq])
        · exact .inr (hin.trans (List.suffix_cons _ _).isInfix)
      unfold subFrom
      split
      · exact hcopy
      · split
        · exact .inr ⟨_, _, rfl⟩
        · exact hcopy

/-- **A text is replaced by itself**, or the mark is in what it is replaced by. -/
theorem sub_cases (p : Pattern) (mark cs : List Char) :
    p.sub mark cs = cs ∨ mark <:+: p.sub mark cs :=
  p.subFrom_cases mark none cs

/-! ## Derived patterns -/

/-- A pattern, or nothing. -/
def optional (p : Pattern) : Pattern := alt p nothing

/-- A pattern so many times. -/
def times : ℕ → Pattern → Pattern
  | 0, _ => nothing
  | n + 1, p => seq p (times n p)

/-- A pattern at least so many times, as often as possible. -/
def atLeast (n : ℕ) (p : Pattern) : Pattern := seq (times n p) (many true p)

/-- One pattern behind the other. -/
def all : List Pattern → Pattern
  | [] => nothing
  | p :: ps => seq p (all ps)

/-- The first pattern that fits, of some. -/
def any : List Pattern → Pattern
  | [] => here fun _ _ => false
  | [p] => p
  | p :: ps => alt p (any ps)

/-- A text, character by character as a test compares them. -/
def text (same : Char → Char → Bool) (s : String) : Pattern :=
  all (s.toList.map fun c => one (same c))

/-- One of some characters. -/
def oneOf (s : String) : Pattern := one fun c => s.toList.contains c

/-- A character that is none of some. -/
def noneOf (s : String) : Pattern := one fun c => !s.toList.contains c

end Pattern

end Lib

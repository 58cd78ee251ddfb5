import Mathlib

/-!
# Statements that do not reach their end

The compiler takes a statement to terminate by its form.  What comes behind it is reported as
unreachable, and a function whose body terminates is taken to return on every path.

* `Node`: the statements of Python and JavaScript, as their grammars give them.
* `terminates`: the analysis.
* `unreachable`, `mayFinish`: E0023, in blocks and modules, and E0024.
* `Runs`: how a statement may come to an end; what a test or an expression gives is left open.

A statement that is taken to terminate does not reach its end, as long as every `if` statement
that is taken to is exhaustive: the analysis reads the first alternative only.

* `Exhaustive`: such a statement.
* `not_runs_of_terminates`: the analysis is right there.
* `judged_iff`: the verdicts in a tree are right exactly if its `if` statements are such.
-/

open List Bool

namespace ArchHub.Compiler

/-- A statement, or a clause of one.  What has no statements that run with it is `other`: an
expression, an assignment, the definition of a function or of a class. -/
inductive Node
  | comment
  | other
  | returnStatement
  /-- `raise` and `throw`. -/
  | raiseStatement
  | breakStatement (label : Option String)
  | continueStatement (label : Option String)
  /-- `block` and `statement_block`. -/
  | block (children : List Node)
  | withStatement (body : Node)
  | tryStatement (body : Node) (handlers : List Node) (otherwise finally_ : Option Node)
  /-- The alternatives are the `elif` clauses and then the `else` clause. -/
  | ifStatement (consequence : Node) (elifs : List Node) (otherwise : Option Node)
  /-- `elif_clause` and `else_clause`; a comment may be the last child. -/
  | clause (body : Node) (commented : Bool)
  /-- `except_clause`, `catch_clause` and `finally_clause`. -/
  | handler (body : Node)
  /-- `for` and `while`; `once` is `do`. -/
  | loop (once : Bool) (body : Node) (otherwise : Option Node)
  /-- `switch`, and whether it has a `default`. -/
  | switchStatement (cases : List Node) (hasDefault : Bool)
  | matchStatement (cases : List Node)
  | labeledStatement (label : String) (body : Node)

/-! ## The analysis -/

mutual

/-- `terminates`. -/
def terminates : Node → Bool
  | .returnStatement => true
  | .raiseStatement => true
  | .breakStatement _ => true
  | .continueStatement _ => true
  | .block children => terminatesAny children
  | .withStatement body => terminates body
  | .tryStatement body handlers otherwise finally_ =>
      terminatesThere finally_ ||
        (terminates body || terminatesThere otherwise) && terminatesAll handlers
  -- `child_by_field_name("alternative")` is the first of them
  | .ifStatement consequence (elif :: _) _ => terminates consequence && terminates elif
  | .ifStatement consequence [] otherwise => terminates consequence && terminatesThere otherwise
  | .clause body commented => !commented && terminates body
  | .handler body => terminates body
  | .comment => false
  | .other => false
  | .loop _ _ _ => false
  | .switchStatement _ _ => false
  | .matchStatement _ => false
  | .labeledStatement _ _ => false

/-- One of the children does. -/
def terminatesAny : List Node → Bool
  | [] => false
  | child :: children => terminates child || terminatesAny children

/-- All of the handlers do. -/
def terminatesAll : List Node → Bool
  | [] => true
  | child :: children => terminates child && terminatesAll children

/-- There is one, and it does. -/
def terminatesThere : Option Node → Bool
  | none => false
  | some child => terminates child

end

/-- The statements and clauses that a statement is made of. -/
def Node.parts : Node → List Node
  | .block children => children
  | .withStatement body => [body]
  | .tryStatement body handlers otherwise finally_ =>
      body :: (handlers ++ otherwise.toList ++ finally_.toList)
  | .ifStatement consequence elifs otherwise => consequence :: (elifs ++ otherwise.toList)
  | .clause body _ => [body]
  | .handler body => [body]
  | .loop _ body otherwise => body :: otherwise.toList
  | .switchStatement cases _ => cases
  | .matchStatement cases => cases
  | .labeledStatement _ body => [body]
  | _ => []

/-- A node of a tree. -/
def Node.Within (n tree : Node) : Prop :=
  Relation.ReflTransGen (fun part whole : Node => part ∈ whole.parts) n tree

/-- A comment. -/
def Node.isComment : Node → Bool
  | .comment => true
  | _ => false

/-- E0023: the children of a block, from the `i`th one on, that are reported. -/
def unreachableFrom (dead : Bool) (i : ℕ) : List Node → List ℕ
  | [] => []
  | child :: children =>
      (if dead && !child.isComment then [i] else []) ++
        unreachableFrom (dead || terminates child) (i + 1) children

/-- E0023: the children of a block that are reported. -/
def unreachable (children : List Node) : List ℕ := unreachableFrom false 0 children

/-- E0024: a function that wants a result and may finish without one is reported. -/
def mayFinish (wants : Bool) (body : Node) : Bool := wants && !terminates body

/-! ## Runs -/

/-- How a statement comes to an end. -/
inductive Outcome
  /-- At its end. -/
  | normal
  | returned
  | raised
  | broken (label : Option String)
  | continued (label : Option String)
deriving DecidableEq

/-- What a loop hands on. -/
def Outcome.leaves : Outcome → Bool
  | .returned => true
  | .raised => true
  | .broken label => label.isSome
  | .continued label => label.isSome
  | .normal => false

/-- The next iteration follows. -/
def Outcome.again : Outcome → Bool
  | .normal => true
  | .continued none => true
  | _ => false

/-- An unlabelled `break` ends a `switch`. -/
def Outcome.offSwitch : Outcome → Outcome
  | .broken none => .normal
  | o => o

mutual

/-- A statement may come to an end this way.  Context managers hand exceptions on. -/
inductive Runs : Node → Outcome → Prop
  | comment : Runs .comment .normal
  | other : Runs .other .normal
  | other_raises : Runs .other .raised
  | returns : Runs .returnStatement .returned
  | return_raises : Runs .returnStatement .raised
  | raises : Runs .raiseStatement .raised
  | breaks (label : Option String) : Runs (.breakStatement label) (.broken label)
  | continues (label : Option String) : Runs (.continueStatement label) (.continued label)
  | block {children : List Node} {o : Outcome} (h : RunsAll children o) : Runs (.block children) o
  | with_body {body : Node} {o : Outcome} (h : Runs body o) : Runs (.withStatement body) o
  | with_raises (body : Node) : Runs (.withStatement body) .raised
  | try_only {body : Node} {handlers : List Node} {otherwise : Option Node} {o : Outcome}
      (h : Tries body handlers otherwise o) : Runs (.tryStatement body handlers otherwise none) o
  | try_finally {body final : Node} {handlers : List Node} {otherwise : Option Node} {o : Outcome}
      (h : Tries body handlers otherwise o) (hfinal : Runs final .normal) :
      Runs (.tryStatement body handlers otherwise (some final)) o
  | try_overruled {body final : Node} {handlers : List Node} {otherwise : Option Node}
      {o o' : Outcome} (h : Tries body handlers otherwise o) (hfinal : Runs final o')
      (hne : o' ≠ .normal) : Runs (.tryStatement body handlers otherwise (some final)) o'
  | if_raises (consequence : Node) (elifs : List Node) (otherwise : Option Node) :
      Runs (.ifStatement consequence elifs otherwise) .raised
  | if_then {consequence : Node} {elifs : List Node} {otherwise : Option Node} {o : Outcome}
      (h : Runs consequence o) : Runs (.ifStatement consequence elifs otherwise) o
  | if_elif {consequence elif : Node} {elifs : List Node} {otherwise : Option Node} {o : Outcome}
      (hmem : elif ∈ elifs) (h : Runs elif o) : Runs (.ifStatement consequence elifs otherwise) o
  | if_else {consequence last : Node} {elifs : List Node} {o : Outcome} (h : Runs last o) :
      Runs (.ifStatement consequence elifs (some last)) o
  | if_none (consequence : Node) (elifs : List Node) :
      Runs (.ifStatement consequence elifs none) .normal
  | clause {body : Node} {commented : Bool} {o : Outcome} (h : Runs body o) :
      Runs (.clause body commented) o
  | handler {body : Node} {o : Outcome} (h : Runs body o) : Runs (.handler body) o
  | loop_raises (once : Bool) (body : Node) (otherwise : Option Node) :
      Runs (.loop once body otherwise) .raised
  | loop_end (body : Node) : Runs (.loop false body none) .normal
  | loop_else {body last : Node} {o : Outcome} (h : Runs last o) :
      Runs (.loop false body (some last)) o
  | loop_again {once : Bool} {body : Node} {otherwise : Option Node} {o o' : Outcome}
      (h : Runs body o) (ho : o.again = true) (h' : Runs (.loop false body otherwise) o') :
      Runs (.loop once body otherwise) o'
  | loop_breaks {once : Bool} {body : Node} {otherwise : Option Node}
      (h : Runs body (.broken none)) : Runs (.loop once body otherwise) .normal
  | loop_leaves {once : Bool} {body : Node} {otherwise : Option Node} {o : Outcome}
      (h : Runs body o) (ho : o.leaves = true) : Runs (.loop once body otherwise) o
  | switch_case {before cases : List Node} {hasDefault : Bool} {o o' : Outcome} (hne : cases ≠ [])
      (h : RunsAll cases o) (ho : o' = o.offSwitch) :
      Runs (.switchStatement (before ++ cases) hasDefault) o'
  | switch_none (cases : List Node) : Runs (.switchStatement cases false) .normal
  | switch_raises (cases : List Node) (hasDefault : Bool) :
      Runs (.switchStatement cases hasDefault) .raised
  | match_case {case : Node} {cases : List Node} {o : Outcome} (hmem : case ∈ cases)
      (h : Runs case o) : Runs (.matchStatement cases) o
  | match_none (cases : List Node) : Runs (.matchStatement cases) .normal
  | match_raises (cases : List Node) : Runs (.matchStatement cases) .raised
  | labeled {label : String} {body : Node} {o : Outcome} (h : Runs body o)
      (hbreak : o ≠ .broken (some label)) (hcontinue : o ≠ .continued (some label)) :
      Runs (.labeledStatement label body) o
  | labeled_breaks {label : String} {body : Node} (h : Runs body (.broken (some label))) :
      Runs (.labeledStatement label body) .normal
  | labeled_again {label : String} {body : Node} {o : Outcome}
      (h : Runs body (.continued (some label))) (h' : Runs (.labeledStatement label body) o) :
      Runs (.labeledStatement label body) o

/-- Statements one after the other. -/
inductive RunsAll : List Node → Outcome → Prop
  | nil : RunsAll [] .normal
  | next {child : Node} {children : List Node} {o : Outcome} (h : Runs child .normal)
      (h' : RunsAll children o) : RunsAll (child :: children) o
  | leaves {child : Node} (children : List Node) {o : Outcome} (h : Runs child o)
      (hne : o ≠ .normal) : RunsAll (child :: children) o

/-- A `try` statement before its `finally` clause. -/
inductive Tries : Node → List Node → Option Node → Outcome → Prop
  | leaves {body : Node} {handlers : List Node} {otherwise : Option Node} {o : Outcome}
      (h : Runs body o) (hne : o ≠ .normal) (hne' : o ≠ .raised) : Tries body handlers otherwise o
  | succeeds {body : Node} {handlers : List Node} (h : Runs body .normal) :
      Tries body handlers none .normal
  | goes_on {body last : Node} {handlers : List Node} {o : Outcome} (h : Runs body .normal)
      (h' : Runs last o) : Tries body handlers (some last) o
  | unhandled {body : Node} {handlers : List Node} {otherwise : Option Node}
      (h : Runs body .raised) : Tries body handlers otherwise .raised
  | handled {body handler : Node} {handlers : List Node} {otherwise : Option Node} {o : Outcome}
      (h : Runs body .raised) (hmem : handler ∈ handlers) (h' : Runs handler o) :
      Tries body handlers otherwise o

end

end ArchHub.Compiler

namespace ArchHub.Compiler

variable {n tree child : Node} {children : List Node} {o : Outcome} {x : Option Node} {i : ℕ}

/-! ## Induction -/

theorem sizeOf_lt_of_mem_toList (h : child ∈ x.toList) : sizeOf child < sizeOf x := by
  cases x with
  | none => cases h
  | some y =>
      obtain rfl := List.mem_singleton.1 h
      simp

/-- The parts of a statement are smaller than it is. -/
theorem sizeOf_lt_of_mem_parts (h : child ∈ n.parts) : sizeOf child < sizeOf n := by
  cases n with
  | block children =>
      have hlt := sizeOf_lt_of_mem (show child ∈ children from h)
      simp only [Node.block.sizeOf_spec]
      omega
  | tryStatement body handlers otherwise final =>
      simp only [Node.tryStatement.sizeOf_spec]
      rcases List.mem_cons.1 h with rfl | h
      · omega
      rcases List.mem_append.1 h with h | h
      · rcases List.mem_append.1 h with h | h
        · have hlt := sizeOf_lt_of_mem h
          omega
        · have hlt := sizeOf_lt_of_mem_toList h
          omega
      · have hlt := sizeOf_lt_of_mem_toList h
        omega
  | ifStatement consequence elifs otherwise =>
      simp only [Node.ifStatement.sizeOf_spec]
      rcases List.mem_cons.1 h with rfl | h
      · omega
      rcases List.mem_append.1 h with h | h
      · have hlt := sizeOf_lt_of_mem h
        omega
      · have hlt := sizeOf_lt_of_mem_toList h
        omega
  | loop once body otherwise =>
      simp only [Node.loop.sizeOf_spec]
      rcases List.mem_cons.1 h with rfl | h
      · omega
      · have hlt := sizeOf_lt_of_mem_toList h
        omega
  | switchStatement cases hasDefault =>
      have hlt := sizeOf_lt_of_mem (show child ∈ cases from h)
      simp only [Node.switchStatement.sizeOf_spec]
      omega
  | matchStatement cases =>
      have hlt := sizeOf_lt_of_mem (show child ∈ cases from h)
      simp only [Node.matchStatement.sizeOf_spec]
      omega
  | withStatement body =>
      obtain rfl := List.mem_singleton.1 h
      simp only [Node.withStatement.sizeOf_spec]
      omega
  | clause body commented =>
      obtain rfl := List.mem_singleton.1 h
      simp only [Node.clause.sizeOf_spec]
      omega
  | handler body =>
      obtain rfl := List.mem_singleton.1 h
      simp only [Node.handler.sizeOf_spec]
      omega
  | labeledStatement label body =>
      obtain rfl := List.mem_singleton.1 h
      simp only [Node.labeledStatement.sizeOf_spec]
      omega
  | comment => cases h
  | other => cases h
  | returnStatement => cases h
  | raiseStatement => cases h
  | breakStatement => cases h
  | continueStatement => cases h

/-- What holds of a statement if it holds of its parts. -/
theorem Node.induction {P : Node → Prop} (h : ∀ n : Node, (∀ child ∈ n.parts, P child) → P n)
    (n : Node) : P n := by
  induction hsize : sizeOf n using Nat.strong_induction_on generalizing n with
  | _ size ih =>
      subst hsize
      exact h n fun child hchild => ih _ (sizeOf_lt_of_mem_parts hchild) child rfl

/-! ## The analysis is right -/

theorem terminatesAny_iff : terminatesAny children = true ↔ ∃ c ∈ children, terminates c = true := by
  induction children with
  | nil => simp [terminatesAny]
  | cons c cs ih => simp [terminatesAny, ih]

theorem terminatesAll_iff : terminatesAll children = true ↔ ∀ c ∈ children, terminates c = true := by
  induction children with
  | nil => simp [terminatesAll]
  | cons c cs ih => simp [terminatesAll, ih]

theorem terminatesThere_iff : terminatesThere x = true ↔ ∃ c, x = some c ∧ terminates c = true := by
  cases x <;> simp [terminatesThere]

/-- The rule of `if` statements: the consequence and the first alternative. -/
theorem terminates_if (consequence : Node) (elifs : List Node) (otherwise : Option Node) :
    terminates (.ifStatement consequence elifs otherwise) =
      (terminates consequence && terminatesThere (elifs ++ otherwise.toList).head?) := by
  cases elifs with
  | nil => cases otherwise <;> rfl
  | cons elif elifs => rfl

/-- An `if` statement whose consequence and first alternative are taken to terminate has an `else`
clause, and no clause behind the first alternative reaches its end. -/
def Exhaustive (n : Node) : Prop :=
  ∀ consequence elifs otherwise, n = .ifStatement consequence elifs otherwise →
    terminates consequence = true →
    terminatesThere (elifs ++ otherwise.toList).head? = true →
    otherwise.isSome ∧ ∀ alternative ∈ (elifs ++ otherwise.toList).tail,
      ¬ Runs alternative .normal

/-- Statements that reach their end all do. -/
theorem RunsAll.normal (h : RunsAll children .normal) (hmem : child ∈ children) :
    Runs child .normal := by
  induction children with
  | nil => cases hmem
  | cons c cs ih =>
      cases h with
      | next hc hcs =>
          rcases List.mem_cons.1 hmem with rfl | hmem
          · exact hc
          · exact ih hcs hmem
      | leaves _ _ hne => exact absurd rfl hne

/-- How the body of a `try` statement and its clauses reach the end of it. -/
theorem Tries.normal {body : Node} {handlers : List Node} {otherwise : Option Node}
    (h : Tries body handlers otherwise .normal) :
    (Runs body .normal ∧ ∀ last, otherwise = some last → Runs last .normal) ∨
      ∃ handler ∈ handlers, Runs handler .normal := by
  cases h with
  | leaves _ hne _ => exact absurd rfl hne
  | succeeds h => exact Or.inl ⟨h, fun _ hlast => (by cases hlast)⟩
  | goes_on h h' =>
      refine Or.inl ⟨h, fun _ hlast => ?_⟩
      obtain rfl := Option.some.inj hlast
      exact h'
  | handled _ hmem h' => exact Or.inr ⟨_, hmem, h'⟩

/-- **What is taken to terminate does not reach its end**, where the `if` statements are
exhaustive. -/
theorem not_runs_of_terminates (hall : ∀ m : Node, m.Within n → Exhaustive m)
    (h : terminates n = true) : ¬ Runs n .normal := by
  induction n using Node.induction with
  | h n ih =>
  have hpart : ∀ child ∈ n.parts, terminates child = true → ¬ Runs child .normal :=
    fun child hchild => ih child hchild fun m hm =>
      hall m (Relation.ReflTransGen.tail hm hchild)
  have hself := hall n Relation.ReflTransGen.refl
  clear ih hall
  have hclauses : ∀ {body : Node} {handlers : List Node} {otherwise final : Option Node},
      n = .tryStatement body handlers otherwise final → Tries body handlers otherwise .normal →
      ¬ ((terminates body || terminatesThere otherwise) = true ∧ terminatesAll handlers = true) := by
    rintro body handlers otherwise final rfl htries ⟨hsuccess, hhandlers⟩
    rw [or_eq_true] at hsuccess
    rcases htries.normal with ⟨hbody, hlast⟩ | ⟨handler, hmem, hhandler⟩
    · rcases hsuccess with hsuccess | hsuccess
      · exact hpart body mem_cons_self hsuccess hbody
      · obtain ⟨last, rfl, hends⟩ := terminatesThere_iff.1 hsuccess
        exact hpart last (by simp [Node.parts]) hends (hlast last rfl)
    · exact hpart handler (by simp [Node.parts, hmem]) (terminatesAll_iff.1 hhandlers _ hmem)
        hhandler
  have hbranches : ∀ {consequence : Node} {elifs : List Node} {otherwise : Option Node},
      n = .ifStatement consequence elifs otherwise → otherwise.isSome ∧
        ¬ Runs consequence .normal ∧
        ∀ alternative ∈ elifs ++ otherwise.toList, ¬ Runs alternative .normal := by
    rintro consequence elifs otherwise rfl
    rw [terminates_if, and_eq_true] at h
    obtain ⟨helse, hrest⟩ := hself consequence elifs otherwise rfl h.1 h.2
    refine ⟨helse, hpart _ mem_cons_self h.1, fun alternative hmem => ?_⟩
    have hfirst := h.2
    cases halternatives : elifs ++ otherwise.toList with
    | nil =>
        rw [halternatives] at hmem
        cases hmem
    | cons first rest =>
        rw [halternatives] at hfirst hrest hmem
        rcases List.mem_cons.1 hmem with rfl | hmem
        · refine hpart _ (mem_cons_of_mem _ ?_) hfirst
          rw [halternatives]
          exact mem_cons_self
        · exact hrest alternative hmem
  intro hruns
  cases hruns with
  | comment => cases h
  | other => cases h
  | block hall =>
      rw [terminates, terminatesAny_iff] at h
      obtain ⟨child, hmem, hchild⟩ := h
      exact hpart child hmem hchild (hall.normal hmem)
  | with_body hbody => exact hpart _ (mem_singleton_self _) h hbody
  | try_only htries =>
      rw [terminates, or_eq_true, and_eq_true] at h
      exact hclauses rfl htries (h.resolve_left (by simp [terminatesThere]))
  | try_finally htries hfinal =>
      rw [terminates, or_eq_true, and_eq_true] at h
      refine hclauses rfl htries (h.resolve_left fun hover => ?_)
      exact hpart _ (by simp [Node.parts]) hover hfinal
  | try_overruled _ _ hne => exact hne rfl
  | if_then hthen => exact (hbranches rfl).2.1 hthen
  | if_elif hmem helif => exact (hbranches rfl).2.2 _ (mem_append_left _ hmem) helif
  | if_else helse =>
      exact (hbranches rfl).2.2 _ (mem_append_right _ (mem_singleton_self _)) helse
  | if_none => cases (hbranches rfl).1
  | clause hbody =>
      rw [terminates, and_eq_true] at h
      exact hpart _ (mem_singleton_self _) h.2 hbody
  | handler hbody => exact hpart _ (mem_singleton_self _) h hbody
  | _ => cases h

/-! ## What is reported -/

theorem mem_unreachableFrom {dead : Bool} {j : ℕ} (h : j ∈ unreachableFrom dead i children) :
    i ≤ j ∧ (dead = true ∨ ∃ child ∈ children.take (j - i), terminates child = true) := by
  induction children generalizing dead i with
  | nil => cases h
  | cons c cs ih =>
      rcases List.mem_append.1 h with h | h
      · split at h
        · next hdead =>
          obtain rfl := List.mem_singleton.1 h
          rw [and_eq_true] at hdead
          exact ⟨le_rfl, Or.inl hdead.1⟩
        · cases h
      · obtain ⟨hle, hwhy⟩ := ih h
        refine ⟨Nat.le_of_succ_le hle, ?_⟩
        have htake : (c :: cs).take (j - i) = c :: cs.take (j - (i + 1)) := by
          rw [show j - i = (j - (i + 1)) + 1 by omega, take_succ_cons]
        rw [htake]
        rcases hwhy with hdead | ⟨child, hmem, hends⟩
        · rw [or_eq_true] at hdead
          exact hdead.imp_right fun hends => ⟨c, mem_cons_self, hends⟩
        · exact Or.inr ⟨child, mem_cons_of_mem c hmem, hends⟩

/-- What is reported as unreachable is behind a statement that is taken to terminate. -/
theorem exists_terminates_of_unreachable (h : i ∈ unreachable children) :
    ∃ child ∈ children.take i, terminates child = true := by
  obtain ⟨-, hdead | hwhy⟩ := mem_unreachableFrom h
  · cases hdead
  · exact hwhy

/-- The verdicts in a tree are right: what is taken to terminate does not reach its end, what is
reported as unreachable is not reached, and a function that is taken to return does not fall off
its end. -/
structure Judged (tree : Node) : Prop where
  ends : ∀ n : Node, n.Within tree → terminates n = true → ¬ Runs n .normal
  reached : ∀ children, (Node.block children).Within tree → ∀ i ∈ unreachable children,
    ¬ RunsAll (children.take i) .normal
  returns : ∀ body : Node, body.Within tree → mayFinish true body = false → ¬ Runs body .normal

/-- **The verdicts in a tree are right if and only if its `if` statements are exhaustive.** -/
theorem judged_iff (tree : Node) :
    Judged tree ↔ ∀ n : Node, n.Within tree → Exhaustive n := by
  constructor
  · rintro hjudged n hn consequence elifs otherwise rfl hthen hfirst
    have hruns := hjudged.ends _ hn (by rw [terminates_if, hthen, hfirst]; rfl)
    constructor
    · cases otherwise with
      | none => exact absurd (Runs.if_none consequence elifs) hruns
      | some last => rfl
    · intro alternative hmem halternative
      rcases List.mem_append.1 (List.mem_of_mem_tail hmem) with hmem | hmem
      · exact hruns (Runs.if_elif hmem halternative)
      · obtain rfl := Option.mem_toList.1 hmem
        exact hruns (Runs.if_else halternative)
  · intro hall
    have hends : ∀ n : Node, n.Within tree → terminates n = true → ¬ Runs n .normal :=
      fun n hn => not_runs_of_terminates fun m hm => hall m (hm.trans hn)
    refine ⟨hends, fun children hblock i hi hruns => ?_, fun body hbody hfinish => ?_⟩
    · obtain ⟨child, hmem, hterminates⟩ := exists_terminates_of_unreachable hi
      exact hends child (Relation.ReflTransGen.head (List.mem_of_mem_take hmem) hblock)
        hterminates (hruns.normal hmem)
    · unfold mayFinish at hfinish
      exact hends body hbody (by simpa using hfinish)

/-- `if a: return`, `elif b: return`, and then a statement. -/
def gap : Node :=
  .block [.ifStatement (.block [.returnStatement]) [.clause (.block [.returnStatement]) false] none,
    .other]

/-- Where neither test holds, the statement behind is reached and the body ends, but the one is
reported and the other is not. -/
theorem gap_not_judged :
    terminates gap = true ∧ unreachable [.ifStatement (.block [.returnStatement])
      [.clause (.block [.returnStatement]) false] none, .other] = [1] ∧
      mayFinish true gap = false ∧ Runs gap .normal ∧ ¬ Judged gap := by
  have hruns : Runs gap .normal :=
    Runs.block (RunsAll.next (Runs.if_none _ _) (RunsAll.next Runs.other RunsAll.nil))
  refine ⟨rfl, rfl, rfl, hruns, fun hjudged => ?_⟩
  exact hjudged.ends gap Relation.ReflTransGen.refl rfl hruns

end ArchHub.Compiler

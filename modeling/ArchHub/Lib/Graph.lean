import Mathlib

/-!
# Closures of finite graphs

A graph is given by the successors of each vertex.  `closure` is the worklist
that starts from some seeds, takes a vertex off the pending ones and adds the
successors not seen before, until none is pending.

The worklist carries fuel so that it runs by structural recursion; the fuel
`closure` gives is enough as soon as every successor is in the stated universe.

* `Reach`: reachability.
* `closure`: the worklist.
-/

namespace Lib

namespace Graph

universe u

variable {κ : Type u}

/-- `b` is reached from `a` along successors. -/
def Reach (succ : κ → List κ) : κ → κ → Prop := Relation.ReflTransGen (fun a b => b ∈ succ a)

variable [DecidableEq κ]

/-- Mark one vertex: what was not seen becomes seen and pending. -/
def discover (st : List κ × List κ) (d : κ) : List κ × List κ :=
  if d ∈ st.1 then st else (d :: st.1, d :: st.2)

/-- The worklist: pending vertices and the ones seen so far. -/
def visit (succ : κ → List κ) : ℕ → List κ → List κ → List κ
  | 0, _, seen => seen
  | _ + 1, [], seen => seen
  | n + 1, x :: pending, seen =>
      let st := (succ x).foldl discover (seen, pending)
      visit succ n st.2 st.1

/-- Everything reached from the seeds, in a graph whose successors all lie in
`world`. -/
def closure (succ : κ → List κ) (world seeds : List κ) : List κ :=
  visit succ (seeds.dedup.length + world.length) seeds.dedup seeds.dedup

end Graph

end Lib

import Mathlib
import ArchHub.Tasks.Steps

/-!
# Writes that name the revision they read

A write that names a revision changes the row only while the row is as it was
when it had that revision; a row that has changed since then has a later one, and
the write raises the conflict and leaves the table.
-/

namespace ArchHub.Tasks

open Lib

/-- The task and the revision a transaction names. -/
def Txn.names : Txn → Option (String × ℤ)
  | .update task (some n) _ _ => some (task, n)
  | .begin_ task _ _ (some n) _ _ => some (task, n)
  | _ => none

/-- A transaction that only reads. -/
def Txn.Reads : Txn → Prop
  | .clock => True
  | .fetch _ => True
  | .scan => True
  | _ => False

/-- The binding of a task to its file, which names the revision it has just
read. -/
def Txn.Binds (x : Txn) : Prop :=
  ∃ task n path, x = .update task (some n) none (.bound path)

variable {host : Host} {x : Txn} {db : Db} {k : String} {n : ℤ}

/-- A transaction that names a revision changes only that row, at that
revision. -/
theorem RowChange.named {k' : String} {o o' : Option Row} (h : RowChange host x db k' o o')
    (hx : x.names = some (k, n)) (hne : o' ≠ o) : k' = k ∧ ∃ r, o = some r ∧ r.revision = n := by
  cases h with
  | kept o => exact absurd rfl hne
  | inserted row hins =>
      rw [hins] at hx
      cases hx
  | declared title label purpose project hdecl =>
      rw [hdecl] at hx
      cases hx
  | settled r now hset hlapsed =>
      rw [hset] at hx
      cases hx
  | moved r r' hmoves hmoved =>
      cases x <;> first | cases hx | cases hmoves
  | stated r statement hstates happlies =>
      cases x with
      | update task revision holder s =>
          obtain ⟨rfl, -, hmeets⟩ := hstates
          cases revision with
          | none => cases hx
          | some m =>
              cases hx
              exact ⟨rfl, r, rfl, hmeets.1 _ rfl⟩
      | begin_ task owner label revision now lease =>
          obtain ⟨rfl, hmeets, -⟩ := hstates
          cases revision with
          | none => cases hx
          | some m =>
              cases hx
              exact ⟨rfl, r, rfl, hmeets.1 _ rfl⟩
      | clock | fetch | scan | settle | insert | write | declare | backfill | relocate => cases hx

/-- A transaction that names another revision than the row has raises the
conflict. -/
theorem exec_conflict {r : Row} (hx : x.names = some (k, n)) (hr : db.table.get? k = some r)
    (hn : r.revision ≠ n) : Prog.committed (exec host x) db = .error (.conflict k (some n)) := by
  cases x with
  | update task revision holder statement =>
      cases revision with
      | none => cases hx
      | some m =>
          cases hx
          simp only [Prog.committed, exec, update_conflict hr hn, Except.map]
  | begin_ task owner label revision now lease =>
      cases revision with
      | none => cases hx
      | some m =>
          cases hx
          simp only [Prog.committed, exec, beginRun_conflict hr hn, Except.map]
  | clock | fetch | scan | settle | insert | write | declare | backfill | relocate => cases hx

/-- The steps of a call that names a revision. -/
theorem Op.Makes.named {op : Op} (h : op.Makes db x) (hop : op.target = some (k, some n)) :
    x.names = some (k, n) ∨ x.Reads ∨ (∃ now, x = .settle now) ∨ x.Binds := by
  cases x with
  | clock | fetch | scan => exact Or.inr (Or.inl trivial)
  | settle now => exact Or.inr (Or.inr (Or.inl ⟨now, rfl⟩))
  | update task revision holder statement =>
      rcases h with ⟨path, m, rfl, rfl, rfl⟩ | ⟨htarget | ⟨hnone, -⟩, -⟩
      · exact Or.inr (Or.inr (Or.inr ⟨task, m, path, rfl⟩))
      · obtain ⟨rfl, rfl⟩ : k = task ∧ some n = revision := by simpa [hop] using htarget
        exact Or.inl rfl
      · rw [hop] at hnone
        cases hnone
  | begin_ task owner label revision now lease =>
      obtain ⟨rfl, rfl⟩ : k = task ∧ some n = revision := by simpa [hop] using h.1
      exact Or.inl rfl
  | insert task row =>
      rw [Op.Makes, hop] at h
      cases h.1
  | write task statement =>
      rw [Op.Makes, hop] at h
      cases h.1
  | declare task title label purpose project =>
      rw [Op.Makes, hop] at h
      cases h
  | backfill prepared =>
      rw [Op.Makes, hop] at h
      cases h
  | relocate moved =>
      rw [Op.Makes, hop] at h
      cases h

variable {W : Type} [DecidableEq W]

/-- **Every change bumps the revision, and a stale write conflicts.**  In every
state of every run:

* a row stays as it is or gets a later revision, from then on;
* a step that names a revision of a task changes that row only, and only while it
  is as it was whenever it had that revision; where the row has another revision,
  the call ends with the conflict and the table stays as it is;
* a call that names a revision makes its write under that revision. -/
theorem revision_guards (db : Db) {s : Workers W}
    (hs : (tasks host).machine.Run Machine.Any (System.idle db) s) :
    (∀ t, (tasks host).machine.Run Machine.Any s t → ∀ k r, s.shared.table.get? k = some r →
      ∃ r', t.shared.table.get? k = some r' ∧ (r' = r ∨ r.revision < r'.revision)) ∧
    (∀ w op x f rest k n, s.calls w = some (op, .step x f rest) → x.names = some (k, n) →
      (∀ k', ((tasks host).machine.step s (.advance w)).shared.table.get? k' ≠
          s.shared.table.get? k' →
        k' = k ∧ ∃ r, s.shared.table.get? k = some r ∧ r.revision = n ∧
          ∀ s₀ : Workers W, (tasks host).machine.Run Machine.Any (System.idle db) s₀ →
            (tasks host).machine.Run Machine.Any s₀ s →
            ∀ r₀, s₀.shared.table.get? k = some r₀ → r₀.revision = n → r₀ = r) ∧
      (∀ r, s.shared.table.get? k = some r → r.revision ≠ n →
        ((tasks host).machine.step s (.advance w)).shared = s.shared ∧
        ((tasks host).machine.step s (.advance w)).calls w
          = some (op, .raise (.conflict k (some n))))) ∧
    (∀ w op x f rest k n, s.calls w = some (op, .step x f rest) →
      op.target = some (k, some n) →
      x.names = some (k, n) ∨ x.Reads ∨ (∃ now, x = .settle now) ∨ x.Binds) := by
  have hmade : AllMade host s := made_of_run hs
  refine ⟨fun t ht k r hr => (made_run ht hmade).2.rows k r hr, ?_, ?_⟩
  · intro w op x f rest k n hcall hx
    have hstep : op.Made host x f s.shared := hmade.meets hcall
    refine ⟨fun k' hne => ?_, fun r hr hn => ?_⟩
    · rcases action_row hmade (.advance w) with hsame | ⟨w', op', x', rest', hw, hc, -, -, hrow⟩
      · exact absurd (hsame k') hne
      · obtain ⟨f', g', hcall', -, -⟩ := hc
        have hww : w' = w := by
          cases hw
          rfl
        rw [hww, hcall] at hcall'
        obtain rfl : x = x' := by
          cases hcall'
          rfl
        obtain ⟨rfl, r, hr, hrev⟩ := (hrow k').named hx hne
        refine ⟨rfl, r, hr, hrev, fun s₀ hs₀ hs₀s r₀ hr₀ hrev₀ => ?_⟩
        obtain ⟨r', hr', h⟩ := (made_run hs₀s (made_of_run hs₀)).2.rows k' r₀ hr₀
        obtain rfl : r = r' := Option.some.inj (hr.symm.trans hr')
        rcases h with h | h
        · exact h.symm
        · omega
    · have hf : f s.shared = .error (.conflict k (some n)) := by
        rw [hstep.1]
        exact exec_conflict hx hr hn
      rw [System.machine_advance hcall]
      simp only [System.advanced, hf, Function.update_self, true_and]
  · intro w op x f rest k n hcall hop
    have hstep : op.Made host x f s.shared := hmade.meets hcall
    exact hstep.2.named hop

/-- A row at revision 5, which an editor still holds at revision 3. -/
def changedRow : Row := { Row.new "Plan" "founder" "" none with revision := 5 }

/-- The table with that row. -/
def changedDb : Db := ⟨Dict.ofList [("a", changedRow)], 0⟩

/-- An editor that still holds revision 3 has begun to close the task. -/
def staleMove : Workers Unit :=
  (tasks (Host.plain 2)).machine.step (System.idle changedDb)
    (.start () (.setStatus "a" .done (some 3)))

/-- The move ends with the conflict. -/
theorem revision_guards_stale :
    ((tasks (Host.plain 2)).machine.step staleMove (.advance ())).calls ()
      = some (.setStatus "a" .done (some 3), .raise (.conflict "a" (some 3))) := by
  have hrun : (tasks (Host.plain 2)).machine.Run Machine.Any (System.idle changedDb) staleMove :=
    Machine.Run.step _ trivial
  have hguards := (revision_guards changedDb hrun).2.1 () _ _ _ _ "a" 3 rfl rfl
  exact (hguards.2 changedRow rfl (by decide)).2

end ArchHub.Tasks

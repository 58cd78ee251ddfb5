import Mathlib
import ArchHub.Tasks.Lease

/-!
# The capacity of runs

`begin_run` counts the other tasks whose lease has not passed before it leases one
more.  `claim`, and `declared` through it, lease a task without that count: they
are leases of tasks, not runs.  So the number of live leases stays within
`max_runs` along the runs whose claims find room, and `begin_run` itself takes it
past `max_runs` only for a caller that already holds the task.
-/

namespace ArchHub.Tasks

open Lib List

/-- The number of tasks that hold a lease that has not passed. -/
def liveCount (db : Db) : ℕ := db.table.entries.countP (fun e => e.2.live db.now)

/-! ## Counting rows by their ids -/

/-- The tasks whose row meets `p`. -/
def ids (p : String → Row → Bool) (t : Table) : Finset String :=
  ((t.entries.filter (fun e => p e.1 e.2)).map Prod.fst).toFinset

variable {k : String}

theorem mem_ids {p : String → Row → Bool} {t : Table} :
    k ∈ ids p t ↔ ∃ r, t.get? k = some r ∧ p k r = true := by
  simp only [ids, mem_toFinset, mem_map, mem_filter]
  constructor
  · rintro ⟨⟨k', r⟩, ⟨hmem, hp⟩, rfl⟩
    exact ⟨r, Dict.mem_entries_iff.1 hmem, hp⟩
  · rintro ⟨r, hr, hp⟩
    exact ⟨(k, r), ⟨Dict.mem_entries_iff.2 hr, hp⟩, rfl⟩

theorem card_ids (p : String → Row → Bool) (t : Table) :
    (ids p t).card = t.entries.countP (fun e => p e.1 e.2) := by
  have hnodup : ((t.entries.filter (fun e => p e.1 e.2)).map Prod.fst).Nodup :=
    t.nodup.sublist (List.filter_sublist.map Prod.fst)
  rw [ids, toFinset_card_of_nodup hnodup, length_map, countP_eq_length_filter]

/-- The tasks that hold a lease that has not passed. -/
def liveIds (db : Db) : Finset String := ids (fun _ r => r.live db.now) db.table

variable {db : Db}

theorem mem_liveIds :
    k ∈ liveIds db ↔ ∃ r, db.table.get? k = some r ∧ r.live db.now = true := mem_ids

theorem card_liveIds (db : Db) : (liveIds db).card = liveCount db := card_ids _ _

theorem card_running (now : ℚ) (task : String) (t : Table) :
    (ids (fun k r => r.live now && k ≠ task) t).card = running now task t := card_ids _ _

variable {r : Row} {now : ℚ} {r' : Row}

/-- A lease that has not passed had not passed before. -/
theorem Row.live_of_le {now' : ℚ} (h : r.live now' = true) (hle : now ≤ now') :
    r.live now = true := by
  unfold Row.live at h ⊢
  rw [Bool.and_eq_true] at h ⊢
  refine ⟨h.1, ?_⟩
  cases hlease : r.leaseUntil with
  | none => simp [hlease] at h
  | some untl =>
      have huntl : now' ≤ untl := by simpa [hlease] using h.2
      simpa using hle.trans huntl

/-- The live leases beside one task are among those `begin_run` counts. -/
theorem liveIds_subset_running (hnow : now ≤ db.now) (task : String) :
    (liveIds db).erase task ⊆ ids (fun k r => r.live now && k ≠ task) db.table := by
  intro k hk
  rw [Finset.mem_erase, mem_liveIds] at hk
  obtain ⟨hne, r, hr, hlive⟩ := hk
  refine mem_ids.2 ⟨r, hr, ?_⟩
  simp [hne, Row.live_of_le hlive hnow]

/-! ## What makes a lease live -/

theorem Row.live_claimed (h : r.live now = true) : r.status = .claimed := by
  unfold Row.live at h
  simp only [Bool.and_eq_true, decide_eq_true_eq] at h
  exact h.1

theorem Row.live_congr (hstatus : r'.status = r.status) (hlease : r'.leaseUntil = r.leaseUntil)
    (now : ℚ) : r'.live now = r.live now := by
  unfold Row.live
  rw [hstatus, hlease]

/-- A transaction that leases the task. -/
def Txn.Leases (maxRuns : ℤ) (t : Table) (k : String) (r : Row) (x : Txn) : Prop :=
  (∃ revision holder owner label untl,
    x = .update k revision holder (.claimed owner label untl)) ∨
  ∃ owner label revision now lease, x = .begin_ k owner label revision now lease ∧
    ((running now k t : ℤ) < maxRuns ∨ r.HeldBy owner)

variable {host : Host} {op : Op} {x : Txn}

/-- **A lease is live because it was, or because the transaction leased the
task.** -/
theorem RowChange.live {o : Option Row} (h : RowChange host x db k o (some r'))
    (hmakes : op.Makes db x) (hlive : r'.live now = true) : ∃ r, o = some r ∧
      (r.live now = true ∨ x.Leases host.maxRuns db.table k r) := by
  have hclaimed : r'.status = .claimed := Row.live_claimed hlive
  cases h with
  | kept o => exact ⟨r', rfl, Or.inl hlive⟩
  | inserted row hx =>
      rw [hx] at hmakes
      exact absurd hclaimed (hmakes.2 _).1
  | declared title label purpose project hx => cases hclaimed
  | settled r now hx hlapsed => cases hclaimed
  | moved r r' hx hmoved =>
      obtain ⟨hstatus, -, hlease⟩ := hmoved.same
      rw [Row.live_congr hstatus hlease] at hlive
      exact ⟨r, rfl, Or.inl hlive⟩
  | stated r statement hx happlies =>
      refine ⟨r, rfl, ?_⟩
      cases statement with
      | writing _ | titled _ | limited | bound _ | redeclared _ _ _ | folded => exact Or.inl hlive
      | released _ | planned | reopened | completed _ _ | archived | finished => cases hclaimed
      | claimed owner label untl =>
          obtain ⟨revision, holder, hupdate, -, -⟩ := hx.update hmakes trivial
          exact Or.inr (Or.inl ⟨revision, holder, owner, label, untl, hupdate⟩)
      | begun owner label untl =>
          cases x with
          | begin_ task owner' label' revision now' lease =>
              obtain ⟨rfl, -, hcase⟩ := hx
              rcases hcase with h | ⟨h, hroom⟩
              · cases h
              · cases h
                exact Or.inr (Or.inr ⟨owner, label, revision, now', lease, rfl, hroom⟩)
          | update task revision holder s =>
              obtain ⟨rfl, rfl, -⟩ := hx
              rcases hmakes with ⟨_, _, h, -⟩ | ⟨-, h⟩ <;> cases h
          | write task s =>
              obtain ⟨rfl, rfl⟩ := hx
              rcases hmakes.2 with h | h <;> cases h
          | declare task title label purpose project => cases hx.2
          | clock | fetch | scan | settle | insert | backfill | relocate => cases hx

/-! ## One step -/

variable {W : Type} [DecidableEq W] {db' : Db} {task : String} {revision : Option ℤ} {s : Workers W}

/-- The leases that are live after a transaction were live, or it leased the
task. -/
theorem liveIds_step (hmakes : op.Makes db x) (hnow : db'.now = db.now)
    (hrow : ∀ k, RowChange host x db k (db.table.get? k) (db'.table.get? k))
    (hk : k ∈ liveIds db') : k ∈ liveIds db ∨
      ∃ r, db.table.get? k = some r ∧ x.Leases host.maxRuns db.table k r := by
  obtain ⟨r', hr', hlive⟩ := mem_liveIds.1 hk
  have hchange := hrow k
  rw [hr'] at hchange
  rw [hnow] at hlive
  obtain ⟨r, hr, h | h⟩ := hchange.live hmakes hlive
  · exact Or.inl (mem_liveIds.2 ⟨r, hr, h⟩)
  · exact Or.inr ⟨r, hr, h⟩

/-- A claim leases one task at most. -/
theorem liveIds_claim {holder : Option String} {statement : Statement}
    (hmakes : op.Makes db (.update task revision holder statement)) (hnow : db'.now = db.now)
    (hrow : ∀ k, RowChange host (.update task revision holder statement) db k
      (db.table.get? k) (db'.table.get? k)) : liveIds db' ⊆ insert task (liveIds db) := by
  intro k hk
  rcases liveIds_step hmakes hnow hrow hk with h | ⟨r, -, ⟨_, _, _, _, _, h⟩ | ⟨_, _, _, _, _, h, -⟩⟩
  · exact Finset.mem_insert_of_mem h
  · cases h
    exact Finset.mem_insert_self _ _
  · cases h

/-- A run that is begun for a caller that does not hold the task is within the
capacity, or leaves the leases. -/
theorem liveIds_begin {owner label : String} {lease : ℤ}
    (hmakes : op.Makes db (.begin_ task owner label revision now lease)) (hnow : db'.now = db.now)
    (hrow : ∀ k, RowChange host (.begin_ task owner label revision now lease) db k
      (db.table.get? k) (db'.table.get? k)) :
    liveIds db' ⊆ liveIds db ∨
      (liveIds db' ⊆ insert task (liveIds db) ∧ ∃ r, db.table.get? task = some r ∧
        ((running now task db.table : ℤ) < host.maxRuns ∨ r.HeldBy owner)) := by
  by_cases htask : task ∈ liveIds db' ∧ task ∉ liveIds db
  · refine Or.inr ⟨fun k hk => ?_, ?_⟩
    · rcases liveIds_step hmakes hnow hrow hk with h |
        ⟨r, -, ⟨_, _, _, _, _, h⟩ | ⟨_, _, _, _, _, h, -⟩⟩
      · exact Finset.mem_insert_of_mem h
      · cases h
      · cases h
        exact Finset.mem_insert_self _ _
    · rcases liveIds_step hmakes hnow hrow htask.1 with h |
        ⟨r, hr, ⟨_, _, _, _, _, h⟩ | ⟨_, _, _, _, _, h, hroom⟩⟩
      · exact absurd h htask.2
      · cases h
      · cases h
        exact ⟨r, hr, hroom⟩
  · refine Or.inl fun k hk => ?_
    rcases liveIds_step hmakes hnow hrow hk with h |
      ⟨r, -, ⟨_, _, _, _, _, h⟩ | ⟨_, _, _, _, _, h, -⟩⟩
    · exact h
    · cases h
    · cases h
      by_contra hnot
      exact htask ⟨hk, hnot⟩

/-- The number of live leases a run that is begun leaves. -/
theorem liveCount_begin (hnow : now ≤ db.now) (hsub : liveIds db' ⊆ insert task (liveIds db))
    (maxRuns : ℤ) (hroom : (running now task db.table : ℤ) < maxRuns) :
    (liveCount db' : ℤ) ≤ maxRuns := by
  have herase : (liveIds db').erase task ⊆ (liveIds db).erase task := by
    intro k hk
    obtain ⟨hne, hmem⟩ := Finset.mem_erase.1 hk
    exact Finset.mem_erase.2 ⟨hne, Finset.mem_of_mem_insert_of_ne (hsub hmem) hne⟩
  have hcard : ((liveIds db').erase task).card ≤ running now task db.table := by
    rw [← card_running]
    exact Finset.card_le_card (herase.trans (liveIds_subset_running hnow task))
  have hone : (liveIds db').card - 1 ≤ ((liveIds db').erase task).card :=
    Finset.pred_card_le_card_erase
  rw [card_liveIds] at hone
  omega

/-- The claims and runs that find room: a claim leases a task that is live, or
there is a free slot; and a run is not begun by a holder whose own lease has
passed, or there is a free slot. -/
def Txn.InRoom (maxRuns : ℤ) (db : Db) : Txn → Prop
  | .update task _ _ (.claimed _ _ _) => task ∈ liveIds db ∨ (liveCount db : ℤ) < maxRuns
  | .begin_ task owner _ _ _ _ =>
      (∀ r, db.table.get? task = some r → r.HeldBy owner → task ∈ liveIds db) ∨
        (liveCount db : ℤ) < maxRuns
  | _ => True

variable (host) in
/-- The actions whose claims and runs find room. -/
def InRoom (s : Workers W) : System.Action Op ℚ≥0 W → Prop
  | .advance w => ∀ op x f k, s.calls w = some (op, .step x f k) → x.InRoom host.maxRuns s.shared
  | _ => True

theorem liveCount_insert {maxRuns : ℤ} (hsub : liveIds db' ⊆ insert task (liveIds db))
    (hle : (liveCount db : ℤ) ≤ maxRuns)
    (hroom : task ∈ liveIds db ∨ (liveCount db : ℤ) < maxRuns) : (liveCount db' : ℤ) ≤ maxRuns := by
  rw [← card_liveIds] at hle hroom ⊢
  rcases hroom with hmem | hlt
  · rw [Finset.insert_eq_self.2 hmem] at hsub
    have hcard : (liveIds db').card ≤ (liveIds db).card := Finset.card_le_card hsub
    omega
  · have hcard : (liveIds db').card ≤ (insert task (liveIds db)).card := Finset.card_le_card hsub
    have hone : (insert task (liveIds db)).card ≤ (liveIds db).card + 1 :=
      Finset.card_insert_le _ _
    omega

/-- What keeps the rows and lets time pass leaves no more live leases. -/
theorem liveCount_le_of_subset (h : liveIds db' ⊆ liveIds db) : liveCount db' ≤ liveCount db := by
  rw [← card_liveIds, ← card_liveIds]
  exact Finset.card_le_card h

theorem liveIds_of_rows (hnow : db.now ≤ db'.now)
    (hrows : ∀ k, db'.table.get? k = db.table.get? k) : liveIds db' ⊆ liveIds db := by
  intro k hk
  obtain ⟨r, hr, hlive⟩ := mem_liveIds.1 hk
  exact mem_liveIds.2 ⟨r, (hrows k).symm.trans hr, Row.live_of_le hlive hnow⟩

/-- What a transaction that finds room leaves. -/
theorem liveCount_exec (hmakes : op.Makes db x) (hnow : db'.now = db.now)
    (hrow : ∀ k, RowChange host x db k (db.table.get? k) (db'.table.get? k))
    (hroom : x.InRoom host.maxRuns db) (hle : (liveCount db : ℤ) ≤ host.maxRuns) :
    (liveCount db' : ℤ) ≤ host.maxRuns := by
  by_cases hleases : ∃ k r, db.table.get? k = some r ∧ x.Leases host.maxRuns db.table k r
  · obtain ⟨k, r, hr, ⟨revision, holder, owner, label, untl, rfl⟩ |
      ⟨owner, label, revision, now, lease, rfl, -⟩⟩ := hleases
    · exact liveCount_insert (liveIds_claim hmakes hnow hrow) hle hroom
    · rcases liveIds_begin hmakes hnow hrow with hsub | ⟨hsub, q, hq, hrun | hheld⟩
      · have hkept := liveCount_le_of_subset hsub
        omega
      · exact liveCount_begin hmakes.2.2 hsub host.maxRuns hrun
      · refine liveCount_insert hsub hle (hroom.imp_left fun h => h q hq hheld)
  · have hsub : liveIds db' ⊆ liveIds db := fun k hk =>
      (liveIds_step hmakes hnow hrow hk).resolve_right fun ⟨r, hr, h⟩ => hleases ⟨k, r, hr, h⟩
    have hkept := liveCount_le_of_subset hsub
    omega

/-- **One step.**  An action that finds room keeps the live leases within the
capacity. -/
theorem liveCount_step (hmade : AllMade host s) {a : System.Action Op ℚ≥0 W} (ha : InRoom host s a)
    (hle : (liveCount s.shared : ℤ) ≤ host.maxRuns) :
    (liveCount ((tasks host).machine.step s a).shared : ℤ) ≤ host.maxRuns := by
  have hrun : (tasks host).machine.Run Machine.Any s ((tasks host).machine.step s a) :=
    Machine.Run.step a trivial
  have hlater := (made_run hrun hmade).2
  rcases action_row hmade a with hsame | ⟨w, op, x, rest, rfl, hc, hmakes, hnow, hrow⟩
  · have hkept := liveCount_le_of_subset (liveIds_of_rows hlater.now hsame)
    omega
  · obtain ⟨f, k, hcall, -, -⟩ := hc
    exact liveCount_exec hmakes hnow hrow (ha op x f k hcall) hle

/-- **The live leases stay within the capacity** along the runs whose claims find
room; and in any run `begin_run` takes them past it only for a caller that holds
the task already. -/
theorem capacity_kept (db : Db) (hdb : (liveCount db : ℤ) ≤ host.maxRuns) :
    (∀ s : Workers W, (tasks host).machine.Run (InRoom host) (System.idle db) s →
      (liveCount s.shared : ℤ) ≤ host.maxRuns) ∧
    (∀ s : Workers W, (tasks host).machine.Run Machine.Any (System.idle db) s →
      ∀ w op task owner label revision now lease db' rest,
        System.Commits s w op (.begin_ task owner label revision now lease) db' rest →
        (∀ r, s.shared.table.get? task = some r → ¬ r.HeldBy owner) →
        (liveCount db' : ℤ) ≤ max (liveCount s.shared : ℤ) host.maxRuns) := by
  constructor
  · intro s hs
    let Inv : Workers W → Prop := fun s => (liveCount s.shared : ℤ) ≤ host.maxRuns
    have hstep : ∀ s a, InRoom host s a → AllMade host s → Inv s →
        Inv ((tasks host).machine.step s a) := fun s a ha hmade hi => liveCount_step hmade ha hi
    exact made_invariant hstep hs hdb
  · intro s hs w op task owner label revision now lease db' rest hc hfree
    obtain ⟨hmakes, answer, hx⟩ := exec_of_commits (made_of_run hs) hc
    obtain ⟨hnow, hrow⟩ := exec_row hx
    rcases liveIds_begin hmakes hnow hrow with hsub | ⟨hsub, r, hr, hrun | hheld⟩
    · have hkept := liveCount_le_of_subset hsub
      exact le_max_of_le_left (by omega)
    · exact le_max_of_le_right (liveCount_begin hmakes.2.2 hsub host.maxRuns hrun)
    · exact absurd hheld (hfree r hr)

omit [DecidableEq W] in
/-- An action whose next transaction finds room. -/
theorem inRoom_advance {w : W} {f : Db → Except Fault Db} {k : Db → Act Bool}
    (hcall : s.calls w = some (op, .step x f k)) (hx : x.InRoom host.maxRuns s.shared) :
    InRoom host s (.advance w) := by
  intro op' x' f' k' hcall'
  rw [hcall] at hcall'
  cases hcall'
  exact hx

/-- The one claim of an open task finds room where two runs are the capacity. -/
theorem capacity_kept_claim :
    (liveCount ((tasks (Host.plain 2)).machine.step claiming (.advance ())).shared : ℤ) ≤ 2 := by
  have hstart : (tasks (Host.plain 2)).machine.Run (InRoom (Host.plain 2)) (System.idle oneOpen)
      ((tasks (Host.plain 2)).machine.step (System.idle oneOpen : Workers Unit)
        (.start () (.claim "a" "amy" "Amy" none none))) := Machine.Run.step _ trivial
  have hclock := hstart.snoc (.advance ()) (inRoom_advance rfl trivial)
  have hagain := hclock.snoc (.advance ()) (inRoom_advance rfl trivial)
  have hsettle := hagain.snoc (.advance ()) (inRoom_advance rfl trivial)
  have hclaim := hsettle.snoc (.advance ())
    (inRoom_advance rfl (Or.inr (show (liveCount oneOpen : ℤ) < 2 by decide)))
  exact (capacity_kept oneOpen (by decide)).1 _ hclaim

/-- The table with three open tasks. -/
def threeOpen : Db :=
  ⟨Dict.ofList (["a", "b", "c"].map fun k => (k, Row.new k "founder" "" none)), 0⟩

/-- One worker claims the three of them, one after the other. -/
def claimThree : List (System.Action Op ℚ≥0 Unit) :=
  ["a", "b", "c"].flatMap fun k =>
    [.start () (.claim k "amy" "Amy" none none), .advance (), .advance (), .advance (), .advance ()]

/-- Three claims on one table are live at once, where two runs are the capacity. -/
theorem capacity_exceeded : ∃ s : Workers Unit,
    (tasks (Host.plain 2)).machine.Run Machine.Any (System.idle threeOpen) s ∧
      (Host.plain 2).maxRuns < liveCount s.shared := by
  refine ⟨_, Machine.Run.ofActions (System.idle threeOpen) claimThree, ?_⟩
  decide +kernel

end ArchHub.Tasks

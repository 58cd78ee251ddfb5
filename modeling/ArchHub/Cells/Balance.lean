import Mathlib
import ArchHub.Cells.Archive
import ArchHub.Cells.OneValue

/-!
# The balance of an archive partition

What the plan of a partition records at every revision is what the live cells lose by it.

* `logical`: the accumulator of a revision, which is the sum over its live cells and the
  recorded deltas up to it.
* `deltasUpTo_planAllRows`: the rows of an identity add up to the cell in force.
* `projection_step`: so do the projections, one after the other: each takes the place of
  what its identity holds then (`at_eq_semanticOld`), up to its next version.
-/

namespace ArchHub.Cells

open Lib List Nat

/-! ## Sums up to a revision -/

/-- The deltas up to a revision. -/
def deltasUpTo (deltas : Dict ℕ ℤ) (r : ℕ) : ℤ := deltas.total fun s x => if s ≤ r then x else 0

/-- The sum over the live cells of a revision. -/
def liveSum (hash : Cell → ℤ) (j : Journal) (r : ℕ) : ℤ := (j.cellsAt r).total fun _ => hash

/-- The accumulator of a revision: `set_accumulator`, of the live cells of the journal. -/
def logical (hash : Cell → ℤ) (j : Journal) (r : ℕ) : ℤ :=
  (setAccumulator hash (j.cellsAt r).values + j.archivedSetDelta r) % setHashModulus

section

variable {hash : Cell → ℤ} {j j' : Journal} {r : ℕ}

theorem archivedSetDelta_eq (j : Journal) (r : ℕ) :
    j.archivedSetDelta r = deltasUpTo j.deltas r % setHashModulus := by
  unfold Journal.archivedSetDelta deltasUpTo Dict.total
  congr 1
  induction j.deltas.entries with
  | nil => rfl
  | cons e es ih =>
      rw [map_cons, sum_cons, ← ih]
      dsimp only
      by_cases he : e.1 ≤ r
      · rw [filter_cons_of_pos (by simpa using he), if_pos he, map_cons, sum_cons]
      · rw [filter_cons_of_neg (by simpa using he), if_neg he, zero_add]

theorem logical_eq (hash : Cell → ℤ) (j : Journal) (r : ℕ) :
    logical hash j r = (liveSum hash j r + deltasUpTo j.deltas r) % setHashModulus := by
  unfold logical liveSum
  rw [setAccumulator_values, archivedSetDelta_eq, ← Int.add_emod]

/-- What is moved between the two sums moves no accumulator. -/
theorem logical_congr
    (h : liveSum hash j' r + deltasUpTo j'.deltas r ≡ liveSum hash j r + deltasUpTo j.deltas r
      [ZMOD setHashModulus]) : logical hash j' r = logical hash j r := by
  rw [logical_eq, logical_eq]
  exact h

/-! ### The live cells -/

theorem liveSum_congr (hkeyed : j.Keyed) (hkeyed' : j'.Keyed) (h : ∀ id, j'.at' r id = j.at' r id) :
    liveSum hash j' r = liveSum hash j r := by
  refine Dict.total_congr _ fun id => ?_
  rw [content_cellsAt hkeyed, content_cellsAt hkeyed', h id]

/-- Some identities leave. -/
theorem liveSum_dropped (hkeyed : j.Keyed) (hkeyed' : j'.Keyed) {ids : List String}
    (hnodup : ids.Nodup) (h : ∀ id, j'.at' r id = if id ∈ ids then none else j.at' r id) :
    liveSum hash j' r = liveSum hash j r - (ids.map fun id => weigh hash (j.at' r id)).sum := by
  have hget : ∀ id, (j'.cellsAt r).get? id =
      if id ∈ ids then none else (j.cellsAt r).get? id := fun id => by
    rw [content_cellsAt hkeyed, content_cellsAt hkeyed', h id]
  unfold liveSum
  rw [Dict.total_of_dropped _ hnodup hget]
  simp only [content_cellsAt hkeyed r _]

/-- One identity holds another cell. -/
theorem liveSum_set (hkeyed : j.Keyed) (hkeyed' : j'.Keyed) {id : String} {c : Cell}
    (h : ∀ x, j'.at' r x = if x = id then some c else j.at' r x) :
    liveSum hash j' r = liveSum hash j r - weigh hash (j.at' r id) + hash c := by
  have hget : ∀ x, (j'.cellsAt r).get? x = ((j.cellsAt r).set id c).get? x := fun x => by
    rw [Dict.get?_set, content_cellsAt hkeyed, content_cellsAt hkeyed', h x]
  unfold liveSum
  rw [Dict.total_congr _ hget, Dict.total_set, content_cellsAt hkeyed]

/-! ### The deltas -/

theorem deltasUpTo_set (deltas : Dict ℕ ℤ) (s : ℕ) (x : ℤ) (r : ℕ) :
    deltasUpTo (deltas.set s x) r =
      deltasUpTo deltas r + if s ≤ r then x - (deltas.get? s).getD 0 else 0 := by
  unfold deltasUpTo
  rw [Dict.total_set]
  by_cases hs : s ≤ r
  · simp only [if_pos hs]
    cases deltas.get? s with
    | none => simp
    | some y =>
        simp only [weigh_some, Option.getD_some]
        ring
  · simp only [if_neg hs]
    cases deltas.get? s <;> simp

/-- One delta more. -/
theorem deltasUpTo_addDelta (deltas : Dict ℕ ℤ) (s : ℕ) (x : ℤ) (r : ℕ) :
    deltasUpTo (addDelta deltas s x) r ≡ deltasUpTo deltas r + (if s ≤ r then x else 0)
      [ZMOD setHashModulus] := by
  unfold addDelta
  rw [deltasUpTo_set]
  refine Int.ModEq.add_left _ ?_
  by_cases hs : s ≤ r
  · rw [if_pos hs, if_pos hs]
    have hmod : ((deltas.get? s).getD 0 + x) % setHashModulus ≡ (deltas.get? s).getD 0 + x
      [ZMOD setHashModulus] := Int.mod_modEq _ _
    calc ((deltas.get? s).getD 0 + x) % setHashModulus - (deltas.get? s).getD 0
        ≡ (deltas.get? s).getD 0 + x - (deltas.get? s).getD 0 [ZMOD setHashModulus] :=
          hmod.sub_right _
      _ = x := by ring
  · rw [if_neg hs, if_neg hs]

/-- **The table takes up what is planned.** -/
theorem deltasUpTo_mergeDeltas (table : Dict ℕ ℤ) (deltas : List (ℕ × ℤ)) (r : ℕ) :
    deltasUpTo (mergeDeltas table deltas) r ≡
      deltasUpTo table r + (deltas.map fun e => if e.1 ≤ r then e.2 else 0).sum
      [ZMOD setHashModulus] := by
  unfold mergeDeltas
  induction deltas generalizing table with
  | nil =>
      rw [map_nil, sum_nil, add_zero]
      exact Int.ModEq.refl _
  | cons e es ih =>
      rw [foldl_cons, map_cons, sum_cons, ← add_assoc]
      refine (ih _).trans (Int.ModEq.add_right _ ?_)
      cases hprior : table.get? e.1 with
      | none =>
          rw [deltasUpTo_set, hprior, Option.getD_none, sub_zero]
      | some prior =>
          have hadd := deltasUpTo_addDelta table e.1 e.2 r
          unfold addDelta at hadd
          rw [hprior, Option.getD_some] at hadd
          exact hadd

end

/-! ## The rows of an identity -/

/-- What the rows of an identity weigh, each beyond the one before it. -/
def rowsTotal (hash : Cell → ℤ) (r : ℕ) : ℤ → List (ℕ × Row) → ℤ
  | _, [] => 0
  | prior, e :: es =>
      (if e.1 ≤ r then hash e.2.cell - prior else 0) + rowsTotal hash r (hash e.2.cell) es

theorem deltasUpTo_planRows (hash : Cell → ℤ) (r : ℕ) (prior : ℤ) (rows : List (ℕ × Row))
    (plan : Plan) :
    deltasUpTo (planRows hash prior rows plan).deltas r ≡
      deltasUpTo plan.deltas r + rowsTotal hash r prior rows [ZMOD setHashModulus] := by
  induction rows generalizing prior plan with
  | nil =>
      rw [rowsTotal, add_zero]
      exact Int.ModEq.refl _
  | cons e es ih =>
      obtain ⟨s, row⟩ := e
      rw [planRows, rowsTotal, ← add_assoc]
      exact (ih _ _).trans (Int.ModEq.add_right _ (deltasUpTo_addDelta _ _ _ _))

/-- **The differences add up to the cell in force.** -/
theorem rowsTotal_range' (hash : Cell → ℤ) (j : Journal) (id : String) (r s n : ℕ) :
    rowsTotal hash r (weigh hash (j.versions.before s id))
        ((List.range' s n).filterMap fun t => (j.rows.get? (t, id)).map fun row => (t, row)) =
      if s ≤ r then weigh hash (j.versions.before (min (s + n) (r + 1)) id)
        - weigh hash (j.versions.before s id) else 0 := by
  induction n generalizing s with
  | zero =>
      rw [range'_zero, filterMap_nil, rowsTotal]
      split
      · next hs => rw [add_zero, min_eq_left (le_succ_of_le hs), sub_self]
      · rfl
  | succ n ih =>
      have hnext := ih (s + 1)
      rw [Versions.before_succ, Nat.add_right_comm, Nat.add_assoc] at hnext
      rw [range'_succ, filterMap_cons]
      unfold Journal.versions at hnext ⊢
      cases hrow : j.rows.get? (s, id) with
      | none =>
          rw [hrow, Option.map_none, Option.none_or] at hnext
          dsimp only [Option.map_none]
          rw [hnext]
          rcases Nat.lt_trichotomy s r with hs | hs | hs
          · rw [if_pos (succ_le_of_lt hs), if_pos hs.le]
          · have hmin : min (s + (n + 1)) (r + 1) = s + 1 := by omega
            rw [if_neg (by omega), if_pos hs.le, hmin, Versions.before_succ]
            simp [hrow]
          · rw [if_neg (by omega), if_neg (by omega)]
      | some row =>
          rw [hrow, Option.map_some, Option.some_or, weigh_some] at hnext
          dsimp only [Option.map_some]
          rw [rowsTotal, hnext]
          rcases Nat.lt_trichotomy s r with hs | hs | hs
          · rw [if_pos hs.le, if_pos (succ_le_of_lt hs), if_pos hs.le]
            ring
          · have hmin : min (s + (n + 1)) (r + 1) = s + 1 := by omega
            rw [if_pos hs.le, if_neg (by omega), if_pos hs.le, hmin, Versions.before_succ]
            simp [hrow]
          · rw [if_neg (by omega), if_neg (by omega), if_neg (by omega), add_zero]

variable {r : ℕ}

theorem rowsTotal_history (hash : Cell → ℤ) (j : Journal) (id : String) (hr : r ≤ j.latest) :
    rowsTotal hash r 0 (j.history id) = weigh hash (j.at' r id) := by
  have h := rowsTotal_range' hash j id r 0 (j.latest + 1)
  have hmin : min (0 + (j.latest + 1)) (r + 1) = r + 1 := by omega
  rw [if_pos (Nat.zero_le r), hmin] at h
  unfold Journal.history
  rw [range_eq_range']
  exact h.trans (sub_zero _)

/-- The rows of some identities. -/
theorem deltasUpTo_planAllRows (hash : Cell → ℤ) (j : Journal) (hr : r ≤ j.latest)
    (ids : List String) (plan : Plan) :
    deltasUpTo (ids.foldl (fun plan id => planRows hash 0 (j.history id) plan) plan).deltas r ≡
      deltasUpTo plan.deltas r + (ids.map fun id => weigh hash (j.at' r id)).sum
      [ZMOD setHashModulus] := by
  induction ids generalizing plan with
  | nil =>
      rw [map_nil, sum_nil, add_zero]
      exact Int.ModEq.refl _
  | cons id ids ih =>
      rw [foldl_cons, map_cons, sum_cons, ← add_assoc, ← rowsTotal_history hash j id hr]
      exact (ih _).trans (Int.ModEq.add_right _ (deltasUpTo_planRows _ _ _ _ _))

/-! ## What is written to the journal -/

namespace Journal

variable {j j' : Journal} {r s : ℕ} {id x : String} {c : Cell} {p : ArchiveProjection}

theorem versions_set (j : Journal) (r : ℕ) (id : String) (row : Row) :
    ({ j with rows := j.rows.set (r, id) row } : Journal).versions =
      Versions.put j.versions r id row.cell := by
  funext s x
  unfold versions Versions.put
  dsimp only
  rw [Dict.get?_set]
  by_cases hkey : s = r ∧ x = id
  · rw [if_pos (Prod.ext hkey.1 hkey.2), if_pos hkey, Option.map_some]
  · rw [if_neg (fun heq => hkey ⟨congrArg Prod.fst heq, congrArg Prod.snd heq⟩), if_neg hkey]

theorem keyed_set (hkeyed : j.Keyed) {row : Row} (hr : r ≤ j.latest) (hid : row.cell.id = id) :
    ({ j with rows := j.rows.set (r, id) row } : Journal).Keyed := by
  intro key row' hget
  rw [Dict.get?_set] at hget
  split at hget
  · next hkey =>
    cases hget
    rw [hkey]
    exact ⟨hr, hid⟩
  · exact hkeyed key row' hget

theorem versions_insertVersion (j : Journal) (r : ℕ) (c : Cell) :
    (insertVersion j r c).versions = Versions.put j.versions r c.id c := versions_set _ _ _ _

theorem versions_deleteRows (j : Journal) (ids : List String) (s : ℕ) (x : String) :
    (deleteRows j ids).versions s x = if x ∈ ids then none else j.versions s x := by
  unfold versions deleteRows
  dsimp only
  rw [Dict.get?_filter_key (fun key : ℕ × String => decide (key.2 ∉ ids))]
  by_cases hx : x ∈ ids <;> simp [hx]

theorem keyed_deleteRows (hkeyed : j.Keyed) (ids : List String) : (deleteRows j ids).Keyed := by
  intro key row hget
  have hmem := mem_of_mem_filter (Dict.mem_entries_iff.2 hget)
  exact hkeyed key row (Dict.mem_entries_iff.1 hmem)

/-- Where a projection is of what is there, it is put in. -/
theorem versions_writeProjection (h : p.old.isSome → (j.versions p.revision p.new.id).isSome) :
    (writeProjection j p).versions = Versions.put j.versions p.revision p.new.id p.new := by
  unfold writeProjection
  split
  · exact versions_set _ _ _ _
  · next hold hrow =>
    unfold versions at h
    rw [hold, hrow] at h
    cases h rfl
  · exact versions_insertVersion _ _ _

theorem keyed_writeProjection (hkeyed : j.Keyed) (hr : p.revision ≤ j.latest) :
    (writeProjection j p).Keyed := by
  unfold writeProjection
  split
  · exact keyed_set hkeyed hr rfl
  · exact hkeyed
  · exact keyed_set hkeyed hr rfl

theorem writeProjection_latest (j : Journal) (p : ArchiveProjection) :
    (writeProjection j p).latest = j.latest := by
  unfold writeProjection
  split <;> rfl

theorem writeProjection_deltas (j : Journal) (p : ArchiveProjection) :
    (writeProjection j p).deltas = j.deltas := by
  unfold writeProjection
  split <;> rfl

/-! ### What is read for the plan -/

/-- The next version of an identity. -/
theorem following_some (h : j.following id r = some s) :
    r < s ∧ s ≤ j.latest ∧ (j.versions s id).isSome ∧
      ∀ t, r < t → t < s → j.versions t id = none := by
  unfold following at h
  obtain ⟨hsome, hmem, hbetween⟩ := List.find?_range'_eq_some.1 h
  rw [mem_range'_1] at hmem
  refine ⟨by omega, by omega, hsome, fun t hrt hts => ?_⟩
  have hnone := hbetween t (by omega) hts
  simpa using hnone

theorem following_none (h : j.following id r = none) {t : ℕ} (hrt : r < t) (ht : t ≤ j.latest) :
    j.versions t id = none := by
  unfold following at h
  have hnone := List.find?_range'_eq_none.1 h t (by omega) (by omega)
  simpa using hnone

end Journal

section LastUpTo

variable {ν : Type} {get planned held : ℕ → Option ν} {r s : ℕ} {v : ν} {e : ℕ × ν}

theorem lastUpTo_le (h : lastUpTo get r = some e) : e.1 ≤ r ∧ get e.1 = some e.2 := by
  induction r with
  | zero =>
      obtain ⟨v, hv, rfl⟩ := Option.map_eq_some_iff.1 h
      exact ⟨le_rfl, hv⟩
  | succ r ih =>
      unfold lastUpTo at h
      split at h
      · next v hv =>
        cases h
        exact ⟨le_rfl, hv⟩
      · obtain ⟨hle, hget⟩ := ih h
        exact ⟨le_succ_of_le hle, hget⟩

theorem lastUpTo_none (h : ∀ t ≤ r, get t = none) : lastUpTo get r = none := by
  by_contra hsome
  obtain ⟨e, he⟩ := Option.ne_none_iff_exists'.1 hsome
  obtain ⟨hle, hget⟩ := lastUpTo_le he
  rw [h e.1 hle] at hget
  cases hget

theorem lastUpTo_eq_none (h : lastUpTo get r = none) (hs : s ≤ r) : get s = none := by
  induction r with
  | zero =>
      rw [Nat.le_zero.1 hs]
      exact Option.map_eq_none_iff.1 h
  | succ r ih =>
      unfold lastUpTo at h
      split at h
      · cases h
      · next hnone =>
        rcases Nat.lt_or_eq_of_le hs with hlt | rfl
        · exact ih h (le_of_lt_succ hlt)
        · exact hnone

/-- Nothing is after the last one. -/
theorem lastUpTo_after (h : lastUpTo get r = some e) (hlt : e.1 < s) (hs : s ≤ r) :
    get s = none := by
  induction r with
  | zero => omega
  | succ r ih =>
      unfold lastUpTo at h
      split at h
      · cases h
        omega
      · next hnone =>
        rcases Nat.lt_or_eq_of_le hs with hsr | rfl
        · exact ih h (le_of_lt_succ hsr)
        · exact hnone

theorem lastUpTo_some (hle : s ≤ r) (hs : get s = some v)
    (hafter : ∀ t, s < t → t ≤ r → get t = none) : lastUpTo get r = some (s, v) := by
  induction r with
  | zero =>
      have hzero : s = 0 := Nat.le_zero.1 hle
      subst hzero
      unfold lastUpTo
      rw [hs]
      rfl
  | succ r ih =>
      unfold lastUpTo
      rcases Nat.lt_or_eq_of_le hle with hlt | heq
      · rw [hafter (r + 1) hlt le_rfl]
        exact ih (le_of_lt_succ hlt) fun t hst htr => hafter t hst (le_succ_of_le htr)
      · rw [← heq, hs]

theorem latest_eq_lastUpTo {κ : Type} (V : Versions κ ν) (k : κ) (r : ℕ) :
    Versions.latest V r k = (lastUpTo (fun s => V s k) r).map Prod.snd := by
  induction r with
  | zero =>
      unfold lastUpTo Versions.latest
      cases V 0 k <;> rfl
  | succ r ih =>
      rw [Versions.latest_succ, ih]
      conv_rhs => unfold lastUpTo
      cases V (r + 1) k <;> rfl

/-- Of what is planned and what is held, the newer one; what is planned before what it
takes the place of. -/
theorem lastUpTo_or (r : ℕ) :
    (lastUpTo (fun s => (planned s).or (held s)) r).map Prod.snd =
      match lastUpTo planned r, lastUpTo held r with
      | some q, none => some q.2
      | some q, some e => if e.1 ≤ q.1 then some q.2 else some e.2
      | none, e => e.map Prod.snd := by
  induction r with
  | zero =>
      unfold lastUpTo
      cases planned 0 <;> cases held 0 <;> simp
  | succ r ih =>
      unfold lastUpTo
      cases hplanned : planned (r + 1) with
      | some v =>
          dsimp only [Option.some_or]
          split
          · next heq _ =>
            cases heq
            rfl
          · next e heq hheld =>
            cases heq
            have hle : e.1 ≤ r + 1 := by
              split at hheld
              · cases hheld
                exact le_rfl
              · exact le_succ_of_le (lastUpTo_le hheld).1
            rw [if_pos hle]
            rfl
          · next heq => cases heq
      | none =>
          dsimp only [Option.none_or]
          cases hheld : held (r + 1) with
          | none => exact ih
          | some c =>
              dsimp only
              cases hq : lastUpTo planned r with
              | none => rfl
              | some q =>
                  have hlt := (lastUpTo_le hq).1
                  dsimp only
                  rw [if_neg (by omega)]
                  rfl

end LastUpTo

/-! ## The projections -/

/-- Projections in order: of one identity, no two at one revision. -/
def Ordered (ps : List ArchiveProjection) : Prop :=
  ps.Pairwise fun p q => p.revision ≤ q.revision ∧ (p.new.id = q.new.id → p.revision < q.revision)

/-- What is planned for a revision of an identity. -/
def plannedCell (ps : List ArchiveProjection) (s : ℕ) (id : String) : Option Cell :=
  (ps.find? fun q => q.revision = s ∧ q.new.id = id).map ArchiveProjection.new

/-- The journal with some projections written. -/
structure Written (j : Journal) (done : List ArchiveProjection) (j' : Journal) : Prop where
  keyed : j'.Keyed
  latest : j'.latest = j.latest
  versions : ∀ s id, j'.versions s id = (plannedCell done s id).or (j.versions s id)

/-- Projections of a journal: in order, and each of the version there is. -/
structure Projects (j : Journal) (ps : List ArchiveProjection) : Prop where
  ordered : Ordered ps
  within : ∀ p ∈ ps, p.revision ≤ j.latest
  old : ∀ p ∈ ps, p.old = j.versions p.revision p.new.id

/-- A projection is in force at a revision: no later version hides it. -/
def InForce (j : Journal) (p : ArchiveProjection) (r : ℕ) : Prop :=
  p.revision ≤ r ∧ ∀ s, j.following p.new.id p.revision = some s → r < s

section

variable {hash : Cell → ℤ} {j j₀ j' : Journal} {done rest ordered : List ArchiveProjection}
  {p : ArchiveProjection} {plan : Plan} {r s : ℕ} {id : String}

theorem plannedCell_append (ps : List ArchiveProjection) (p : ArchiveProjection) (s : ℕ)
    (id : String) : plannedCell (ps ++ [p]) s id =
      (plannedCell ps s id).or (if p.revision = s ∧ p.new.id = id then some p.new else none) := by
  unfold plannedCell
  rw [List.find?_append, Option.map_or, List.find?_singleton]
  congr 1
  by_cases hp : p.revision = s ∧ p.new.id = id <;> simp [hp]

theorem plannedCell_none (h : ∀ q ∈ done, q.new.id = id → q.revision ≠ s) :
    plannedCell done s id = none := by
  unfold plannedCell
  rw [Option.map_eq_none_iff, List.find?_eq_none]
  intro q hq hkey
  rw [decide_eq_true_eq] at hkey
  exact h q hq hkey.2 hkey.1

/-- The projections before one are of other versions. -/
theorem Ordered.done_lt (h : Ordered (done ++ p :: rest)) {q : ArchiveProjection} (hq : q ∈ done) :
    q.revision ≤ p.revision ∧ (q.new.id = p.new.id → q.revision < p.revision) :=
  (List.pairwise_append.1 h).2.2 q hq p mem_cons_self

/-- The last of some projections is the last one that is planned. -/
theorem lastUpTo_plannedCell (h : Ordered done) (hle : ∀ q ∈ done, q.new.id = id → q.revision ≤ r) :
    lastUpTo (fun s => plannedCell done s id) r =
      (done.filter fun q => q.new.id = id).getLast?.map fun q => (q.revision, q.new) := by
  induction done using List.reverseRecOn with
  | nil => exact lastUpTo_none fun _ _ => rfl
  | append_singleton ds q ih =>
      have hlast := (List.pairwise_append.1 h).2.2
      have hds : Ordered ds := (List.pairwise_append.1 h).1
      rw [filter_append]
      by_cases hq : q.new.id = id
      · rw [filter_cons_of_pos (by simpa using hq), filter_nil, List.getLast?_concat,
          Option.map_some]
        have hsome : plannedCell (ds ++ [q]) q.revision id = some q.new := by
          rw [plannedCell_append, if_pos ⟨rfl, hq⟩, plannedCell_none, Option.none_or]
          intro q' hq' hid heq
          have hlt := (hlast q' hq' q mem_cons_self).2 (hid.trans hq.symm)
          omega
        refine lastUpTo_some (hle q (by simp) hq) hsome fun t hqt _ => plannedCell_none ?_
        intro q' hq' _ heq
        rcases List.mem_append.1 hq' with hq' | hq'
        · have hrevision := (hlast q' hq' q mem_cons_self).1
          omega
        · rw [List.mem_singleton.1 hq'] at heq
          omega
      · rw [filter_cons_of_neg (by simpa using hq), filter_nil, append_nil,
          ← ih hds fun q' hq' => hle q' (mem_append_left _ hq')]
        congr 1
        funext s
        rw [plannedCell_append, if_neg (fun hkey => hq hkey.2), Option.or_none]

theorem Written.start (hkeyed : j.Keyed) : Written j [] j := ⟨hkeyed, rfl, fun _ _ => rfl⟩

/-- A version that is projected is still what it was. -/
theorem Written.unprojected (h : Written j₀ done j') (hdone : ∀ q ∈ done, q.new.id = id → q.revision ≠ s) :
    j'.versions s id = j₀.versions s id := by
  rw [h.versions, plannedCell_none hdone, Option.none_or]

theorem Written.put (h : Written j₀ done j') (hproj : Projects j₀ (done ++ p :: rest)) :
    (writeProjection j' p).versions = Versions.put j'.versions p.revision p.new.id p.new ∧
      Written j₀ (done ++ [p]) (writeProjection j' p) := by
  have hp : p ∈ done ++ p :: rest := mem_append_right _ mem_cons_self
  have hfresh : ∀ q ∈ done, q.new.id = p.new.id → q.revision ≠ p.revision := fun q hq hid =>
    ((hproj.ordered.done_lt hq).2 hid).ne
  have hold : j'.versions p.revision p.new.id = p.old :=
    (h.unprojected hfresh).trans (hproj.old p hp).symm
  have hput : (writeProjection j' p).versions =
      Versions.put j'.versions p.revision p.new.id p.new :=
    Journal.versions_writeProjection fun hsome => by rwa [hold]
  refine ⟨hput, Journal.keyed_writeProjection h.keyed ?_, ?_, fun s id => ?_⟩
  · rw [h.latest]
    exact hproj.within p hp
  · rw [Journal.writeProjection_latest, h.latest]
  · rw [hput, plannedCell_append]
    unfold Versions.put
    by_cases hkey : s = p.revision ∧ id = p.new.id
    · obtain ⟨rfl, rfl⟩ := hkey
      rw [if_pos ⟨rfl, rfl⟩, if_pos ⟨rfl, rfl⟩, plannedCell_none hfresh]
      rfl
    · rw [if_neg hkey, if_neg (fun heq => hkey ⟨heq.1.symm, heq.2.symm⟩), Option.or_none, h.versions]

/-- **What a projection takes the place of** is what its identity holds at its revision. -/
theorem at_eq_semanticOld (h : Written j₀ done j') (hproj : Projects j₀ (done ++ p :: rest))
    (hsame : ∀ s, j.versions s p.new.id = j₀.versions s p.new.id) :
    j'.at' p.revision p.new.id = semanticOld j (done ++ p :: rest) p := by
  have hlt := fun q hq => hproj.ordered.done_lt (q := q) hq
  have hdone : Ordered done := (List.pairwise_append.1 hproj.ordered).1
  have hfilter : ((done ++ p :: rest).filter fun q =>
      decide (q.revision < p.revision ∧ q.new.id = p.new.id)) =
      done.filter fun q => q.new.id = p.new.id := by
    have hrest : ∀ q ∈ p :: rest, p.revision ≤ q.revision := by
      intro q hq
      rcases List.mem_cons.1 hq with rfl | hq
      · exact le_rfl
      · have hpairs := (List.pairwise_append.1 hproj.ordered).2.1
        exact ((List.pairwise_cons.1 hpairs).1 q hq).1
    have hnil : ((p :: rest).filter fun q =>
        decide (q.revision < p.revision ∧ q.new.id = p.new.id)) = [] := by
      refine List.filter_eq_nil_iff.2 fun q hq hkey => ?_
      have hle := hrest q hq
      rw [decide_eq_true_eq] at hkey
      omega
    rw [filter_append, hnil, append_nil]
    refine filter_congr fun q hq => ?_
    by_cases hid : q.new.id = p.new.id
    · simp [hid, (hlt q hq).2 hid]
    · simp [hid]
  have hold : j'.versions p.revision p.new.id = p.old := by
    rw [h.unprojected fun q hq hid => ((hlt q hq).2 hid).ne]
    exact (hproj.old p (mem_append_right _ mem_cons_self)).symm
  unfold semanticOld Journal.at'
  rw [Versions.latest_eq_before, hold, hfilter]
  cases hcase : p.old with
  | some old => rfl
  | none =>
      rw [Option.none_or]
      dsimp only
      cases hrevision : p.revision with
      | zero =>
          have hnil : (done.filter fun q => decide (q.new.id = p.new.id)) = [] := by
            refine List.filter_eq_nil_iff.2 fun q hq hid => ?_
            have hq0 := (hlt q hq).2 (by simpa using hid)
            omega
          rw [hnil]
          rfl
      | succ n =>
          have hle : ∀ q ∈ done, q.new.id = p.new.id → q.revision ≤ n := fun q hq hid => by
            have hq0 := (hlt q hq).2 hid
            omega
          have hversions : (fun s => j'.versions s p.new.id) =
              fun s => (plannedCell done s p.new.id).or (j.versions s p.new.id) := by
            funext s
            rw [h.versions, hsame]
          have hbefore : j'.versions.before (n + 1) p.new.id = j'.versions.latest n p.new.id := rfl
          have hprior : j.priorRow p.new.id (n + 1) =
              lastUpTo (fun s => j.versions s p.new.id) n := rfl
          rw [hbefore, hprior, latest_eq_lastUpTo, hversions, lastUpTo_or,
            lastUpTo_plannedCell hdone hle]
          cases (done.filter fun q => decide (q.new.id = p.new.id)).getLast? <;>
            cases lastUpTo (fun s => j.versions s p.new.id) n <;> rfl

/-! ### The balance -/

/-- Where a projection is in force, the delta is what its identity loses. -/
theorem deltasUpTo_planProjection (hash : Cell → ℤ) (j : Journal) (ps : List ArchiveProjection)
    (plan : Plan) (p : ArchiveProjection) (r : ℕ) :
    (InForce j p r → deltasUpTo (planProjection hash j ps plan p).deltas r ≡
        deltasUpTo plan.deltas r + (weigh hash (semanticOld j ps p) - hash p.new)
        [ZMOD setHashModulus]) ∧
      (¬InForce j p r → deltasUpTo (planProjection hash j ps plan p).deltas r ≡
        deltasUpTo plan.deltas r [ZMOD setHashModulus]) := by
  unfold planProjection InForce
  dsimp only
  have hmod := Int.mod_modEq (weigh hash (semanticOld j ps p) - hash p.new) setHashModulus
  generalize (weigh hash (semanticOld j ps p) - hash p.new) % setHashModulus = delta at hmod ⊢
  have hadd := deltasUpTo_addDelta plan.deltas p.revision delta r
  cases hfollowing : j.following p.new.id p.revision with
  | none =>
      refine ⟨fun hforce => ?_, fun hforce => ?_⟩
      · rw [if_pos hforce.1] at hadd
        exact hadd.trans (hmod.add_left _)
      · rw [if_neg fun hle => hforce ⟨hle, fun s hs => nomatch hs⟩, add_zero] at hadd
        exact hadd
  | some s =>
      obtain ⟨hlt, -⟩ := Journal.following_some hfollowing
      have hboth := (deltasUpTo_addDelta (addDelta plan.deltas p.revision delta) s (-delta) r).trans
        (hadd.add_right _)
      refine ⟨fun hforce => ?_, fun hforce => ?_⟩
      · have hrs := hforce.2 s rfl
        rw [if_pos hforce.1, if_neg (by omega), add_zero] at hboth
        exact hboth.trans (hmod.add_left _)
      · refine hboth.trans ?_
        by_cases hle : p.revision ≤ r
        · have hsr : s ≤ r := by
            by_contra hsr
            refine hforce ⟨hle, fun t ht => ?_⟩
            cases ht
            omega
          rw [if_pos hle, if_pos hsr, add_neg_cancel_right]
        · rw [if_neg hle, if_neg (by omega), add_zero, add_zero]

/-- Where a projection is in force, its identity holds the new cell; elsewhere nothing
changes. -/
theorem liveSum_writeProjection (hash : Cell → ℤ) (h : Written j₀ done j')
    (hproj : Projects j₀ (done ++ p :: rest))
    (hsame : ∀ s, j.versions s p.new.id = j₀.versions s p.new.id) (hr : r ≤ j.latest) :
    (InForce j p r → liveSum hash (writeProjection j' p) r =
        liveSum hash j' r - weigh hash (semanticOld j (done ++ p :: rest) p) + hash p.new) ∧
      (¬InForce j p r → liveSum hash (writeProjection j' p) r = liveSum hash j' r) := by
  obtain ⟨hput, hwritten⟩ := h.put hproj
  -- no projection before this one is of a later version
  have hafter : ∀ t, p.revision < t → j'.versions t p.new.id = j.versions t p.new.id := by
    intro t hrt
    rw [hsame, h.unprojected]
    intro q hq _ heq
    have hle := (hproj.ordered.done_lt hq).1
    omega
  refine ⟨fun hforce => ?_, fun hforce => ?_⟩
  · have hnone : ∀ t, p.revision < t → t ≤ r → j'.versions t p.new.id = none := by
      intro t hrt htr
      rw [hafter t hrt]
      cases hfollowing : j.following p.new.id p.revision with
      | none => exact Journal.following_none hfollowing hrt (htr.trans hr)
      | some s =>
          obtain ⟨-, -, -, hbetween⟩ := Journal.following_some hfollowing
          exact hbetween t hrt (lt_of_le_of_lt htr (hforce.2 s hfollowing))
    have hat : ∀ x, (writeProjection j' p).at' r x =
        if x = p.new.id then some p.new else j'.at' r x := by
      intro x
      unfold Journal.at'
      rw [hput]
      split
      · next hx =>
        rw [hx]
        exact Versions.latest_put_seen hforce.1 hnone
      · next hx => exact Versions.latest_put_other (.inl hx)
    have hold : j'.at' r p.new.id = semanticOld j (done ++ p :: rest) p := by
      rw [← at_eq_semanticOld h hproj hsame]
      exact Versions.latest_eq_of_none hforce.1 hnone
    rw [liveSum_set h.keyed hwritten.keyed hat, hold]
  · refine liveSum_congr h.keyed hwritten.keyed fun x => ?_
    unfold Journal.at'
    rw [hput]
    by_cases hx : x = p.new.id
    · subst hx
      by_cases hle : p.revision ≤ r
      · cases hfollowing : j.following p.new.id p.revision with
        | none => exact absurd ⟨hle, fun s hs => by rw [hfollowing] at hs; cases hs⟩ hforce
        | some s =>
            obtain ⟨hlt, -, hsome, -⟩ := Journal.following_some hfollowing
            have hsr : s ≤ r := by
              by_contra hsr
              refine hforce ⟨hle, fun t ht => ?_⟩
              rw [hfollowing] at ht
              cases ht
              omega
            exact Versions.latest_put_hidden hlt hsr (by rwa [hafter s hlt])
      · exact Versions.latest_put_other (.inr (by omega))
    · exact Versions.latest_put_other (.inl hx)

/-- **A projection keeps the balance.** -/
theorem projection_step (hash : Cell → ℤ) (h : Written j₀ done j')
    (hproj : Projects j₀ (done ++ p :: rest))
    (hsame : ∀ s, j.versions s p.new.id = j₀.versions s p.new.id) (hr : r ≤ j.latest) :
    deltasUpTo (planProjection hash j (done ++ p :: rest) plan p).deltas r
        + liveSum hash (writeProjection j' p) r ≡
      deltasUpTo plan.deltas r + liveSum hash j' r [ZMOD setHashModulus] := by
  obtain ⟨hin, hout⟩ := deltasUpTo_planProjection hash j (done ++ p :: rest) plan p r
  obtain ⟨hlivein, hliveout⟩ := liveSum_writeProjection hash h hproj hsame hr
  by_cases hforce : InForce j p r
  · rw [hlivein hforce]
    refine ((hin hforce).add_right _).trans ?_
    have hring : ∀ a b c d : ℤ, a + (b - c) + (d - b + c) = a + d := fun a b c d => by ring
    rw [hring]
  · rw [hliveout hforce]
    exact (hout hforce).add_right _

/-- **All projections keep the balance.** -/
theorem projections_balance (hash : Cell → ℤ) (plan : Plan) (done : List ArchiveProjection)
    (hproj : Projects j₀ ordered)
    (hsame : ∀ p ∈ ordered, ∀ s, j.versions s p.new.id = j₀.versions s p.new.id)
    (hr : r ≤ j.latest) (hordered : ordered = done ++ rest) (h : Written j₀ done j') :
    deltasUpTo (rest.foldl (planProjection hash j ordered) plan).deltas r
        + liveSum hash (rest.foldl writeProjection j') r ≡
      deltasUpTo plan.deltas r + liveSum hash j' r [ZMOD setHashModulus] := by
  induction rest generalizing done j' plan with
  | nil => exact Int.ModEq.refl _
  | cons p rest ih =>
      subst hordered
      have hp : p ∈ done ++ p :: rest := mem_append_right _ mem_cons_self
      rw [foldl_cons, foldl_cons]
      exact (ih _ _ (append_cons done p rest) (h.put hproj).2).trans
        (projection_step hash h hproj (hsame p hp) hr)

theorem written_all (hproj : Projects j₀ ordered) (hordered : ordered = done ++ rest)
    (h : Written j₀ done j') : Written j₀ ordered (rest.foldl writeProjection j') := by
  induction rest generalizing done j' with
  | nil =>
      rw [hordered, append_nil]
      exact h
  | cons p rest ih =>
      subst hordered
      exact ih (append_cons done p rest) (h.put hproj).2

end

end ArchHub.Cells

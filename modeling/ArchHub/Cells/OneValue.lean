import Mathlib
import ArchHub.Cells.Accumulator

/-!
# One accumulator

Whichever way the accumulator of a snapshot is computed, it is the one value.

* `keepers`: the calls on a store and on its process, in any order.
* `Content`: a mapping holds the cells of a revision.
* `Agrees`: what is remembered and what is recorded is the sum over the cells.  Every
  step keeps it.
* `accumulators_agree`: so every way to the accumulator ends at the same value.
-/

namespace ArchHub.Cells

open Lib List

/-! ## The arithmetic of a revision -/

variable {written : List Cell} {before : List Cell}

section

variable (hash : Cell → ℤ) {cells cells' : Dict String Cell}

theorem setAccumulator_values (cells : Dict String Cell) :
    setAccumulator hash cells.values = cells.total (fun _ => hash) % setHashModulus := by
  rw [Dict.total_values]
  rfl

/-- **The order of the cells does not matter.** -/
theorem setAccumulator_congr (h : ∀ id, cells.get? id = cells'.get? id) :
    setAccumulator hash cells.values = setAccumulator hash cells'.values := by
  rw [setAccumulator_values, setAccumulator_values, Dict.total_congr _ h]

theorem accumulator_steps (total before after : ℤ) :
    ((total % setHashModulus - before) % setHashModulus + after) % setHashModulus =
      (total - before + after) % setHashModulus := by
  rw [Int.emod_add_emod, Int.add_emod, Int.sub_emod, Int.emod_emod_of_dvd _ (dvd_refl _),
    ← Int.sub_emod, ← Int.add_emod]

/-- The cells of a mapping under some identities. -/
theorem sum_filterMap (get : String → Option Cell) (cs : List Cell) :
    ((cs.filterMap fun c => get c.id).map hash).sum = (cs.map fun c => weigh hash (get c.id)).sum := by
  induction cs with
  | nil => rfl
  | cons c cs ih =>
      rw [filterMap_cons, map_cons, sum_cons, ← ih]
      cases get c.id with
      | none => exact (zero_add _).symm
      | some held => exact sum_cons

/-- The cells with some of them written. -/
def overlaid (cells : Dict String Cell) (written : List Cell) : Dict String Cell :=
  cells.update (written.map fun c => (c.id, c))

/-- **What is written moves the accumulator.** -/
theorem setAccumulator_overlaid (hnodup : (written.map Cell.id).Nodup)
    (hbefore : (before.map hash).sum = (written.map fun c => weigh hash (cells.get? c.id)).sum) :
    setAccumulator hash (overlaid cells written).values =
      accumulatorAdd hash (accumulatorRemove hash (setAccumulator hash cells.values) before) written := by
  have hkeys := nodup_keyed hnodup
  unfold accumulatorAdd accumulatorRemove
  rw [setAccumulator_values, setAccumulator_values, accumulator_steps, overlaid,
    Dict.total_update _ cells hkeys, hbefore, map_map, map_map]
  rfl

/-- What was written can be taken back. -/
theorem setAccumulator_restored (hnodup : (written.map Cell.id).Nodup) :
    accumulatorAdd hash (accumulatorRemove hash
        (setAccumulator hash (overlaid cells written).values) written)
      (written.filterMap fun c => cells.get? c.id) = setAccumulator hash cells.values := by
  have hkeys := nodup_keyed hnodup
  unfold accumulatorAdd accumulatorRemove
  rw [setAccumulator_values, setAccumulator_values, accumulator_steps, overlaid,
    Dict.total_update _ cells hkeys, sum_filterMap, map_map, map_map]
  congr 1
  simp only [Function.comp_def]
  ring

end

/-! ## Journals -/

namespace Journal

variable {j : Journal} {r s : ℕ} {id : String} {cs : List Cell}

/-- Every row is of a revision there is, and under the identity of its cell. -/
def Keyed (j : Journal) : Prop :=
  ∀ key row, j.rows.get? key = some row → key.1 ≤ j.latest ∧ row.cell.id = key.2

theorem find_rowsOf (n : ℕ) :
    (Assoc.find (rowsOf r n cs) (s, id)).map Row.cell = if s = r then cellOf cs id else none := by
  induction cs generalizing n with
  | nil => simp [rowsOf, cellOf]
  | cons c cs ih =>
      rw [rowsOf, Assoc.find_cons]
      by_cases hr : s = r
      · subst hr
        rw [if_pos rfl] at ih ⊢
        unfold cellOf at ih ⊢
        rw [List.find?_cons]
        by_cases hid : c.id = id
        · simp [hid]
        · simp [hid, ih]
      · rw [if_neg hr] at ih ⊢
        rw [if_neg (fun heq => hr (congrArg Prod.fst heq).symm)]
        exact ih (n + 1)

theorem keys_rowsOf (n : ℕ) : (rowsOf r n cs).map Prod.fst = cs.map fun c => (r, c.id) := by
  induction cs generalizing n with
  | nil => rfl
  | cons c cs ih => rw [rowsOf, map_cons, map_cons, ih]

theorem nodup_rowsOf (n : ℕ) (h : (cs.map Cell.id).Nodup) :
    ((rowsOf r n cs).map Prod.fst).Nodup := by
  rw [keys_rowsOf]
  exact List.Nodup.of_map Prod.snd (by simpa [Function.comp_def] using h)

/-- **What an append adds is the next revision.** -/
theorem versions_append (hkeyed : j.Keyed) (h : (cs.map Cell.id).Nodup) :
    (j.append cs).versions s id = if s = j.latest + 1 then cellOf cs id else j.versions s id := by
  unfold versions append
  dsimp only
  rw [Dict.get?_update _ _ (nodup_rowsOf _ h), Option.map_or, find_rowsOf]
  by_cases hs : s = j.latest + 1
  · rw [if_pos hs, if_pos hs]
    have hnone : j.rows.get? (s, id) = none := by
      cases hget : j.rows.get? (s, id) with
      | none => rfl
      | some row =>
          have := (hkeyed _ _ hget).1
          dsimp only at this
          omega
    rw [hnone, Option.map_none, Option.or_none]
  · rw [if_neg hs, if_neg hs, Option.none_or]

theorem mem_rowsOf {n : ℕ} {key : ℕ × String} {row : Row} (h : (key, row) ∈ rowsOf r n cs) :
    key.1 = r ∧ row.cell.id = key.2 := by
  induction cs generalizing n with
  | nil => cases h
  | cons c cs ih =>
      rw [rowsOf] at h
      rcases List.mem_cons.1 h with h | h
      · cases h
        exact ⟨rfl, rfl⟩
      · exact ih h

theorem keyed_append (hkeyed : j.Keyed) (h : (cs.map Cell.id).Nodup) : (j.append cs).Keyed := by
  intro key row hget
  unfold append at hget ⊢
  dsimp only at hget ⊢
  rw [Dict.get?_update _ _ (nodup_rowsOf _ h), Option.or_eq_some_iff] at hget
  rcases hget with hget | ⟨-, hget⟩
  · obtain ⟨hrevision, hid⟩ := mem_rowsOf (Assoc.mem_of_find hget)
    exact ⟨hrevision.le, hid⟩
  · obtain ⟨hrevision, hid⟩ := hkeyed key row hget
    exact ⟨Nat.le_succ_of_le hrevision, hid⟩

/-- The revisions there were do not change. -/
theorem at_append (hkeyed : j.Keyed) (h : (cs.map Cell.id).Nodup) (hr : r ≤ j.latest) :
    (j.append cs).at' r id = j.at' r id := by
  refine Versions.latest_congr fun s hs => ?_
  rw [versions_append hkeyed h, if_neg (by omega)]

/-- The next revision. -/
theorem at_append_succ (hkeyed : j.Keyed) (h : (cs.map Cell.id).Nodup) :
    (j.append cs).at' (j.latest + 1) id = (cellOf cs id).or (j.at' j.latest id) := by
  unfold at'
  rw [Versions.latest_succ, versions_append hkeyed h, if_pos rfl]
  congr 1
  exact at_append hkeyed h le_rfl

/-- What was written at a revision is what its versions are. -/
theorem written_spec (hkeyed : j.Keyed) (r : ℕ) :
    ((j.written r).map Cell.id).Nodup ∧ ∀ id, cellOf (j.written r) id = j.versions r id := by
  have hmem : ∀ e ∈ j.rows.entries.filter fun e => e.1.1 = r, e.1.1 = r ∧ e.2.cell.id = e.1.2 := by
    intro e he
    obtain ⟨hentry, hrevision⟩ := List.mem_filter.1 he
    exact ⟨by simpa using hrevision, (hkeyed e.1 e.2 (Dict.mem_entries_iff.1 hentry)).2⟩
  have hnodup : ((j.written r).map Cell.id).Nodup := by
    have hids : (j.written r).map Cell.id =
        (j.rows.entries.filter fun e => e.1.1 = r).map fun e => e.1.2 := by
      unfold written
      rw [map_map]
      exact map_congr_left fun e he => (hmem e he).2
    rw [hids]
    refine List.Nodup.map_on ?_ ((List.Nodup.of_map _ j.rows.nodup).filter _)
    intro e he e' he' heq
    have hkey : e.1 = e'.1 := Prod.ext ((hmem e he).1.trans (hmem e' he').1.symm) heq
    have hget := Dict.mem_entries_iff.1 (mem_of_mem_filter he)
    have hget' := Dict.mem_entries_iff.1 (mem_of_mem_filter he')
    rw [hkey, hget'] at hget
    exact Prod.ext hkey (Option.some.inj hget).symm
  refine ⟨hnodup, fun id => ?_⟩
  unfold versions
  ext c
  rw [cellOf_eq_some hnodup, Option.map_eq_some_iff]
  constructor
  · rintro ⟨hc, hid⟩
    obtain ⟨e, he, rfl⟩ := List.mem_map.1 hc
    obtain ⟨hrevision, hcell⟩ := hmem e he
    refine ⟨e.2, Dict.mem_entries_iff.1 ?_, rfl⟩
    have hkey : (r, id) = e.1 := Prod.ext hrevision.symm (hid.symm.trans hcell)
    rw [hkey]
    exact mem_of_mem_filter he
  · rintro ⟨row, hrow, rfl⟩
    have hentry := Dict.mem_entries_iff.2 hrow
    exact ⟨List.mem_map.2 ⟨_, List.mem_filter.2 ⟨hentry, by simp⟩, rfl⟩, (hkeyed _ _ hrow).2⟩

end Journal

/-! ## Stores -/

/-- A mapping holds the cells of a revision. -/
def Content (j : Journal) (r : ℕ) (cells : Dict String Cell) : Prop :=
  ∀ id, cells.get? id = j.at' r id

/-- A number is the accumulator of a revision. -/
def IsAccumulator (hash : Cell → ℤ) (j : Journal) (r : ℕ) (accumulator : ℤ) : Prop :=
  ∀ cells, Content j r cells → accumulator = setAccumulator hash cells.values

/-- What is remembered and what is recorded is the sum over the cells of its revision. -/
structure Agrees (hash : Cell → ℤ) (w : CellStore) : Prop where
  keyed : w.journal.Keyed
  live : w.journal.deltas = .empty
  revision : w.revision ≤ w.journal.latest
  memory : w.backing = .memory → w.revision = w.journal.latest
  held : ∀ r v, w.held.get? r = some v → r ≤ w.journal.latest ∧ IsAccumulator hash w.journal r v
  recorded : ∀ r row, w.sidecar.get? r = some row →
    r ≤ w.journal.latest ∧ IsAccumulator hash w.journal r row.accumulator

variable {hash : Cell → ℤ} {j : Journal} {w : CellStore} {r : ℕ} {cells cells' : Dict String Cell}
  {v : ℤ} {io : Sidecar} {w' : CellStore} {q : CellStore.Query} {cs create replace : List Cell}

theorem cellOf_overlaid (hnodup : (written.map Cell.id).Nodup) (id : String) :
    (overlaid cells written).get? id = (cellOf written id).or (cells.get? id) :=
  get?_update_cells cells hnodup id

/-- The next revision is this one, overlaid with what is written at it. -/
theorem content_succ (hkeyed : j.Keyed) (h : Content j r cells) :
    Content j (r + 1) (overlaid cells (j.written (r + 1))) := by
  obtain ⟨hnodup, hcell⟩ := j.written_spec hkeyed (r + 1)
  intro id
  rw [cellOf_overlaid hnodup, hcell, h id]
  rfl

theorem content_append (hkeyed : j.Keyed) (hnodup : (written.map Cell.id).Nodup)
    (h : Content j j.latest cells) :
    Content (j.append written) (j.latest + 1) (overlaid cells written) := by
  intro id
  rw [cellOf_overlaid hnodup, Journal.at_append_succ hkeyed hnodup, h id]

/-- Two mappings of one revision have one accumulator. -/
theorem Content.accumulator_eq (h : Content j r cells) (h' : Content j r cells') :
    setAccumulator hash cells.values = setAccumulator hash cells'.values :=
  setAccumulator_congr hash fun id => (h id).trans (h' id).symm

/-- The cells of a revision, as a mapping. -/
def Journal.cellsAt (j : Journal) : ℕ → Dict String Cell
  | 0 => overlaid .empty (j.written 0)
  | r + 1 => overlaid (j.cellsAt r) (j.written (r + 1))

theorem content_cellsAt (hkeyed : j.Keyed) (r : ℕ) : Content j r (j.cellsAt r) := by
  induction r with
  | zero =>
      obtain ⟨hnodup, hcell⟩ := j.written_spec hkeyed 0
      intro id
      rw [Journal.cellsAt, cellOf_overlaid hnodup, hcell, Dict.get?_empty, Option.or_none]
      rfl
  | succ r ih => exact content_succ hkeyed ih

theorem IsAccumulator.of_content (h : Content j r cells) (hv : v = setAccumulator hash cells.values) :
    IsAccumulator hash j r v := fun _ h' => hv.trans (h.accumulator_eq h')

/-- What is appended changes no accumulator there was. -/
theorem IsAccumulator.append (hkeyed : j.Keyed) (hnodup : (written.map Cell.id).Nodup)
    (hr : r ≤ j.latest) (h : IsAccumulator hash j r v) :
    IsAccumulator hash (j.append written) r v := fun cells hcells =>
  h cells fun id => (hcells id).trans (Journal.at_append hkeyed hnodup hr)

theorem archivedSetDelta_live (h : j.deltas = .empty) (r : ℕ) : j.archivedSetDelta r = 0 := by
  unfold Journal.archivedSetDelta
  rw [h]
  exact Int.zero_emod _

theorem archivedSetDeltaAt_live (h : j.deltas = .empty) (r : ℕ) : j.archivedSetDeltaAt r = 0 := by
  unfold Journal.archivedSetDeltaAt
  rw [h]
  exact Int.zero_emod _

theorem setAccumulator_mod (cs : List Cell) :
    setAccumulator hash cs % setHashModulus = setAccumulator hash cs :=
  Int.emod_emod_of_dvd _ (dvd_refl _)

namespace Agrees

/-- **Summing up anew** gives the sum over the mapping. -/
theorem fold_eq (h : Agrees hash w) (r : ℕ) (cells : Dict String Cell) :
    w.fold hash r cells = setAccumulator hash cells.values := by
  unfold CellStore.fold
  rw [archivedSetDelta_live h.live, add_zero, setAccumulator_mod]

/-- **Deriving** an accumulator from the next one gives the sum over the mapping. -/
theorem derive_eq (h : Agrees hash w) (hcells : Content w.journal r cells)
    (hv : IsAccumulator hash w.journal (r + 1) v) :
    w.derive hash v r cells = setAccumulator hash cells.values := by
  obtain ⟨hnodup, -⟩ := w.journal.written_spec h.keyed (r + 1)
  unfold CellStore.derive
  dsimp only
  rw [archivedSetDeltaAt_live h.live, sub_zero, hv _ (content_succ h.keyed hcells),
    setAccumulator_restored hash hnodup, setAccumulator_mod]

end Agrees

theorem get?_lastEntries {n : ℕ} {d : Dict ℕ ℤ} (h : (lastEntries n d).get? r = some v) :
    d.get? r = some v :=
  Dict.mem_entries_iff.1 (mem_of_mem_drop (Dict.mem_entries_iff.2 h))

@[simp] theorem get?_moveToEnd (d : Dict ℕ ℤ) (r s : ℕ) : (moveToEnd d r).get? s = d.get? s := by
  unfold moveToEnd
  split
  · next v hv =>
    by_cases hs : s = r
    · rw [hs, Dict.get?_set_self, hv]
    · rw [Dict.get?_set_of_ne _ _ hs, Dict.get?_erase, if_neg hs]
  · rfl

/-- What is remembered was, or is what is remembered now. -/
theorem held_of_remember {s : ℕ} {u : ℤ} (h : (w.remember r v).held.get? s = some u) :
    s = r ∧ u = v ∨ w.held.get? s = some u := by
  replace h := get?_lastEntries h
  rw [get?_moveToEnd, Dict.get?_set] at h
  split at h
  · next hs => exact Or.inl ⟨hs, (Option.some.inj h).symm⟩
  · exact Or.inr h

theorem Agrees.remember (h : Agrees hash w) (hr : r ≤ w.journal.latest)
    (hv : IsAccumulator hash w.journal r v) : Agrees hash (w.remember r v) where
  keyed := h.keyed
  live := h.live
  revision := h.revision
  memory := h.memory
  held s u hu := by
    rcases held_of_remember hu with ⟨rfl, rfl⟩ | hu
    · exact ⟨hr, hv⟩
    · exact h.held s u hu
  recorded := h.recorded

theorem Agrees.touch (h : Agrees hash w) (r : ℕ) :
    Agrees hash { w with held := moveToEnd w.held r } where
  keyed := h.keyed
  live := h.live
  revision := h.revision
  memory := h.memory
  held s u hu := by
    rw [get?_moveToEnd] at hu
    exact h.held s u hu
  recorded := h.recorded

theorem Agrees.record {written : Option ℕ} (h : Agrees hash w) (hr : r ≤ w.journal.latest)
    (hv : IsAccumulator hash w.journal r v) (hrecord : w.record io r v written = some w') :
    Agrees hash w' ∧ w'.journal = w.journal := by
  unfold CellStore.record at hrecord
  split at hrecord
  · cases hrecord
    exact ⟨h, rfl⟩
  · cases hrecord
  · split at hrecord
    · cases hrecord
      refine ⟨⟨h.keyed, h.live, h.revision, h.memory, h.held, fun s row hrow => ?_⟩, rfl⟩
      dsimp only at hrow
      split at hrow
      · rw [Dict.get?_set] at hrow
        split at hrow
        · next hs =>
          cases hrow
          rw [hs]
          exact ⟨hr, hv⟩
        · exact h.recorded s row hrow
      · exact h.recorded s row hrow
    · cases hrecord
      exact ⟨h, rfl⟩

/-! ## The calls -/

/-- A snapshot of the store; or, claiming the revision of the head, any mapping. -/
def OfStore (w : CellStore) (q : CellStore.Query) : Prop :=
  q.revision = w.revision ∧ q.same = false ∨
    q.revision ≤ w.revision ∧ Content w.journal q.revision q.cells

/-- What a query leaves. -/
structure Answered (hash : Cell → ℤ) (w : CellStore) (q : CellStore.Query) (result : Option ℤ)
    (w' : CellStore) : Prop where
  agrees : Agrees hash w'
  journal : w'.journal = w.journal
  value : ∀ v, result = some v → v = setAccumulator hash q.cells.values

theorem Agrees.recorded_eq (h : Agrees hash w) (hrecorded : w.recorded io r = some (some v)) :
    r ≤ w.journal.latest ∧ IsAccumulator hash w.journal r v := by
  unfold CellStore.recorded at hrecorded
  split at hrecorded
  · cases hrecorded
  · split at hrecorded <;> cases hrecorded
  · split at hrecorded
    · split at hrecorded
      · cases hrecorded
      · next row hrow =>
        split at hrecorded
        · cases hrecorded
          exact h.recorded r row hrow
        · cases hrecorded
    · cases hrecorded

/-- **Whichever way a query takes, its answer is the sum over the mapping.** -/
theorem Agrees.setAccumulator_spec (h : Agrees hash w) (hq : OfStore w q) :
    Answered hash w q (w.setAccumulator hash q).1 (w.setAccumulator hash q).2 := by
  unfold CellStore.setAccumulator
  split
  · refine ⟨h, rfl, fun v hv => ?_⟩
    rw [← Option.some.inj hv]
    exact h.fold_eq _ _
  · next hforeign =>
    obtain ⟨hle, hcontent⟩ := hq.resolve_left hforeign
    have hlatest : q.revision ≤ w.journal.latest := hle.trans h.revision
    split
    · next held hheld =>
      refine ⟨h.touch _, rfl, fun v hv => ?_⟩
      rw [← Option.some.inj hv]
      exact (h.held _ _ hheld).2 _ hcontent
    · split
      · next above habove _ =>
        have hderive := h.derive_eq hcontent (h.held _ _ habove).2
        refine ⟨h.remember hlatest (.of_content hcontent hderive), rfl, fun v hv => ?_⟩
        rw [← Option.some.inj hv]
        exact hderive
      · split
        · exact ⟨h, rfl, fun _ hv => nomatch hv⟩
        · next accumulator hrecorded =>
          obtain ⟨hr, hvalue⟩ := h.recorded_eq hrecorded
          refine ⟨h.remember hr hvalue, rfl, fun v hv => ?_⟩
          rw [← Option.some.inj hv]
          exact hvalue _ hcontent
        · dsimp only
          have hfold := h.fold_eq q.revision q.cells
          split
          · exact ⟨h, rfl, fun _ hv => nomatch hv⟩
          · next w' hrecord =>
            have hvalue : IsAccumulator hash w.journal q.revision (w.fold hash q.revision q.cells) :=
              .of_content hcontent hfold
            obtain ⟨h', hjournal⟩ := h.record hlatest hvalue hrecord
            refine ⟨h'.remember (by rw [hjournal]; exact hlatest) (by rw [hjournal]; exact hvalue),
              hjournal, fun v hv => ?_⟩
            rw [← Option.some.inj hv]
            exact hfold

theorem sum_mapM {get : String → Option Cell} (h : (cs.mapM fun c => get c.id) = some before) :
    (before.map hash).sum = (cs.map fun c => weigh hash (get c.id)).sum := by
  induction cs generalizing before with
  | nil =>
      cases h
      rfl
  | cons c cs ih =>
      rw [mapM_cons] at h
      obtain ⟨held, hheld, h⟩ := Option.bind_eq_some_iff.1 h
      obtain ⟨rest, hrest, h⟩ := Option.bind_eq_some_iff.1 h
      cases h
      rw [map_cons, map_cons, sum_cons, sum_cons, ih hrest, hheld, weigh_some]

theorem sum_fresh {base : Lookup} (h : ∀ c ∈ cs, base c.id = none) :
    (cs.map fun c => weigh hash (base c.id)).sum = 0 := by
  refine sum_eq_zero fun n hn => ?_
  obtain ⟨c, hc, rfl⟩ := List.mem_map.1 hn
  rw [h c hc, weigh_none]

/-- **The accumulator that a commit leaves** is the one of the next revision. -/
theorem nextAccumulator_spec (h : Agrees hash w) (hhead : w.journal.latest = w.revision)
    (hdelta : delta w.base create replace = .ok written)
    (hv : w.nextAccumulator hash replace written = some v) :
    IsAccumulator hash (w.journal.append written) (w.revision + 1) v := by
  have hchecked := delta_ok hdelta
  have hnodup := hchecked.written_nodup
  have hcontent : Content w.journal w.journal.latest (w.journal.cellsAt w.revision) := by
    rw [hhead]
    exact content_cellsAt h.keyed w.revision
  obtain ⟨held, hheld, hvalue⟩ := Option.map_eq_some_iff.1 hv
  have hbase : ∀ id, (w.journal.cellsAt w.revision).get? id = w.base id :=
    content_cellsAt h.keyed w.revision
  have hbefore : (((CellStore.changedOf w.base replace).filterMap fun c => w.base c.id).map hash).sum =
      (written.map fun c => weigh hash ((w.journal.cellsAt w.revision).get? c.id)).sum := by
    simp only [hbase]
    rw [sum_filterMap, hchecked.shape, map_append, sum_append, sum_fresh hchecked.fresh, zero_add]
    rfl
  have hnext := content_append h.keyed hnodup hcontent
  rw [hhead] at hnext
  refine .of_content hnext ?_
  rw [setAccumulator_overlaid hash hnodup hbefore, ← hvalue,
    (h.held _ _ hheld).2 _ (content_cellsAt h.keyed w.revision)]

theorem Agrees.append (h : Agrees hash w) (hhead : w.journal.latest = w.revision)
    (hnodup : (written.map Cell.id).Nodup) {revision : ℕ} (hle : revision ≤ w.revision + 1)
    (hmemory : w.backing = .memory → revision = w.revision + 1) :
    Agrees hash { w with journal := w.journal.append written, revision := revision } where
  keyed := Journal.keyed_append h.keyed hnodup
  live := h.live
  revision := by
    rw [← hhead] at hle
    exact hle
  memory hm := by
    rw [hmemory hm, ← hhead]
    rfl
  held r v hv := by
    obtain ⟨hr, hvalue⟩ := h.held r v hv
    exact ⟨Nat.le_succ_of_le hr, hvalue.append h.keyed hnodup hr⟩
  recorded r row hrow := by
    obtain ⟨hr, hvalue⟩ := h.recorded r row hrow
    exact ⟨Nat.le_succ_of_le hr, hvalue.append h.keyed hnodup hr⟩

theorem record_revision {written : Option ℕ} (hrecord : w.record io r v written = some w') :
    w'.revision = w.revision := by
  unfold CellStore.record at hrecord
  split at hrecord
  · cases hrecord
    rfl
  · cases hrecord
  · split at hrecord
    · cases hrecord
      rfl
    · cases hrecord
      rfl

theorem Agrees.published (h : Agrees hash w) (hhead : w.journal.latest = w.revision)
    {c : CellStore.Commit} (hdelta : delta w.base c.create c.replace = .ok written) :
    Agrees hash (w.published hash c written) ∧
      (w.published hash c written).journal = w.journal.append written ∧
      (w.published hash c written).revision = w.revision + 1 := by
  have hnodup := (delta_ok hdelta).written_nodup
  have hnext := h.append hhead hnodup le_rfl fun _ => rfl
  unfold CellStore.published
  dsimp only
  cases hv : w.nextAccumulator hash c.replace written with
  | none => exact ⟨hnext, rfl, rfl⟩
  | some v =>
      have hvalue := nextAccumulator_spec h hhead hdelta hv
      have hlatest : w.revision + 1 ≤ (w.journal.append written).latest := by
        rw [← hhead]
        exact le_rfl
      have hremembered := hnext.remember hlatest hvalue
      dsimp only
      cases hrecord : ({ w with
          journal := w.journal.append written
          revision := w.revision + 1 }.remember (w.revision + 1) v).record c.io (w.revision + 1) v
            (some written.length) with
      | none => exact ⟨hremembered, rfl, rfl⟩
      | some w' =>
          obtain ⟨hagrees, hjournal⟩ := hremembered.record hlatest hvalue hrecord
          exact ⟨hagrees, hjournal, record_revision hrecord⟩

/-- What a commit makes of a store: nothing, what the journal has, the next revision, or
one that only the journal has. -/
theorem commit_cases (w : CellStore) (hash : Cell → ℤ) (c : CellStore.Commit) :
    w.commit hash c = w ∨ w.commit hash c = { w with revision := w.journal.latest } ∨
      ∃ written, delta w.base c.create c.replace = .ok written ∧ written ≠ [] ∧
        ((w.backing = .memory ∨ w.journal.latest = w.revision) ∧
            w.commit hash c = w.published hash c written ∨
          w.backing ≠ .memory ∧ w.journal.latest = w.revision ∧
            w.commit hash c = { w with journal := w.journal.append written }) := by
  unfold CellStore.commit
  split
  · exact .inl rfl
  · split
    · exact .inl rfl
    · split
      · exact .inl rfl
      · next written hdelta =>
        split
        · exact .inl rfl
        · next hne =>
          split
          · next hmemory => exact .inr (.inr ⟨written, hdelta, hne, .inl ⟨.inl hmemory, rfl⟩⟩)
          · next hmemory =>
            split
            · exact .inr (.inl rfl)
            · next hlatest =>
              have hhead := not_not.1 hlatest
              split
              · exact .inr (.inr ⟨written, hdelta, hne, .inl ⟨.inr hhead, rfl⟩⟩)
              · exact .inl rfl
              · exact .inr (.inr ⟨written, hdelta, hne, .inr ⟨hmemory, hhead, rfl⟩⟩)

theorem Agrees.commit (h : Agrees hash w) (c : CellStore.Commit) : Agrees hash (w.commit hash c) := by
  rcases commit_cases w hash c with
    heq | heq | ⟨written, hdelta, -, ⟨hhead, heq⟩ | ⟨hbacking, hhead, heq⟩⟩
  · rw [heq]
    exact h
  · rw [heq]
    exact ⟨h.keyed, h.live, le_rfl, fun _ => rfl, h.held, h.recorded⟩
  · rw [heq]
    exact (h.published (hhead.elim (fun hm => (h.memory hm).symm) id) hdelta).1
  · rw [heq]
    exact h.append hhead (delta_ok hdelta).written_nodup (Nat.le_succ _)
      fun hm => absurd hm hbacking

/-! ## Runs -/

/-- What is done to a store and to its process. -/
inductive Keeping
  | commit (c : CellStore.Commit)
  | query (q : CellStore.Query)
  /-- `set_accumulator_after`. -/
  | after (q : CellStore.Query) (create replace : List Cell) (blank : List String)
  /-- Another process opens the journal, and finds the fence or not. -/
  | reopen (fenced : Bool)
  /-- Records of the sidecar are lost. -/
  | lose (keep : ℕ → Bool)

/-- A store whose process ended, opened again. -/
def CellStore.reopened (w : CellStore) (fenced : Bool) : CellStore :=
  { w with
    backing := match w.backing with
      | .memory => .memory
      | .sqlite _ => .sqlite fenced
      | .elsewhere _ => .elsewhere fenced
    revision := w.journal.latest
    held := .empty
    cover := none }

/-- The calls on a store and on its process. -/
def keepers (hash : Cell → ℤ) : Machine CellStore Keeping where
  step w
    | .commit c => w.commit hash c
    | .query q => (w.setAccumulator hash q).2
    | .after q create replace blank => (w.setAccumulatorAfter hash q create replace blank).2
    | .reopen fenced => w.reopened fenced
    | .lose keep => { w with sidecar := w.sidecar.filter fun e => keep e.1 }

/-- What is asked is asked of the store's own snapshots. -/
def Asks (w : CellStore) : Keeping → Prop
  | .query q => OfStore w q
  | .after q _ _ _ => OfStore w q
  | _ => True

theorem setAccumulatorAfter_store (q : CellStore.Query) (create replace : List Cell)
    (blank : List String) :
    (w.setAccumulatorAfter hash q create replace blank).2 = (w.setAccumulator hash q).2 := by
  unfold CellStore.setAccumulatorAfter
  cases w.setAccumulator hash q with
  | mk result w' =>
      cases result with
      | none => rfl
      | some accumulator =>
          dsimp only
          split <;> rfl

theorem agrees_new (hash : Cell → ℤ) (backing : Backing) : Agrees hash (.new backing) where
  keyed key row hrow := by
    have hget : (Dict.empty.set (0, nullId) (⟨nullCell, 1⟩ : Row)).get? key = some row := hrow
    rw [Dict.get?_set] at hget
    split at hget
    · next hkey =>
      rw [hkey, ← Option.some.inj hget]
      exact ⟨le_rfl, rfl⟩
    · cases hget
  live := rfl
  revision := le_rfl
  memory _ := rfl
  held _ _ hv := nomatch hv
  recorded _ _ hrow := nomatch hrow

theorem agrees_step {a : Keeping} (ha : Asks w a) (h : Agrees hash w) :
    Agrees hash ((keepers hash).step w a) := by
  cases a with
  | commit c => exact h.commit c
  | query q => exact (h.setAccumulator_spec ha).agrees
  | after q create replace blank =>
      show Agrees hash (w.setAccumulatorAfter hash q create replace blank).2
      rw [setAccumulatorAfter_store]
      exact (h.setAccumulator_spec ha).agrees
  | reopen fenced =>
      exact ⟨h.keyed, h.live, le_rfl, fun _ => rfl, (fun _ _ hv => nomatch hv), h.recorded⟩
  | lose keep =>
      refine ⟨h.keyed, h.live, h.revision, h.memory, h.held, fun r row hrow => ?_⟩
      have hmem := mem_of_mem_filter (Dict.mem_entries_iff.2 hrow)
      exact h.recorded r row (Dict.mem_entries_iff.1 hmem)

theorem agrees_of_run {backing : Backing} (hrun : (keepers hash).Run Asks (.new backing) w) :
    Agrees hash w :=
  hrun.invariant (fun _ _ ha h => agrees_step ha h) (agrees_new hash backing)

/-- A store in memory or over a database answers. -/
theorem setAccumulator_answers (hbacking : ∀ fenced, w.backing ≠ .elsewhere fenced)
    (q : CellStore.Query) : (w.setAccumulator hash q).1.isSome := by
  have hrecorded : (w.recorded q.io q.revision).isSome := by
    unfold CellStore.recorded
    split
    · rfl
    · next fenced hback => exact absurd hback (hbacking fenced)
    · split
      · split
        · rfl
        · split <;> rfl
      · rfl
  have hrecord : ∀ v, (w.record q.io q.revision v none).isSome := by
    intro v
    unfold CellStore.record
    split
    · rfl
    · next fenced hback => exact absurd hback (hbacking fenced)
    · split <;> rfl
  unfold CellStore.setAccumulator
  split
  · rfl
  · split
    · rfl
    · split
      · rfl
      · split
        · next hnone =>
          rw [hnone] at hrecorded
          cases hrecorded
        · rfl
        · dsimp only
          split
          · next hnone =>
            have hsome := hrecord (w.fold hash q.revision q.cells)
            rw [hnone] at hsome
            cases hsome
          · rfl

/-- **The accumulator of what a commit would leave** is that of what it leaves. -/
theorem Agrees.after_spec (h : Agrees hash w) (hq : OfStore w q)
    (hcontent : Content w.journal w.revision q.cells) (hhead : w.journal.latest = w.revision)
    (hdelta : delta w.base create replace = .ok written)
    (hv : (w.setAccumulatorAfter hash q create replace []).1 = some v) :
    IsAccumulator hash (w.journal.append written) (w.revision + 1) v := by
  have hchecked := delta_ok hdelta
  unfold CellStore.setAccumulatorAfter at hv
  have hspec := h.setAccumulator_spec hq
  cases hquery : w.setAccumulator hash q with
  | mk result w' =>
      rw [hquery] at hv hspec
      cases result with
      | none => cases hv
      | some accumulator =>
          dsimp only at hv
          split at hv
          · cases hv
          · next before hbefore =>
            have hblank : (create ++ replace).map (CellStore.blanked []) = create ++ replace := by
              refine (map_congr_left fun c _ => ?_).trans (map_id _)
              exact if_neg (not_mem_nil)
            rw [hblank, hspec.value accumulator rfl] at hv
            have hsum : (before.map hash).sum =
                ((create ++ replace).map fun c => weigh hash (q.cells.get? c.id)).sum := by
              have hfresh : ∀ c ∈ create, q.cells.get? c.id = none := fun c hc =>
                (hcontent c.id).trans (hchecked.fresh c hc)
              rw [map_append, sum_append, sum_fresh hfresh, zero_add, sum_mapM hbefore]
            rw [← setAccumulator_overlaid hash hchecked.nodup hsum] at hv
            rw [← hhead] at hcontent
            have hnext := content_append h.keyed hchecked.written_nodup hcontent
            rw [hhead] at hnext
            have hall : Content (w.journal.append written) (w.revision + 1)
                (overlaid q.cells (create ++ replace)) := by
              intro id
              rw [hhead] at hcontent
              rw [← hnext id, cellOf_overlaid hchecked.nodup, cellOf_overlaid hchecked.written_nodup,
                hcontent id]
              exact (hchecked.get id).symm
            exact .of_content hall (Option.some.inj hv).symm

/-- **One accumulator.**  In every run of commits, queries, restarts and losses of the
sidecar: what is answered, what is remembered, what is recorded, what is derived from the
next revision and what is foretold of a commit is the sum over the cells; a store in memory
or over a database answers; and equal cells have equal accumulators, however two stores
came to them. -/
theorem accumulators_agree (shake256 : List UInt8 → ℤ) {backing : Backing} {w : CellStore}
    (hrun : (keepers (cellSetHash shake256)).Run Asks (.new backing) w) :
    (∀ q, OfStore w q → ∀ v, (w.setAccumulator (cellSetHash shake256) q).1 = some v →
        v = setAccumulator (cellSetHash shake256) q.cells.values) ∧
      (∀ q, (∀ fenced, w.backing ≠ .elsewhere fenced) →
        (w.setAccumulator (cellSetHash shake256) q).1.isSome) ∧
      (∀ r v, w.held.get? r = some v → IsAccumulator (cellSetHash shake256) w.journal r v) ∧
      (∀ r row, w.sidecar.get? r = some row →
        IsAccumulator (cellSetHash shake256) w.journal r row.accumulator) ∧
      (∀ r cells next, Content w.journal r cells → Content w.journal (r + 1) next →
        w.derive (cellSetHash shake256) (setAccumulator (cellSetHash shake256) next.values) r cells =
          setAccumulator (cellSetHash shake256) cells.values) ∧
      (∀ q create replace written v, OfStore w q → Content w.journal w.revision q.cells →
        w.journal.latest = w.revision → delta w.base create replace = .ok written →
        (w.setAccumulatorAfter (cellSetHash shake256) q create replace []).1 = some v →
          IsAccumulator (cellSetHash shake256) (w.journal.append written) (w.revision + 1) v) ∧
      ∀ backing' w', (keepers (cellSetHash shake256)).Run Asks (.new backing') w' →
        ∀ q q', OfStore w q → OfStore w' q' → (∀ id, q.cells.get? id = q'.cells.get? id) →
          ∀ v v', (w.setAccumulator (cellSetHash shake256) q).1 = some v →
            (w'.setAccumulator (cellSetHash shake256) q').1 = some v' → v = v' := by
  have h := agrees_of_run hrun
  refine ⟨fun q hq v hv => (h.setAccumulator_spec hq).value v hv,
    fun q hbacking => setAccumulator_answers hbacking q, fun r v hv => (h.held r v hv).2,
    fun r row hrow => (h.recorded r row hrow).2, ?_, ?_, ?_⟩
  · intro r cells next hcells hnext
    exact h.derive_eq hcells fun cells' hcells' => hnext.accumulator_eq hcells'
  · intro q create replace written v hq hcontent hhead hdelta hv
    exact h.after_spec hq hcontent hhead hdelta hv
  · intro backing' w' hrun' q q' hq hq' hsame v v' hv hv'
    have h' := agrees_of_run hrun'
    rw [(h.setAccumulator_spec hq).value v hv, (h'.setAccumulator_spec hq').value v' hv']
    exact setAccumulator_congr _ hsame

/-- A store that was asked, and then written to. -/
def askedStore : CellStore :=
  ((CellStore.new (.sqlite true)).setAccumulator (cellSetHash fun _ => 5)
    ⟨0, Journal.new.cellsAt 0, true, ⟨true, true⟩⟩).2

/-- A commit of one cell. -/
def oneCell : CellStore.Commit := ⟨none, 0, [⟨"a", nullId, "a", []⟩], [], none, ⟨true, true⟩⟩

def writtenStore : CellStore := askedStore.commit (cellSetHash fun _ => 5) oneCell

theorem writtenStore_run :
    (keepers (cellSetHash fun _ => 5)).Run Asks (.new (.sqlite true)) writtenStore := by
  have hasks : Asks (.new (.sqlite true)) (.query ⟨0, Journal.new.cellsAt 0, true, ⟨true, true⟩⟩) :=
    .inr ⟨le_rfl, content_cellsAt (agrees_new (fun _ => 0) .memory).keyed 0⟩
  have hasked : (keepers (cellSetHash fun _ => 5)).Run Asks (.new (.sqlite true)) askedStore :=
    Machine.Run.step (m := keepers (cellSetHash fun _ => 5)) (Keeping.query _) hasks
  exact hasked.snoc (Keeping.commit oneCell) trivial

theorem accumulators_agree_written : writtenStore.revision = 1 ∧
    (writtenStore.setAccumulator (cellSetHash fun _ => 5)
        ⟨1, writtenStore.journal.cellsAt 1, true, ⟨true, true⟩⟩).1 =
      some (setAccumulator (cellSetHash fun _ => 5) (writtenStore.journal.cellsAt 1).values) := by
  have hrevision : writtenStore.revision = 1 := by decide +kernel
  have hbacking : writtenStore.backing = .sqlite true := by decide +kernel
  have hrun := writtenStore_run
  obtain ⟨hvalue, hanswers, -⟩ := accumulators_agree (fun _ => 5) hrun
  obtain ⟨v, hv⟩ := Option.isSome_iff_exists.1
    (hanswers ⟨1, writtenStore.journal.cellsAt 1, true, ⟨true, true⟩⟩ (by rw [hbacking]; nofun))
  have hof : OfStore writtenStore ⟨1, writtenStore.journal.cellsAt 1, true, ⟨true, true⟩⟩ :=
    .inr ⟨hrevision.ge, content_cellsAt (agrees_of_run hrun).keyed 1⟩
  exact ⟨hrevision, hv.trans (congrArg some (hvalue _ hof v hv))⟩

end ArchHub.Cells

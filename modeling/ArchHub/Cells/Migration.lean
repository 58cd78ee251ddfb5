import Mathlib
import ArchHub.Cells.Transition

/-!
# Migrating a history

The history of a store is copied into an empty one: what each revision changed is committed to
the destination, revision by revision, and the digests of both heads are compared.

* `Head.at'`, `Head.cellsOf`, `migrateCellHistory`: the code.
* `Changes`, `Grown`: what each revision of a history writes over the cells before it.
* `delta_of_changes`: what a revision wrote passes the checks of a commit over the same cells.
* `migration_preserves`: the destination has the revisions and the digest of the source.

The snapshots that a store keeps of past revisions are left out: a past revision is made from
the journal.  What else refuses a commit of the destination is given for each revision.
-/

namespace ArchHub.Cells

open Lib List Nat

/-! ## The code -/

/-- `at`: the cells of the head, or the versions of a past revision written one over the other. -/
def Head.at' (w : Head) (r : ℕ) : Except CellError Lookup :=
  if r = w.revision then .ok w.base
  else if w.revision < r then .error (.invalid "unknown revision")
  else if (w.journal.cellsAt r).values.all fun c =>
      (w.journal.cellsAt r).contains c.link0 && (w.journal.cellsAt r).contains c.link1 then
    .ok (w.journal.cellsAt r).get?
  else .error (.invalid "has dangling incidence")

/-- `cells_at`, of the identities that `revision_changes` returns. -/
def Head.cellsOf (w : Head) (r : ℕ) (ids : List String) : Except CellError (List Cell) :=
  ids.mapM fun id => match w.journal.at' r id with
    | some c => .ok c
    | none => .error (.invalidAt "unknown cell" id)

/-- A revision of the source is committed to the destination. -/
def copyRevision (source destination : Head) (refusal : Option CellError) (r : ℕ) :
    Except CellError ℕ × Head :=
  match source.cellsOf r ((orderedRevision source.journal r).map Cell.id) with
  | .error e => (.error e, destination)
  | .ok changed => destination.commit refusal destination.revision
      (changed.filter fun c => (destination.base c.id).isNone)
      (changed.filter fun c => (destination.base c.id).isSome)

/-- Some revisions are copied, from one on. -/
def copyRevisions (source : Head) (refusals : ℕ → Option CellError) :
    ℕ → ℕ → Head → Except CellError Unit × Head
  | 0, _, destination => (.ok (), destination)
  | n + 1, r, destination =>
      match copyRevision source destination (refusals r) r with
      | (.error e, destination) => (.error e, destination)
      | (.ok _, destination) => copyRevisions source refusals n (r + 1) destination

/-- `CellHistoryMigrationEvidence`. -/
structure MigrationEvidence where
  sourceIdentity : String
  destinationIdentity : String
  sourceRevision : ℕ
  destinationRevision : ℕ
  digest : Digest

/-- `migrate_cell_history`; the source and the destination are returned as they are then. -/
def migrateCellHistory (sha256 : List UInt8 → Digest) (sourceIdentity destinationIdentity : String)
    (refusals : ℕ → Option CellError) (source destination : Head) :
    Except CellError MigrationEvidence × Head × Head :=
  if sourceIdentity = destinationIdentity then
    (.error (.invalid "Cell migration requires distinct authorities"), source, destination)
  else if destination.revision ≠ 0 ∨
      (destination.journal.cellsAt destination.revision).keys ≠ [nullId] then
    (.error (.invalid "Cell migration destination must be at genesis"), source, destination)
  else match source.revisionChainDigest sha256 source.revision with
    | (none, source) => (.error (.invalid "Cell revision contains no changed Cells"), source, destination)
    | (some digest, source) =>
        match copyRevisions source refusals source.revision 1 destination with
        | (.error e, destination) => (.error e, source, destination)
        | (.ok (), destination) =>
            let (made, proved) := destination.revisionChainDigest sha256 destination.revision
            if destination.revision ≠ source.revision ∨ made ≠ some digest then
              (.error (.invalid "Cell migration history proof does not match"), source, proved)
            else (.ok ⟨sourceIdentity, destinationIdentity, source.revision, destination.revision,
              digest⟩, source, proved)

/-! ## What a revision writes -/

/-- What a revision writes over the cells before it. -/
structure Changes (base written : Lookup) : Prop where
  writes : ∃ id c, written id = some c
  cell : ∀ id c, written id = some c → c.id = id ∧ id ≠ "" ∧ id ≠ nullId ∧ base id ≠ some c
  links : ∀ id c, written id = some c →
    ((written c.link0).isSome ∨ (base c.link0).isSome) ∧
      ((written c.link1).isSome ∨ (base c.link1).isSome)

section

variable {base : Lookup} {named named' : List String} {cs create replace written : List Cell}

theorem checkCreated_named (h : checkCreated base named cs = .ok named') : ∀ c ∈ cs, c.id ≠ "" := by
  induction cs generalizing named with
  | nil => nofun
  | cons c cs ih =>
      unfold checkCreated at h
      split at h
      · cases h
      · next hne =>
        split at h
        · cases h
        · exact List.forall_mem_cons.2 ⟨hne, ih h⟩

theorem any_id_iff {id : String} : written.any (·.id = id) = true ↔ (cellOf written id).isSome := by
  unfold cellOf
  rw [List.find?_isSome, any_eq_true]

/-- What a commit writes. -/
theorem changes_of_delta (h : delta base create replace = .ok written) (hne : written ≠ [])
    (hnull : (base nullId).isSome) (hempty : base "" = none) : Changes base (cellOf written) := by
  have hchecked := delta_ok h
  have hnodup := hchecked.written_nodup
  have hcreated : ∀ c ∈ create, c.id ≠ "" := by
    unfold delta at h
    cases hcreated : checkCreated base [] create with
    | error e =>
        rw [hcreated] at h
        cases h
    | ok named => exact checkCreated_named hcreated
  refine ⟨?_, fun id c hc => ?_, fun id c hc => ?_⟩
  · obtain ⟨c, hc⟩ := exists_mem_of_ne_nil _ hne
    exact ⟨c.id, c, (cellOf_eq_some hnodup).2 ⟨hc, rfl⟩⟩
  · obtain ⟨hmem, rfl⟩ := (cellOf_eq_some hnodup).1 hc
    rw [hchecked.shape] at hmem
    rcases List.mem_append.1 hmem with hmem | hmem
    · have hfresh := hchecked.fresh c hmem
      exact ⟨rfl, hcreated c hmem, fun heq => by simp [heq ▸ hfresh] at hnull, by simp [hfresh]⟩
    · obtain ⟨hmem, hchanges⟩ := List.mem_filter.1 hmem
      obtain ⟨hne, hheld⟩ := hchecked.held c hmem
      exact ⟨rfl, fun heq => by simp [heq, hempty] at hheld, hne, by simpa using hchanges⟩
  · have hlinks := hchecked.links c ((cellOf_eq_some hnodup).1 hc).1
    unfold linksHold at hlinks
    simpa only [Bool.and_eq_true, Bool.or_eq_true, any_id_iff] using hlinks

theorem checkCreated_of_fresh (hnodup : (cs.map Cell.id).Nodup)
    (h : ∀ c ∈ cs, c.id ≠ "" ∧ base c.id = none ∧ c.id ∉ named) :
    ∃ named', checkCreated base named cs = .ok named' ∧
      ∀ id ∈ named', id ∈ named ∨ id ∈ cs.map Cell.id := by
  induction cs generalizing named with
  | nil => exact ⟨named, rfl, fun id hid => Or.inl hid⟩
  | cons c cs ih =>
      rw [map_cons, nodup_cons] at hnodup
      obtain ⟨⟨hne, hfresh, hnamed⟩, hrest⟩ := List.forall_mem_cons.1 h
      obtain ⟨named', hok, hfrom⟩ := @ih (c.id :: named) hnodup.2 fun d hd => by
        obtain ⟨hne', hfresh', hnamed'⟩ := hrest d hd
        refine ⟨hne', hfresh', not_mem_cons_of_ne_of_not_mem (fun heq => ?_) hnamed'⟩
        exact hnodup.1 (heq ▸ mem_map_of_mem hd)
      refine ⟨named', ?_, fun id hid => ?_⟩
      · rw [checkCreated, if_neg hne, if_neg (by simp [hfresh, hnamed]), hok]
      · have := hfrom id hid
        simp only [mem_cons, map_cons] at this ⊢
        tauto

theorem changedCells_of_held (hnodup : (cs.map Cell.id).Nodup)
    (h : ∀ c ∈ cs, c.id ≠ "" ∧ c.id ≠ nullId ∧ (base c.id).isSome ∧ base c.id ≠ some c ∧
      c.id ∉ named) : changedCells base named cs = .ok cs := by
  induction cs generalizing named with
  | nil => rfl
  | cons c cs ih =>
      rw [map_cons, nodup_cons] at hnodup
      obtain ⟨⟨hne, hnull, hheld, hchanges, hnamed⟩, hrest⟩ := List.forall_mem_cons.1 h
      obtain ⟨held, hbase⟩ := Option.isSome_iff_exists.1 hheld
      have hok := @ih (c.id :: named) hnodup.2 fun d hd => by
        obtain ⟨hne', hnull', hheld', hchanges', hnamed'⟩ := hrest d hd
        refine ⟨hne', hnull', hheld', hchanges', ?_⟩
        refine not_mem_cons_of_ne_of_not_mem (fun heq => ?_) hnamed'
        exact hnodup.1 (heq ▸ mem_map_of_mem hd)
      rw [changedCells, if_neg hne, if_neg hnull, hbase]
      dsimp only
      rw [if_neg hnamed, hok]
      exact congrArg Except.ok (if_neg fun heq => hchanges (hbase.trans (congrArg some heq)))

/-- **What a revision wrote passes the checks of a commit** over the cells before it, and is
written by it. -/
theorem delta_of_changes (h : Changes base (cellOf cs)) (hnodup : (cs.map Cell.id).Nodup) :
    delta base (cs.filter fun c => (base c.id).isNone) (cs.filter fun c => (base c.id).isSome) =
      .ok (cs.filter (fun c => (base c.id).isNone) ++ cs.filter fun c => (base c.id).isSome) := by
  have hcell : ∀ c ∈ cs, c.id ≠ "" ∧ c.id ≠ nullId ∧ base c.id ≠ some c := fun c hc =>
    (h.cell c.id c ((cellOf_eq_some hnodup).2 ⟨hc, rfl⟩)).2
  have hsub : ∀ p : Cell → Bool, ((cs.filter p).map Cell.id).Nodup := fun p =>
    hnodup.sublist (List.filter_sublist.map _)
  obtain ⟨named, hnamed, hfrom⟩ := @checkCreated_of_fresh base [] _
    (hsub fun c => (base c.id).isNone) fun c hc => by
      obtain ⟨hmem, hnone⟩ := List.mem_filter.1 hc
      exact ⟨(hcell c hmem).1, Option.isNone_iff_eq_none.1 hnone, not_mem_nil⟩
  have hchanged := @changedCells_of_held base named _
    (hsub fun c => (base c.id).isSome) fun c hc => by
      obtain ⟨hmem, hsome⟩ := List.mem_filter.1 hc
      obtain ⟨hne, hnull, hchanges⟩ := hcell c hmem
      refine ⟨hne, hnull, hsome, hchanges, fun hin => ?_⟩
      obtain ⟨d, hd, hid⟩ := List.mem_map.1 ((hfrom c.id hin).resolve_left not_mem_nil)
      obtain ⟨-, hnone⟩ := List.mem_filter.1 hd
      rw [hid] at hnone
      simp [Option.isNone_iff_eq_none.1 hnone] at hsome
  have hperm : (cs.filter (fun c => (base c.id).isNone) ++
      cs.filter fun c => (base c.id).isSome).Perm cs := by
    have hsplit := filter_append_perm (fun c => (base c.id).isNone) cs
    simpa using hsplit
  have hne : cs ≠ [] := by
    rintro rfl
    obtain ⟨id, c, hc⟩ := h.writes
    cases hc
  unfold delta
  rw [hnamed]
  simp only [bind, Except.bind, hchanged]
  rw [if_neg fun ⟨hnil, hnil'⟩ => hne (by simpa [hnil, hnil'] using hperm)]
  have hlinks : ∀ c ∈ cs.filter (fun c => (base c.id).isNone) ++
      cs.filter (fun c => (base c.id).isSome), linksHold base (cs.filter (fun c => (base c.id).isNone) ++
        cs.filter fun c => (base c.id).isSome) c = true := by
    intro c hc
    have hheld := h.links c.id c ((cellOf_eq_some hnodup).2 ⟨hperm.mem_iff.1 hc, rfl⟩)
    unfold linksHold
    simpa only [Bool.and_eq_true, Bool.or_eq_true, hperm.any_eq, any_id_iff] using hheld
  rw [List.find?_eq_none.2 fun c hc => by simp [hlinks c hc]]

end

/-! ## Histories -/

/-- A history: each revision writes something over the one before. -/
structure Grown (j : Journal) : Prop where
  keyed : j.Keyed
  first : ∀ id, j.versions 0 id = Journal.new.versions 0 id
  changes : ∀ r < j.latest, Changes (j.at' r) (j.versions (r + 1))

section

variable {sha256 blake2b : List UInt8 → Digest} {j j' : Journal} {w source destination : Head}
  {r : ℕ}

theorem Grown.at_null (h : Grown j) (hr : r ≤ j.latest) :
    j.at' r nullId = some nullCell ∧ j.at' r "" = none := by
  induction r with
  | zero => exact ⟨h.first nullId, h.first ""⟩
  | succ r ih =>
      have hunwritten : ∀ id, id = "" ∨ id = nullId → j.versions (r + 1) id = none := by
        intro id hid
        by_contra hne
        obtain ⟨c, hc⟩ := Option.ne_none_iff_exists'.1 hne
        obtain ⟨-, hempty, hnull, -⟩ := (h.changes r hr).cell id c hc
        exact hid.elim hempty hnull
      unfold Journal.at'
      rw [Versions.latest_succ, Versions.latest_succ, hunwritten _ (Or.inr rfl),
        hunwritten _ (Or.inl rfl)]
      exact ih (le_of_succ_le hr)

theorem Grown.append {create replace written : List Cell} (h : Grown j)
    (hdelta : delta (j.at' j.latest) create replace = .ok written) (hne : written ≠ []) :
    Grown (j.append written) := by
  have hnodup := (delta_ok hdelta).written_nodup
  obtain ⟨hnull, hempty⟩ := h.at_null le_rfl
  have hversions : ∀ s, (j.append written).versions s =
      if s = j.latest + 1 then cellOf written else j.versions s := by
    intro s
    funext id
    rw [Journal.versions_append h.keyed hnodup]
    split <;> rfl
  refine ⟨Journal.keyed_append h.keyed hnodup, fun id => ?_, fun r hr => ?_⟩
  · rw [hversions, if_neg (succ_ne_zero _).symm]
    exact h.first id
  · have hat : (j.append written).at' r = j.at' r :=
      funext fun id => Journal.at_append h.keyed hnodup (le_of_lt_succ hr)
    rw [hat, hversions]
    rcases Nat.lt_or_eq_of_le (le_of_lt_succ hr) with hlt | rfl
    · rw [if_neg (by omega)]
      exact h.changes r hlt
    · rw [if_pos rfl]
      exact changes_of_delta hdelta hne (by rw [hnull]; rfl) hempty

theorem grown_step {a : Heading} (h : Grown w.journal) :
    Grown ((heads sha256 blake2b).step w a).journal := by
  cases a with
  | commit refusal expected create replace =>
      show Grown (w.commit refusal expected create replace).2.journal
      unfold Head.commit
      split
      · exact h
      · split
        · exact h
        · split
          · exact h
          · next written hdelta =>
            split
            · exact h
            · next hne =>
              split
              · exact h
              · next hhead =>
                have hbase : w.base = w.journal.at' w.journal.latest := by
                  rw [not_not.1 hhead]
                  rfl
                exact h.append (hbase ▸ hdelta) hne
  | append create replace =>
      show Grown (w.appended create replace).journal
      unfold Head.appended
      split
      · exact h
      · next written hdelta =>
        split
        · exact h
        · next hne => exact h.append hdelta hne
  | refresh => exact h
  | fingerprint root budget excluded =>
      show Grown (w.fingerprint blake2b root budget excluded).2.journal
      unfold Head.fingerprint
      repeat' split
      all_goals exact h
  | digest r =>
      show Grown (w.revisionChainDigest sha256 r).2.journal
      unfold Head.revisionChainDigest
      split <;> exact h

theorem grown_of_run (hrun : (heads sha256 blake2b).Run Machine.Any .new w) : Grown w.journal := by
  let Inv : Head → Prop := fun w => Grown w.journal
  have hstep : ∀ w a, Machine.Any w a → Inv w → Inv ((heads sha256 blake2b).step w a) :=
    fun _ _ _ h => grown_step h
  have hstart : Inv .new := ⟨(@coherent_new sha256 blake2b).keyed, fun _ => rfl, nofun⟩
  have hend : Inv w := hrun.invariant hstep hstart
  exact hend

/-- A revision with the same versions has the same cells in order. -/
theorem orderedRevision_congr (hkeyed : j.Keyed) (hkeyed' : j'.Keyed)
    (h : ∀ id, j.versions r id = j'.versions r id) : orderedRevision j r = orderedRevision j' r := by
  obtain ⟨hnodup, hget⟩ := j.written_spec hkeyed r
  obtain ⟨hnodup', hget'⟩ := j'.written_spec hkeyed' r
  have hmem : ∀ c, c ∈ j.written r ↔ c ∈ j'.written r := by
    intro c
    have hiff : cellOf (j.written r) c.id = some c ↔ cellOf (j'.written r) c.id = some c := by
      rw [hget, hget', h]
    rwa [cellOf_eq_some hnodup, cellOf_eq_some hnodup', and_iff_left rfl, and_iff_left rfl] at hiff
  have hperm : (j.written r).Perm (j'.written r) :=
    (perm_ext_iff_of_nodup hnodup.of_map hnodup'.of_map).2 hmem
  have hsorted : ∀ cs : List Cell, (cs.mergeSort fun a b => a.id ≤ b.id).Pairwise
      fun a b => decide (a.id ≤ b.id) = true := fun cs =>
    pairwise_mergeSort (fun a b c hab hbc => by simp at *; exact hab.trans hbc)
      (fun a b => by simpa using le_total a.id b.id) cs
  refine List.Perm.eq_of_pairwise (fun a b ha hb hab hba => ?_) (hsorted _) (hsorted _)
    (((mergeSort_perm _ _).trans hperm).trans (mergeSort_perm _ _).symm)
  have hid : a.id = b.id := le_antisymm (by simpa using hab) (by simpa using hba)
  exact inj_on_of_nodup_map hnodup (List.mem_mergeSort.1 ha)
    ((hmem b).2 (List.mem_mergeSort.1 hb)) hid

/-- The digest is made from the cells of the revisions. -/
theorem chain_congr (h : ∀ s ≤ r, orderedRevision j s = orderedRevision j' s) :
    chain sha256 j r = chain sha256 j' r := by
  unfold chain
  induction r with
  | zero => simp only [chainDigest, h 0 le_rfl]
  | succ r ih => simp only [chainDigest, h (r + 1) le_rfl, ih fun s hs => h s (le_succ_of_le hs)]

/-! ## The copy -/

/-- What has been copied up to a revision. -/
structure Copied (sha256 blake2b : List UInt8 → Digest) (source destination : Head) (r : ℕ) :
    Prop where
  coherent : Coherent sha256 blake2b destination
  revision : destination.revision = r
  latest : destination.journal.latest = r
  versions : ∀ s ≤ r, ∀ id, destination.journal.versions s id = source.journal.versions s id

theorem cellsOf_ordered (hkeyed : source.journal.Keyed) (r : ℕ) :
    source.cellsOf r ((orderedRevision source.journal r).map Cell.id) =
      .ok (orderedRevision source.journal r) := by
  have hat : ∀ c ∈ orderedRevision source.journal r, source.journal.at' r c.id = some c := by
    intro c hc
    refine Versions.latest_of_some ?_
    obtain ⟨hnodup, hget⟩ := source.journal.written_spec hkeyed r
    rw [← hget, cellOf_eq_some hnodup]
    exact ⟨List.mem_mergeSort.1 hc, rfl⟩
  unfold Head.cellsOf
  rw [mapM_map]
  revert hat
  generalize orderedRevision source.journal r = cs
  intro hat
  induction cs with
  | nil => rfl
  | cons c cs ih =>
      obtain ⟨hc, hcs⟩ := List.forall_mem_cons.1 hat
      rw [mapM_cons, ih hcs, Function.comp_apply, hc]
      rfl

/-- **One revision is copied.** -/
theorem Copied.step (hsource : Grown source.journal) (h : Copied sha256 blake2b source destination r)
    (hr : r < source.journal.latest) :
    ∃ destination', copyRevision source destination none (r + 1) = (.ok (r + 1), destination') ∧
      Copied sha256 blake2b source destination' (r + 1) := by
  set cs := orderedRevision source.journal (r + 1)
  have hnodup : (cs.map Cell.id).Nodup := (((mergeSort_perm _ _).map Cell.id).nodup_iff).2
    (source.journal.written_spec hsource.keyed (r + 1)).1
  have hcell : cellOf cs = source.journal.versions (r + 1) :=
    funext fun id => versions_orderedRevision hsource.keyed (r + 1) id
  have hbase : destination.base = source.journal.at' r := by
    funext id
    unfold Head.base
    rw [h.revision]
    exact Versions.latest_congr fun s hs => h.versions s hs id
  have hdelta := @delta_of_changes destination.base cs (hcell ▸ hbase ▸ hsource.changes r hr) hnodup
  have hwritten := (delta_ok hdelta).written_nodup
  set written := cs.filter (fun c => (destination.base c.id).isNone) ++
    cs.filter fun c => (destination.base c.id).isSome
  have hperm : written.Perm cs := by
    simpa using filter_append_perm (fun c => (destination.base c.id).isNone) cs
  have hne : written ≠ [] := by
    intro hnil
    obtain ⟨id, c, hc⟩ := (hsource.changes r hr).writes
    rw [← hcell, cellOf_eq_some hnodup, ← hperm.mem_iff, hnil] at hc
    exact absurd hc.1 not_mem_nil
  have hhead := h.latest.trans h.revision.symm
  refine ⟨destination.published written, ?_, h.coherent.published hhead hwritten,
    congrArg (· + 1) h.revision, congrArg (· + 1) h.latest, fun s hs id => ?_⟩
  · unfold copyRevision Head.commit
    rw [cellsOf_ordered hsource.keyed]
    dsimp only
    rw [if_neg (not_not.2 rfl), hdelta]
    dsimp only
    rw [if_neg hne, if_neg (not_not.2 hhead), h.revision]
  · show (destination.journal.append written).versions s id = _
    rw [Journal.versions_append h.coherent.keyed hwritten, h.latest]
    split
    · next heq =>
      rw [heq, ← hcell]
      ext c
      rw [cellOf_eq_some hwritten, cellOf_eq_some hnodup, hperm.mem_iff]
    · next hne => exact h.versions s (by omega) id

/-- All revisions are copied. -/
theorem Copied.run (hsource : Grown source.journal) (n : ℕ) (h : Copied sha256 blake2b source destination r)
    (hn : r + n ≤ source.journal.latest) :
    ∃ destination', copyRevisions source (fun _ => none) n (r + 1) destination =
      (.ok (), destination') ∧ Copied sha256 blake2b source destination' (r + n) := by
  induction n generalizing r destination with
  | zero => exact ⟨destination, rfl, h⟩
  | succ n ih =>
      obtain ⟨middle, hcopy, hmiddle⟩ := h.step hsource (by omega)
      obtain ⟨last, hlast, hcopied⟩ := ih hmiddle (by omega)
      refine ⟨last, ?_, by rwa [Nat.add_right_comm, Nat.add_assoc] at hcopied⟩
      rw [copyRevisions, hcopy]
      exact hlast

/-- Equal versions are read alike. -/
theorem Copied.at_eq (hsource : source.journal.Keyed)
    (h : Copied sha256 blake2b source destination source.revision) (r : ℕ) :
    destination.at' r = source.at' r := by
  have hat : ∀ s ≤ source.revision, ∀ id, destination.journal.at' s id = source.journal.at' s id :=
    fun s hs id => Versions.latest_congr fun t ht => h.versions t (ht.trans hs) id
  have hbase : destination.base = source.base := by
    funext id
    unfold Head.base
    rw [h.revision]
    exact hat _ le_rfl id
  unfold Head.at'
  rw [h.revision, hbase]
  split
  · rfl
  · split
    · rfl
    · next hr =>
      have hcells : ∀ id, (destination.journal.cellsAt r).get? id =
          (source.journal.cellsAt r).get? id := fun id =>
        ((content_cellsAt h.coherent.keyed r id).trans (hat r (not_lt.1 hr) id)).trans
          (content_cellsAt hsource r id).symm
      have hvalues : (destination.journal.cellsAt r).values.Perm (source.journal.cellsAt r).values :=
        (Dict.perm_of_get?_eq hcells).map Prod.snd
      rw [hvalues.all_eq, funext hcells]
      simp only [Dict.contains, hcells]
      rfl

/-- A history has a digest. -/
theorem Grown.chain_isSome (h : Grown j) (hr : r ≤ j.latest) : (chain sha256 j r).isSome := by
  have hordered : ∀ r ≤ j.latest, orderedRevision j r ≠ [] := by
    intro r hr hnil
    have hwritten : ∃ id c, j.versions r id = some c := by
      rcases r with _ | r
      · exact ⟨nullId, nullCell, h.first nullId⟩
      · exact (h.changes r hr).writes
    obtain ⟨id, c, hc⟩ := hwritten
    rw [← versions_orderedRevision h.keyed, hnil] at hc
    cases hc
  have hstep : ∀ previous r, r ≤ j.latest →
      (chainDigestStep sha256 previous r (orderedRevision j r)).isSome := fun previous r hr => by
    rw [chainDigestStep, if_neg (hordered r hr)]
    rfl
  unfold chain
  rw [chainDigest_unproved rfl]
  induction r with
  | zero => exact hstep _ 0 hr
  | succ r ih =>
      obtain ⟨previous, hprevious⟩ := Option.isSome_iff_exists.1 (ih (le_of_succ_le hr))
      rw [← chainDigest_unproved rfl] at hprevious
      rw [digestBefore, hprevious]
      exact hstep previous (r + 1) hr

theorem revisionChainDigest_same (w : Head) (r : ℕ) :
    (w.revisionChainDigest sha256 r).2.journal = w.journal ∧
      (w.revisionChainDigest sha256 r).2.revision = w.revision := by
  unfold Head.revisionChainDigest
  split <;> exact ⟨rfl, rfl⟩

/-- Reading a revision depends on no cache. -/
theorem at_same (hjournal : destination.journal = source.journal)
    (hrevision : destination.revision = source.revision) (r : ℕ) :
    destination.at' r = source.at' r := by
  unfold Head.at' Head.base
  rw [hjournal, hrevision]

/-- A digest that is made keeps what holds of a store. -/
theorem Coherent.digested (h : Coherent sha256 blake2b w) (r : ℕ) :
    Coherent sha256 blake2b (w.revisionChainDigest sha256 r).2 :=
  coherent_step h (.digest r)

/-- The digest of the head. -/
theorem Coherent.head_digest (h : Coherent sha256 blake2b w) :
    (w.revisionChainDigest sha256 w.revision).1 = chain sha256 w.journal w.revision := by
  unfold Head.revisionChainDigest
  rw [if_neg (lt_irrefl _)]
  exact h.chainDigest_eq _

/-- A store without a commit has one cell. -/
theorem Grown.genesis (h : Grown j) : (j.cellsAt 0).keys = [nullId] := by
  have hmem : ∀ id, id ∈ (j.cellsAt 0).keys ↔ id ∈ [nullId] := by
    intro id
    rw [Dict.mem_keys, content_cellsAt h.keyed 0 id, mem_singleton]
    show (j.versions 0 id).isSome ↔ id = nullId
    rw [h.first]
    unfold Journal.versions Journal.new
    rw [Dict.get?_set]
    by_cases hid : id = nullId <;> simp [hid]
  exact List.perm_singleton.1
    ((perm_ext_iff_of_nodup (Dict.nodup_keys _) (nodup_singleton _)).2 hmem)

/-- The source stays as it is, and so does a destination that is not at genesis. -/
theorem migrateCellHistory_keeps (sha256 : List UInt8 → Digest)
    (sourceIdentity destinationIdentity : String) (source destination : Head)
    (refusals : ℕ → Option CellError) :
    let migrated := migrateCellHistory sha256 sourceIdentity destinationIdentity refusals source
      destination
    migrated.2.1.journal = source.journal ∧ migrated.2.1.revision = source.revision ∧
      (destination.revision ≠ 0 → (∃ e, migrated.1 = .error e) ∧ migrated.2.2 = destination) := by
  obtain ⟨hjournal, hrevision⟩ := @revisionChainDigest_same sha256 source source.revision
  unfold migrateCellHistory
  dsimp only
  split
  · exact ⟨rfl, rfl, fun _ => ⟨⟨_, rfl⟩, rfl⟩⟩
  · split
    · exact ⟨rfl, rfl, fun _ => ⟨⟨_, rfl⟩, rfl⟩⟩
    · next hgenesis =>
      have hzero : ¬destination.revision ≠ 0 := fun hne => hgenesis (Or.inl hne)
      split
      · next hmade =>
        rw [hmade] at hjournal hrevision
        exact ⟨hjournal, hrevision, fun hne => absurd hne hzero⟩
      · next digest made hmade =>
        rw [hmade] at hjournal hrevision
        split
        · exact ⟨hjournal, hrevision, fun hne => absurd hne hzero⟩
        · split <;> exact ⟨hjournal, hrevision, fun hne => absurd hne hzero⟩

/-- **Migration preserves history.**  A store that is migrated into an empty one with another
identity, where nothing else refuses a commit of it, has its revisions there, each with the cells
that it has in the source, and the digest of its head.  The source stays as it is, and a
destination that is not at genesis is refused and stays as it is. -/
theorem migration_preserves (sha256 blake2b : List UInt8 → Digest)
    (sourceIdentity destinationIdentity : String) {source destination : Head}
    (hsource : (heads sha256 blake2b).Run Machine.Any .new source)
    (hdestination : (heads sha256 blake2b).Run Machine.Any .new destination) :
    (sourceIdentity ≠ destinationIdentity → destination.journal.latest = 0 →
      ∃ evidence source' destination',
        migrateCellHistory sha256 sourceIdentity destinationIdentity (fun _ => none) source
          destination = (.ok evidence, source', destination') ∧
        (destination'.revisionChainDigest sha256 destination'.revision).1 =
          (source.revisionChainDigest sha256 source.revision).1 ∧
        destination'.revision = source.revision ∧ ∀ r, destination'.at' r = source.at' r) ∧
    ∀ refusals,
      let migrated := migrateCellHistory sha256 sourceIdentity destinationIdentity refusals source
        destination
      migrated.2.1.journal = source.journal ∧ migrated.2.1.revision = source.revision ∧
      (destination.revision ≠ 0 → (∃ e, migrated.1 = .error e) ∧ migrated.2.2 = destination) := by
  have hcoherent := coherent_of_run hsource
  have hcoherent' := coherent_of_run hdestination
  have hgrown := grown_of_run hsource
  have hgrown' := grown_of_run hdestination
  obtain ⟨hjournal, hrevision⟩ := @revisionChainDigest_same sha256 source source.revision
  refine ⟨fun hidentity hlatest => ?_, fun refusals =>
    migrateCellHistory_keeps sha256 sourceIdentity destinationIdentity source destination refusals⟩
  · obtain ⟨digest, hdigest⟩ := Option.isSome_iff_exists.1
      (@Grown.chain_isSome sha256 _ _ hgrown hcoherent.within)
    have hempty : destination.revision = 0 := Nat.le_zero.1 (hlatest ▸ hcoherent'.within)
    set made := source.revisionChainDigest sha256 source.revision with hmade
    have hfirst : made = (some digest, made.2) :=
      Prod.ext (hcoherent.head_digest.trans hdigest) rfl
    have hcopied : Copied sha256 blake2b made.2 destination 0 := ⟨hcoherent', hempty, hlatest,
      fun s hs id => by
        rw [Nat.le_zero.1 hs, hjournal, hgrown.first, hgrown'.first]⟩
    obtain ⟨last, hcopy, hlast⟩ := hcopied.run (hjournal ▸ hgrown) made.2.revision
      (by rw [hjournal, hrevision, Nat.zero_add]; exact hcoherent.within)
    rw [Nat.zero_add] at hlast
    have hversions : ∀ s ≤ source.revision,
        orderedRevision last.journal s = orderedRevision source.journal s := fun s hs =>
      orderedRevision_congr hlast.coherent.keyed hcoherent.keyed fun id =>
        hjournal ▸ hlast.versions s (hrevision.symm ▸ hs) id
    have hsame : (last.revisionChainDigest sha256 last.revision).1 = some digest := by
      rw [hlast.coherent.head_digest, hlast.revision, hrevision, chain_congr hversions, hdigest]
    obtain ⟨hjournal', hrevision'⟩ :=
      @revisionChainDigest_same sha256 last last.revision
    refine ⟨⟨sourceIdentity, destinationIdentity, made.2.revision, last.revision, digest⟩, made.2,
      (last.revisionChainDigest sha256 last.revision).2, ?_, ?_, ?_, fun r => ?_⟩
    · unfold migrateCellHistory
      rw [if_neg hidentity, if_neg (by rw [hempty]; simp [hgrown'.genesis]), ← hmade, hfirst]
      dsimp only
      rw [hcopy]
      dsimp only
      rw [if_neg]
      exact not_or.2 ⟨not_not.2 hlast.revision, not_not.2 hsame⟩
    · rw [(hlast.coherent.digested last.revision).head_digest, hjournal', hrevision',
        ← hlast.coherent.head_digest, hsame, hcoherent.head_digest, hdigest]
    · rw [hrevision', hlast.revision, hrevision]
    · rw [at_same hjournal' hrevision', hlast.at_eq (hjournal.symm ▸ hcoherent.keyed),
        at_same hjournal hrevision]

end

theorem migration_preserves_created : ∃ evidence source' destination',
    migrateCellHistory lastByte "source" "destination" (fun _ => none) createdHead .new =
      (.ok evidence, source', destination') ∧
    (destination'.revisionChainDigest lastByte destination'.revision).1 =
      (createdHead.revisionChainDigest lastByte createdHead.revision).1 ∧
    destination'.revision = createdHead.revision ∧ ∀ r, destination'.at' r = createdHead.at' r :=
  (migration_preserves lastByte id "source" "destination" (Machine.Run.ofActions Head.new _)
    (.refl _)).1 (by decide) rfl

end ArchHub.Cells

import Mathlib
import ArchHub.Cells.Head

/-!
# Transitions of a snapshot

A caller holds a revision and its digest, and asks what has changed since.  The store compares
digests: nothing has changed where they are equal at the head, and what the last revision wrote
has changed where the digest of the head is one step of the chain from the caller's.

* `Head.snapshotTransition`: `snapshot_transition`.
* `chain_inj`: equal digests are of equal histories, where no two steps of the chain collide.
* `transition_composes`: what is reported as changed leads from any store with the caller's
  digest to the head.
-/

namespace ArchHub.Cells

open Lib List Option

/-- `SnapshotTransition`. -/
structure SnapshotTransition where
  revision : ℕ
  cells : Lookup
  digest : Digest
  changed : Option (List Cell)

section

variable (sha256 : List UInt8 → Digest) (fromhex : String → Option Digest)

/-- What has changed since a revision with a digest; no value where that is asked of a revision
without cells. -/
def Head.changedSince (w : Head) (digest : Digest) :
    Option ℤ → Option String → Option (Option (List Cell))
  | some previousRevision, some previousDigest =>
      let predecessor := (fromhex previousDigest).getD []
      if previousRevision < 0 then some none
      else if predecessor.length ≠ 32 ∨ previousDigest.length ≠ 64 then some none
      else if previousRevision = w.revision then
        some (if predecessor = digest then some [] else none)
      else if previousRevision = w.revision - 1 then
        (chainDigestStep sha256 predecessor w.revision (orderedRevision w.journal w.revision)).map
          fun calculated =>
            if calculated = digest then some (w.journal.written w.revision) else none
      else some none
  | _, _ => some none

/-- `snapshot_transition`; no value where it raises. -/
def Head.snapshotTransition (w : Head) (previousRevision : Option ℤ)
    (previousDigest : Option String) : Option SnapshotTransition × Head :=
  let (digest, w') := w.revisionChainDigest sha256 w.revision
  (digest.bind fun digest =>
    (w.changedSince sha256 fromhex digest previousRevision previousDigest).map fun changed =>
      ⟨w.revision, w.base, digest, changed⟩, w')

end

/-- Cells lead from a snapshot to another one, and no cell that differs is left out. -/
def LeadsTo (before after : Lookup) (changed : List Cell) : Prop :=
  (∀ id, after id = (cellOf changed id).or (before id)) ∧
    ∀ id, after id ≠ before id → id ∈ changed.map Cell.id

/-! ## Collisions -/

/-- A step of the chain: the digest before, the revision and its cells. -/
abbrev ChainStep := Digest × ℕ × List Cell

/-- No two of the steps have one digest. -/
def CollisionFree (sha256 : List UInt8 → Digest) (steps : Set ChainStep) : Prop :=
  ∀ x ∈ steps, ∀ y ∈ steps, ∀ digest, chainDigestStep sha256 x.1 x.2.1 x.2.2 = some digest →
    chainDigestStep sha256 y.1 y.2.1 y.2.2 = some digest → x = y

/-- The steps of a journal up to a revision. -/
def chainSteps (sha256 : List UInt8 → Digest) (j : Journal) (n : ℕ) : Set ChainStep :=
  {x | x.2.1 ≤ n ∧ digestBefore sha256 { Database.new with journal := j } x.2.1 = some x.1 ∧
    x.2.2 = orderedRevision j x.2.1}

section

variable {sha256 blake2b : List UInt8 → Digest} {fromhex : String → Option Digest}
  {steps : Set ChainStep} {j j' : Journal} {n n' r : ℕ} {digest : Digest}

/-- The last step of a digest. -/
theorem chain_step (h : chain sha256 j r = some digest) (hr : r ≤ n) :
    ∃ previous, (previous, r, orderedRevision j r) ∈ chainSteps sha256 j n ∧
      chainDigestStep sha256 previous r (orderedRevision j r) = some digest := by
  unfold chain at h
  rw [chainDigest_unproved rfl, bind_eq_some_iff] at h
  obtain ⟨previous, hbefore, hstep⟩ := h
  exact ⟨previous, ⟨hr, hbefore, rfl⟩, hstep⟩

/-- **Equal digests are of equal histories.** -/
theorem chain_inj (hfree : CollisionFree sha256 steps) (hj : chainSteps sha256 j n ⊆ steps)
    (hj' : chainSteps sha256 j' n' ⊆ steps) (hr : r ≤ n) (hr' : r ≤ n')
    (h : chain sha256 j r = some digest) (h' : chain sha256 j' r = some digest) :
    ∀ s ≤ r, orderedRevision j s = orderedRevision j' s := by
  induction r generalizing digest with
  | zero =>
      obtain ⟨p, hmem, hstep⟩ := chain_step h hr
      obtain ⟨p', hmem', hstep'⟩ := chain_step h' hr'
      have heq := hfree _ (hj hmem) _ (hj' hmem') digest hstep hstep'
      intro s hs
      rw [Nat.le_zero.1 hs]
      exact congrArg (fun x => x.2.2) heq
  | succ r ih =>
      obtain ⟨p, hmem, hstep⟩ := chain_step h hr
      obtain ⟨p', hmem', hstep'⟩ := chain_step h' hr'
      have heq := hfree _ (hj hmem) _ (hj' hmem') digest hstep hstep'
      simp only [Prod.mk.injEq] at heq
      obtain ⟨rfl, -, hcells⟩ := heq
      intro s hs
      rcases Nat.lt_or_eq_of_le hs with hlt | rfl
      · exact ih (Nat.le_of_succ_le hr) (Nat.le_of_succ_le hr') hmem.2.1 hmem'.2.1 s
          (Nat.le_of_lt_succ hlt)
      · exact hcells

/-- The versions of a revision are its cells in any order. -/
theorem versions_orderedRevision (hkeyed : j.Keyed) (r : ℕ) (id : String) :
    cellOf (orderedRevision j r) id = j.versions r id := by
  obtain ⟨hnodup, hget⟩ := j.written_spec hkeyed r
  have hperm : (orderedRevision j r).Perm (j.written r) := mergeSort_perm _ _
  rw [← hget]
  ext c
  rw [cellOf_eq_some hnodup, cellOf_eq_some ((hperm.map Cell.id).nodup_iff.2 hnodup), hperm.mem_iff]

/-- Equal histories have equal snapshots. -/
theorem at_of_orderedRevision (hkeyed : j.Keyed) (hkeyed' : j'.Keyed)
    (h : ∀ s ≤ r, orderedRevision j s = orderedRevision j' s) (id : String) :
    j.at' r id = j'.at' r id :=
  Versions.latest_congr fun s hs => by
    rw [← versions_orderedRevision hkeyed, ← versions_orderedRevision hkeyed', h s hs]

/-- What is reported is nothing at the head, and what was written last one revision before. -/
theorem changedSince_cases {w : Head} {a : ℤ} {text : String} {changed : List Cell}
    (h : w.changedSince sha256 fromhex digest (some a) (some text) = some (some changed)) :
    a = w.revision ∧ fromhex text = some digest ∧ changed = [] ∨
      ∃ r : ℕ, a = r ∧ w.revision = r + 1 ∧ ∃ predecessor, fromhex text = some predecessor ∧
        changed = w.journal.written w.revision ∧ chainDigestStep sha256 predecessor w.revision
          (orderedRevision w.journal w.revision) = some digest := by
  unfold Head.changedSince at h
  dsimp only at h
  have hhex : ((fromhex text).getD []).length = 32 →
      fromhex text = some ((fromhex text).getD []) := by
    cases fromhex text with
    | none => simp
    | some p => simp
  split at h
  · cases h
  · next hpositive =>
    split at h
    · cases h
    · next hlength =>
      simp only [not_or, not_not] at hlength
      split at h
      · next hhead =>
        split at h
        · next heq =>
          cases h
          exact Or.inl ⟨hhead, (hhex hlength.1).trans (congrArg some heq), rfl⟩
        · cases h
      · split at h
        · next hbefore =>
          rw [map_eq_some_iff] at h
          obtain ⟨calculated, hcalculated, heq⟩ := h
          split at heq
          · next hsame =>
            cases heq
            refine Or.inr ⟨w.revision - 1, by omega, by omega, _, hhex hlength.1, rfl, ?_⟩
            rw [hcalculated, hsame]
          · cases heq
        · cases h

/-- **Transitions compose.**  Where the steps of the chain do not collide, cells that are reported
as changed since a revision and a digest are what leads to the head from any store with that
digest at that revision, this one or another, whatever its history. -/
theorem transition_composes (sha256 blake2b : List UInt8 → Digest)
    (fromhex : String → Option Digest) {w w' : Head}
    (hrun : (heads sha256 blake2b).Run Machine.Any .new w)
    (hrun' : (heads sha256 blake2b).Run Machine.Any .new w') {a : ℤ} {text : String}
    {t : SnapshotTransition} {changed : List Cell}
    (hfree : CollisionFree sha256 (insert
      ((fromhex text).getD [], w.revision, orderedRevision w.journal w.revision)
      (chainSteps sha256 w.journal w.revision ∪ chainSteps sha256 w'.journal w'.revision)))
    (h : (w.snapshotTransition sha256 fromhex (some a) (some text)).1 = some t)
    (hchanged : t.changed = some changed) :
    ∃ r : ℕ, (r : ℤ) = a ∧ r ≤ w.revision ∧ t.cells = w.base ∧
      fromhex text = chain sha256 w.journal r ∧
      (r ≤ w'.revision → fromhex text = chain sha256 w'.journal r →
        LeadsTo (w'.journal.at' r) w.base changed) := by
  have hcoherent := coherent_of_run hrun
  have hcoherent' := coherent_of_run hrun'
  set call : ChainStep := ((fromhex text).getD [], w.revision, orderedRevision w.journal w.revision)
  have hsub : chainSteps sha256 w.journal w.revision ⊆ insert call
      (chainSteps sha256 w.journal w.revision ∪ chainSteps sha256 w'.journal w'.revision) :=
    fun _ hx => Or.inr (Or.inl hx)
  -- the other store had the snapshot of this one
  have hsame : ∀ r p, r ≤ w.revision → chain sha256 w.journal r = some p → r ≤ w'.revision →
      chain sha256 w'.journal r = some p → ∀ id, w'.journal.at' r id = w.journal.at' r id :=
    fun r p hr hp hr' hp' => at_of_orderedRevision hcoherent'.keyed hcoherent.keyed
      (chain_inj hfree (fun _ hx => Or.inr (Or.inr hx)) hsub hr' hr hp' hp)
  unfold Head.snapshotTransition Head.revisionChainDigest at h
  rw [if_neg (lt_irrefl _), Option.bind_eq_some_iff] at h
  obtain ⟨digest, hdigest, h⟩ := h
  dsimp only at hdigest
  rw [hcoherent.chainDigest_eq] at hdigest
  obtain ⟨reported, hreported, rfl⟩ := Option.map_eq_some_iff.1 h
  obtain rfl : reported = some changed := hchanged
  rcases changedSince_cases hreported with ⟨rfl, hhex, rfl⟩ | ⟨r, rfl, hr, p, hhex, rfl, hstep⟩
  · refine ⟨w.revision, rfl, le_rfl, rfl, hhex.trans hdigest.symm, fun hr' hp' => ?_⟩
    have hat := hsame _ _ le_rfl hdigest hr' (hp'.symm.trans hhex)
    exact ⟨fun id => (hat id).symm, fun id hne => absurd (hat id).symm hne⟩
  · -- the last step of the chain is the one that was calculated
    obtain ⟨previous, hmem, hlast⟩ := chain_step hdigest le_rfl
    have heq := hfree call (Or.inl rfl) _ (hsub hmem) digest (by simpa [call, hhex] using hstep) hlast
    obtain rfl : previous = p := by simpa [call, hhex] using (congrArg Prod.fst heq).symm
    have hbefore : chain sha256 w.journal r = some previous := by
      have hdigestBefore := hmem.2.1
      dsimp only at hdigestBefore
      rwa [hr] at hdigestBefore
    have hbase : ∀ id, w.base id =
        (cellOf (w.journal.written w.revision) id).or (w.journal.at' r id) := by
      intro id
      rw [(w.journal.written_spec hcoherent.keyed w.revision).2]
      unfold Head.base
      rw [hr]
      rfl
    refine ⟨r, rfl, by omega, rfl, hhex.trans hbefore.symm, fun hr' hp' => ?_⟩
    have hat := hsame r previous (by omega) hbefore hr' (hp'.symm.trans hhex)
    refine ⟨fun id => (hbase id).trans (congrArg _ (hat id).symm), fun id hne => ?_⟩
    by_contra hnot
    rw [hbase, cellOf_eq_none.2 hnot, Option.none_or, hat] at hne
    exact hne rfl

end

/-! ### A store with one cell -/

/-- A digest that tells the last byte. -/
def lastByte (bytes : List UInt8) : Digest := List.replicate 31 0 ++ [bytes.getLast?.getD 0]

/-- A store with one cell that has been created. -/
def createdHead : Head :=
  [.commit none 0 [⟨"a", nullId, nullId, [7]⟩] []].foldl (heads lastByte id).step Head.new

theorem chainDigestStep_lastByte (previous : Digest) (r : ℕ) (c : Cell) :
    chainDigestStep lastByte previous r [c] = some (lastByte (field c.atom)) := by
  have hne : field c.atom ≠ [] := by simp [field]
  unfold chainDigestStep lastByte
  rw [if_neg (cons_ne_nil _ _), flatMap_singleton, ← append_assoc,
    List.getLast?_append, List.getLast?_eq_some_getLast hne, some_or]

theorem createdHead_ordered : orderedRevision createdHead.journal 0 = [nullCell] ∧
    orderedRevision createdHead.journal 1 = [⟨"a", nullId, nullId, [7]⟩] := by
  have h0 : createdHead.journal.written 0 = [nullCell] := by decide
  have h1 : createdHead.journal.written 1 = [⟨"a", nullId, nullId, [7]⟩] := by decide
  simp [orderedRevision, h0, h1]

theorem createdHead_chain : chain lastByte createdHead.journal 0 = some (lastByte [0]) ∧
    chain lastByte createdHead.journal 1 = some (lastByte [7]) := by
  have h0 : chain lastByte createdHead.journal 0 = some (lastByte [0]) := by
    unfold chain
    rw [chainDigest_unproved rfl, digestBefore, bind_some, createdHead_ordered.1,
      chainDigestStep_lastByte]
    decide
  refine ⟨h0, ?_⟩
  unfold chain at h0 ⊢
  rw [chainDigest_unproved rfl, digestBefore, h0, bind_some, createdHead_ordered.2,
    chainDigestStep_lastByte]
  decide

theorem createdHead_free : CollisionFree lastByte (insert
    (lastByte [0], 1, orderedRevision createdHead.journal 1)
    (chainSteps lastByte createdHead.journal 1 ∪ chainSteps lastByte createdHead.journal 1)) := by
  have hsteps : ∀ x ∈ insert (lastByte [0], 1, orderedRevision createdHead.journal 1)
      (chainSteps lastByte createdHead.journal 1 ∪ chainSteps lastByte createdHead.journal 1),
      x = (List.replicate 32 0, 0, [nullCell]) ∨
        x = (lastByte [0], 1, [⟨"a", nullId, nullId, [7]⟩]) := by
    rw [Set.union_self, createdHead_ordered.2]
    rintro x (rfl | hx)
    · exact Or.inr rfl
    · obtain ⟨previous, r, cells⟩ := x
      obtain ⟨hr, hbefore, hcells⟩ := hx
      dsimp only at hr hbefore hcells
      interval_cases r
      · rw [hcells, createdHead_ordered.1, ← Option.some.inj hbefore]
        exact Or.inl rfl
      · rw [hcells, createdHead_ordered.2, Option.some.inj (hbefore.symm.trans createdHead_chain.1)]
        exact Or.inr rfl
  intro x hx y hy digest hdigest hdigest'
  rcases hsteps x hx with rfl | rfl <;> rcases hsteps y hy with rfl | rfl
  · rfl
  · rw [chainDigestStep_lastByte] at hdigest hdigest'
    exact absurd (hdigest.trans hdigest'.symm) (by decide)
  · rw [chainDigestStep_lastByte] at hdigest hdigest'
    exact absurd (hdigest.trans hdigest'.symm) (by decide)
  · rfl

theorem transition_composes_created : ∃ r : ℕ, (r : ℤ) = 0 ∧ r ≤ createdHead.revision ∧
    createdHead.base = createdHead.base ∧
    some (lastByte [0]) = chain lastByte createdHead.journal r ∧
    (r ≤ createdHead.revision → some (lastByte [0]) = chain lastByte createdHead.journal r →
      LeadsTo (createdHead.journal.at' r) createdHead.base [⟨"a", nullId, nullId, [7]⟩]) := by
  have hrun : (heads lastByte id).Run Machine.Any .new createdHead :=
    Machine.Run.ofActions Head.new _
  have hreport : (createdHead.snapshotTransition lastByte (fun _ => some (lastByte [0])) (some 0)
      (some (String.ofList (List.replicate 64 '0')))).1 =
      some ⟨1, createdHead.base, lastByte [7], some [⟨"a", nullId, nullId, [7]⟩]⟩ := by
    have hdigest : (createdHead.revisionChainDigest lastByte createdHead.revision).1 =
        some (lastByte [7]) := createdHead_chain.2
    have hordered : orderedRevision createdHead.journal createdHead.revision =
        [⟨"a", nullId, nullId, [7]⟩] := createdHead_ordered.2
    unfold Head.snapshotTransition
    dsimp only
    rw [hdigest, Option.bind_some]
    unfold Head.changedSince
    simp only [hordered, chainDigestStep_lastByte]
    rfl
  exact transition_composes lastByte id (fun _ => some (lastByte [0])) hrun hrun createdHead_free
    hreport rfl

end ArchHub.Cells

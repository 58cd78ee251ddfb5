import Mathlib
import ArchHub.Lib.Check
import ArchHub.Cells.OneValue

/-!
# Links since a revision

Before a change is undone, the links to the cells it created are compared: those of the
snapshot with those of the revision that the change made.  Only the cells that were written
in between are read for that.

* `incomingLinksForTargets`: the links to some cells, in one pass over a mapping.
* `incomingLinksSince`: those among the cells that were written after a revision, now and at
  that revision.
* `gained`: what one index has that another one has not.
* `incomingLinksSince_compares`: what is gained and lost is what the passes over the two
  whole mappings say.
-/

namespace ArchHub.Cells

open Lib List

/-! ## Indexes -/

/-- A link: the cell that has it, and its position. -/
abbrev Link := String × ℕ

/-- The links to some cells. -/
abbrev Incoming := Dict String (Finset Link)

/-- `into[target].add(link)`, where there is an entry for the target. -/
def addLink (incoming : Incoming) (target : String) (link : Link) : Incoming :=
  match incoming.get? target with
  | some links => incoming.set target (insert link links)
  | none => incoming

/-- The links of a cell are added. -/
def addLinks (incoming : Incoming) (c : Cell) : Incoming :=
  addLink (addLink incoming c.link0 (c.id, 0)) c.link1 (c.id, 1)

/-- An entry without links for every target. -/
def noLinks (targets : List String) : Incoming :=
  Dict.empty.update (targets.map fun target => (target, ∅))

/-- `_incoming_links_for_targets`. -/
def incomingLinksForTargets (cells : Dict String Cell) (targets : List String) : Incoming :=
  if targets = [] then .empty else cells.values.foldl addLinks (noLinks targets)

/-! ## What a store remembers of its revisions -/

namespace CellStore

/-- `revision_changes`. -/
def revisionChanges (w : CellStore) (r : ℕ) : Except CellError (List String) :=
  if w.revision < r then .error (.invalid "unknown revision")
  else match w.journal.written r with
    | [] => .error (.invalid "unknown revision")
    | cells => .ok (cells.map Cell.id)

/-- The version of a cell that a revision sees. -/
def imageAt (w : CellStore) (r : ℕ) (id : String) : Except CellError (String × Cell) :=
  match w.journal.at' r id with
  | some c => .ok (id, c)
  | none => .error (.invalidAt "did not exist at revision" id)

/-- `cells_at`. -/
def cellsAt (w : CellStore) (r : ℕ) (ids : List String) : Except CellError (Dict String Cell) :=
  if w.revision < r then .error (.invalid "unknown revision")
  else do
    let cells ← Check.collect (w.imageAt r) ids
    return Dict.ofList cells

/-- `before.update(store.cells_at(…))`, where it does not raise. -/
def addCellAt (w : CellStore) (r : ℕ) (before : Dict String Cell) (id : String) :
    Dict String Cell :=
  match w.cellsAt r [id] with
  | .ok cells => before.update cells.entries
  | .error _ => before

/-- The cells that were there at a revision: at once, or one by one where some were not. -/
def cellsThere (w : CellStore) (r : ℕ) (ids : List String) : Dict String Cell :=
  match w.cellsAt r ids with
  | .ok before => before
  | .error _ => ids.foldl (w.addCellAt r) .empty

/-- The identities that were written after a revision, up to another one. -/
def changedSince (w : CellStore) (r n : ℕ) : Except CellError (List String) := do
  let changes ← Check.collect w.revisionChanges ((List.range (n - r)).map fun i => r + 1 + i)
  return changes.flatten.dedup.mergeSort

/-- `_incoming_links_since`: for a snapshot of a revision, the links of the cells that were
written after an earlier revision, as they are in the snapshot and as they were then. -/
def incomingLinksSince (w : CellStore) (n : ℕ) (cells : Dict String Cell) (r : ℕ)
    (targets : List String) : Except CellError (Incoming × Incoming) :=
  if targets ≠ [] ∧ r < n then do
    let ordered ← w.changedSince r n
    let before := w.cellsThere r ordered
    return ((ordered.filterMap cells.get?).foldl addLinks (noLinks targets),
      (ordered.filterMap before.get?).foldl addLinks (noLinks targets))
  else return (noLinks targets, noLinks targets)

end CellStore

/-- The links to a target that one index has and another one has not. -/
def gained (now before : Incoming) (target : String) : Finset Link :=
  (now.get? target).getD ∅ \ (before.get? target).getD ∅

/-! ## What an index holds -/

/-- A link leads from a cell to a target. -/
def Leads (c : Cell) (link : Link) (target : String) : Prop :=
  link = (c.id, 0) ∧ c.link0 = target ∨ link = (c.id, 1) ∧ c.link1 = target

/-- The links to a target. -/
def Incoming.links (incoming : Incoming) (target : String) : Finset Link :=
  (incoming.get? target).getD ∅

section

variable {incoming : Incoming} {target : String} {link : Link} {cs : List Cell}

theorem isSome_addLink (target' : String) (link' : Link) :
    ((addLink incoming target' link').get? target).isSome = (incoming.get? target).isSome := by
  unfold addLink
  cases hentry : incoming.get? target' with
  | none => rfl
  | some links =>
      dsimp only
      rw [Dict.get?_set]
      split
      · next heq => rw [heq, hentry]; rfl
      · rfl

theorem mem_links_addLink (target' : String) (link' : Link) :
    link ∈ (addLink incoming target' link').links target ↔ link ∈ incoming.links target ∨
      (incoming.get? target).isSome ∧ link = link' ∧ target' = target := by
  unfold addLink Incoming.links
  cases hentry : incoming.get? target' with
  | none =>
      constructor
      · exact .inl
      · rintro (h | ⟨hsome, -, rfl⟩)
        · exact h
        · rw [hentry] at hsome
          cases hsome
  | some links =>
      dsimp only
      rw [Dict.get?_set]
      split
      · next heq =>
        subst heq
        rw [hentry, Option.getD_some, Option.getD_some, Finset.mem_insert]
        tauto
      · next hne =>
        constructor
        · exact .inl
        · rintro (h | ⟨-, -, rfl⟩)
          · exact h
          · exact absurd rfl hne

theorem isSome_addLinks (c : Cell) :
    ((addLinks incoming c).get? target).isSome = (incoming.get? target).isSome := by
  rw [addLinks, isSome_addLink, isSome_addLink]

theorem mem_links_addLinks (c : Cell) :
    link ∈ (addLinks incoming c).links target ↔ link ∈ incoming.links target ∨
      (incoming.get? target).isSome ∧ Leads c link target := by
  rw [addLinks, mem_links_addLink, mem_links_addLink, isSome_addLink]
  unfold Leads
  tauto

/-- **A pass over some cells** adds their links to the targets that have an entry. -/
theorem mem_links_foldl :
    link ∈ (cs.foldl addLinks incoming).links target ↔ link ∈ incoming.links target ∨
      (incoming.get? target).isSome ∧ ∃ c ∈ cs, Leads c link target := by
  induction cs generalizing incoming with
  | nil => simp
  | cons c cs ih =>
      rw [foldl_cons, ih, mem_links_addLinks, isSome_addLinks]
      simp only [mem_cons, exists_eq_or_imp]
      tauto

theorem get?_noLinks (targets : List String) :
    (noLinks targets).get? target = if target ∈ targets then some ∅ else none := by
  have hgeneral : ∀ (d : Incoming), (d.update (targets.map fun t => (t, ∅))).get? target =
      if target ∈ targets then some ∅ else d.get? target := by
    induction targets with
    | nil => intro d; rfl
    | cons t targets ih =>
        intro d
        rw [map_cons, Dict.update_cons, ih, Dict.get?_set]
        by_cases hmem : target ∈ targets
        · simp [hmem]
        · by_cases heq : target = t <;> simp [hmem, heq]
  exact hgeneral .empty

theorem mem_links_pass (targets : List String) :
    link ∈ (cs.foldl addLinks (noLinks targets)).links target ↔
      target ∈ targets ∧ ∃ c ∈ cs, Leads c link target := by
  rw [mem_links_foldl, Incoming.links, get?_noLinks]
  split
  · next h => simp [h]
  · next h => simp [h]

/-- The whole pass. -/
theorem mem_incomingLinksForTargets (cells : Dict String Cell) (targets : List String) :
    link ∈ (incomingLinksForTargets cells targets).links target ↔
      target ∈ targets ∧ ∃ c ∈ cells.values, Leads c link target := by
  unfold incomingLinksForTargets
  split
  · next hnil =>
    rw [hnil]
    simp [Incoming.links]
  · exact mem_links_pass targets

end

/-! ## What the store remembers -/

namespace CellStore

variable {w : CellStore} {r n : ℕ} {ids : List String} {id : String} {hash : Cell → ℤ}

theorem imageAt_ok {e : String × Cell} :
    w.imageAt r id = .ok e ↔ e.1 = id ∧ w.journal.at' r id = some e.2 := by
  unfold imageAt
  cases w.journal.at' r id with
  | none => simp
  | some c =>
      constructor
      · intro h
        cases h
        exact ⟨rfl, rfl⟩
      · rintro ⟨rfl, h⟩
        cases h
        rfl

theorem get?_cellsAt (hnodup : ids.Nodup) {cells : Dict String Cell}
    (h : w.cellsAt r ids = .ok cells) (hid : id ∈ ids) : cells.get? id = w.journal.at' r id := by
  unfold cellsAt at h
  split at h
  · cases h
  · obtain ⟨images, himages, hcells⟩ := Check.bind_ok_iff.1 h
    cases hcells
    have hkeys : images.map Prod.fst = ids := by
      have hall := Check.collect_ok_iff.1 himages
      clear himages hid hnodup h
      induction hall with
      | nil => rfl
      | cons hfirst _ ih => rw [map_cons, (imageAt_ok.1 hfirst).1, ih]
    obtain ⟨e, he, himage⟩ := Check.ok_of_mem_collect himages hid
    obtain ⟨hkey, hat⟩ := imageAt_ok.1 himage
    rw [← hkeys] at hnodup
    rw [Dict.get?_ofList _ hnodup, hat, ← hkey]
    exact Assoc.find_of_mem hnodup he

theorem addCellAt_eq (hr : r ≤ w.revision) (before : Dict String Cell) :
    w.addCellAt r before id =
      match w.journal.at' r id with
      | some c => before.set id c
      | none => before := by
  unfold addCellAt cellsAt
  rw [if_neg (Nat.not_lt.2 hr), Check.collect, Check.collect]
  unfold imageAt
  cases w.journal.at' r id with
  | none => rfl
  | some c => rfl

theorem get?_foldl_addCellAt (hr : r ≤ w.revision) (before : Dict String Cell) :
    (ids.foldl (w.addCellAt r) before).get? id =
      if id ∈ ids then (w.journal.at' r id).or (before.get? id) else before.get? id := by
  induction ids generalizing before with
  | nil => rfl
  | cons first ids ih =>
      rw [foldl_cons, ih, addCellAt_eq hr]
      cases hat : w.journal.at' r first with
      | none =>
          by_cases heq : id = first
          · rw [heq, hat]
            simp
          · simp [heq]
      | some c =>
          dsimp only
          rw [Dict.get?_set]
          by_cases heq : id = first
          · rw [heq, hat]
            simp
          · simp [heq]

/-- **The cells of a revision**, read at once or one by one. -/
theorem get?_cellsThere (hr : r ≤ w.revision) (hnodup : ids.Nodup) (hid : id ∈ ids) :
    (w.cellsThere r ids).get? id = w.journal.at' r id := by
  unfold cellsThere
  cases hcells : w.cellsAt r ids with
  | ok cells => exact get?_cellsAt hnodup hcells hid
  | error e =>
      dsimp only
      rw [get?_foldl_addCellAt hr, if_pos hid, Dict.get?_empty, Option.or_none]

/-- Every revision wrote something. -/
def Unbroken (j : Journal) : Prop := ∀ r ≤ j.latest, j.written r ≠ []

theorem exists_revisionChanges (hunbroken : Unbroken w.journal) (hle : w.revision ≤ w.journal.latest)
    (hr : r ≤ w.revision) :
    w.revisionChanges r = .ok ((w.journal.written r).map Cell.id) := by
  unfold revisionChanges
  rw [if_neg (Nat.not_lt.2 hr)]
  cases hwritten : w.journal.written r with
  | nil => exact absurd hwritten (hunbroken r (hr.trans hle))
  | cons c cs => rfl

/-- The identities that were written since, once each. -/
theorem changedSince_ok (hunbroken : Unbroken w.journal) (hle : w.revision ≤ w.journal.latest)
    (hn : n ≤ w.revision) (hrn : r ≤ n) :
    ∃ ordered, w.changedSince r n = .ok ordered ∧ ordered.Nodup ∧
      ∀ id, id ∈ ordered ↔ ∃ s, r < s ∧ s ≤ n ∧ id ∈ (w.journal.written s).map Cell.id := by
  have hchanges : ∀ s ∈ (List.range (n - r)).map fun i => r + 1 + i,
      w.revisionChanges s = .ok ((w.journal.written s).map Cell.id) := by
    intro s hs
    obtain ⟨i, hi, rfl⟩ := List.mem_map.1 hs
    have hlt := List.mem_range.1 hi
    exact exists_revisionChanges hunbroken hle (by omega)
  have hcollect : Check.collect w.revisionChanges ((List.range (n - r)).map fun i => r + 1 + i) =
      .ok (((List.range (n - r)).map fun i => r + 1 + i).map
        fun s => (w.journal.written s).map Cell.id) := by
    rw [Check.collect_ok_iff]
    generalize ((List.range (n - r)).map fun i => r + 1 + i) = revisions at hchanges
    induction revisions with
    | nil => exact List.Forall₂.nil
    | cons s revisions ih =>
        exact List.Forall₂.cons (hchanges s mem_cons_self)
          (ih fun s' hs' => hchanges s' (mem_cons_of_mem _ hs'))
  refine ⟨_, by rw [changedSince, hcollect]; rfl, ?_, fun id => ?_⟩
  · exact (mergeSort_perm _ _).nodup_iff.2 (nodup_dedup _)
  · rw [mem_mergeSort, mem_dedup, mem_flatten]
    constructor
    · rintro ⟨written, hwritten, hid⟩
      obtain ⟨s, hs, rfl⟩ := List.mem_map.1 hwritten
      obtain ⟨i, hi, rfl⟩ := List.mem_map.1 hs
      have hlt := List.mem_range.1 hi
      exact ⟨r + 1 + i, by omega, by omega, hid⟩
    · rintro ⟨s, hrs, hsn, hid⟩
      refine ⟨_, List.mem_map.2 ⟨s, List.mem_map.2 ⟨s - (r + 1), ?_, by omega⟩, rfl⟩, hid⟩
      rw [mem_range]
      omega

/-! ## Every revision wrote something -/

theorem unbroken_append {j : Journal} {written : List Cell} (hkeyed : j.Keyed)
    (hnodup : (written.map Cell.id).Nodup) (hne : written ≠ []) (h : Unbroken j) :
    Unbroken (j.append written) := by
  have hkeyed' := Journal.keyed_append hkeyed hnodup
  intro r hr hnil
  have hcell := ((j.append written).written_spec hkeyed' r).2
  rw [hnil] at hcell
  by_cases hnew : r = j.latest + 1
  · obtain ⟨c, cs, rfl⟩ := exists_cons_of_ne_nil hne
    have hversion := hcell c.id
    rw [Journal.versions_append hkeyed hnodup, if_pos hnew,
      (cellOf_eq_some hnodup).2 ⟨mem_cons_self, rfl⟩] at hversion
    cases hversion
  · have hle : r ≤ j.latest := by
      have hlatest : r ≤ j.latest + 1 := hr
      omega
    obtain ⟨c, cs, hcons⟩ := exists_cons_of_ne_nil (h r hle)
    obtain ⟨hnodup', hcell'⟩ := j.written_spec hkeyed r
    have hversion := hcell c.id
    rw [Journal.versions_append hkeyed hnodup, if_neg hnew, ← hcell',
      (cellOf_eq_some hnodup').2 ⟨hcons ▸ mem_cons_self, rfl⟩] at hversion
    cases hversion

/-- A store that agrees with its journal, every revision of which wrote something. -/
def Kept (hash : Cell → ℤ) (w : CellStore) : Prop := Agrees hash w ∧ Unbroken w.journal

theorem Kept.commit (h : Kept hash w) (c : CellStore.Commit) : Kept hash (w.commit hash c) := by
  refine ⟨h.1.commit c, ?_⟩
  rcases commit_cases w hash c with
    heq | heq | ⟨written, hdelta, hne, ⟨hhead, heq⟩ | ⟨-, -, heq⟩⟩
  · rw [heq]
    exact h.2
  · rw [heq]
    exact h.2
  · have hlatest := hhead.elim (fun hm => (h.1.memory hm).symm) id
    rw [heq, (h.1.published hlatest hdelta).2.1]
    exact unbroken_append h.1.keyed (delta_ok hdelta).written_nodup hne h.2
  · rw [heq]
    exact unbroken_append h.1.keyed (delta_ok hdelta).written_nodup hne h.2

theorem kept_step {a : Keeping} (ha : Asks w a) (h : Kept hash w) :
    Kept hash ((keepers hash).step w a) := by
  refine ⟨agrees_step ha h.1, ?_⟩
  cases a with
  | commit c => exact (h.commit c).2
  | query q =>
      show Unbroken (w.setAccumulator hash q).2.journal
      rw [(h.1.setAccumulator_spec ha).journal]
      exact h.2
  | after q create replace blank =>
      show Unbroken (w.setAccumulatorAfter hash q create replace blank).2.journal
      rw [setAccumulatorAfter_store, (h.1.setAccumulator_spec ha).journal]
      exact h.2
  | reopen fenced => exact h.2
  | lose keep => exact h.2

theorem kept_of_run {backing : Backing} (hrun : (keepers hash).Run Asks (.new backing) w) :
    Kept hash w := by
  refine hrun.invariant (fun _ _ ha h => kept_step ha h) ⟨agrees_new hash backing, fun r hr => ?_⟩
  rw [Nat.le_zero.1 hr]
  exact (by decide : Journal.new.written 0 ≠ [])

end CellStore

/-! ## The comparison -/

variable {target : String} {link : Link}

section

variable {j : Journal} {r n : ℕ} {id : String} {c : Cell} {cells : Dict String Cell}

theorem id_of_at (hkeyed : j.Keyed) (h : j.at' r id = some c) : c.id = id := by
  obtain ⟨s, -, hversion⟩ := Versions.exists_of_latest h
  obtain ⟨row, hrow, rfl⟩ := Option.map_eq_some_iff.1 hversion
  exact (hkeyed _ _ hrow).2

/-- A cell that was not written since is as it was. -/
theorem at_eq_of_unwritten (hkeyed : j.Keyed) (hrn : r ≤ n)
    (h : ∀ s, r < s → s ≤ n → id ∉ (j.written s).map Cell.id) : j.at' n id = j.at' r id := by
  refine Versions.latest_eq_of_none hrn fun s hrs hsn => ?_
  rw [← (j.written_spec hkeyed s).2, cellOf_eq_none]
  exact h s hrs hsn

/-- A link of the cells that a mapping has for some identities. -/
theorem exists_leads_filterMap (hkeyed : j.Keyed) {ids : List String}
    (hcells : ∀ id ∈ ids, cells.get? id = j.at' r id) :
    (∃ c ∈ ids.filterMap cells.get?, Leads c link target) ↔
      link.1 ∈ ids ∧ ∃ c, j.at' r link.1 = some c ∧ Leads c link target := by
  have hid : ∀ {c : Cell}, Leads c link target → link.1 = c.id := by
    rintro c (⟨rfl, -⟩ | ⟨rfl, -⟩) <;> rfl
  constructor
  · rintro ⟨c, hc, hleads⟩
    obtain ⟨id, hmem, hget⟩ := List.mem_filterMap.1 hc
    rw [hcells id hmem] at hget
    rw [hid hleads, id_of_at hkeyed hget]
    exact ⟨hmem, c, hget, hleads⟩
  · rintro ⟨hmem, c, hat, hleads⟩
    exact ⟨c, List.mem_filterMap.2 ⟨link.1, hmem, (hcells _ hmem).trans hat⟩, hleads⟩

/-- A link of the cells of a mapping. -/
theorem exists_leads_values (hkeyed : j.Keyed) (hcells : Content j r cells) :
    (∃ c ∈ cells.values, Leads c link target) ↔
      ∃ c, j.at' r link.1 = some c ∧ Leads c link target := by
  constructor
  · rintro ⟨c, hc, hleads⟩
    obtain ⟨id, hget⟩ := Dict.mem_values.1 hc
    rw [hcells] at hget
    have hid : link.1 = c.id := by
      rcases hleads with ⟨rfl, -⟩ | ⟨rfl, -⟩ <;> rfl
    rw [hid, id_of_at hkeyed hget]
    exact ⟨c, hget, hleads⟩
  · rintro ⟨c, hat, hleads⟩
    exact ⟨c, Dict.mem_values.2 ⟨link.1, (hcells _).trans hat⟩, hleads⟩

end

/-- What is gained does not depend on links that both indexes have, or that neither has. -/
theorem gained_congr {now before now' before' : Incoming}
    (h : ∀ link, (link ∈ now.links target ∧ link ∉ before.links target) ↔
      (link ∈ now'.links target ∧ link ∉ before'.links target)) :
    gained now before target = gained now' before' target := by
  ext link
  show link ∈ now.links target \ before.links target ↔ link ∈ now'.links target \ before'.links target
  rw [Finset.mem_sdiff, Finset.mem_sdiff]
  exact h link

/-- What is so only now is so of something that changed. -/
theorem changed_iff {target now before changed : Prop} (h : ¬ changed → (now ↔ before)) :
    (target ∧ changed ∧ now) ∧ ¬ (target ∧ changed ∧ before) ↔
      (target ∧ now) ∧ ¬ (target ∧ before) := by
  by_cases hchanged : changed
  · simp only [hchanged, true_and]
  · simp only [h hchanged, and_not_self_iff]

/-- **The comparison by changed cells** gives what the comparison of the whole mappings gives:
for every store, every earlier revision and every set of targets. -/
theorem incomingLinksSince_compares (shake256 : List UInt8 → ℤ) {backing : Backing} {w : CellStore}
    (hrun : (keepers (cellSetHash shake256)).Run Asks (.new backing) w) {n r : ℕ}
    (hn : n ≤ w.revision) (hrn : r ≤ n) {cells earlier : Dict String Cell}
    (hcells : Content w.journal n cells) (hearlier : Content w.journal r earlier)
    (targets : List String) :
    ∃ current before, w.incomingLinksSince n cells r targets = .ok (current, before) ∧
      ∀ target,
        gained current before target = gained (incomingLinksForTargets cells targets)
          (incomingLinksForTargets earlier targets) target ∧
        gained before current target = gained (incomingLinksForTargets earlier targets)
          (incomingLinksForTargets cells targets) target := by
  obtain ⟨hagrees, hunbroken⟩ := CellStore.kept_of_run hrun
  have hkeyed := hagrees.keyed
  obtain ⟨ordered, hordered, hnodup, hmem⟩ :=
    CellStore.changedSince_ok hunbroken hagrees.revision hn hrn
  have hlater : ∀ id ∈ ordered, cells.get? id = w.journal.at' n id := fun id _ => hcells id
  have hthen : ∀ id ∈ ordered, (w.cellsThere r ordered).get? id = w.journal.at' r id :=
    fun id hid => CellStore.get?_cellsThere (hrn.trans hn) hnodup hid
  -- a link that is in only one of the whole indexes is of a cell that was written since
  have hchanged : ∀ link : Link, link.1 ∉ ordered →
      w.journal.at' n link.1 = w.journal.at' r link.1 := by
    intro link hnot
    refine at_eq_of_unwritten hkeyed hrn fun s hrs hsn hwritten => ?_
    exact hnot ((hmem link.1).2 ⟨s, hrs, hsn, hwritten⟩)
  unfold CellStore.incomingLinksSince
  split
  · refine ⟨_, _, by rw [hordered]; rfl, fun target => ⟨gained_congr fun link => ?_,
      gained_congr fun link => ?_⟩⟩ <;>
    · rw [mem_links_pass, mem_links_pass, mem_incomingLinksForTargets, mem_incomingLinksForTargets,
        exists_leads_filterMap hkeyed hlater, exists_leads_filterMap hkeyed hthen,
        exists_leads_values hkeyed hcells, exists_leads_values hkeyed hearlier]
      exact changed_iff fun hid => by rw [hchanged link hid]
  · next hnone =>
    refine ⟨_, _, rfl, fun target => ⟨gained_congr fun link => ?_, gained_congr fun link => ?_⟩⟩ <;>
    · rw [mem_incomingLinksForTargets, mem_incomingLinksForTargets,
        exists_leads_values hkeyed hcells, exists_leads_values hkeyed hearlier]
      have hsame : targets = [] ∨ n = r := by
        by_contra hne
        rw [not_or] at hne
        exact hnone ⟨hne.1, by omega⟩
      rcases hsame with rfl | rfl
      · simp [Incoming.links, get?_noLinks]
      · simp only [and_not_self_iff]

/-- The cell that leads to itself, which was created since. -/
theorem incomingLinksSince_compares_written :
    writtenStore.revision = 1 ∧
      ∃ current before, writtenStore.incomingLinksSince 1 (writtenStore.journal.cellsAt 1) 0 ["a"] =
          .ok (current, before) ∧
        ∀ target,
          gained current before target =
            gained (incomingLinksForTargets (writtenStore.journal.cellsAt 1) ["a"])
              (incomingLinksForTargets (writtenStore.journal.cellsAt 0) ["a"]) target ∧
          gained before current target =
            gained (incomingLinksForTargets (writtenStore.journal.cellsAt 0) ["a"])
              (incomingLinksForTargets (writtenStore.journal.cellsAt 1) ["a"]) target := by
  have hrevision : writtenStore.revision = 1 := by decide +kernel
  have hrun := writtenStore_run
  have hkeyed := (agrees_of_run hrun).keyed
  exact ⟨hrevision, incomingLinksSince_compares (fun _ => 5) hrun hrevision.ge (Nat.zero_le 1)
    (content_cellsAt hkeyed 1) (content_cellsAt hkeyed 0) ["a"]⟩

end ArchHub.Cells

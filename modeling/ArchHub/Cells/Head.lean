import Mathlib
import ArchHub.Lib.Transition
import ArchHub.Cells.Commitments
import ArchHub.Cells.Content

/-!
# A store and its caches

A store has a head, a revision of a journal to which other stores may append, and remembers
what it has computed: the chain digests of revisions, and the fingerprints of cells with the
cells that each depends on.

* `fingerprintFresh`: what `fingerprint` computes, by a walk along the links.
* `Head`, `Head.commit`, `Head.adopt`, `Head.fingerprint`, `Head.revisionChainDigest`: a store.
* `heads`: the machine of its calls and of what other stores append.
* `Coherent`, `fingerprints_coherent`: whatever is remembered is what would be computed.

`sha256` and `blake2b` are parameters.
-/

namespace ArchHub.Cells

open Lib

/-! ## The walk of a fingerprint -/

section

variable (cells : Lookup) (excluded : Finset String) (budget : ℤ)

/-- The cells that are reached from the pending ones and are not excluded. -/
def fingerprintWalk (seen : List String) : List String → Except CellError (List String)
  | [] => .ok seen
  | id :: pending =>
      if id ∈ seen ∨ id ∈ excluded then fingerprintWalk seen pending
      else if _ : budget ≤ seen.length then
        .error (.budgetExceeded "fingerprint exceeded reachable cells" budget)
      else match cells id with
        | none => .error (.missingKey id)
        | some c => fingerprintWalk (id :: seen) (c.link1 :: c.link0 :: pending)
  termination_by pending => 2 * (budget.toNat - seen.length) + pending.length
  decreasing_by
    · simp
    · simp only [List.length_cons]
      omega

/-- What `fingerprint` computes: the value, and the cells that it depends on. -/
def fingerprintFresh (blake2b : List UInt8 → Digest) (root : String) :
    Except CellError (Digest × List String) :=
  if (cells root).isNone then .error (.invalid "fingerprint root is missing")
  else (fingerprintWalk cells excluded budget [] [root]).map fun reachable =>
    (blake2b ((reachable.mergeSort fun a b => a ≤ b).flatMap fun id =>
      (cells id).elim [] cellFields), reachable)

end

/-! ## The store -/

/-- A store over a journal. -/
structure Head where
  journal : Journal
  /-- The revision of the head: the journal may be ahead of it. -/
  revision : ℕ
  /-- `_revision_chain_digests`. -/
  digests : Dict ℕ Digest
  /-- `_fingerprints`, with `_fingerprint_dependencies`. -/
  fingerprints : Dict (String × Finset String) (Digest × List String)

namespace Head

/-- A new store. -/
def new : Head := ⟨.new, 0, .empty, .empty⟩

variable (w : Head)

/-- The cells of the head. -/
def base : Lookup := w.journal.at' w.revision

/-- `_adopt_journal_state`: the newest revision, and nothing remembered. -/
def adopt : Head := ⟨w.journal, w.journal.latest, .empty, .empty⟩

/-- What is left when the next revision is published: no fingerprint that depends on a cell
that is written. -/
def published (written : List Cell) : Head :=
  { w with
    journal := w.journal.append written
    revision := w.revision + 1
    fingerprints := w.fingerprints.filter fun e => !(written.any fun c => c.id ∈ e.2.2) }

/-- `commit`. -/
def commit (refusal : Option CellError) (expected : ℕ) (create replace : List Cell) :
    Except CellError ℕ × Head :=
  match refusal with
  | some e => (.error e, w)
  | none =>
      if expected ≠ w.revision then (.error (.conflict expected w.revision), w)
      else match delta w.base create replace with
        | .error e => (.error e, w)
        | .ok written =>
            if written = [] then (.ok w.revision, w)
            -- the append of the journal raises `Conflict`, and the journal is adopted
            else if w.journal.latest ≠ w.revision then
              (.error (.conflict expected w.journal.latest), w.adopt)
            else (.ok (w.revision + 1), w.published written)

/-- Another store over the journal commits. -/
def appended (create replace : List Cell) : Head :=
  match delta (w.journal.at' w.journal.latest) create replace with
  | .error _ => w
  | .ok written => if written = [] then w else { w with journal := w.journal.append written }

/-- `fingerprint`. -/
def fingerprint (blake2b : List UInt8 → Digest) (root : String) (budget : ℤ)
    (excluded : Finset String) : Except CellError Digest × Head :=
  if budget < 1 then (.error (.budgetExceeded "fingerprint budget must be positive" budget), w)
  else if "" ∈ excluded then (.error (.invalid "fingerprint exclusion root is invalid"), w)
  else if root ∈ excluded then (.error (.invalid "fingerprint root cannot exclude itself"), w)
  else match w.fingerprints.get? (root, excluded) with
    | some cached => (.ok cached.1, w)
    | none => match fingerprintFresh w.base excluded budget blake2b root with
      | .error e => (.error e, w)
      | .ok made =>
          (.ok made.1, { w with fingerprints := w.fingerprints.set (root, excluded) made })

/-- `revision_chain_digest`, which makes the digest of a revision from the last one that is
remembered, and remembers those that it makes; no digest where it raises. -/
def revisionChainDigest (sha256 : List UInt8 → Digest) (r : ℕ) : Option Digest × Head :=
  if w.revision < r then (none, w)
  else
    let digest := chainDigest sha256 { Database.new with journal := w.journal, chainProofs := w.digests }
    (digest r, { w with
      digests := (List.range (r + 1)).foldl (fun digests s => (digest s).elim digests (digests.set s))
        w.digests })

end Head

/-- What is done to a store, and by others to its journal. -/
inductive Heading
  | commit (refusal : Option CellError) (expected : ℕ) (create replace : List Cell)
  | append (create replace : List Cell)
  /-- `refresh`. -/
  | refresh
  | fingerprint (root : String) (budget : ℤ) (excluded : Finset String)
  | digest (r : ℕ)

/-- The calls on a store, and the commits of other stores. -/
def heads (sha256 blake2b : List UInt8 → Digest) : Machine Head Heading where
  step w
    | .commit refusal expected create replace => (w.commit refusal expected create replace).2
    | .append create replace => w.appended create replace
    | .refresh => w.adopt
    | .fingerprint root budget excluded => (w.fingerprint blake2b root budget excluded).2
    | .digest r => (w.revisionChainDigest sha256 r).2

/-! ## What the walk depends on -/

section

variable {cells cells' : Lookup} {excluded : Finset String} {budget budget' : ℤ}
  {seen pending reachable : List String}

theorem fingerprintWalk_subset (h : fingerprintWalk cells excluded budget seen pending = .ok reachable) :
    seen ⊆ reachable := by
  induction seen, pending using fingerprintWalk.induct cells excluded budget with
  | case1 seen =>
      rw [fingerprintWalk] at h
      cases h
      exact List.Subset.refl _
  | case2 seen id pending hskip ih =>
      rw [fingerprintWalk, if_pos hskip] at h
      exact ih h
  | case3 seen id pending hskip hbudget =>
      rw [fingerprintWalk, if_neg hskip, dif_pos hbudget] at h
      cases h
  | case4 seen id pending hskip hbudget hnone =>
      rw [fingerprintWalk, if_neg hskip, dif_neg hbudget, hnone] at h
      cases h
  | case5 seen id pending hskip hbudget c hc ih =>
      rw [fingerprintWalk, if_neg hskip, dif_neg hbudget, hc] at h
      exact List.subset_of_cons_subset (ih h)

/-- **The walk depends on the cells it reaches**, and on the budget only as far as it may be
too small. -/
theorem fingerprintWalk_congr
    (h : fingerprintWalk cells excluded budget seen pending = .ok reachable)
    (hcells : ∀ id ∈ reachable, cells' id = cells id) (budget' : ℤ) :
    fingerprintWalk cells' excluded budget' seen pending = .ok reachable ∨
      budget' < budget ∧ fingerprintWalk cells' excluded budget' seen pending =
        .error (.budgetExceeded "fingerprint exceeded reachable cells" budget') := by
  induction seen, pending using fingerprintWalk.induct cells excluded budget with
  | case1 seen =>
      rw [fingerprintWalk] at h ⊢
      exact Or.inl h
  | case2 seen id pending hskip ih =>
      rw [fingerprintWalk, if_pos hskip] at h ⊢
      exact ih h
  | case3 seen id pending hskip hbudget =>
      rw [fingerprintWalk, if_neg hskip, dif_pos hbudget] at h
      cases h
  | case4 seen id pending hskip hbudget hnone =>
      rw [fingerprintWalk, if_neg hskip, dif_neg hbudget, hnone] at h
      cases h
  | case5 seen id pending hskip hbudget c hc ih =>
      rw [fingerprintWalk, if_neg hskip, dif_neg hbudget, hc] at h
      have hid : id ∈ reachable := fingerprintWalk_subset h List.mem_cons_self
      rw [fingerprintWalk, if_neg hskip]
      by_cases hsmall : budget' ≤ seen.length
      · rw [dif_pos hsmall]
        exact Or.inr ⟨by omega, rfl⟩
      · rw [dif_neg hsmall, hcells id hid, hc]
        exact ih h

/-- A fingerprint is the same where the cells that it depends on are the same. -/
theorem fingerprintFresh_congr {blake2b : List UInt8 → Digest} {root : String}
    {made : Digest × List String}
    (h : fingerprintFresh cells excluded budget blake2b root = .ok made)
    (hroot : (cells' root).isNone = (cells root).isNone)
    (hcells : ∀ id ∈ made.2, cells' id = cells id) (budget' : ℤ) :
    fingerprintFresh cells' excluded budget' blake2b root = .ok made ∨
      budget' < budget ∧ fingerprintFresh cells' excluded budget' blake2b root =
        .error (.budgetExceeded "fingerprint exceeded reachable cells" budget') := by
  unfold fingerprintFresh at h ⊢
  rw [hroot]
  split at h
  · cases h
  · next hsome =>
    rw [if_neg hsome]
    cases hwalk : fingerprintWalk cells excluded budget [] [root] with
    | error e =>
        rw [hwalk] at h
        cases h
    | ok reachable =>
        rw [hwalk] at h
        obtain rfl := Except.ok.inj h
        refine (fingerprintWalk_congr hwalk hcells budget').imp (fun hok => ?_) fun ⟨hlt, herror⟩ => ?_
        · rw [hok]
          have hbytes : ((reachable.mergeSort fun a b => a ≤ b).flatMap fun id =>
                (cells' id).elim [] cellFields) =
              (reachable.mergeSort fun a b => a ≤ b).flatMap fun id =>
                (cells id).elim [] cellFields :=
            List.flatMap_congr fun id hid => by rw [hcells id (List.mem_mergeSort.1 hid)]
          exact congrArg (fun bytes => Except.ok (blake2b bytes, reachable)) hbytes
        · rw [herror]
          exact ⟨hlt, rfl⟩

end

/-! ## What is remembered -/

/-- The chain digest of a revision, made from the journal alone. -/
def chain (sha256 : List UInt8 → Digest) (j : Journal) : ℕ → Option Digest :=
  chainDigest sha256 { Database.new with journal := j }

variable {sha256 blake2b : List UInt8 → Digest} {w w' : Head} {written : List Cell}

theorem chain_append {j : Journal} {r : ℕ} (hkeyed : j.Keyed) (hnodup : (written.map Cell.id).Nodup)
    (hr : r ≤ j.latest) : chain sha256 (j.append written) r = chain sha256 j r :=
  @chainDigest_append { Database.new with journal := j } r sha256 written Database.new.current hkeyed
    hnodup hr

/-- Digests that are those of their revisions. -/
def Remembers (sha256 : List UInt8 → Digest) (j : Journal) (n : ℕ) (digests : Dict ℕ Digest) : Prop :=
  ∀ r digest, digests.get? r = some digest → r ≤ n ∧ chain sha256 j r = some digest

/-- What holds of every store that its calls lead to. -/
structure Coherent (sha256 blake2b : List UInt8 → Digest) (w : Head) : Prop where
  keyed : w.journal.Keyed
  within : w.revision ≤ w.journal.latest
  digests : Remembers sha256 w.journal w.revision w.digests
  cached : ∀ key held, w.fingerprints.get? key = some held → ∃ budget,
    fingerprintFresh w.base key.2 budget blake2b key.1 = .ok held

/-- The cells of a head that is published. -/
theorem base_published (hkeyed : w.journal.Keyed) (hhead : w.journal.latest = w.revision)
    (hnodup : (written.map Cell.id).Nodup) (id : String) :
    (w.published written).base id = (cellOf written id).or (w.base id) := by
  unfold Head.base Head.published
  rw [← hhead]
  exact Journal.at_append_succ hkeyed hnodup

/-- What is remembered changes no digest. -/
theorem Coherent.chainDigest_eq (h : Coherent sha256 blake2b w) (r : ℕ) :
    chainDigest sha256 { Database.new with journal := w.journal, chainProofs := w.digests } r =
      chain sha256 w.journal r :=
  @Extends.chainDigest_eq sha256 { Database.new with journal := w.journal } w.digests
    ⟨nofun, fun s digest hdigest => (h.digests s digest hdigest).2⟩ r

section

variable (h : Coherent sha256 blake2b w)

include h

/-- The digests that are remembered when one has been made. -/
theorem Coherent.remembered {r : ℕ} (hr : r ≤ w.revision) :
    Remembers sha256 w.journal w.revision ((List.range (r + 1)).foldl (fun digests s =>
      (chainDigest sha256 { Database.new with journal := w.journal, chainProofs := w.digests } s).elim
        digests (digests.set s)) w.digests) := by
  refine foldl_keeps (fun s hs digests (hdigests : Remembers sha256 w.journal w.revision digests) => ?_)
    h.digests
  have hle : s ≤ w.revision := (Nat.le_of_lt_succ (List.mem_range.1 hs)).trans hr
  rw [h.chainDigest_eq]
  cases hchain : chain sha256 w.journal s with
  | none => exact hdigests
  | some made =>
      intro s' digest hget
      rw [Option.elim_some, Dict.get?_set] at hget
      split at hget
      · next heq => exact ⟨heq ▸ hle, heq ▸ hchain.trans hget⟩
      · exact hdigests s' digest hget

/-- What is left of the cache is what would be computed now. -/
theorem Coherent.published (hhead : w.journal.latest = w.revision)
    (hnodup : (written.map Cell.id).Nodup) : Coherent sha256 blake2b (w.published written) := by
  refine ⟨Journal.keyed_append h.keyed hnodup, ?_, fun r digest hdigest => ?_, fun key held hheld => ?_⟩
  · show w.revision + 1 ≤ w.journal.latest + 1
    rw [hhead]
  · obtain ⟨hr, hchain⟩ := h.digests r digest hdigest
    exact ⟨Nat.le_succ_of_le hr, (chain_append h.keyed hnodup (hhead ▸ hr)).trans hchain⟩
  · have hentry := Dict.mem_entries_iff.2 hheld
    obtain ⟨hold, huntouched⟩ := List.mem_filter.1 hentry
    obtain ⟨budget, hfresh⟩ := h.cached key held (Dict.mem_entries_iff.1 hold)
    have hsame : ∀ id ∈ held.2, (w.published written).base id = w.base id := by
      intro id hid
      rw [base_published h.keyed hhead hnodup, cellOf_eq_none.2, Option.none_or]
      intro hwritten
      obtain ⟨c, hc, rfl⟩ := List.mem_map.1 hwritten
      simp only [Bool.not_eq_true', List.any_eq_false, decide_eq_true_eq] at huntouched
      exact huntouched c hc hid
    have hroot : ((w.published written).base key.1).isNone = (w.base key.1).isNone := by
      have hthere : (w.base key.1).isNone = false := by
        unfold fingerprintFresh at hfresh
        grind
      rw [base_published h.keyed hhead hnodup, hthere]
      cases hbase : w.base key.1 with
      | none => simp [hbase] at hthere
      | some c => cases cellOf written key.1 <;> rfl
    refine ⟨budget, (fingerprintFresh_congr hfresh hroot hsame budget).resolve_right ?_⟩
    exact fun hlt => absurd hlt.1 (lt_irrefl budget)

/-- What others append is seen when it is adopted. -/
theorem Coherent.appended (create replace : List Cell) :
    Coherent sha256 blake2b (w.appended create replace) := by
  unfold Head.appended
  split
  · exact h
  · next written hdelta =>
    split
    · exact h
    · have hnodup := (delta_ok hdelta).written_nodup
      have hbase : ∀ id, (w.journal.append written).at' w.revision id = w.base id :=
        fun id => Journal.at_append h.keyed hnodup h.within
      refine ⟨Journal.keyed_append h.keyed hnodup, h.within.trans (Nat.le_succ _),
        fun r digest hdigest => ?_, fun key held hheld => ?_⟩
      · obtain ⟨hr, hchain⟩ := h.digests r digest hdigest
        exact ⟨hr, (chain_append h.keyed hnodup (hr.trans h.within)).trans hchain⟩
      have hsame : Head.base { w with journal := w.journal.append written } = w.base := funext hbase
      rw [hsame]
      exact h.cached key held hheld

theorem coherent_step (a : Heading) :
    Coherent sha256 blake2b ((heads sha256 blake2b).step w a) := by
  have hadopt : Coherent sha256 blake2b w.adopt := ⟨h.keyed, le_rfl, nofun, nofun⟩
  cases a with
  | commit refusal expected create replace =>
      show Coherent sha256 blake2b (w.commit refusal expected create replace).2
      unfold Head.commit
      split
      · exact h
      · split
        · exact h
        · split
          · exact h
          · next written hdelta =>
            split
            · exact h
            · split
              · exact hadopt
              · next hhead =>
                exact h.published (not_not.1 hhead) (delta_ok hdelta).written_nodup
  | append create replace => exact h.appended create replace
  | refresh => exact hadopt
  | fingerprint root budget excluded =>
      show Coherent sha256 blake2b (w.fingerprint blake2b root budget excluded).2
      unfold Head.fingerprint
      split
      · exact h
      · split
        · exact h
        · split
          · exact h
          · split
            · exact h
            · split
              · exact h
              · next made hfresh =>
                refine ⟨h.keyed, h.within, h.digests, fun key held hheld => ?_⟩
                rw [Dict.get?_set] at hheld
                split at hheld
                · next hkey =>
                  cases hheld
                  rw [hkey]
                  exact ⟨budget, hfresh⟩
                · exact h.cached key held hheld
  | digest r =>
      show Coherent sha256 blake2b (w.revisionChainDigest sha256 r).2
      unfold Head.revisionChainDigest
      split
      · exact h
      · next hr =>
        exact ⟨h.keyed, h.within, h.remembered (not_lt.1 hr), h.cached⟩

end

theorem coherent_new : Coherent sha256 blake2b .new :=
  ⟨(agrees_new (fun _ => 0) .memory).keyed, le_rfl, nofun, nofun⟩

theorem coherent_of_run (hrun : (heads sha256 blake2b).Run Machine.Any .new w) :
    Coherent sha256 blake2b w :=
  hrun.invariant (fun _ a _ h => coherent_step h a) coherent_new

/-- **The cache is coherent.**  After any calls and any commits of other stores, a fingerprint
that is remembered, or returned, is the one that is computed from the cells of the head with an
empty cache and any budget that suffices; and what is computed with a budget is what a call with
that budget returns. -/
theorem fingerprints_coherent (sha256 blake2b : List UInt8 → Digest) {w : Head}
    (hrun : (heads sha256 blake2b).Run Machine.Any .new w) (root : String)
    (excluded : Finset String) :
    (∀ held, w.fingerprints.get? (root, excluded) = some held → ∃ least : ℤ, ∀ budget,
      (least ≤ budget → fingerprintFresh w.base excluded budget blake2b root = .ok held) ∧
      ∀ made, fingerprintFresh w.base excluded budget blake2b root = .ok made → made = held) ∧
    (∀ budget value, (w.fingerprint blake2b root budget excluded).1 = .ok value →
      ∃ least : ℤ, ∃ reachable, ∀ budget', least ≤ budget' →
        fingerprintFresh w.base excluded budget' blake2b root = .ok (value, reachable)) ∧
    ∀ budget made, 1 ≤ budget → "" ∉ excluded → root ∉ excluded →
      fingerprintFresh w.base excluded budget blake2b root = .ok made →
        (w.fingerprint blake2b root budget excluded).1 = .ok made.1 := by
  have hcoherent := coherent_of_run hrun
  have hfresh : ∀ least held, fingerprintFresh w.base excluded least blake2b root = .ok held →
      ∀ budget, (least ≤ budget → fingerprintFresh w.base excluded budget blake2b root = .ok held) ∧
        ∀ made, fingerprintFresh w.base excluded budget blake2b root = .ok made → made = held := by
    intro least held h budget
    rcases fingerprintFresh_congr h rfl (fun _ _ => rfl) budget with hok | ⟨hlt, herror⟩
    · exact ⟨fun _ => hok, fun made hmade => Except.ok.inj (hmade.symm.trans hok)⟩
    · refine ⟨fun hle => absurd hlt (not_lt.2 hle), fun made hmade => ?_⟩
      rw [herror] at hmade
      cases hmade
  refine ⟨fun held hheld => ?_, fun budget value hvalue => ?_,
    fun budget made hpositive hempty hroot hmade => ?_⟩
  · obtain ⟨least, h⟩ := hcoherent.cached _ held hheld
    exact ⟨least, hfresh least held h⟩
  · unfold Head.fingerprint at hvalue
    split at hvalue
    · cases hvalue
    · split at hvalue
      · cases hvalue
      · split at hvalue
        · cases hvalue
        · split at hvalue
          · next held hheld =>
            cases hvalue
            obtain ⟨least, h⟩ := hcoherent.cached _ held hheld
            exact ⟨least, held.2, fun budget' => (hfresh least held h budget').1⟩
          · split at hvalue
            · cases hvalue
            · next made hmade =>
              cases hvalue
              exact ⟨budget, made.2, fun budget' => (hfresh budget made hmade budget').1⟩
  · unfold Head.fingerprint
    rw [if_neg (not_lt.2 hpositive), if_neg hempty, if_neg hroot]
    split
    · next held hheld =>
      obtain ⟨least, h⟩ := hcoherent.cached _ held hheld
      rw [(hfresh least held h budget).2 made hmade]
    · rw [hmade]

/-- A store with a cell that leads to another one, which has been replaced. -/
def replacedHead : Head :=
  [.commit none 0 [⟨"a", "b", nullId, []⟩, ⟨"b", nullId, nullId, []⟩] [],
    .commit none 1 [] [⟨"b", nullId, nullId, [1]⟩]].foldl (heads id id).step Head.new

theorem fingerprints_coherent_replaced : replacedHead.revision = 2 ∧
    ∀ budget value, (replacedHead.fingerprint id "a" budget ∅).1 = .ok value →
      ∃ least : ℤ, ∃ reachable, ∀ budget', least ≤ budget' →
        fingerprintFresh replacedHead.base ∅ budget' id "a" = .ok (value, reachable) :=
  ⟨rfl, (fingerprints_coherent id id (Machine.Run.ofActions Head.new _) "a" ∅).2.1⟩

end ArchHub.Cells

import Mathlib
import ArchHub.Lib.Bounded
import ArchHub.Lib.Check
import ArchHub.Cells.Relation

/-!
# The relation projection cache

Inside one request, what a walk of a relation found is kept and reused.  What is kept
can be captured, and seeded again under the snapshot that a commit makes.

* `projectionWalk`: the walk, with the steps it took and the cells it read.
* `ProjectionCache`: what is kept, without limits or within some.
* `readRelationIn`, `captureRelationProjections`, `relationProjectionFingerprint`,
  `seedRelationProjections`: the calls, in a scope or out of one.

A kept walk is found again under the revision of its snapshot and the address of its
mapping.  The size of an object is told by the host, with each call that needs it.
-/

namespace ArchHub.Cells

open Lib List Option

/-- `Snapshot`: a revision, and the cells of a mapping that lies at some address. -/
structure Snapshot where
  revision : ℕ
  address : ℕ
  cells : Lookup
  keyed : ∀ id c, cells id = some c → c.id = id

/-! ## The walk -/

/-- What a walk finds. -/
structure Walked where
  members : List Member
  steps : ℕ
  sources : List Cell
deriving DecidableEq

/-- `_read_relation_walk`: from a chain cell on, with what is left of the budget. -/
def projectionWalk (cells : Lookup) (budget : ℤ) :
    ℕ → List String → String → Except CellError Walked
  | fuel, seen, cursor =>
      if cursor = nullId then .ok ⟨[], 0, []⟩
      else match fuel with
        | 0 => .error (.budgetExceeded "relation projection exceeded chain cells" budget)
        | fuel + 1 =>
            if cursor ∈ seen then .error (.invalid "relation chain contains a cycle")
            else match cells cursor with
              | none => .error (.invalid "relation chain contains a dangling cell")
              | some chain =>
                  if chain.link0 = nullId then
                    if chain.link1 ≠ nullId then
                      .error (.invalid "empty relation root has a non-empty tail")
                    else .ok ⟨[], 1, [chain]⟩
                  else match cells chain.link0 with
                    | none => .error (.invalid "relation incidence is missing")
                    | some incidence =>
                        if (cells incidence.link0).isNone ∨ (cells incidence.link1).isNone then
                          .error (.invalid "relation incidence contains a dangling link")
                        else do
                          let rest ← projectionWalk cells budget fuel (cursor :: seen) chain.link1
                          return ⟨⟨incidence.id, incidence.link0, incidence.link1⟩ :: rest.members,
                            rest.steps + 1, chain :: incidence :: rest.sources⟩

/-- `_read_relation_walk`. -/
def readRelationWalk (cells : Lookup) (root : String) (budget : ℤ) : Except CellError Walked :=
  if (cells root).isNone then .error (.invalid "relation root is missing")
  else projectionWalk cells budget budget.toNat [] root

/-- `read_relation` where nothing is kept. -/
def readUncached (cells : Lookup) (root : String) (budget : ℤ) : Except CellError (List Member) :=
  if budget < 1 then
    .error (.budgetExceeded "relation projection budget must be positive" budget)
  else (readRelationWalk cells root budget).map Walked.members

/-! ## What is kept -/

/-- `RelationProjectionReuse`. -/
structure Reuse where
  sourceRevision : ℕ
  root : String
  members : List Member
  steps : ℕ
  sources : List Cell
deriving DecidableEq

/-- A cache key: a revision, the address of a mapping, a root. -/
abbrev Key := ℕ × ℕ × String

/-- The key of a relation in a snapshot. -/
def Snapshot.key (s : Snapshot) (root : String) : Key := (s.revision, s.address, root)

/-- `sys.getsizeof`, of what a cache holds. -/
structure Sizes where
  reuse : Reuse → ℕ
  tuple : ℕ → ℕ
  member : Member → ℕ
  cell : Cell → ℕ
  text : String → ℕ
  bytes : List UInt8 → ℕ

/-- `_projection_retained_cost`. -/
def projectionRetainedCost (sizes : Sizes) (e : Reuse) : ℕ :=
  sizes.reuse e + sizes.tuple e.members.length + sizes.tuple e.sources.length + 256
    + (e.members.map fun m => sizes.member m + sizes.text m.incidence + sizes.text m.role
        + sizes.text m.participant).sum
    + (e.sources.map fun c => sizes.cell c + sizes.text c.id + sizes.text c.link0
        + sizes.text c.link1 + sizes.bytes c.atom).sum

/-- What an entry costs under its key. -/
def entryCost (sizes : Sizes) (key : Key) (e : Reuse) : ℕ :=
  projectionRetainedCost sizes e + sizes.tuple 3 + sizes.text key.2.2

/-- The request cache: a dictionary, or a `_BoundedRelationProjectionCache` with its
newest revision. -/
inductive ProjectionCache
  | plain (held : Dict Key Reuse)
  | bounded (newest : Option ℕ) (held : Bounded Key Reuse)

namespace ProjectionCache

/-- `key in cache`, and what is there. -/
def get? : ProjectionCache → Key → Option Reuse
  | .plain held => held.get?
  | .bounded _ held => held.get?

/-- `cache[key]`, for a key that is there. -/
def touch : ProjectionCache → Key → ProjectionCache
  | .plain held, _ => .plain held
  | .bounded newest held, key => .bounded newest (held.touch key)

/-- The window of revisions moves on, or refuses what is older than it. -/
def window (newest : Option ℕ) (held : Bounded Key Reuse) (revision : ℕ) :
    Option (Option ℕ × Bounded Key Reuse) :=
  if newest.all (· < revision) then
    some (some revision,
      held.dropAll (held.ledger.entries.keys.filter fun key => key.1 + 1 < revision))
  else if newest.any (revision + 1 < ·) then none
  else some (newest, held)

/-- `cache[key] = entry`. -/
def store (sizes : Sizes) (key : Key) (e : Reuse) : ProjectionCache → ProjectionCache
  | .plain held => .plain (held.set key e)
  | .bounded newest held =>
      match window newest held key.1 with
      | none => .bounded newest held
      | some (newest, held) => .bounded newest (held.put key e (entryCost sizes key e))

end ProjectionCache

/-! ## Batches and their seals -/

/-- A tuple of entries: which object it is, where it lies, and what it holds. -/
structure Batch where
  identity : ℕ
  address : ℕ
  entries : List Reuse

/-- A batch, and its fingerprint. -/
structure Seal where
  batch : Batch
  fingerprint : String

/-- The batch seals: a dictionary, or a `_BoundedProjectionSeals`. -/
inductive Seals
  | plain (held : Dict ℕ Seal)
  | bounded (held : Bounded ℕ Seal)

/-- `seals.get(address)`. -/
def Seals.get? : Seals → ℕ → Option Seal
  | .plain held => held.get?
  | .bounded held => held.get?

/-- `seals[address] = seal`. -/
def Seals.store (sizes : Sizes) (sealed : Seal) : Seals → Seals
  | .plain held => .plain (held.set sealed.batch.address sealed)
  | .bounded held => .bounded (held.put sealed.batch.address sealed
      (sizes.tuple 2 + sizes.tuple sealed.batch.entries.length + 256
        + (sealed.batch.entries.map (projectionRetainedCost sizes)).sum))

/-- The scope of a request. -/
structure Scope where
  cache : ProjectionCache
  seals : Seals

/-- `relation_projection_scope`, where no scope is open. -/
def relationProjectionScope (maxBytes maxEntries : Option ℤ) : Except CellError Scope :=
  match maxBytes, maxEntries with
  | none, none => .ok ⟨.plain Dict.empty, .plain Dict.empty⟩
  | some bytes, some entries =>
      if bytes < 1 ∨ entries < 1 then
        .error (.invalid "bounded relation projection budget is invalid")
      else .ok ⟨.bounded none (Bounded.empty entries.toNat bytes.toNat),
        .bounded (Bounded.empty 256 (max 1 (bytes / 4)).toNat)⟩
  | _, _ => .error (.invalid "bounded relation projection budget is invalid")

/-! ## The calls -/

/-- `read_relation`. -/
def readRelationIn (sizes : Sizes) (scope : Option Scope) (s : Snapshot) (root : String)
    (budget : ℤ) (retain : Bool) : Except CellError (List Member) × Option Scope :=
  if budget < 1 then
    (.error (.budgetExceeded "relation projection budget must be positive" budget), scope)
  else match if retain then scope else none with
    | none => ((readRelationWalk s.cells root budget).map Walked.members, scope)
    | some open' =>
        match open'.cache.get? (s.key root) with
        | some cached =>
            (if budget < cached.steps then
                .error (.budgetExceeded "relation projection exceeded chain cells" budget)
              else .ok cached.members,
              some { open' with cache := open'.cache.touch (s.key root) })
        | none =>
            match readRelationWalk s.cells root budget with
            | .error e => (.error e, scope)
            | .ok w =>
                let e : Reuse := ⟨s.revision, root, w.members, w.steps, w.sources⟩
                (.ok w.members, some { open' with cache := open'.cache.store sizes (s.key root) e })

/-- The entries that are kept for some roots. -/
def captureLoop (s : Snapshot) : List String → ProjectionCache → List Reuse × ProjectionCache
  | [], cache => ([], cache)
  | root :: roots, cache =>
      let rest := captureLoop s roots (cache.touch (s.key root))
      match cache.get? (s.key root) with
      | some e => (e :: rest.1, rest.2)
      | none => rest

/-- `capture_relation_projections`. -/
def captureRelationProjections (scope : Option Scope) (s : Snapshot) (roots : List String) :
    Except CellError (List Reuse) × Option Scope :=
  match scope with
  | none => (.error (.invalid "relation projection capture requires a request scope"), none)
  | some open' =>
      let found := captureLoop s roots.eraseDups open'.cache
      (.ok found.1, some { open' with cache := found.2 })

/-- What is added to a digest. -/
inductive Piece
  | number (n : ℕ)
  | text (s : String)
  | bytes (b : List UInt8)

/-- What the fingerprint of an entry is made from. -/
def entryPieces (e : Reuse) : List Piece :=
  [.number e.sourceRevision, .text e.root, .number e.steps, .number e.members.length]
    ++ (e.members.flatMap fun m => [.text m.incidence, .text m.role, .text m.participant])
    ++ [.number e.sources.length]
    ++ e.sources.flatMap fun c => [.text c.id, .text c.link0, .text c.link1, .bytes c.atom]

/-- `relation_projection_fingerprint`. -/
def relationProjectionFingerprint (sha256 : List Piece → String) (sizes : Sizes)
    (scope : Option Scope) (batch : Batch) : Except CellError String × Option Scope :=
  if ∃ e ∈ batch.entries, e.steps < 1 ∨ e.sources = [] then
    (.error (.invalid "relation projection reuse is invalid"), scope)
  else
    let fingerprint := sha256 (.number batch.entries.length :: batch.entries.flatMap entryPieces)
    (.ok fingerprint, scope.map fun open' =>
      { open' with seals := open'.seals.store sizes ⟨batch, fingerprint⟩ })

/-- Whether a batch has the fingerprint that is expected of it. -/
def fingerprintMatches (sha256 : List Piece → String) (sizes : Sizes) (scope : Scope)
    (batch : Batch) (expected : String) : Except CellError Bool × Scope :=
  match scope.seals.get? batch.address with
  | some sealed =>
      (.ok (sealed.batch.identity = batch.identity ∧ sealed.fingerprint = expected), scope)
  | none =>
      match relationProjectionFingerprint sha256 sizes (some scope) batch with
      | (.error e, after) => (.error e, after.getD scope)
      | (.ok fingerprint, after) => (.ok (fingerprint = expected), after.getD scope)

/-- The entries of a batch are stored, up to the first that is refused. -/
def seedLoop (sizes : Sizes) (s : Snapshot) (source target : ℕ) (changed : List String) :
    List String → List Reuse → ProjectionCache → Except CellError Unit × ProjectionCache
  | _, [], cache => (.ok (), cache)
  | seen, e :: es, cache =>
      if (e.sourceRevision ≠ source ∧ e.sourceRevision ≠ target) ∨ e.root ∈ seen then
        (.error (.invalid "relation projection reuse revision drifted"), cache)
      else if ∃ c ∈ e.sources, c.id ∈ changed ∧ s.cells c.id ≠ some c then
        (.error (.invalid "relation projection source Cell drifted"), cache)
      else
        let found := cache.get? (s.key e.root)
        let cache := cache.touch (s.key e.root)
        if found.any (· ≠ e) then (.error (.invalid "relation projection cache conflicts"), cache)
        else seedLoop sizes s source target changed (e.root :: seen) es
          (cache.store sizes (s.key e.root) e)

/-- A call of `seed_relation_projections`. -/
structure Seeding where
  batch : Batch
  source : ℕ
  target : ℕ
  fingerprint : String
  changed : List String

/-- `seed_relation_projections`. -/
def seedRelationProjections (sha256 : List Piece → String) (sizes : Sizes) (scope : Option Scope)
    (s : Snapshot) (call : Seeding) : Except CellError Unit × Option Scope :=
  match scope with
  | none => (.error (.invalid "relation projection seed requires a request scope"), none)
  | some open' =>
      if call.target ≠ call.source + 1 ∨ s.revision ≠ call.target then
        (.error (.invalid "relation projection reuse revision drifted"), some open')
      else
        match fingerprintMatches sha256 sizes open' call.batch call.fingerprint with
        | (.error e, after) => (.error e, some after)
        | (.ok false, after) =>
            (.error (.invalid "relation projection fingerprint drifted"), some after)
        | (.ok true, after) =>
            if ¬ call.changed.Nodup then
              (.error (.invalid "relation projection changed-root receipt is invalid"), some after)
            else
              let seeded := seedLoop sizes s call.source call.target call.changed []
                call.batch.entries after.cache
              (seeded.1, some { after with cache := seeded.2 })

/-! ## What a walk depends on -/

variable {cells cells' : Lookup} {budget : ℤ} {fuel : ℕ} {seen : List String}
  {cursor root : String} {w : Walked}

theorem bothLinks_there {a b : Option Cell} (ha : a.isSome) (hb : b.isSome) :
    ¬ (a.isNone ∨ b.isNone) := by
  rw [isSome_iff_exists] at ha hb
  obtain ⟨_, rfl⟩ := ha
  obtain ⟨_, rfl⟩ := hb
  rintro (h | h) <;> cases h

/-- A step of a walk that returns. -/
theorem projectionWalk_cases
    (h : projectionWalk cells budget (fuel + 1) seen cursor = .ok w) (hcursor : cursor ≠ nullId) :
    cursor ∉ seen ∧ ∃ chain, cells cursor = some chain ∧
      ((chain.link0 = nullId ∧ chain.link1 = nullId ∧ w = ⟨[], 1, [chain]⟩) ∨
        chain.link0 ≠ nullId ∧ ∃ incidence rest, cells chain.link0 = some incidence ∧
          (cells incidence.link0).isSome ∧ (cells incidence.link1).isSome ∧
          projectionWalk cells budget fuel (cursor :: seen) chain.link1 = .ok rest ∧
          w = ⟨⟨incidence.id, incidence.link0, incidence.link1⟩ :: rest.members,
            rest.steps + 1, chain :: incidence :: rest.sources⟩) := by
  unfold projectionWalk at h
  rw [if_neg hcursor] at h
  dsimp only at h
  split at h
  · cases h
  · next hseen =>
    refine ⟨hseen, ?_⟩
    split at h
    · cases h
    · next chain hchain =>
      refine ⟨chain, hchain, ?_⟩
      split at h
      · next hempty =>
        split at h
        · cases h
        · next htail => exact Or.inl ⟨hempty, not_not.1 htail, (Except.ok.inj h).symm⟩
      · next hfull =>
        split at h
        · cases h
        · next incidence hincidence =>
          split at h
          · cases h
          · next hlinks =>
            obtain ⟨rest, hrest, hw⟩ := Check.bind_ok_iff.mp h
            rw [not_or, Bool.not_eq_true, Bool.not_eq_true,
              isNone_eq_false_iff, isNone_eq_false_iff] at hlinks
            exact Or.inr ⟨hfull, incidence, rest, hincidence, hlinks.1, hlinks.2, hrest,
              (Except.ok.inj hw).symm⟩

/-- **What a walk finds does not depend on the budget**, except that it must be enough. -/
theorem projectionWalk_budget (h : projectionWalk cells budget fuel seen cursor = .ok w)
    (budget' : ℤ) (fuel' : ℕ) : projectionWalk cells budget' fuel' seen cursor =
      if fuel' < w.steps then
        .error (.budgetExceeded "relation projection exceeded chain cells" budget')
      else .ok w := by
  induction fuel generalizing seen cursor w fuel' with
  | zero =>
      unfold projectionWalk at h ⊢
      split at h
      · next hnull =>
        rw [if_pos hnull, ← Except.ok.inj h]
        rfl
      · cases h
  | succ fuel ih =>
      by_cases hnull : cursor = nullId
      · unfold projectionWalk at h ⊢
        rw [if_pos hnull] at h ⊢
        rw [← Except.ok.inj h]
        rfl
      · obtain ⟨hseen, chain, hchain, hcase⟩ := projectionWalk_cases h hnull
        cases fuel' with
        | zero =>
            unfold projectionWalk
            rw [if_neg hnull]
            have hsteps : 0 < w.steps := by
              rcases hcase with ⟨-, -, rfl⟩ | ⟨-, _, rest, -, -, -, -, rfl⟩
              · exact Nat.one_pos
              · exact Nat.succ_pos _
            rw [if_pos hsteps]
        | succ fuel' =>
            unfold projectionWalk
            rw [if_neg hnull]
            dsimp only
            rw [if_neg hseen, hchain]
            dsimp only
            rcases hcase with ⟨h0, h1, rfl⟩ | ⟨h0, incidence, rest, hincidence, hl0, hl1, hrest, rfl⟩
            · rw [if_pos h0, if_neg (not_not.2 h1)]
              rfl
            · rw [if_neg h0, hincidence]
              dsimp only
              rw [if_neg (bothLinks_there hl0 hl1), ih hrest]
              by_cases hsteps : fuel' < rest.steps
              · rw [if_pos hsteps, if_pos (Nat.succ_lt_succ hsteps)]
                rfl
              · rw [if_neg hsteps, if_neg (fun hlt => hsteps (Nat.lt_of_succ_lt_succ hlt))]
                rfl

/-- The cells that a walk names are the cells it read. -/
theorem sources_held (hkeyed : ∀ id c, cells id = some c → c.id = id)
    (h : projectionWalk cells budget fuel seen cursor = .ok w) :
    ∀ c ∈ w.sources, cells c.id = some c := by
  induction fuel generalizing seen cursor w with
  | zero =>
      unfold projectionWalk at h
      split at h
      · rw [← Except.ok.inj h]
        exact fun _ hc => nomatch hc
      · cases h
  | succ fuel ih =>
      by_cases hnull : cursor = nullId
      · unfold projectionWalk at h
        rw [if_pos hnull] at h
        rw [← Except.ok.inj h]
        exact fun _ hc => nomatch hc
      · obtain ⟨-, chain, hchain, hcase⟩ := projectionWalk_cases h hnull
        have hid := hkeyed _ _ hchain
        intro c hc
        rcases hcase with ⟨-, -, rfl⟩ | ⟨-, incidence, rest, hincidence, -, -, hrest, rfl⟩
        · rw [List.mem_singleton.1 hc, hid]
          exact hchain
        · rcases List.mem_cons.1 hc with rfl | hc
          · rw [hid]
            exact hchain
          · rcases List.mem_cons.1 hc with rfl | hc
            · rw [hkeyed _ _ hincidence]
              exact hincidence
            · exact ih hrest c hc

/-- **A walk depends on the cells it names**, where no cell is gone. -/
theorem projectionWalk_transfer (hkeyed : ∀ id c, cells id = some c → c.id = id)
    (hkept : ∀ id, (cells id).isSome → (cells' id).isSome)
    (h : projectionWalk cells budget fuel seen cursor = .ok w)
    (hsame : ∀ c ∈ w.sources, cells' c.id = some c) :
    projectionWalk cells' budget fuel seen cursor = .ok w := by
  induction fuel generalizing seen cursor w with
  | zero =>
      unfold projectionWalk at h ⊢
      exact h
  | succ fuel ih =>
      by_cases hnull : cursor = nullId
      · unfold projectionWalk at h ⊢
        rw [if_pos hnull] at h ⊢
        exact h
      · obtain ⟨hseen, chain, hchain, hcase⟩ := projectionWalk_cases h hnull
        have hmem : chain ∈ w.sources := by
          rcases hcase with ⟨-, -, rfl⟩ | ⟨-, _, _, -, -, -, -, rfl⟩ <;> exact mem_cons_self
        have hchain' := hsame chain hmem
        rw [hkeyed _ _ hchain] at hchain'
        unfold projectionWalk
        rw [if_neg hnull]
        dsimp only
        rw [if_neg hseen, hchain']
        dsimp only
        rcases hcase with ⟨h0, h1, rfl⟩ | ⟨h0, incidence, rest, hincidence, hl0, hl1, hrest, rfl⟩
        · rw [if_pos h0, if_neg (not_not.2 h1)]
        · have hincidence' := hsame incidence (mem_cons_of_mem _ mem_cons_self)
          rw [hkeyed _ _ hincidence] at hincidence'
          have hl0' := hkept _ hl0
          have hl1' := hkept _ hl1
          rw [if_neg h0, hincidence']
          dsimp only
          rw [if_neg (bothLinks_there hl0' hl1'),
            ih hrest fun c hc => hsame c (mem_cons_of_mem _ (mem_cons_of_mem _ hc))]
          rfl

end ArchHub.Cells

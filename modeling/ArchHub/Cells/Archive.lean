import Mathlib
import ArchHub.Cells.Accumulator

/-!
# The archive partition

Verified rows leave the journal for a cold archive.  What is committed to stays: for each
revision the journal keeps its chain digest, what the sum over its live rows lost, and a
proof of the live rows; and the identities that left are remembered.

* `Database`: the tables of the journal and of its custody.
* `chainDigest`, `prepareTraceChain`: the digest of the revisions up to one.
* `plan`: what a partition checks, and what it is to write.
* `partitionVerifiedRows`: the partition; `Database.commit`: the commits next to it.

Caches beside the journal are left out.  What another program may do to a call, or the
owner's `check`, is part of the call.
-/

namespace ArchHub.Cells

open Lib

/-- A digest. -/
abbrev Digest := List UInt8

/-- The hash functions. -/
structure Hashes where
  sha256 : List UInt8 → Digest
  shake256 : List UInt8 → ℤ
  /-- The hash of a row: its revision, its cell and its number. -/
  row : ℕ → Row → String

/-- A row of `trace_live_proofs`. -/
structure LiveProof where
  liveRows : ℤ
  liveSum : ℤ
  archivedRows : ℤ
deriving DecidableEq

/-- The tables. -/
structure Database where
  journal : Journal
  /-- `current_cells`. -/
  current : Dict String (ℕ × Cell)
  chainProofs : Dict ℕ Digest
  liveProofs : Dict ℕ LiveProof
  /-- `trace_projection_custody`. -/
  custody : Dict (ℕ × String) (String × String)
  /-- `trace_retired_identities`. -/
  retired : List Digest

/-- A new database. -/
def Database.new : Database :=
  ⟨.new, Dict.empty.set nullId (0, nullCell), .empty, .empty, .empty, []⟩

/-! ## The chain -/

/-- The cells of a revision, in the order of their identities. -/
def orderedRevision (j : Journal) (r : ℕ) : List Cell :=
  (j.written r).mergeSort fun a b => a.id ≤ b.id

/-- `_ordered_revision_chain_digest_step`; no digest of a revision without cells. -/
def chainDigestStep (sha256 : List UInt8 → Digest) (previous : Digest) (r : ℕ) (cells : List Cell) :
    Option Digest :=
  if cells = [] then none
  else some (sha256 (field (utf8 "ArchHub/universal-cell-revision-chain/v1") ++ previous
    ++ field (utf8 (toString r)) ++ cells.flatMap fun c =>
      field (utf8 c.id) ++ field (utf8 c.link0) ++ field (utf8 c.link1) ++ field c.atom))

/-- `chain_digest`: the digest of a revision is the one that is proved, or made from that
of the revision before. -/
def chainDigest (sha256 : List UInt8 → Digest) (db : Database) : ℕ → Option Digest
  | 0 => (db.chainProofs.get? 0).or
      (chainDigestStep sha256 (List.replicate 32 0) 0 (orderedRevision db.journal 0))
  | r + 1 => (db.chainProofs.get? (r + 1)).or
      ((chainDigest sha256 db r).bind fun previous =>
        chainDigestStep sha256 previous (r + 1) (orderedRevision db.journal (r + 1)))

/-- The newest entry up to a revision. -/
def lastUpTo {ν : Type} (get : ℕ → Option ν) : ℕ → Option (ℕ × ν)
  | 0 => (get 0).map fun v => (0, v)
  | r + 1 => match get (r + 1) with
    | some v => some (r + 1, v)
    | none => lastUpTo get r

/-- Digests for some revisions from one on, up to the first that has no cells. -/
def prepareFrom (sha256 : List UInt8 → Digest) (j : Journal) :
    ℕ → ℕ → Digest → Dict ℕ Digest → Bool × Dict ℕ Digest
  | 0, _, _, proofs => (true, proofs)
  | n + 1, r, previous, proofs =>
      match chainDigestStep sha256 previous r (orderedRevision j r) with
      | none => (false, proofs)
      | some digest => prepareFrom sha256 j n (r + 1) digest (proofs.set r digest)

/-- The first revision without a proof, and the digest before it. -/
def chainStart (db : Database) : ℕ × Digest :=
  match lastUpTo db.chainProofs.get? db.journal.latest with
  | some (r, digest) => (r + 1, digest)
  | none => (0, List.replicate 32 0)

/-- `_prepare_trace_chain`: whether every revision has a proof then, and the proofs.  The
owner may have it stop after some revisions. -/
def prepareTraceChain (sha256 : List UInt8 → Digest) (db : Database) (slices : Option ℕ) :
    Bool × Dict ℕ Digest :=
  let (start, previous) := chainStart db
  let n := db.journal.latest + 1 - start
  match slices with
  | some k =>
      if k < n then (false, (prepareFrom sha256 db.journal k start previous db.chainProofs).2)
      else prepareFrom sha256 db.journal n start previous db.chainProofs
  | none => prepareFrom sha256 db.journal n start previous db.chainProofs

/-! ## What a partition is about -/

/-- An obsolete version that is to be replaced, or one that is to be put in. -/
structure ArchiveProjection where
  revision : ℕ
  old : Option Cell
  new : Cell

/-- The cold archive. -/
structure ColdArchive where
  current : Dict String (ℕ × Cell)
  versions : Dict (ℕ × String) Row

/-- A call of `partition_verified_rows`. -/
structure Partition where
  cold : ColdArchive
  identifiers : List String
  projections : List ArchiveProjection
  expected : Option ℕ
  /-- The owner stops it after so many revisions of the chain. -/
  slices : Option ℕ
  /-- A check, a fault or another writer stops it before it is durable. -/
  stopped : Bool

/-- The identities that are to leave. -/
def Partition.selected (call : Partition) : List String := call.identifiers.eraseDups

/-- The projections in order. -/
def Partition.ordered (call : Partition) : List ArchiveProjection :=
  call.projections.mergeSort fun p q =>
    p.revision < q.revision ∨ p.revision = q.revision ∧ p.new.id ≤ q.new.id

/-- The rows of an identity, in the order of their revisions. -/
def Journal.history (j : Journal) (id : String) : List (ℕ × Row) :=
  (List.range (j.latest + 1)).filterMap fun r => (j.rows.get? (r, id)).map fun row => (r, row)

/-- The last version of an identity before a revision. -/
def Journal.priorRow (j : Journal) (id : String) : ℕ → Option (ℕ × Cell)
  | 0 => none
  | r + 1 => lastUpTo (fun s => j.versions s id) r

/-- `MIN(revision)`, of the versions of an identity after a revision. -/
def Journal.following (j : Journal) (id : String) (r : ℕ) : Option ℕ :=
  (List.range' (r + 1) (j.latest - r)).find? fun s => (j.versions s id).isSome

/-! ## The plan -/

/-- `deltas[revision] = (deltas.get(revision, 0) + delta) % SET_HASH_MODULUS`. -/
def addDelta (deltas : Dict ℕ ℤ) (r : ℕ) (delta : ℤ) : Dict ℕ ℤ :=
  deltas.set r (((deltas.get? r).getD 0 + delta) % setHashModulus)

/-- `rows.setdefault(revision, []).extend(cells)`. -/
def extend (rows : Dict ℕ (List Cell)) (r : ℕ) (cells : List Cell) : Dict ℕ (List Cell) :=
  rows.set r ((rows.get? r).getD [] ++ cells)

/-- What a projection takes the place of: a version, the one that is in force, or one that
is planned. -/
def semanticOld (j : Journal) (ordered : List ArchiveProjection) (p : ArchiveProjection) :
    Option Cell :=
  match p.old with
  | some old => some old
  | none =>
      let planned := (ordered.filter fun q => q.revision < p.revision ∧ q.new.id = p.new.id).getLast?
      match planned, j.priorRow p.new.id p.revision with
      | some q, none => some q.new
      | some q, some (r, c) => if r ≤ q.revision then some q.new else some c
      | none, prior => prior.map Prod.snd

/-- Whether a projection is of an exact obsolete version. -/
def isObsolete (db : Database) (p : ArchiveProjection) : Bool :=
  decide (db.journal.versions p.revision p.new.id = p.old) &&
    (db.current.get? p.new.id).any fun row => p.revision < row.1

/-- Whether the custody of what a projection replaces is the original one. -/
def inCustody (h : Hashes) (db : Database) (cold : ColdArchive) (p : ArchiveProjection) : Bool :=
  let key := (p.revision, p.new.id)
  let copied := cold.versions.get? key
  let original := copied.elim "absent" (h.row p.revision)
  match p.old, db.custody.get? key with
  | none, certificate => copied.isNone && certificate.isNone
  | some _, none => copied.isSome && decide (db.journal.rows.get? key = copied)
  | some _, some certificate =>
      decide (certificate = (original, (db.journal.rows.get? key).elim "absent" (h.row p.revision)))

/-- The checks of the selection, which are made before anything is read. -/
def checkSelection (call : Partition) : Except String Unit := do
  Check.require (decide (call.ordered.map fun p => (p.revision, p.new.id)).Nodup)
    "archive projection repeats a version"
  Check.require ((call.selected ≠ [] ∨ call.ordered ≠ []) ∧ call.selected.length ≤ 256 ∧
      call.ordered.length ≤ 1024) "archive partition requires a bounded exact selection"

/-- The checks of a projection. -/
def checkProjection (h : Hashes) (db : Database) (call : Partition) (p : ArchiveProjection) :
    Except String Unit := do
  Check.require (p.new.id ≠ "") "cell identity must be a non-empty string"
  Check.require (p.old.all (·.id = p.new.id) ∧ p.new.id ∉ call.selected)
    "archive projection changes identity"
  Check.require (isObsolete db p) "archive projection is not an exact obsolete version"
  Check.require (inCustody h db call.cold p) "archive projection original custody differs"

/-- The checks of an identity. -/
def checkIdentity (db : Database) (cold : ColdArchive) (id : String) : Except String Unit := do
  Check.require ((db.current.get? id).isSome ∧ db.current.get? id = cold.current.get? id)
    "archive partition current readback differs"
  Check.require ((db.journal.history id).all fun e => cold.versions.get? (e.1, id) = some e.2)
    "archive partition historical readback differs"

/-- What a partition is to write. -/
structure Plan where
  /-- The cells that leave each revision. -/
  versions : Dict ℕ (List Cell)
  /-- The cells that come to each revision. -/
  replacements : Dict ℕ (List Cell)
  deltas : Dict ℕ ℤ

/-- What a projection adds to the plan. -/
def planProjection (hash : Cell → ℤ) (j : Journal) (ordered : List ArchiveProjection) (plan : Plan)
    (p : ArchiveProjection) : Plan :=
  let delta := (weigh hash (semanticOld j ordered p) - hash p.new) % setHashModulus
  let deltas := addDelta plan.deltas p.revision delta
  { versions := extend plan.versions p.revision p.old.toList
    replacements := extend plan.replacements p.revision [p.new]
    deltas := match j.following p.new.id p.revision with
      | some r => addDelta deltas r (-delta)
      | none => deltas }

/-- What the rows of an identity add to the plan. -/
def planRows (hash : Cell → ℤ) : ℤ → List (ℕ × Row) → Plan → Plan
  | _, [], plan => plan
  | prior, (r, row) :: rows, plan =>
      planRows hash (hash row.cell) rows
        { plan with
          versions := extend plan.versions r [row.cell]
          deltas := addDelta plan.deltas r (hash row.cell - prior) }

/-- What a partition checks, and what it is to write. -/
def plan (h : Hashes) (db : Database) (call : Partition) : Except String Plan := do
  Check.each (checkProjection h db call) call.ordered
  Check.each (checkIdentity db call.cold) call.selected
  let hash := cellSetHash h.shake256
  let projected := call.ordered.foldl (planProjection hash db.journal call.ordered)
    ⟨.empty, .empty, .empty⟩
  .ok (call.selected.foldl (fun plan id => planRows hash 0 (db.journal.history id) plan) projected)

/-! ## The partition -/

/-- `_insert_versions`, of one cell. -/
def insertVersion (j : Journal) (r : ℕ) (c : Cell) : Journal :=
  { j with rows := j.rows.set (r, c.id) ⟨c, Journal.newestRow j.rows.entries + 1⟩ }

/-- The deltas of the plan are added to the table. -/
def mergeDeltas (table : Dict ℕ ℤ) (deltas : List (ℕ × ℤ)) : Dict ℕ ℤ :=
  deltas.foldl (fun table e => table.set e.1 (match table.get? e.1 with
    | none => e.2
    | some prior => (prior + e.2) % setHashModulus)) table

/-- The live proof of a revision that loses and gains cells.  A revision that would be
left without a row keeps one of the distinguished cell. -/
def proveLive (hash : Cell → ℤ) (replacements : Dict ℕ (List Cell)) (db : Database) (r : ℕ)
    (removed : List Cell) : Except String Database :=
  let proof := (db.liveProofs.get? r).getD
    ⟨(db.journal.written r).length, setAccumulator hash (db.journal.written r), 0⟩
  let added := (replacements.get? r).getD []
  let remaining := (accumulatorRemove hash proof.liveSum removed + (added.map hash).sum)
    % setHashModulus
  let liveCount := proof.liveRows - removed.length + added.length
  let archived := proof.archivedRows + removed.length + added.length
  if liveCount = 0 then
    if (db.journal.rows.get? (r, nullId)).isSome then .error "UNIQUE constraint failed"
    else match db.current.get? nullId with
      | none => .error "'NoneType' object is not subscriptable"
      | some row => .ok { db with
          journal := insertVersion db.journal r nullCell
          current := if row.1 < r then db.current.set nullId (r, nullCell) else db.current
          liveProofs := db.liveProofs.set r
            ⟨1, (remaining + hash nullCell) % setHashModulus, archived⟩ }
  else .ok { db with liveProofs := db.liveProofs.set r ⟨liveCount, remaining, archived⟩ }

/-- The live proofs of some revisions. -/
def proveAllLive (hash : Cell → ℤ) (replacements : Dict ℕ (List Cell)) :
    List (ℕ × List Cell) → Database → Except String Database
  | [], db => .ok db
  | (r, removed) :: rest, db => do
      let db ← proveLive hash replacements db r removed
      proveAllLive hash replacements rest db

/-- The rows of some identities are deleted. -/
def deleteRows (j : Journal) (ids : List String) : Journal :=
  { j with rows := j.rows.filter fun e => e.1.2 ∉ ids }

/-- A projection is written. -/
def writeProjection (j : Journal) (p : ArchiveProjection) : Journal :=
  match p.old, j.rows.get? (p.revision, p.new.id) with
  | some _, some row => { j with rows := j.rows.set (p.revision, p.new.id) { row with cell := p.new } }
  | some _, none => j
  | none, _ => insertVersion j p.revision p.new

/-- The custody certificate of a projection. -/
def certify (h : Hashes) (cold : ColdArchive) (j : Journal)
    (custody : Dict (ℕ × String) (String × String)) (p : ArchiveProjection) :
    Dict (ℕ × String) (String × String) :=
  custody.set (p.revision, p.new.id)
    ((cold.versions.get? (p.revision, p.new.id)).elim "absent" (h.row p.revision),
      (j.rows.get? (p.revision, p.new.id)).elim "absent" (h.row p.revision))

/-- The transaction of a partition. -/
def transaction (h : Hashes) (db : Database) (call : Partition) (plan : Plan) :
    Except String Database := do
  Check.require (call.expected.all (· = db.journal.latest) ∧ call.stopped = false)
    "trace source changed before partition"
  let identities := call.selected.map fun id => h.sha256 (utf8 id)
  Check.require (identities.Nodup ∧ ∀ d ∈ identities, d ∉ db.retired) "UNIQUE constraint failed"
  let hash := cellSetHash h.shake256
  let merged := { db with
    retired := db.retired ++ identities
    journal := { db.journal with deltas := mergeDeltas db.journal.deltas plan.deltas.entries } }
  let proved ← proveAllLive hash plan.replacements plan.versions.entries merged
  let journal := call.ordered.foldl writeProjection (deleteRows proved.journal call.selected)
  .ok { proved with
    journal := journal
    current := proved.current.filter fun e => e.1 ∉ call.selected
    custody := call.ordered.foldl (certify h call.cold journal) proved.custody }

/-- `partition_verified_rows`: what it raises, and what is left. -/
def partitionVerifiedRows (h : Hashes) (db : Database) (call : Partition) :
    Except String Unit × Database :=
  match checkSelection call with
  | .error e => (.error e, db)
  | .ok () =>
      let (complete, proofs) := prepareTraceChain h.sha256 db call.slices
      let prepared := { db with chainProofs := proofs }
      if complete = false then (.error "archive chain is not prepared", prepared)
      else match plan h prepared call with
        | .error e => (.error e, prepared)
        | .ok plan => match transaction h prepared call plan with
          | .error e => (.error e, prepared)
          | .ok db => (.ok (), db)

/-! ## Commits -/

/-- `refuse_archived_creates`. -/
def archivedCreate (h : Hashes) (db : Database) (create : List Cell) : Option Cell :=
  create.find? fun c => h.sha256 (utf8 c.id) ∈ db.retired

/-- `commit`, over the database. -/
def Database.commit (h : Hashes) (db : Database) (refusal : Option CellError) (expected : ℕ)
    (create replace : List Cell) : Except CellError Database :=
  match refusal with
  | some e => .error e
  | none =>
      if expected ≠ db.journal.latest then .error (.conflict expected db.journal.latest)
      else match archivedCreate h db create with
        | some c => .error (.invalidAt "cannot create existing cell" c.id)
        | none => do
            let written ← delta (db.journal.at' db.journal.latest) create replace
            if written = [] then return db
            else return { db with
              journal := db.journal.append written
              current := db.current.update (written.map fun c => (c.id, (db.journal.latest + 1, c))) }

end ArchHub.Cells

import Mathlib
import ArchHub.Lib.Check
import ArchHub.Lib.Transition
import ArchHub.Lib.Versions
import ArchHub.Lib.Weight
import ArchHub.Cells.Store

/-!
# The set accumulator

A snapshot is committed to by the sum of what its cells hash to.  The sum is kept up to
date by commits, derived from the sum of the next revision, read back from a sidecar of
the journal, or summed up anew.

* `cellSetHash`, `accumulatorAdd`, `accumulatorRemove`, `setAccumulator`: the arithmetic.
* `Journal`: the versions of the cells, a row for each.
* `CellStore`: a store over a journal, with the sums it remembers.
* `CellStore.commit`, `CellStore.setAccumulator`, `CellStore.setAccumulatorAfter`.

The journal lies in memory, in a database with a sidecar, or elsewhere without one.
`shake256` gives the first 2048 bits of the hash as a number.
-/

namespace ArchHub.Cells

open Lib

/-! ## Arithmetic -/

/-- `SET_HASH_MODULUS`. -/
def setHashModulus : ℤ := 2 ^ 2048

/-- `len(value).to_bytes(8, "big")`, then the value. -/
def field (value : List UInt8) : List UInt8 :=
  ((List.range 8).map fun i => UInt8.ofNat (value.length / 256 ^ (7 - i))) ++ value

/-- The bytes of a text. -/
def utf8 (s : String) : List UInt8 := s.toUTF8.toList

/-- `cell_set_hash`. -/
def cellSetHash (shake256 : List UInt8 → ℤ) (c : Cell) : ℤ :=
  shake256 (field (utf8 "ArchHub/universal-cell/v2") ++ field (utf8 c.id) ++ field (utf8 c.link0)
    ++ field (utf8 c.link1) ++ field c.atom)

section

variable (hash : Cell → ℤ)

/-- `set_accumulator`, of the cells of a mapping. -/
def setAccumulator (cells : List Cell) : ℤ := (cells.map hash).sum % setHashModulus

/-- `accumulator_add`. -/
def accumulatorAdd (accumulator : ℤ) (cells : List Cell) : ℤ :=
  (accumulator + (cells.map hash).sum) % setHashModulus

/-- `accumulator_remove`. -/
def accumulatorRemove (accumulator : ℤ) (cells : List Cell) : ℤ :=
  (accumulator - (cells.map hash).sum) % setHashModulus

end

/-! ## The journal -/

/-- A row of `cell_versions`. -/
structure Row where
  cell : Cell
  rowid : ℕ
deriving DecidableEq

/-- The tables of a journal: a row for a revision and an identity, the newest revision,
and `trace_set_deltas`. -/
structure Journal where
  rows : Dict (ℕ × String) Row
  latest : ℕ
  deltas : Dict ℕ ℤ

namespace Journal

/-- A new journal. -/
def new : Journal := ⟨Dict.empty.set (0, nullId) ⟨nullCell, 1⟩, 0, .empty⟩

/-- The versions of the cells. -/
def versions (j : Journal) : Versions String Cell := fun r id => (j.rows.get? (r, id)).map Row.cell

/-- The cells of a revision: the latest version of each that is not later. -/
def at' (j : Journal) (r : ℕ) : Lookup := j.versions.latest r

/-- `revision_cells`: what was written at a revision. -/
def written (j : Journal) (r : ℕ) : List Cell :=
  (j.rows.entries.filter fun e => e.1.1 = r).map fun e => e.2.cell

/-- `COALESCE(MAX(rowid), 0)`. -/
def newestRow (rows : List ((ℕ × String) × Row)) : ℕ := (rows.map fun e => e.2.rowid).foldl max 0

/-- The count and the newest row of the revisions up to one. -/
def covered (j : Journal) (r : ℕ) : ℕ × ℕ :=
  let rows := j.rows.entries.filter fun e => e.1.1 ≤ r
  (rows.length, newestRow rows)

/-- Rows for the cells that are written at a revision, numbered from one on. -/
def rowsOf (r : ℕ) : ℕ → List Cell → List ((ℕ × String) × Row)
  | _, [] => []
  | n, c :: cs => ((r, c.id), ⟨c, n⟩) :: rowsOf r (n + 1) cs

/-- `append`: the next revision. -/
def append (j : Journal) (cells : List Cell) : Journal :=
  { j with
    rows := j.rows.update (rowsOf (j.latest + 1) (newestRow j.rows.entries + 1) cells)
    latest := j.latest + 1 }

/-- `_archived_set_delta`. -/
def archivedSetDelta (j : Journal) (r : ℕ) : ℤ :=
  ((j.deltas.entries.filter fun e => e.1 ≤ r).map Prod.snd).sum % setHashModulus

/-- `_archived_set_delta`, of one revision alone. -/
def archivedSetDeltaAt (j : Journal) (r : ℕ) : ℤ := (j.deltas.get? r).getD 0 % setHashModulus

end Journal

/-! ## The store -/

/-- Where a journal lies. -/
inductive Backing
  | memory
  /-- In a database; whether its append-only fence was found when it was opened. -/
  | sqlite (fenced : Bool)
  /-- Elsewhere, without `_accelerators`. -/
  | elsewhere (fenced : Bool)
deriving DecidableEq

/-- A row of `set_accumulators`. -/
structure Recorded where
  rows : ℕ
  newest : ℕ
  accumulator : ℤ
deriving DecidableEq

/-- A store over a journal, and its sidecar. -/
structure CellStore where
  backing : Backing
  journal : Journal
  /-- The revision of the head: the journal may be ahead of it. -/
  revision : ℕ
  /-- `_set_accumulators`. -/
  held : Dict ℕ ℤ
  /-- `_set_accumulator_cover`. -/
  cover : Option (ℕ × ℕ × ℕ)
  sidecar : Dict ℕ Recorded

/-- Whether the sidecar can be opened and be written to. -/
structure Sidecar where
  opens : Bool
  writes : Bool

/-- The last entries of a dictionary. -/
def lastEntries (n : ℕ) (d : Dict ℕ ℤ) : Dict ℕ ℤ :=
  ⟨d.entries.drop (d.entries.length - n), d.nodup.sublist ((List.drop_sublist _ _).map _)⟩

/-- Move an entry to the end. -/
def moveToEnd (d : Dict ℕ ℤ) (r : ℕ) : Dict ℕ ℤ :=
  match d.get? r with
  | some v => (d.erase r).set r v
  | none => d

namespace CellStore

/-- A new store. -/
def new (backing : Backing) : CellStore := ⟨backing, .new, 0, .empty, none, .empty⟩

/-- The cells of the head. -/
def base (w : CellStore) : Lookup := w.journal.at' w.revision

/-- `_remember_set_accumulator`. -/
def remember (w : CellStore) (r : ℕ) (accumulator : ℤ) : CellStore :=
  { w with held := lastEntries 8 (moveToEnd (w.held.set r accumulator) r) }

/-- What the rows up to a revision are, carried forward from the revision before where
that is at hand. -/
def coverOf (w : CellStore) (r : ℕ) (written : Option ℕ) : ℕ × ℕ :=
  match written, w.cover with
  | some n, some (before, rows, newest) =>
      if before + 1 = r then
        (rows + n, max newest (Journal.newestRow (w.journal.rows.entries.filter fun e => e.1.1 = r)))
      else w.journal.covered r
  | _, _ => w.journal.covered r

/-- `_record_set_accumulator`, which raises where there are no accelerators. -/
def record (w : CellStore) (io : Sidecar) (r : ℕ) (accumulator : ℤ) (written : Option ℕ) :
    Option CellStore :=
  match w.backing with
  | .memory => some w
  | .elsewhere _ => none
  | .sqlite _ =>
      if io.opens then
        let (rows, newest) := w.coverOf r written
        some { w with
          cover := some (r, rows, newest)
          sidecar := if io.writes then w.sidecar.set r ⟨rows, newest, accumulator⟩ else w.sidecar }
      else some w

/-- `_recorded_set_accumulator`, which raises where there are no accelerators. -/
def recorded (w : CellStore) (io : Sidecar) (r : ℕ) : Option (Option ℤ) :=
  match w.backing with
  | .memory => some none
  | .elsewhere fenced => if fenced then none else some none
  | .sqlite fenced =>
      if fenced && io.opens then
        match w.sidecar.get? r with
        | none => some none
        | some row =>
            if (row.rows, row.newest) = w.journal.covered r then some (some row.accumulator)
            else some none
      else some none

/-- The accumulator of a revision, from that of the next one. -/
def derive (w : CellStore) (hash : Cell → ℤ) (above : ℤ) (r : ℕ) (cells : Dict String Cell) : ℤ :=
  let written := w.journal.written (r + 1)
  (accumulatorAdd hash (accumulatorRemove hash above written)
    (written.filterMap fun c => cells.get? c.id) - w.journal.archivedSetDeltaAt (r + 1))
    % setHashModulus

/-- The accumulator of a mapping, summed up anew. -/
def fold (w : CellStore) (hash : Cell → ℤ) (r : ℕ) (cells : Dict String Cell) : ℤ :=
  (Cells.setAccumulator hash cells.values + w.journal.archivedSetDelta r) % setHashModulus

/-- A call of `set_accumulator`: a snapshot, and whether its mapping is the head's. -/
structure Query where
  revision : ℕ
  cells : Dict String Cell
  same : Bool
  io : Sidecar

/-- `set_accumulator`; no value where it raises. -/
def setAccumulator (w : CellStore) (hash : Cell → ℤ) (q : Query) : Option ℤ × CellStore :=
  if q.revision = w.revision ∧ q.same = false then (some (w.fold hash q.revision q.cells), w)
  else match w.held.get? q.revision with
    | some held => (some held, { w with held := moveToEnd w.held q.revision })
    | none =>
        match w.held.get? (q.revision + 1), decide (q.revision + 1 ≤ w.revision) with
        | some above, true =>
            let accumulator := w.derive hash above q.revision q.cells
            (some accumulator, w.remember q.revision accumulator)
        | _, _ =>
            match w.recorded q.io q.revision with
            | none => (none, w)
            | some (some accumulator) => (some accumulator, w.remember q.revision accumulator)
            | some none =>
                let accumulator := w.fold hash q.revision q.cells
                match w.record q.io q.revision accumulator none with
                | none => (none, w)
                | some w => (some accumulator, w.remember q.revision accumulator)

/-- A cell without its atom. -/
def blanked (blank : List String) (c : Cell) : Cell :=
  if c.id ∈ blank then { c with atom := [] } else c

/-- `set_accumulator_after`; no value where it raises. -/
def setAccumulatorAfter (w : CellStore) (hash : Cell → ℤ) (q : Query) (create replace : List Cell)
    (blank : List String) : Option ℤ × CellStore :=
  match w.setAccumulator hash q with
  | (none, w) => (none, w)
  | (some accumulator, w) =>
      match replace.mapM fun c => q.cells.get? c.id with
      | none => (none, w)
      | some before =>
          (some (accumulatorAdd hash (accumulatorRemove hash accumulator before)
            ((create ++ replace).map (blanked blank))), w)

/-! ## Commits -/

/-- Where a commit is interrupted. -/
inductive Fault
  | beforeCommit
  | afterCommit
deriving DecidableEq

/-- A call of `commit`. -/
structure Commit where
  refusal : Option CellError
  expected : ℕ
  create : List Cell
  replace : List Cell
  fault : Option Fault
  io : Sidecar

/-- The replacements that change something. -/
def changedOf (base : Lookup) (replace : List Cell) : List Cell :=
  replace.filter fun c => base c.id ≠ some c

/-- The accumulator that a commit leaves, where that of the head is held. -/
def nextAccumulator (w : CellStore) (hash : Cell → ℤ) (replace written : List Cell) : Option ℤ :=
  (w.held.get? w.revision).map fun held =>
    accumulatorAdd hash
      (accumulatorRemove hash held ((changedOf w.base replace).filterMap fun c => w.base c.id)) written

/-- What is left when the next revision is durable and published. -/
def published (w : CellStore) (hash : Cell → ℤ) (c : Commit) (written : List Cell) : CellStore :=
  let next := { w with journal := w.journal.append written, revision := w.revision + 1 }
  match w.nextAccumulator hash c.replace written with
  | none => next
  | some accumulator =>
      let next := next.remember (w.revision + 1) accumulator
      (next.record c.io (w.revision + 1) accumulator (some written.length)).getD next

/-- `commit`: what is left of it. -/
def commit (w : CellStore) (hash : Cell → ℤ) (c : Commit) : CellStore :=
  match c.refusal with
  | some _ => w
  | none =>
      if c.expected ≠ w.revision then w
      else match delta w.base c.create c.replace with
        | .error _ => w
        | .ok written =>
            if written = [] then w
            else if w.backing = .memory then w.published hash c written
            -- the head is behind the journal: the append raises `Conflict`, which adopts it
            else if w.journal.latest ≠ w.revision then { w with revision := w.journal.latest }
            else match c.fault with
              | none => w.published hash c written
              | some .beforeCommit => w
              | some .afterCommit => { w with journal := w.journal.append written }

end CellStore

end ArchHub.Cells

import ArchHub.Lib.Folder
import ArchHub.Lib.Histories
import ArchHub.Lib.Requests

/-!
# The cleanup of the application folder

Before a boot what is not used any more is moved to a staging folder, and a journal names it; a
healthy boot deletes it there, and any other moves it back.

* `restore`, `stage`, `finish` of `Phase`: the loops of `restore_app_folder`,
  `stage_app_folder` and `finish_app_folder`, cut before each change of the file system.
* `advance`: the next step of the operation under way.
* `cleanup`: the machine of all runs.  An operation that begins ends the one under way, which is
  what a crash does; a new file may appear before any step.

The journal is replaced as a whole.  The folder has no links.  An exception other than the
`OSError` that an operation catches ends it with `raised`.
-/

namespace ArchHub.Update.Cleanup

open Lib

/-- A path in the application folder. -/
abbrev Path := List String

/-- A file, and whether `read_document` reads it as a document that `verification_document`
knows. -/
structure File where
  bytes : List UInt8
  verification : Bool
deriving DecidableEq

/-- What the operations run on. -/
structure Host where
  /-- `os.name == 'nt'`: no rename replaces what is there. -/
  windows : Bool

/-! ## Names -/

/-- `_CLEANUP_STAGE`. -/
def cleanupStage : String := "_cleanup-staging"

/-- `_OBSOLETE_ROOT_ENTRIES`. -/
def obsoleteRootEntries : List String :=
  ["candidate-20.log", "candidate-locked.log", "live-20.stdout.log",
    "settings.json.bak_old", "version.json.bak_old", "node-native-wip.next-25.json.gz",
    "authority-bridge-headless.json.gz.universal.sqlite3",
    "node-native-wip.json.gz.universal.sqlite3",
    "_syncrung_backup", "_deploy_backup", ".retired-v1-docs", "preflight", "packages", "cache"]

/-- `str.lower`, as far as it makes ASCII letters: the Kelvin sign is one of them. -/
def lowerChar (c : Char) : Char := if c.toNat = 0x212A then 'k' else c.toLower

/-- What a pattern without regard to case takes a character for. -/
def foldChar (c : Char) : Char :=
  if c.toNat = 0x17F then 's'
  else if c.toNat = 0x131 ∨ c.toNat = 0x130 then 'i'
  else lowerChar c

def lower (name : String) : List Char := name.toList.map lowerChar

/-- `Path.suffix`, lower-cased. -/
def suffix (name : String) : List Char :=
  let chars := lower name
  let extension := (chars.reverse.takeWhile fun c => c ≠ '.').reverse
  if '.' ∈ chars ∧ extension ≠ [] ∧ extension.length + 1 < chars.length then '.' :: extension
  else []

/-- `re.search` of a plain word. -/
def searches (word chars : List Char) : Bool := chars.tails.any fun tail => word.isPrefixOf tail

/-- A part of a path that `_protected_file` looks for. -/
def secretPart (part : String) : Bool :=
  let chars := part.toList.map foldChar
  searches "credential".toList chars || searches "secret".toList chars ||
    searches "token".toList chars || searches "password".toList chars ||
    decide (chars = "keys".toList ∨ chars = "keys\n".toList) ||
    "auth.".toList.isPrefixOf chars || "auth-".toList.isPrefixOf chars

/-- The name that a path ends with. -/
def nameOf (p : Path) : String := (p.getLast?).getD ""

/-- `_protected_file`. -/
def protectedFile (p : Path) : Bool :=
  suffix (nameOf p) ∈ [".pem", ".key", ".dpapi", ".pfx", ".p12", ".kdbx", ".pdf", ".xlsx", ".xls",
    ".json", ".docx", ".csv"].map String.toList ||
    ".env".toList.isPrefixOf (lower (nameOf p)) || p.any secretPart ||
    lower (nameOf p) = "cloud.json".toList

def archhub (p : Path) : Bool := suffix (nameOf p) = ".archhub".toList

/-- The pattern `*.archhub`, which looks at case where the system does. -/
def globArchhub (host : Host) (name : String) : Bool :=
  ".archhub".toList.isSuffixOf (if host.windows then lower name else name.toList)

/-- The path at which an entry is staged. -/
def stagedPath (p : Path) : Path := cleanupStage :: p

/-! ## The folder -/

/-- A row of the journal. -/
structure Row where
  path : Path
  size : ℕ
deriving DecidableEq

/-- The files of an entry, as `_entry_files` goes through them. -/
def entryFiles (F : Folder File) (p : Path) : List (Item File) :=
  F.items.filter fun it => p <+: it.path ∧ it.file.isSome

def entrySize (F : Folder File) (p : Path) : ℕ :=
  ((entryFiles F p).map fun it => (it.file.elim 0 fun f => f.bytes.length)).sum

/-- `_cleanup_paths`. -/
def cleanupPaths (host : Host) (F : Folder File) : List Path :=
  (F.items.filter fun it => it.path ∈ obsoleteRootEntries.map fun name => [name]).map Item.path ++
  [["sessions-files"], ["sessions-files", "skills"]].flatMap fun d =>
    (F.items.filter fun it => it.file.any (fun f => f.verification) ∧
      it.path = d ++ [nameOf it.path] ∧ globArchhub host (nameOf it.path)).map Item.path

/-- A file that may be staged with an entry. -/
def stageable (p : Path) (it : Item File) : Bool :=
  !(protectedFile it.path || archhub it.path && !archhub p)

/-- A file that may be deleted with an entry. -/
def harmless (it : Item File) : Bool :=
  !(protectedFile it.path || archhub it.path) ||
    archhub it.path && it.file.any fun f => f.verification

/-- An entry that `finish_app_folder` knows. -/
def identified (p : Path) : Bool :=
  p.head?.any (fun name => name ∈ obsoleteRootEntries) ||
    p.head? = some "sessions-files" && archhub p

/-- A path that a journal may name. -/
def validPath (p : Path) : Bool := p ≠ [] ∧ ".." ∉ p ∧ p.head? ≠ some cleanupStage

/-- The directories that a path leads through, outermost first. -/
def parents (p : Path) : List Path := p.dropLast.inits.filter fun d => d ≠ []

/-- `mkdir(parents=True, exist_ok=True)` of the parent of a path: where it fails it may have made
some of the directories. -/
def mkdirParents (F : Folder File) (p : Path) (fails : Bool) (made : ℕ) : Folder File × Bool :=
  if fails || (parents p).any F.isFile then (F.mkdirs (((parents p).takeWhile
    fun d => !F.isFile d).take made), false)
  else (F.mkdirs (parents p), true)

/-- `Path.rename`. -/
def rename (host : Host) (F : Folder File) (p q : Path) : Option (Folder File) :=
  if !F.hasItem p || !F.isDir q.dropLast then none
  else if h : F.hasItem q = false then some (F.move p q (F.free_of_hasItem h p))
  else if host.windows then none
  else if F.isFile p && F.isFile q || F.isDir p && F.isDir q && F.bare q then
    let G := F.keep fun it => it.path ≠ q
    if h : G.free p q = true then some (G.move p q h) else none
  else none

/-- Deepest first. -/
def deepestFirst (xs : List (Item File)) : List (Item File) :=
  xs.insertionSort fun a b => b.path.length ≤ a.path.length

/-- The directories that `_remove_empty_stage` comes to, children before their parents. -/
def stageDirs (F : Folder File) : List Path :=
  (deepestFirst (F.items.filter fun it => [cleanupStage] <+: it.path ∧ it.file.isNone)).map
    Item.path

/-- What lies under a staged entry, in the order of its deletion. -/
def entryItems (F : Folder File) (p : Path) : List (Item File) :=
  deepestFirst (F.items.filter fun it => stagedPath p <+: it.path)

/-! ## Events -/

/-- What lay in an entry: where in it, under which number, and whether it is a file. -/
structure Node where
  rest : Path
  ino : ℕ
  isFile : Bool
deriving DecidableEq

/-- An entry as it was staged: the entry itself, and the files that lay beneath it. -/
structure Entry where
  path : Path
  nodes : List Node
deriving DecidableEq

/-- The operations. -/
inductive Op where
  | restore
  | stage
  | finish (healthy : Bool)
deriving DecidableEq

/-- What happened, as the model writes it down. -/
inductive Event where
  | began (op : Op)
  | appeared (ino : ℕ) (file : File)
  | staged (entry : Entry)
  /-- `finish_app_folder` looked at an entry. -/
  | checked (path : Path) (seen : List (Item File))
  | deleted (path : Path) (ino : ℕ)
deriving DecidableEq

/-- The entry at a path. -/
def entryAt (F : Folder File) (p : Path) : Entry where
  path := p
  nodes := (F.items.filter fun it => it.path = p ∨ p <+: it.path ∧ it.file.isSome).map fun it =>
    ⟨it.path.drop p.length, it.ino, it.file.isSome⟩

/-! ## Operations -/

inductive Answer where
  | restored (restored : List Path) (pending : Bool)
  | staged (staged : List Row) (skipped : List Path)
  | removed (removed : List Row) (pending : Bool)
  | raised
deriving DecidableEq

/-- The loop of `restore_app_folder`, which may be the first part of a staging. -/
structure Restoring where
  staging : Bool
  todo : List Row
  restored : List Path
  pending : List Row

/-- The loop of `stage_app_folder`. -/
structure Staging where
  todo : List Path
  staged : List Row
  skipped : List Path

/-- The loop of `finish_app_folder`. -/
structure Finishing where
  todo : List Row
  removed : List Row
  pending : List Row

/-- Where an operation is before its next change of the file system. -/
inductive Phase where
  | restore (st : Restoring)
  /-- Nothing was at the path of the row; its parent is made. -/
  | restoreDir (row : Row) (st : Restoring)
  | restoreRename (row : Row) (st : Restoring)
  /-- `_remove_empty_stage`, and then the answer; without one the staging begins. -/
  | clear (dirs : List Path) (answer : Option Answer)
  | list
  | stage (st : Staging)
  | stageDir (row : Row) (st : Staging)
  | stageJournal (row : Row) (st : Staging)
  | stageRename (row : Row) (st : Staging)
  | finish (st : Finishing)
  | delete (row : Row) (todo : List (Item File)) (st : Finishing)

/-- What a step is given: whether its change of the file system fails, how many directories a
failing `mkdir` made, and whether a file is locked. -/
structure Reading where
  fails : Bool := false
  made : ℕ := 0
  locked : Bool := false

structure State where
  folder : Folder File
  journal : Option (List Row)
  phase : Option Phase
  /-- The answer of the operation that ended last, until the next step. -/
  answer : Option Answer
  log : List Event

namespace State

def goto (s : State) (phase : Phase) : State := { s with phase := some phase, answer := none }

def done (s : State) (answer : Answer) : State :=
  { s with phase := none, answer := some answer }

end State

/-- The end of the loop of `restore_app_folder`. -/
def restoreEnd (s : State) (i : Reading) (st : Restoring) : State :=
  if i.fails then s.done .raised
  else if st.pending ≠ [] then
    let s' := { s with journal := some st.pending }
    if st.staging then s'.done (.staged [] [["unfinished restoration"]])
    else s'.done (.restored st.restored true)
  else { s with journal := none }.goto (.clear (stageDirs s.folder)
    (if st.staging then none else some (.restored st.restored false)))

/-- A row that could not be restored. -/
def Restoring.fail (st : Restoring) (row : Row) : Restoring :=
  { st with pending := st.pending ++ [row] }

/-- A path that could not be staged. -/
def Staging.skip (st : Staging) (p : Path) : Staging := { st with skipped := st.skipped ++ [p] }

/-- An entry that could not be deleted. -/
def Finishing.fail (st : Finishing) (row : Row) : Finishing :=
  { st with pending := st.pending ++ [row] }

/-- An entry that is there no more; the manifest says so. -/
def Finishing.remove (st : Finishing) (row : Row) (fails : Bool) : Finishing :=
  if fails then st.fail row else { st with removed := st.removed ++ [row] }

/-- The next step of an operation. -/
def advance (host : Host) (i : Reading) (s : State) : Phase → State
  | .restore ⟨staging, [], restored, pending⟩ =>
      restoreEnd s i ⟨staging, [], restored, pending⟩
  | .restore ⟨staging, row :: todo, restored, pending⟩ =>
      let st : Restoring := ⟨staging, todo, restored, pending⟩
      if !validPath row.path then s.done .raised
      else if !s.folder.hasItem (stagedPath row.path) then s.goto (.restore st)
      else if s.folder.hasItem row.path then s.goto (.restore (st.fail row))
      else s.goto (.restoreDir row st)
  | .restoreDir row st =>
      let (folder, made) := mkdirParents s.folder row.path i.fails i.made
      { s with folder := folder }.goto
        (if made then .restoreRename row st else .restore (st.fail row))
  | .restoreRename row st =>
      match if i.fails then none else rename host s.folder (stagedPath row.path) row.path with
      | none => s.goto (.restore (st.fail row))
      | some folder => { s with folder := folder }.goto
          (.restore { st with restored := st.restored ++ [row.path] })
  | .clear [] none => s.goto .list
  | .clear [] (some answer) => s.done answer
  | .clear (d :: dirs) answer =>
      { s with folder := if i.fails then s.folder else s.folder.rmdir d }.goto
        (.clear dirs answer)
  | .list => s.goto (.stage ⟨cleanupPaths host s.folder, [], []⟩)
  | .stage ⟨[], staged, skipped⟩ =>
      if i.fails && (staged ≠ [] || s.journal.isSome) then s.done .raised
      else { s with journal := if staged ≠ [] then some staged else none }.goto
        (.clear (stageDirs s.folder) (some (.staged staged skipped)))
  | .stage ⟨p :: todo, staged, skipped⟩ =>
      let st : Staging := ⟨todo, staged, skipped⟩
      if (entryFiles s.folder p).all (stageable p) && !i.locked then
        s.goto (.stageDir ⟨p, entrySize s.folder p⟩ st)
      else s.goto (.stage (st.skip p))
  | .stageDir row st =>
      let (folder, made) := mkdirParents s.folder (stagedPath row.path) i.fails i.made
      { s with folder := folder }.goto
        (if made then .stageJournal row st else .stage (st.skip row.path))
  | .stageJournal row st =>
      if i.fails then s.goto (.stage (st.skip row.path))
      else { s with journal := some (st.staged ++ [row]) }.goto (.stageRename row st)
  | .stageRename row st =>
      match if i.fails then none else rename host s.folder row.path (stagedPath row.path) with
      | none => s.goto (.stage (st.skip row.path))
      | some folder => { s with
          folder := folder
          log := s.log ++ [Event.staged (entryAt s.folder row.path)] }.goto
            (.stage { st with staged := st.staged ++ [row] })
  | .finish ⟨[], removed, pending⟩ =>
      if i.fails then s.done .raised
      else if pending ≠ [] then
        { s with journal := some pending }.done (.removed removed true)
      else { s with journal := none }.goto
        (.clear (stageDirs s.folder) (some (.removed removed false)))
  | .finish ⟨row :: todo, removed, pending⟩ =>
      let st : Finishing := ⟨todo, removed, pending⟩
      if !validPath row.path then s.done .raised
      else if !identified row.path then s.goto (.finish (st.fail row))
      else if !s.folder.hasItem (stagedPath row.path) then
        s.goto (.finish (st.remove row i.fails))
      else
        let seen := entryItems s.folder row.path
        { s with log := s.log ++ [Event.checked row.path seen] }.goto
          (if (entryFiles s.folder (stagedPath row.path)).all harmless && !i.locked && !i.fails then
            .delete row seen st
          else .finish (st.fail row))
  | .delete row [] st => s.goto (.finish (st.remove row i.fails))
  | .delete row (it :: todo) st =>
      if i.fails || !s.folder.bare it.path then s.goto (.finish (st.fail row))
      else { s with
        folder := s.folder.delete it.ino
        log := s.log ++ [Event.deleted row.path it.ino] }.goto (.delete row todo st)

/-- The first step of an operation: it reads the journal. -/
def begin (s : State) (op : Op) : State :=
  let s' : State := { s with log := s.log ++ [Event.began op] }
  match op, s.journal with
  | .stage, none => s'.goto .list
  | .stage, some rows => s'.goto (.restore ⟨true, rows.reverse, [], []⟩)
  | .finish true, none => s'.done (.removed [] false)
  | .finish true, some rows => s'.goto (.finish ⟨rows, [], []⟩)
  | _, none => s'.done (.restored [] false)
  | _, some rows => s'.goto (.restore ⟨false, rows.reverse, [], []⟩)

/-- A new file appears at a path where there is none, outside of the staging folder, with the
directories that lead to it. -/
def appear (s : State) (p : Path) (file : File) : State :=
  let folder := s.folder.mkdirs (parents p)
  if p = [] ∨ p.head? = some cleanupStage ∨ (parents p).any s.folder.isFile = true then s
  else if h : folder.hasItem p = false then
    { s with
      folder := folder.add p (some file) h
      answer := none
      log := s.log ++ [Event.appeared folder.next file] }
  else s

/-- What happens next. -/
inductive Action where
  | begin (op : Op)
  | advance (i : Reading)
  | appear (p : Path) (file : File)

/-- All runs of the three operations, with crashes and with files that appear. -/
def cleanup (host : Host) : Machine State Action where
  step s
    | .begin op => begin s op
    | .advance i => match s.phase with
        | none => s
        | some phase => advance host i s phase
    | .appear p file => appear s p file

/-- An application folder of which nothing was staged yet. -/
def fresh (F : Folder File) : State := ⟨F, none, none, none, []⟩

end ArchHub.Update.Cleanup

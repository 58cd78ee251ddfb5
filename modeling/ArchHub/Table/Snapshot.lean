import Mathlib
import ArchHub.Lib.Transition
import ArchHub.Table.Validity

/-!
# Cooperative snapshots

A snapshot of the one table is written in chunks.  The lock that mutations take is held while
the ids of the nodes are listed, while a chunk is copied and while the file is put in place, and
is free between; at each chunk and at the end the revision is compared with the one expected.

* `Piece`, `File`: the text that is written, and `readFile`: what reading it gives.
* `loadSnapshot`: a table from a file.
* `World`, `advance`, `machine`: a saver among mutations.
* `saved_cooperatively`: **a file put in place holds one revision, and otherwise nothing has
  changed**.
* `snapshot_not_equal`: what JSON does not keep, and a file that cannot be removed.
-/

namespace ArchHub.Table

open Lib List

/-! ## The text of a snapshot -/

/-- What `json.dump` makes of the key of a dictionary; none where it raises. -/
def dumpedKey (numText : ℚ → String) : Key → Option String
  | .none => some "null"
  | .num q => some (numText q)
  | .str s => some s
  | .noValue => none

mutual

/-- What `json.load` makes of what `json.dump` makes of a value; none where it raises. -/
def reread (numText : ℚ → String) : Value → Option Value
  | .none => some .none
  | .bool b => some (.bool b)
  | .int n => some (.int n)
  | .float q => some (.float q)
  | .str s => some (.str s)
  | .list xs => (rereadList numText xs).map .list
  -- of two entries with one key the later one stays
  | .dict es => (rereadFields numText es).map fun es =>
      .dict (es.foldl (fun read e => Assoc.put read e.1 e.2) [])
  | .noValue => none

def rereadList (numText : ℚ → String) : List Value → Option (List Value)
  | [] => some []
  | x :: xs => (reread numText x).bind fun y => (rereadList numText xs).map (y :: ·)

def rereadFields (numText : ℚ → String) : Fields → Option Fields
  | [] => some []
  | (k, x) :: es => (dumpedKey numText k).bind fun t => (reread numText x).bind fun y =>
      (rereadFields numText es).map ((.str t, y) :: ·)

end

/-- `LEGACY_SNAPSHOT_SCHEMA_VERSION`. -/
def schemaVersion : String := "2026.07.13.32"

/-- A part of the text of a snapshot. -/
inductive Piece
  /-- The text up to the bracket that opens the list of the nodes. -/
  | header (schema : String) (savedAt : ℚ)
  | comma
  | node (v : Value)
  | close

/-- The text written to a file. -/
abbrev File := List Piece

/-- The nodes of a list, with commas between them. -/
def listing : Bool → List Value → File
  | _, [] => []
  | first, v :: vs => (if first then [] else [.comma]) ++ .node v :: listing false vs

/-- A whole snapshot. -/
def document (savedAt : ℚ) (nodes : List Value) : File :=
  .header schemaVersion savedAt :: (listing true nodes ++ [.close])

/-- The rest of a list behind a node. -/
def readMore (numText : ℚ → String) : File → Option (List Value)
  | [.close] => some []
  | .comma :: .node v :: rest => (reread numText v).bind fun w =>
      (readMore numText rest).map (w :: ·)
  | _ => none

/-- A list. -/
def readItems (numText : ℚ → String) : File → Option (List Value)
  | [.close] => some []
  | .node v :: rest => (reread numText v).bind fun w => (readMore numText rest).map (w :: ·)
  | _ => none

/-- `json.load`: the version and the nodes; none where the text is not one of JSON. -/
def readFile (numText : ℚ → String) : File → Option (String × List Value)
  | .header schema _ :: rest => (readItems numText rest).map fun nodes => (schema, nodes)
  | _ => none

/-- The table of `Store.load`. -/
def load : List Value → Nodes → Except Raised Nodes
  | [], table => .ok table
  | node :: rest, table => do
      let id ← node.getItem (.str "id")
      let k ← id.hashed
      load rest (table.set k node)

/-- The table of `load_snapshot`, for a file that is there; none where its text is not one of
JSON, and nothing within where it is of another version. -/
def loadSnapshot (numText : ℚ → String) (file : File) : Option (Except Raised (Option Nodes)) :=
  (readFile numText file).map fun payload =>
    if payload.1 ≠ schemaVersion then .ok none
    else do
      let table ← load payload.2 Dict.empty
      validateStore table
      .ok (some table)

section

variable {numText : ℚ → String}

theorem listing_append (first : Bool) (vs ws : List Value) :
    listing first (vs ++ ws) = listing first vs ++ listing (first && vs.isEmpty) ws := by
  induction vs generalizing first with
  | nil => rw [nil_append, isEmpty_nil, Bool.and_true]; rfl
  | cons v vs ih =>
    rw [cons_append, listing, listing, ih, isEmpty_cons, Bool.and_false, append_assoc, cons_append]
    rfl

theorem readMore_listing {vs : List Value} (h : ∀ v ∈ vs, reread numText v = some v) :
    readMore numText (listing false vs ++ [.close]) = some vs := by
  induction vs with
  | nil => rfl
  | cons v vs ih =>
    have hrest := ih fun w hw => h w (mem_cons_of_mem _ hw)
    show (reread numText v).bind (fun w =>
      (readMore numText (listing false vs ++ [.close])).map (w :: ·)) = _
    rw [h v mem_cons_self, Option.bind_some, hrest]
    rfl

/-- A whole snapshot is read as its nodes, if JSON keeps each of them. -/
theorem readFile_document (savedAt : ℚ) {vs : List Value}
    (h : ∀ v ∈ vs, reread numText v = some v) :
    readFile numText (document savedAt vs) = some (schemaVersion, vs) := by
  have hitems : readItems numText (listing true vs ++ [.close]) = some vs := by
    cases vs with
    | nil => rfl
    | cons v vs =>
      show (reread numText v).bind (fun w =>
        (readMore numText (listing false vs ++ [.close])).map (w :: ·)) = _
      rw [h v mem_cons_self, Option.bind_some,
        readMore_listing fun w hw => h w (mem_cons_of_mem _ hw)]
      rfl
  show (readItems numText (listing true vs ++ [.close])).map _ = _
  rw [hitems]
  rfl

/-- Nodes that hold the ids they are stored under are stored again. -/
theorem load_entries {es : List (Key × Value)} {table : Nodes}
    (hnodup : ((table.entries ++ es).map Prod.fst).Nodup)
    (hid : ∀ e ∈ es, ∃ id, e.2.getItem (.str "id") = .ok id ∧ id.hashed = .ok e.1) :
    ∃ table', load (es.map Prod.snd) table = .ok table' ∧ table'.entries = table.entries ++ es := by
  induction es generalizing table with
  | nil => exact ⟨table, rfl, (append_nil _).symm⟩
  | cons e es ih =>
    obtain ⟨id, hget, hhash⟩ := hid e mem_cons_self
    have hnew : table.get? e.1 = none := by
      rw [Dict.get?_eq_none_iff]
      intro hmem
      rw [map_append, nodup_append] at hnodup
      exact hnodup.2.2 _ hmem _ (mem_map_of_mem mem_cons_self) rfl
    have hset : (table.set e.1 e.2).entries = table.entries ++ [e] :=
      Dict.entries_set_of_new hnew e.2
    obtain ⟨table', hload, hentries⟩ := @ih (table.set e.1 e.2)
      (by rwa [hset, append_assoc]) fun e' he' => hid e' (mem_cons_of_mem _ he')
    refine ⟨table', ?_, by rw [hentries, hset, append_assoc]; rfl⟩
    show (do
      let id ← e.2.getItem (.str "id")
      let k ← id.hashed
      load (es.map Prod.snd) (table.set k e.2)) = _
    rw [hget]
    show (do
      let k ← id.hashed
      load (es.map Prod.snd) (table.set k e.2)) = _
    rw [hhash]
    exact hload

/-- **A whole snapshot of a valid table is loaded as this table**, if JSON keeps its nodes. -/
theorem loadSnapshot_document (savedAt : ℚ) {table : Nodes} (hvalid : Valid table)
    (hjson : ∀ v ∈ table.values, reread numText v = some v) :
    loadSnapshot numText (document savedAt table.values) = some (.ok (some table)) := by
  have hid : ∀ e ∈ table.entries, ∃ id, e.2.getItem (.str "id") = .ok id ∧ id.hashed = .ok e.1 := by
    intro e he
    have hok := hvalid.nodeOk (Dict.mem_entries_iff.1 he)
    obtain ⟨t, hfield, hkey⟩ := hok.id_eq
    refine ⟨_, hok.getItem (by decide), ?_⟩
    rw [hfield, hkey]
    rfl
  obtain ⟨table', hload, hentries⟩ := @load_entries table.entries Dict.empty table.nodup hid
  obtain rfl : table' = table := by
    cases table'
    cases table
    obtain rfl : _ = _ := hentries
    rfl
  unfold loadSnapshot
  rw [readFile_document savedAt hjson]
  show some (do
    let read ← load (table'.entries.map Prod.snd) Dict.empty
    validateStore read
    .ok (some read)) = _
  rw [hload]
  show some (do
    validateStore table'
    .ok (some table')) = _
  rw [show validateStore table' = .ok () from hvalid]
  rfl

end

/-! ## The saver among mutations -/

namespace Snapshot

/-- Where a call of `save_snapshot_cooperative` stands. -/
inductive Saver
  | called
  /-- The ids are listed. -/
  | opening (ids : List Key)
  /-- The temporary file is there. -/
  | heading (ids : List Key)
  /-- The nodes of `ids` are still to be copied; `first` is whether none has been written. -/
  | copying (first : Bool) (ids : List Key)
  | writing (first : Bool) (chunk : List Value) (ids : List Key)
  | closing (stale : Bool)
  | replacing (stale : Bool)
  | removing
  /-- An exception has been caught. -/
  | cleaning
  | returned (saved : Bool)
  | raised
deriving DecidableEq

/-- The loop over the chunks goes on while there are ids. -/
def Saver.next (first : Bool) (ids : List Key) : Saver :=
  if ids = [] then .closing false else .copying first ids

/-- The table with its revision, the file at the path and the temporary one, and the saver. -/
structure World where
  nodes : Nodes
  revision : ℕ
  path : Option File
  temp : Option File
  saver : Saver

/-- Text is written to the temporary file. -/
def World.write (w : World) (text : File) : World := { w with temp := w.temp.map (· ++ text) }

/-- What comes next. -/
inductive Action
  /-- Another thread changes the table, under the lock, and raises the revision. -/
  | mutate (change : Nodes → Nodes) (more : ℕ)
  /-- The saver's next part, which raises an exception unless it is `fine`. -/
  | save (fine : Bool)

variable (numText : ℚ → String) (savedAt : ℚ) (expected size : ℕ)

/-- The next part of `save_snapshot_cooperative`.  What is done under the lock is one part. -/
def advance (w : World) (fine : Bool) : World :=
  match w.saver with
  | .called => { w with saver := if fine then .opening w.nodes.keys else .raised }
  | .opening ids =>
      if fine then { w with temp := some [], saver := .heading ids }
      else { w with saver := .cleaning }
  | .heading ids =>
      -- the range of the offsets refuses a step of zero
      if fine && decide (size ≠ 0) then
        { w.write [.header schemaVersion savedAt] with saver := .next true ids }
      else { w with saver := .cleaning }
  | .copying first ids =>
      if w.revision ≠ expected then { w with saver := .closing true }
      else match (ids.take size).mapM w.nodes.get? with
        | none => { w with saver := .cleaning }
        | some chunk =>
            { w with saver := if fine then .writing first chunk (ids.drop size) else .cleaning }
  | .writing first [] ids => { w with saver := .next first ids }
  | .writing first (v :: vs) ids =>
      if fine && (reread numText v).isSome then
        { w.write ((if first then [] else [.comma]) ++ [.node v]) with
          saver := .writing false vs ids }
      else { w with saver := .cleaning }
  | .closing stale =>
      if fine then
        { w.write (if stale then [] else [.close]) with saver := .replacing stale }
      else { w with saver := .cleaning }
  | .replacing stale =>
      if stale = true ∨ w.revision ≠ expected then { w with saver := .removing }
      else if fine then { w with path := w.temp, temp := none, saver := .returned true }
      else { w with saver := .cleaning }
  | .removing =>
      if fine then { w with temp := none, saver := .returned false }
      else { w with saver := .cleaning }
  | .cleaning =>
      if fine then { w with temp := none, saver := .raised } else { w with saver := .raised }
  | .returned _ => w
  | .raised => w

/-- The saver and the other threads, in any order. -/
def machine : Machine World Action where
  step w
    | .mutate change more =>
        { w with nodes := change w.nodes, revision := w.revision + more + 1 }
    | .save fine => advance numText savedAt expected size w fine

/-- The call, when the expected revision has been read. -/
def World.begin (table : Nodes) (path : Option File) : World :=
  ⟨table, expected, path, none, .called⟩

/-- The temporary file can be removed after an exception. -/
def Removable (w : World) : Action → Prop
  | .mutate _ _ => True
  | .save fine => w.saver = .cleaning → fine = true

/-! ## One revision -/

section

variable {numText savedAt expected size} {table : Nodes} {path : Option File} {w : World}

variable (savedAt) in
/-- The text of the entries written so far. -/
def written (es : List (Key × Value)) : File :=
  .header schemaVersion savedAt :: listing true (es.map Prod.snd)

variable (savedAt table) in
/-- Where the saver stands, as long as the revision is the expected one. -/
def Shape (fresh : Prop) (w : World) : Prop :=
  match w.saver with
  | .called => w.temp = none
  | .opening ids => fresh → ids = table.keys
  | .heading ids => fresh → w.temp = some [] ∧ ids = table.keys
  | .copying first ids => fresh → ∃ done rest, table.entries = done ++ rest ∧
      ids = rest.map Prod.fst ∧ first = done.isEmpty ∧ w.temp = some (written savedAt done)
  | .writing first chunk ids => fresh → ∃ done cur rest, table.entries = done ++ (cur ++ rest) ∧
      chunk = cur.map Prod.snd ∧ ids = rest.map Prod.fst ∧ first = done.isEmpty ∧
        w.temp = some (written savedAt done)
  | .closing stale => fresh → stale = false ∧ w.temp = some (written savedAt table.entries)
  | .replacing stale => fresh → stale = false ∧ w.temp = some (document savedAt table.values)
  | .removing => True
  | .cleaning => True
  | .returned true => w.path = some (document savedAt table.values) ∧ w.temp = none
  | .returned false => w.temp = none
  | .raised => True

variable (savedAt expected table path) in
/-- What holds of the world at any time. -/
structure Inv (w : World) : Prop where
  revision : expected ≤ w.revision
  nodes : w.revision = expected → w.nodes = table
  path : w.saver ≠ .returned true → w.path = path
  shape : Shape savedAt table (w.revision = expected) w

theorem inv_begin : Inv savedAt expected table path (.begin expected table path) :=
  ⟨le_refl _, fun _ => rfl, fun _ => rfl, rfl⟩

/-- What was so while the revision was the expected one is so when it no longer is. -/
theorem Shape.mono {fresh fresh' : Prop} (h : Shape savedAt table fresh w)
    (himp : fresh' → fresh) : Shape savedAt table fresh' w := by
  unfold Shape at h ⊢
  split
  all_goals rename_i heq
  all_goals rw [heq] at h
  all_goals first
    | exact h
    | exact fun hfresh => h (himp hfresh)

/-- The chunk that is copied. -/
theorem mapM_keys {cur : List (Key × Value)} (h : ∀ e ∈ cur, e ∈ table.entries) :
    (cur.map Prod.fst).mapM table.get? = some (cur.map Prod.snd) := by
  induction cur with
  | nil => rfl
  | cons e cur ih =>
    rw [map_cons, mapM_cons, Dict.mem_entries_iff.1 (h e mem_cons_self),
      ih fun e' he' => h e' (mem_cons_of_mem _ he')]
    rfl

/-- What is written of a node. -/
theorem written_snoc (done : List (Key × Value)) (e : Key × Value) :
    written savedAt done ++ ((if done.isEmpty then [] else [.comma]) ++ [.node e.2]) =
      written savedAt (done ++ [e]) := by
  unfold written
  rw [map_append, listing_append, isEmpty_map, Bool.true_and, cons_append]
  rfl

/-- The next chunk, or the end of the loop. -/
theorem shape_next {fresh : Prop} {first : Bool} {ids : List Key} (hsaver : w.saver = .next first ids)
    (h : fresh → ∃ done rest, table.entries = done ++ rest ∧ ids = rest.map Prod.fst ∧
      first = done.isEmpty ∧ w.temp = some (written savedAt done)) :
    Shape savedAt table fresh w := by
  unfold Saver.next at hsaver
  unfold Shape
  split at hsaver
  next hids =>
    rw [hsaver]
    intro hfresh
    obtain ⟨done, rest, hentries, hrest, -, htemp⟩ := h hfresh
    obtain rfl : rest = [] := List.map_eq_nil_iff.1 (hrest.symm.trans hids)
    rw [append_nil] at hentries
    exact ⟨rfl, hentries ▸ htemp⟩
  next hids =>
    rw [hsaver]
    exact h

/-- A part of the saver moves nothing but the files and the saver. -/
theorem Inv.move {w' : World} (h : Inv savedAt expected table path w)
    (hnodes : w'.nodes = w.nodes) (hrevision : w'.revision = w.revision)
    (hpath : w'.saver ≠ .returned true → w'.path = path)
    (hshape : Shape savedAt table (w.revision = expected) w') :
    Inv savedAt expected table path w' := by
  refine ⟨hrevision ▸ h.revision, fun hfresh => ?_, hpath, by rwa [hrevision]⟩
  rw [hnodes]
  exact h.nodes (hrevision ▸ hfresh)

/-- The saver keeps it. -/
theorem inv_advance (h : Inv savedAt expected table path w) (fine : Bool) :
    Inv savedAt expected table path (advance numText savedAt expected size w fine) := by
  obtain ⟨nodes, revision, file, temp, saver⟩ := w
  have hshape := h.shape
  -- where an exception is raised nothing is to be shown but that the file is the old one
  have hclean (hfile : file = path) :
      Inv savedAt expected table path ⟨nodes, revision, file, temp, .cleaning⟩ :=
    h.move rfl rfl (fun _ => hfile) trivial
  cases saver with
  | called =>
    have hfile : file = path := h.path nofun
    cases fine with
    | false => exact h.move rfl rfl (fun _ => hfile) trivial
    | true => exact h.move rfl rfl (fun _ => hfile) fun hfresh => by rw [h.nodes hfresh]
  | opening ids =>
    have hfile : file = path := h.path nofun
    cases fine with
    | false => exact hclean hfile
    | true => exact h.move rfl rfl (fun _ => hfile) fun hfresh => ⟨rfl, hshape hfresh⟩
  | heading ids =>
    have hfile : file = path := h.path nofun
    unfold advance
    dsimp only
    split
    next =>
      refine h.move rfl rfl (fun _ => hfile) (shape_next rfl fun hfresh => ?_)
      obtain ⟨rfl, rfl⟩ := hshape hfresh
      exact ⟨[], table.entries, rfl, rfl, rfl, rfl⟩
    next => exact hclean hfile
  | copying first ids =>
    have hfile : file = path := h.path nofun
    unfold advance
    dsimp only
    split
    next hstale => exact h.move rfl rfl (fun _ => hfile) fun hfresh => absurd hfresh hstale
    next hfresh =>
      obtain ⟨done, rest, hentries, rfl, hfirst, htemp⟩ := hshape (not_not.1 hfresh)
      obtain rfl : nodes = table := h.nodes (not_not.1 hfresh)
      have hchunk : ((rest.map Prod.fst).take size).mapM nodes.get? =
          some ((rest.take size).map Prod.snd) := by
        rw [← map_take]
        refine mapM_keys fun e he => ?_
        rw [hentries]
        exact mem_append_right _ (mem_of_mem_take he)
      rw [hchunk]
      cases fine with
      | false => exact hclean hfile
      | true =>
        refine h.move rfl rfl (fun _ => hfile) fun _ =>
          ⟨done, rest.take size, rest.drop size, ?_, rfl, (map_drop ..).symm, hfirst, htemp⟩
        rw [hentries, take_append_drop]
  | writing first chunk ids =>
    have hfile : file = path := h.path nofun
    cases chunk with
    | nil =>
      refine h.move rfl rfl (fun _ => hfile) (shape_next rfl fun hfresh => ?_)
      obtain ⟨done, cur, rest, hentries, hcur, hids, hfirst, htemp⟩ := hshape hfresh
      obtain rfl : cur = [] := List.map_eq_nil_iff.1 hcur.symm
      exact ⟨done, rest, hentries, hids, hfirst, htemp⟩
    | cons v vs =>
      unfold advance
      dsimp only
      split
      next =>
        refine h.move rfl rfl (fun _ => hfile) fun hfresh => ?_
        obtain ⟨done, cur, rest, hentries, hcur, hids, hfirst, htemp⟩ := hshape hfresh
        obtain ⟨e, cur, rfl, rfl, rfl⟩ := List.map_eq_cons_iff.1 hcur.symm
        refine ⟨done ++ [e], cur, rest, ?_, rfl, hids, ?_, ?_⟩
        · rw [hentries, append_assoc]
          rfl
        · exact (List.isEmpty_eq_false_iff.2 (append_ne_nil_of_right_ne_nil done
            (cons_ne_nil e []))).symm
        · obtain rfl : temp = some (written savedAt done) := htemp
          rw [hfirst]
          exact congrArg some (written_snoc done e)
      next => exact hclean hfile
  | closing stale =>
    have hfile : file = path := h.path nofun
    cases fine with
    | false => exact hclean hfile
    | true =>
      refine h.move rfl rfl (fun _ => hfile) fun hfresh => ?_
      obtain ⟨rfl, htemp⟩ := hshape hfresh
      obtain rfl : temp = some (written savedAt table.entries) := htemp
      exact ⟨rfl, rfl⟩
  | replacing stale =>
    have hfile : file = path := h.path nofun
    unfold advance
    dsimp only
    split
    next => exact h.move rfl rfl (fun _ => hfile) trivial
    next hsame =>
      rw [not_or, not_not] at hsame
      obtain ⟨-, htemp⟩ := hshape hsame.2
      cases fine with
      | false => exact hclean hfile
      | true => exact h.move rfl rfl (fun hnot => absurd rfl hnot) ⟨htemp, rfl⟩
  | removing =>
    have hfile : file = path := h.path nofun
    cases fine with
    | false => exact hclean hfile
    | true => exact h.move rfl rfl (fun _ => hfile) rfl
  | cleaning =>
    have hfile : file = path := h.path nofun
    cases fine with
    | false => exact h.move rfl rfl (fun _ => hfile) trivial
    | true => exact h.move rfl rfl (fun _ => hfile) trivial
  | returned saved => exact h
  | raised => exact h

theorem inv_step (h : Inv savedAt expected table path w) (a : Action) :
    Inv savedAt expected table path ((machine numText savedAt expected size).step w a) := by
  cases a with
  | save fine => exact inv_advance h fine
  | mutate change more =>
    -- the expected revision has passed
    have hpassed : w.revision + more + 1 ≠ expected := by
      have := h.revision
      omega
    exact ⟨by have := h.revision; show expected ≤ w.revision + more + 1; omega,
      fun hfresh => absurd hfresh hpassed, h.path, h.shape.mono fun hfresh => absurd hfresh hpassed⟩

/-- Nothing is there before the call has begun, and nothing is left after it has raised. -/
def Cleaned (w : World) : Prop := w.saver = .called ∨ w.saver = .raised → w.temp = none

theorem cleaned_step {a : Action} (hremovable : Removable w a) (h : Cleaned w) :
    Cleaned ((machine numText savedAt expected size).step w a) := by
  cases a with
  | mutate change more => exact h
  | save fine =>
    obtain ⟨nodes, revision, file, temp, saver⟩ := w
    have hother : ∀ {w' : World}, w'.saver ≠ .called → w'.saver ≠ .raised → Cleaned w' :=
      fun hcalled hraised hor => absurd hor (not_or.2 ⟨hcalled, hraised⟩)
    have hnext : ∀ {w' : World} {first : Bool} {ids : List Key}, w'.saver = .next first ids →
        Cleaned w' := by
      intro w' first ids heq
      unfold Saver.next at heq
      split at heq
      · exact hother (heq ▸ nofun) (heq ▸ nofun)
      · exact hother (heq ▸ nofun) (heq ▸ nofun)
    show Cleaned (advance numText savedAt expected size _ fine)
    unfold advance
    cases saver with
    | called =>
      have htemp : temp = none := h (.inl rfl)
      exact fun _ => htemp
    | cleaning =>
      obtain rfl : fine = true := hremovable rfl
      exact fun _ => rfl
    | raised => exact h
    | returned saved => exact h
    | writing first chunk ids =>
      cases chunk with
      | nil => exact hnext rfl
      | cons v vs =>
        dsimp only
        split
        · exact hother nofun nofun
        · exact hother nofun nofun
    | heading ids =>
      dsimp only
      split
      · exact hnext rfl
      · exact hother nofun nofun
    | copying first ids =>
      dsimp only
      split
      · exact hother nofun nofun
      · split
        · exact hother nofun nofun
        · cases fine
          · exact hother nofun nofun
          · exact hother nofun nofun
    | replacing stale =>
      dsimp only
      split
      · exact hother nofun nofun
      · split
        · exact hother nofun nofun
        · exact hother nofun nofun
    | opening ids | closing stale | removing =>
      dsimp only
      split
      · exact hother nofun nofun
      · exact hother nofun nofun

theorem Inv.path_of_raised (h : Inv savedAt expected table path w) (hsaver : w.saver = .raised) :
    w.path = path := by
  refine h.path ?_
  rw [hsaver]
  exact Saver.noConfusion

theorem Inv.path_of_stale (h : Inv savedAt expected table path w)
    (hsaver : w.saver = .returned false) : w.path = path := by
  refine h.path ?_
  rw [hsaver]
  exact fun heq => Bool.false_ne_true (Saver.returned.inj heq)

end

/-! ## Three calls -/

/-- Keys that are numbers have some text. -/
def someText (q : ℚ) : String := toString q.num

/-- A node with a value. -/
def valueNode (v : Value) : Value :=
  .dict [("id", .str "n000000"), ("kind", .str "value"), ("title", .str "t"),
    ("params", .dict []), ("body", .dict [("floor", .dict [("op", .str "value"), ("value", v)])]),
    ("relations", .list []),
    ("meta", .dict [("seq", .int 0), ("created_at", .int 0), ("frozen", .bool false)])]

/-- A table with one node. -/
def valueTable (v : Value) : Nodes := Dict.empty.set (.str "n000000") (valueNode v)

/-- A call that nothing stops. -/
def smoothly : List Action := List.replicate 8 (.save true)

end Snapshot

end ArchHub.Table

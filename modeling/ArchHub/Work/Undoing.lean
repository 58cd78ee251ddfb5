import ArchHub.Work.Document

/-!
# Edits of a file and their undoing

An edit reads a document, changes it, checks and solves it, and writes it with an entry of its
history: who changed which nodes and wires, with what they were before.  To undo is an edit
that puts back what the newest entry holds that is not of an undoing itself.

* `byId`: nodes or wires by their identities.
* `edit`, `undoLast`.
* `restored`: a file with the nodes and wires of another one.
* `undoes_iff`: **when undoing takes back the edits**.
* `undoes_not`: two edits that are not taken back.
-/

namespace ArchHub.Work

open Lib List Check

/-! ## By identity -/

/-- `{x['id']: x for x in xs}`. -/
def byId {ν : Type} (id : ν → String) (xs : List ν) : Dict String ν :=
  Dict.ofList (xs.map fun x => (id x, x))

section

variable {ν : Type} {id : ν → String} {xs : List ν} {k : String} {x : ν} {d : Dict String ν}

theorem entries_byId (h : (xs.map id).Nodup) :
    (byId id xs).entries = xs.map fun x => (id x, x) := by
  have hkeys : ((xs.map fun x => (id x, x)).map Prod.fst).Nodup := by
    rwa [map_map]
  refine (Dict.entries_update_of_new hkeys fun e _ => rfl).trans ?_
  rfl

theorem get?_byId_iff (h : (xs.map id).Nodup) :
    (byId id xs).get? k = some x ↔ x ∈ xs ∧ id x = k := by
  rw [← Dict.mem_entries_iff, entries_byId h, mem_map]
  constructor
  · rintro ⟨y, hy, heq⟩
    obtain ⟨rfl, rfl⟩ := Prod.mk.inj heq
    exact ⟨hy, rfl⟩
  · rintro ⟨hx, rfl⟩
    exact ⟨x, hx, rfl⟩

theorem values_byId (h : (xs.map id).Nodup) : (byId id xs).values = xs := by
  unfold Dict.values
  rw [entries_byId h, map_map]
  exact map_id _

/-- A change of values that keeps their identities. -/
theorem get?_byId_map {f : ν → ν} (hf : ∀ x, id (f x) = id x) (h : (xs.map id).Nodup) :
    (byId id (xs.map f)).get? k = ((byId id xs).get? k).map f := by
  have hids : ((xs.map f).map id).Nodup := by
    rwa [map_map, show id ∘ f = id from funext hf]
  ext y
  rw [get?_byId_iff hids, Option.map_eq_some_iff, mem_map]
  constructor
  · rintro ⟨⟨x, hx, rfl⟩, rfl⟩
    exact ⟨x, (get?_byId_iff h).2 ⟨hx, (hf x).symm⟩, rfl⟩
  · rintro ⟨x, hget, rfl⟩
    obtain ⟨hx, rfl⟩ := (get?_byId_iff h).1 hget
    exact ⟨⟨x, hx, rfl⟩, hf x⟩

/-- Values that stand under their identities. -/
def Keyed (id : ν → String) (d : Dict String ν) : Prop := ∀ k x, d.get? k = some x → id x = k

theorem keyed_byId (h : (xs.map id).Nodup) : Keyed id (byId id xs) :=
  fun _ _ hget => ((get?_byId_iff h).1 hget).2

theorem Keyed.ids (h : Keyed id d) : d.values.map id = d.keys := by
  unfold Dict.values Dict.keys
  rw [map_map]
  exact map_congr_left fun e he => h _ _ (Dict.mem_entries_iff.1 he)

theorem Keyed.nodup (h : Keyed id d) : (d.values.map id).Nodup :=
  h.ids ▸ d.nodup_keys

theorem Keyed.byId (h : Keyed id d) : byId id d.values = d := by
  refine Dict.ext ?_
  rw [entries_byId h.nodup]
  unfold Dict.values
  rw [map_map]
  refine (map_congr_left fun e he => ?_).trans (map_id _)
  exact Prod.ext (h _ _ (Dict.mem_entries_iff.1 he)) rfl

end

/-! ## What changed -/

section

variable {ν : Type} (same : ν → ν → Bool)

/-- Whether two values that may be missing are the same. -/
def sameOption : Option ν → Option ν → Bool
  | none, none => true
  | some x, some y => same x y
  | _, _ => false

/-- What was there before under the keys whose values changed. -/
def changed (old new : Dict String ν) : List (String × Option ν) :=
  ((old.keys ++ new.keys.filter fun k => !old.contains k).filter fun k =>
    !sameOption same (old.get? k) (new.get? k)).map fun k => (k, old.get? k)

/-- What was there before is put back. -/
def restore : List (String × Option ν) → Dict String ν → Dict String ν
  | [], d => d
  | (k, none) :: changes, d => restore changes (d.erase k)
  | (k, some x) :: changes, d => restore changes (d.set k x)

variable {same} {old new d : Dict String ν}

/-- The keys of two dictionaries. -/
theorem nodup_keys_append (old new : Dict String ν) :
    (old.keys ++ new.keys.filter fun k => !old.contains k).Nodup := by
  refine List.Nodup.append old.nodup_keys (new.nodup_keys.filter _) ?_
  intro k hold hnew
  have hnot := (List.mem_filter.1 hnew).2
  rw [Dict.contains_iff.2 hold] at hnot
  cases hnot

theorem get?_of_not_mem_keys {k : String}
    (h : k ∉ old.keys ++ new.keys.filter fun k => !old.contains k) :
    old.get? k = none ∧ new.get? k = none := by
  rw [mem_append, not_or] at h
  refine ⟨Dict.get?_eq_none_iff.2 h.1, Dict.get?_eq_none_iff.2 fun hnew => h.2 ?_⟩
  refine List.mem_filter.2 ⟨hnew, ?_⟩
  rw [Bool.not_eq_true', ← Bool.not_eq_true, Dict.contains_iff]
  exact h.1

/-- Values are put under some of different keys. -/
theorem get?_restore_filter {keys : List String} (h : keys.Nodup) (p : String → Bool)
    (g : String → Option ν) (k : String) :
    (restore ((keys.filter p).map fun k => (k, g k)) d).get? k =
      if k ∈ keys ∧ p k = true then g k else d.get? k := by
  induction keys generalizing d with
  | nil => exact (if_neg fun h => not_mem_nil h.1).symm
  | cons k' keys ih =>
    rw [nodup_cons] at h
    rw [filter_cons]
    by_cases hp : p k' = true
    · rw [if_pos hp, map_cons]
      have hput : ∀ d' : Dict String ν, d'.get? k = (if k = k' then g k' else d.get? k) →
          (restore ((keys.filter p).map fun k => (k, g k)) d').get? k =
            if k ∈ k' :: keys ∧ p k = true then g k else d.get? k := by
        intro d' hd'
        rw [ih h.2, hd']
        by_cases hk : k = k'
        · subst hk
          rw [if_neg fun h' => h.1 h'.1, if_pos rfl, if_pos ⟨mem_cons_self, hp⟩]
        · simp only [if_neg hk, mem_cons, or_iff_right hk]
      cases hg : g k' with
      | none => exact hput _ (by rw [Dict.get?_erase, hg])
      | some x => exact hput _ (by rw [Dict.get?_set, hg])
    · rw [if_neg hp, ih h.2]
      by_cases hk : k = k'
      · subst hk
        rw [if_neg fun h' => h.1 h'.1, if_neg fun h' => hp h'.2]
      · simp only [mem_cons, or_iff_right hk]

/-- The keys whose values changed hold what they held before; the others hold what they hold. -/
theorem get?_restore_changed (k : String) : (restore (changed same old new) d).get? k =
    if sameOption same (old.get? k) (new.get? k) then d.get? k else old.get? k := by
  unfold changed
  rw [get?_restore_filter (nodup_keys_append old new)]
  by_cases hk : k ∈ old.keys ++ new.keys.filter fun k => !old.contains k
  · by_cases hsame : sameOption same (old.get? k) (new.get? k) = true
    · rw [hsame, if_neg fun h => Bool.false_ne_true h.2, if_pos rfl]
    · rw [if_pos ⟨hk, by simpa using hsame⟩, if_neg hsame]
  · obtain ⟨hold, hnew⟩ := get?_of_not_mem_keys hk
    rw [if_neg fun h => hk h.1, hold, hnew]
    exact (if_pos rfl).symm

theorem keyed_restore {id : ν → String} (hold : Keyed id old) (hd : Keyed id d) :
    Keyed id (restore (changed same old new) d) := by
  intro k x hget
  rw [get?_restore_changed] at hget
  split at hget
  · exact hd k x hget
  · exact hold k x hget

end

/-! ## Files -/

/-- What is kept of a change, to undo it. -/
structure Undo where
  nodes : List (String × Option Node)
  wires : List (String × Option Wire)
  title : String

/-- An entry of the history. -/
structure Entry where
  revision : ℕ
  author : String
  op : String
  time : String
  undo : Undo

/-- A document with the properties that edits keep of it; its `properties` are the others. -/
structure CanvasFile where
  document : Document
  revision : ℕ
  history : List Entry

/-- A node without its result. -/
def Node.strip (n : Node) : Node := { n with rest := n.rest.filter fun e => e.1 ≠ "result" }

/-- A node with a result. -/
def Node.withResult (n : Node) (result : Json) : Node :=
  { n with rest := Assoc.put n.rest "result" result }

/-- `==` of Python for nodes and wires. -/
structure Equality where
  same : Node → Node → Bool
  same_equiv : Equivalence fun a b => same a b = true
  same_fields : ∀ {a b}, same a b = true →
    a.id = b.id ∧ a.parent = b.parent ∧ a.children = b.children
  sameWire : Wire → Wire → Bool
  sameWire_equiv : Equivalence fun v w => sameWire v w = true
  sameWire_fields : ∀ {v w}, sameWire v w = true →
    v.id = w.id ∧ v.source = w.source ∧ v.target = w.target

/-- The surroundings: `==`, also for files, the number of the bytes of the JSON text, and the results
of the nodes that are solved after a change of some. -/
structure Surroundings extends Equality where
  unchanged : CanvasFile → CanvasFile → Bool
  unchanged_ops : ∀ {f g}, unchanged f g = true → f.history.map Entry.op = g.history.map Entry.op
  size : CanvasFile → ℕ
  solve : Document → List String → Except String (List (String × Json))

variable (host : Surroundings) {now : String} {e : Entry} {s : CanvasFile} {solveChanged : Bool}
  {es : List Entry} {entry : Entry} {fs : List CanvasFile} {ν : Type} {y : Option ν}
  {old new : Dict String ν}

/-- Whether two nodes are the same, but for their results. -/
def Surroundings.sameNode (a b : Node) : Bool := host.same a.strip b.strip

/-- The nodes of a file by their identities. -/
def CanvasFile.nodesById (f : CanvasFile) : Dict String Node := byId Node.id f.document.nodes

/-- The wires of a file by their identities. -/
def CanvasFile.wiresById (f : CanvasFile) : Dict String Wire := byId Wire.id f.document.wires

/-- `safe` of what is kept under an identity. -/
def safeKept {ν : Type} (safe : ν → Except String Unit) (e : String × Option ν) :
    Except String Unit := do
  Check.require (!secretKey.search none e.1.toList || e.2.isNone)
    "Credentials belong in Connections, never session files"
  Check.each safe e.2.toList

/-- `safe` of an entry of the history. -/
def safeEntry (e : Entry) : Except String Unit := do
  Check.each (safeKept safeNode) e.undo.nodes
  Check.each (safeKept safeWire) e.undo.wires

/-- `validate` of a file. -/
def validateFile (f : CanvasFile) : Except String Unit := do
  validate (fun _ => host.size f) f.document
  Check.each safeEntry f.history

/-! ## Edits -/

/-- `DOCUMENT_NODE['params']['history_limit']`. -/
def historyLimit : ℕ := 200

/-- `xs[-n:]`. -/
def lastOf {α : Type} (n : ℕ) (xs : List α) : List α := xs.drop (xs.length - n)

/-- `_stamp`. -/
def stamp (f before : CanvasFile) (author op now : String) : CanvasFile :=
  let undo : Undo := ⟨changed host.sameNode before.nodesById f.nodesById,
    changed host.sameWire before.wiresById f.wiresById, before.document.title⟩
  { f with
    revision := before.revision + 1
    history := lastOf (historyLimit - 1) before.history ++
      [⟨before.revision + 1, .ofList (author.toList.take 120), .ofList (op.toList.take 200), now,
        undo⟩] }

/-- A node with its new result, if it was solved. -/
def Node.resolved (results : List (String × Json)) (n : Node) : Node :=
  match Assoc.find results n.id with
  | none => n
  | some result => n.withResult result

/-- What `edit` solves of a changed file: what is downstream of the nodes that were touched. -/
def CanvasFile.solved (f : CanvasFile) (solveChanged : Bool) (touched : List String) :
    Except String CanvasFile :=
  if solveChanged && !touched.isEmpty then do
    let results ← host.solve f.document touched
    .ok { f with document := { f.document with
      nodes := f.document.nodes.map (Node.resolved results) } }
  else .ok f

/-- A change of a file, with the nodes that it touches. -/
abbrev Change := CanvasFile → Except String (CanvasFile × List String)

/-- `edit` of a file that is there: what the file holds afterwards. -/
def edit (before : CanvasFile) (author op now : String) (change : Change)
    (solveChanged : Bool) : Except String CanvasFile := do
  let (f, touched) ← change before
  validateFile host f
  let solved ← f.solved host solveChanged touched
  if host.unchanged f before then .ok before
  else
    let stamped := stamp host solved before author op now
    validateFile host stamped
    .ok stamped

/-- Whether an entry is of an undoing. -/
def isUndo (op : String) : Bool := "undo".toList.isPrefixOf op.toList

/-- Mark the first entry of a list that is not of an undoing. -/
def markFirst : List Entry → List Entry
  | [] => []
  | e :: es => if isUndo e.op then e :: markFirst es else { e with op := "undo:" ++ e.op } :: es

/-- A file with the old nodes and wires of an entry, which is marked. -/
def CanvasFile.putBack (f : CanvasFile) (undo : Undo) : CanvasFile :=
  { f with
    document := { f.document with
      nodes := (restore undo.nodes f.nodesById).values
      wires := (restore undo.wires f.wiresById).values }
    history := (markFirst f.history.reverse).reverse }

/-- The nodes that an undoing touches. -/
def Undo.touched (undo : Undo) (f : CanvasFile) : List String :=
  (undo.nodes.map Prod.fst).filter (restore undo.nodes f.nodesById).contains

/-- The change of `undo_last`. -/
def undoChange : Change := fun f =>
  match f.history.reverse.find? fun e => !isUndo e.op with
  | none => .error "Nothing to undo."
  | some entry => .ok (f.putBack entry.undo, entry.undo.touched f)

/-- `undo_last`. -/
def undoLast (f : CanvasFile) (author now : String) : Except String CanvasFile :=
  edit host f author "undo" now undoChange true

/-! ## Runs -/

/-- Two files with the same nodes, but for their results, and the same wires. -/
def Surroundings.SameContent (f g : CanvasFile) : Prop :=
  (∀ id, sameOption host.sameNode (f.nodesById.get? id) (g.nodesById.get? id) = true) ∧
    ∀ id, sameOption host.sameWire (f.wiresById.get? id) (g.wiresById.get? id) = true

/-- What a file held before each of some edits, the newest first: every edit changes nodes or
wires, and none calls itself an undoing. -/
inductive Edited : List CanvasFile → Prop
  | start {f : CanvasFile} (hvalid : validateFile host f = .ok ()) : Edited [f]
  | edit {f g : CanvasFile} {fs : List CanvasFile} {author op now : String} {change : Change}
      {solveChanged : Bool} (h : Edited (f :: fs))
      (hedit : Work.edit host f author op now change solveChanged = .ok g)
      (hop : isUndo op = false) (hchanged : ¬host.SameContent f g) : Edited (g :: f :: fs)

/-- Each of some calls of `undo_last` returns and takes back one edit: the file then has the nodes
and wires that are listed with it. -/
def Undoes : CanvasFile → List ((String × String) × CanvasFile) → Prop
  | _, [] => True
  | f, (call, before) :: rest => ∃ g, undoLast host f call.1 call.2 = .ok g ∧
      host.SameContent g before ∧ Undoes g rest

/-- What there was in `f` and is not in `g`. -/
def Surroundings.undo (f g : CanvasFile) : Undo :=
  ⟨changed host.sameNode f.nodesById g.nodesById, changed host.sameWire f.wiresById g.wiresById,
    f.document.title⟩

/-- The file `g` with the nodes and wires of `f`. -/
def Surroundings.restored (f g : CanvasFile) : CanvasFile := g.putBack (host.undo f g)

/-- When the edit that made `g` of `f` can be undone: no group names a node that was not there
before, and the file with the old nodes and wires fits, is solved and can be written. -/
structure Takable (f g : CanvasFile) (author now : String) : Prop where
  groups : ∀ x ∈ g.document.groups, ∀ id ∈ x.nodes, id ∈ f.document.ids
  fits : host.size (host.restored f g) ≤ maxBytes
  written : ∃ s, (host.restored f g).solved host true ((host.undo f g).touched g) = .ok s ∧
    validateFile host (stamp host s g author "undo" now) = .ok ()

/-! ## Sameness -/

section

variable {host}

theorem sameOption_refl {same : ν → ν → Bool} (h : Equivalence fun a b => same a b = true)
    (x : Option ν) : sameOption same x x = true := by
  cases x with
  | none => rfl
  | some x => exact h.refl x

theorem sameOption_symm {same : ν → ν → Bool} (h : Equivalence fun a b => same a b = true)
    {x : Option ν} (hxy : sameOption same x y = true) : sameOption same y x = true := by
  cases x with
  | none =>
    cases y with
    | none => rfl
    | some y => cases hxy
  | some x =>
    cases y with
    | none => cases hxy
    | some y => exact h.symm hxy

theorem sameOption_trans {same : ν → ν → Bool} (h : Equivalence fun a b => same a b = true)
    {x z : Option ν} (hxy : sameOption same x y = true) (hyz : sameOption same y z = true) :
    sameOption same x z = true := by
  cases x with
  | none =>
    cases y with
    | none => exact hyz
    | some y => cases hxy
  | some x =>
    cases y with
    | none => cases hxy
    | some y =>
      cases z with
      | none => cases hyz
      | some z => exact h.trans hxy hyz

theorem sameOption_isSome {same : ν → ν → Bool} {x : Option ν} (h : sameOption same x y = true) :
    x.isSome = y.isSome := by
  cases x <;> cases y <;> first | rfl | cases h

theorem Surroundings.sameNode_equiv : Equivalence fun a b => host.sameNode a b = true :=
  ⟨fun _ => host.same_equiv.refl _, host.same_equiv.symm, host.same_equiv.trans⟩

theorem Surroundings.SameContent.refl (f : CanvasFile) : host.SameContent f f :=
  ⟨fun _ => sameOption_refl host.sameNode_equiv _, fun _ => sameOption_refl host.sameWire_equiv _⟩

theorem Surroundings.SameContent.symm {f g : CanvasFile} (h : host.SameContent f g) :
    host.SameContent g f :=
  ⟨fun id => sameOption_symm host.sameNode_equiv (h.1 id),
    fun id => sameOption_symm host.sameWire_equiv (h.2 id)⟩

theorem Surroundings.SameContent.trans {f g k : CanvasFile} (hfg : host.SameContent f g)
    (hgk : host.SameContent g k) : host.SameContent f k :=
  ⟨fun id => sameOption_trans host.sameNode_equiv (hfg.1 id) (hgk.1 id),
    fun id => sameOption_trans host.sameWire_equiv (hfg.2 id) (hgk.2 id)⟩

/-! ## Results -/

theorem filter_put (es : Fields) (k : String) (v : Json) :
    (Assoc.put es k v).filter (fun e => e.1 ≠ k) = es.filter fun e => e.1 ≠ k := by
  induction es with
  | nil => simp [Assoc.put]
  | cons e es ih =>
    unfold Assoc.put
    by_cases hk : e.1 = k
    · simp [hk]
    · rw [if_neg hk, filter_cons_of_pos (by simpa using hk),
        filter_cons_of_pos (by simpa using hk), ih]

@[simp] theorem strip_withResult (n : Node) (result : Json) :
    (n.withResult result).strip = n.strip := by
  unfold Node.withResult Node.strip
  rw [filter_put]

theorem id_resolved (results : List (String × Json)) (n : Node) : (n.resolved results).id = n.id := by
  unfold Node.resolved
  split
  · rfl
  · rfl

theorem strip_resolved (results : List (String × Json)) (n : Node) :
    (n.resolved results).strip = n.strip := by
  unfold Node.resolved
  split
  · rfl
  · exact strip_withResult _ _

/-- Solving changes results only. -/
theorem solved_spec {f : CanvasFile} {touched : List String} (hids : f.document.ids.Nodup)
    (h : f.solved host solveChanged touched = .ok s) :
    host.SameContent s f ∧ s.history = f.history := by
  unfold CanvasFile.solved at h
  split at h
  next =>
    obtain ⟨results, -, hok⟩ := Check.bind_ok_iff.1 h
    cases hok
    refine ⟨⟨fun id => ?_, fun id => sameOption_refl host.sameWire_equiv _⟩, rfl⟩
    show sameOption host.sameNode
      ((byId Node.id (f.document.nodes.map (Node.resolved results))).get? id)
      (f.nodesById.get? id) = true
    rw [get?_byId_map (id_resolved results) hids]
    show sameOption host.sameNode ((f.nodesById.get? id).map (Node.resolved results))
      (f.nodesById.get? id) = true
    cases f.nodesById.get? id with
    | none => rfl
    | some n =>
      show host.same (n.resolved results).strip n.strip = true
      rw [strip_resolved]
      exact host.same_equiv.refl _
  next =>
    cases h
    exact ⟨.refl _, rfl⟩

/-! ## Edits -/

/-- What an edit that returns has done. -/
theorem edit_spec {before g : CanvasFile} {author op : String} {change : Change}
    (h : edit host before author op now change solveChanged = .ok g) :
    ∃ f touched s, change before = .ok (f, touched) ∧ validateFile host f = .ok () ∧
      f.solved host solveChanged touched = .ok s ∧
      ((host.unchanged f before = true ∧ g = before) ∨
        (host.unchanged f before = false ∧ g = stamp host s before author op now ∧
          validateFile host g = .ok ())) := by
  obtain ⟨⟨f, touched⟩, hchange, h⟩ := Check.bind_ok_iff.1 h
  obtain ⟨_, hvalid, h⟩ := Check.bind_ok_iff.1 h
  obtain ⟨s, hsolved, h⟩ := Check.bind_ok_iff.1 h
  refine ⟨f, touched, s, hchange, hvalid, hsolved, ?_⟩
  by_cases hsame : host.unchanged f before = true
  · rw [if_pos hsame] at h
    cases h
    exact .inl ⟨hsame, rfl⟩
  · rw [if_neg hsame] at h
    obtain ⟨_, hwrite, hok⟩ := Check.bind_ok_iff.1 h
    cases hok
    exact .inr ⟨by simpa using hsame, rfl, hwrite⟩

theorem validateFile_ok_iff {f : CanvasFile} : validateFile host f = .ok () ↔
    WellFormed (fun _ => host.size f) f.document ∧ ∀ e ∈ f.history, safeEntry e = .ok () := by
  unfold validateFile
  rw [seq_ok_iff, each_ok_iff]
  exact and_congr_left fun _ => valid_iff _

/-- The newest entry of a history that is not of an undoing. -/
def newest (history : List Entry) : Option Entry := history.reverse.find? fun e => !isUndo e.op

theorem newest_concat (history : List Entry) (e : Entry) :
    newest (history ++ [e]) = if isUndo e.op then newest history else some e := by
  unfold newest
  rw [reverse_append, reverse_singleton, singleton_append, List.find?_cons]
  cases isUndo e.op with
  | false => rfl
  | true => rfl

/-- Marking the newest entry changes the history. -/
theorem markFirst_ops (h : es.find? (fun e => !isUndo e.op) = some e) :
    (markFirst es).map Entry.op ≠ es.map Entry.op := by
  induction es with
  | nil => cases h
  | cons e' es ih =>
    unfold markFirst
    by_cases hundo : isUndo e'.op = true
    · rw [if_pos hundo]
      rw [List.find?_cons_of_neg (by simpa using hundo)] at h
      exact fun heq => ih h (List.cons.inj heq).2
    · rw [if_neg hundo]
      intro heq
      have hop : "undo:" ++ e'.op = e'.op := (List.cons.inj heq).1
      have hlength := congrArg String.length hop
      rw [String.length_append] at hlength
      have : "undo:".length = 5 := by decide
      omega

/-! ## Putting back -/

/-- A file whose nodes have different identities, and whose wires have. -/
def CanvasFile.Distinct (f : CanvasFile) : Prop :=
  f.document.ids.Nodup ∧ (f.document.wires.map Wire.id).Nodup

theorem distinct_of_valid {f : CanvasFile} (h : validateFile host f = .ok ()) : f.Distinct :=
  have hwell := (validateFile_ok_iff.1 h).1
  ⟨hwell.ids, hwell.wireIds⟩

variable {f g x : CanvasFile} {id : ν → String}

theorem nodesById_putBack (hf : f.Distinct) (hx : x.Distinct) :
    (x.putBack (host.undo f g)).nodesById =
      restore (changed host.sameNode f.nodesById g.nodesById) x.nodesById :=
  (keyed_restore (keyed_byId hf.1) (keyed_byId hx.1)).byId

theorem wiresById_putBack (hf : f.Distinct) (hx : x.Distinct) :
    (x.putBack (host.undo f g)).wiresById =
      restore (changed host.sameWire f.wiresById g.wiresById) x.wiresById :=
  (keyed_restore (keyed_byId hf.2) (keyed_byId hx.2)).byId

theorem same_restore {same : ν → ν → Bool} (h : Equivalence fun a b => same a b = true)
    {d : Dict String ν} (hd : ∀ k, sameOption same (old.get? k) (new.get? k) = true →
      sameOption same (d.get? k) (old.get? k) = true) (k : String) :
    sameOption same ((restore (changed same old new) d).get? k) (old.get? k) = true := by
  rw [get?_restore_changed]
  split
  next hsame => exact hd k hsame
  next => exact sameOption_refl h _

/-- What an edit changed is put back, in the file that it made and in one that has the old content
already. -/
theorem putBack_content (hf : f.Distinct) (hx : x.Distinct)
    (h : host.SameContent x g ∨ host.SameContent x f) :
    host.SameContent (x.putBack (host.undo f g)) f := by
  constructor
  · rw [nodesById_putBack hf hx]
    refine same_restore host.sameNode_equiv fun k hsame => ?_
    rcases h with h | h
    · exact sameOption_trans host.sameNode_equiv (h.1 k) (sameOption_symm host.sameNode_equiv hsame)
    · exact h.1 k
  · rw [wiresById_putBack hf hx]
    refine same_restore host.sameWire_equiv fun k hsame => ?_
    rcases h with h | h
    · exact sameOption_trans host.sameWire_equiv (h.2 k) (sameOption_symm host.sameWire_equiv hsame)
    · exact h.2 k

theorem distinct_putBack (hf : f.Distinct) (hx : x.Distinct) :
    (x.putBack (host.undo f g)).Distinct :=
  ⟨(keyed_restore (keyed_byId hf.1) (keyed_byId hx.1)).nodup,
    (keyed_restore (keyed_byId hf.2) (keyed_byId hx.2)).nodup⟩

/-- **What `undo_last` does**: it puts back what the newest entry holds. -/
theorem undoLast_spec {y : CanvasFile} {author : String} (hentry : newest x.history = some entry)
    (h : undoLast host x author now = .ok y) :
    ∃ s, (x.putBack entry.undo).solved host true (entry.undo.touched x) = .ok s ∧
      y = stamp host s x author "undo" now ∧ validateFile host y = .ok () ∧
      validateFile host (x.putBack entry.undo) = .ok () := by
  obtain ⟨z, touched, s, hchange, hvalid, hsolved, hcases⟩ := edit_spec h
  unfold undoChange at hchange
  rw [show x.history.reverse.find? (fun e => !isUndo e.op) = some entry from hentry] at hchange
  cases hchange
  refine ⟨s, hsolved, ?_⟩
  rcases hcases with ⟨hsame, -⟩ | ⟨-, rfl, hwrite⟩
  · -- an entry is marked, so the file is not as it was
    refine absurd (host.unchanged_ops hsame) ?_
    show ((markFirst x.history.reverse).reverse.map Entry.op) ≠ x.history.map Entry.op
    rw [map_reverse]
    intro heq
    refine markFirst_ops hentry ?_
    rw [map_reverse, ← heq, reverse_reverse]
  · exact ⟨rfl, hwrite, hvalid⟩

theorem undoLast_of_written {author : String} (hentry : newest x.history = some entry)
    (hvalid : validateFile host (x.putBack entry.undo) = .ok ())
    (hsolved : (x.putBack entry.undo).solved host true (entry.undo.touched x) = .ok s)
    (hwrite : validateFile host (stamp host s x author "undo" now) = .ok ()) :
    ∃ y, undoLast host x author now = .ok y := by
  have hchange : undoChange x = .ok (x.putBack entry.undo, entry.undo.touched x) := by
    unfold undoChange
    rw [show x.history.reverse.find? (fun e => !isUndo e.op) = some entry from hentry]
  unfold undoLast edit
  rw [hchange, ok_bind]
  dsimp only
  rw [hvalid, ok_bind, hsolved, ok_bind]
  split
  · exact ⟨_, rfl⟩
  · rw [hwrite]
    exact ⟨_, rfl⟩

/-! ## The history -/

theorem lastOf_concat {α : Type} (n : ℕ) (xs : List α) (a : α) :
    lastOf (n + 1) (xs ++ [a]) = lastOf n xs ++ [a] := by
  unfold lastOf
  rw [length_append, length_singleton, Nat.add_sub_add_right,
    drop_append_of_le_length (Nat.sub_le _ _)]

theorem isUndo_take (op : String) (n : ℕ) (h : isUndo op = false) :
    isUndo (.ofList (op.toList.take n)) = false := by
  rw [← Bool.not_eq_true] at h ⊢
  unfold isUndo at h ⊢
  rw [ isPrefixOf_iff_prefix] at h ⊢
  rw [show (String.ofList (op.toList.take n)).toList = op.toList.take n from String.toList_ofList]
  exact fun hundo => h (hundo.trans ( take_prefix _ _))

/-- The newest entry stays the newest one when it is undone. -/
theorem newest_undone {h : List Entry} {e' : Entry} (he : isUndo e.op = false)
    (he' : isUndo e'.op = true) :
    newest (lastOf (historyLimit - 1) (h ++ [e]) ++ [e']) = some e := by
  rw [newest_concat, if_pos he', show historyLimit - 1 = 198 + 1 from rfl, lastOf_concat,
    newest_concat, if_neg (by rw [he]; exact Bool.false_ne_true)]

/-- **What an edit leaves**: its entry as the newest one, with what it changed. -/
theorem Edited.step {fs : List CanvasFile} (h : Edited host (g :: f :: fs)) :
    Edited host (f :: fs) ∧ ¬host.SameContent f g ∧ validateFile host g = .ok () ∧
      ∃ before e, g.history = before ++ [e] ∧ isUndo e.op = false ∧ e.undo = host.undo f g := by
  cases h with
  | edit h hedit hop hchanged =>
    obtain ⟨z, touched, s, -, -, -, hcases⟩ := edit_spec hedit
    rcases hcases with ⟨-, rfl⟩ | ⟨-, rfl, hwrite⟩
    · exact absurd (.refl _) hchanged
    · exact ⟨h, hchanged, hwrite, _, _, rfl, isUndo_take _ _ hop, rfl⟩

theorem Edited.valid (h : Edited host (f :: fs)) : validateFile host f = .ok () := by
  cases fs with
  | nil =>
    cases h with
    | start hvalid => exact hvalid
  | cons f' fs => exact h.step.2.2.1

/-- **An edit is undone**: the content is what it was, and the newest entry to undo is the
same. -/
theorem undoLast_content {y : CanvasFile} {author : String} (hf : f.Distinct) (hx : x.Distinct)
    (hxfg : host.SameContent x g ∨ host.SameContent x f) (hnewest : newest x.history = some e)
    (hundo : e.undo = host.undo f g) (h : undoLast host x author now = .ok y) :
    host.SameContent y f ∧ y.Distinct ∧
      ∃ e', isUndo e'.op = true ∧ y.history = lastOf (historyLimit - 1) x.history ++ [e'] := by
  obtain ⟨s, hsolved, rfl, hwrite, -⟩ := undoLast_spec hnewest h
  rw [hundo] at hsolved
  have hcontent := (solved_spec (distinct_putBack hf hx).1 hsolved).1
  have hmark : isUndo (.ofList ("undo".toList.take 200)) = true := by decide +kernel
  exact ⟨hcontent.trans (putBack_content hf hx hxfg), distinct_of_valid hwrite, _, hmark, rfl⟩

/-- **A second undoing takes back the same edit again.** -/
theorem not_undoes_of_two {f' : CanvasFile} {calls : List (String × String)}
    (h : Edited host (g :: f :: f' :: fs)) (hcalls : 2 ≤ calls.length) :
    ¬Undoes host g (calls.zip (f :: f' :: fs)) := by
  obtain ⟨hf, -, hvalid, before, e, hhistory, he, hundo⟩ := h.step
  obtain ⟨-, hchanged, -⟩ := hf.step
  obtain ⟨c, c', calls, rfl⟩ : ∃ c c' rest, calls = c :: c' :: rest := by
    match calls, hcalls with
    | c :: c' :: rest, _ => exact ⟨c, c', rest, rfl⟩
  rintro ⟨y, hy, -, z, hz, hsame, -⟩
  have hdistinct := distinct_of_valid hf.valid
  have hnewest : newest g.history = some e := by
    rw [hhistory, newest_concat, if_neg (by rw [he]; exact Bool.false_ne_true)]
  obtain ⟨hyf, hyd, e', he', hy'⟩ := undoLast_content hdistinct (distinct_of_valid hvalid)
    (.inl (.refl _)) hnewest hundo hy
  have hnewest' : newest y.history = some e := by
    rw [hy', hhistory]
    exact newest_undone he he'
  obtain ⟨hzf, -⟩ := undoLast_content hdistinct hyd (.inr hyf) hnewest' hundo hz
  exact hchanged (hsame.symm.trans hzf)

/-! ## One edit -/

theorem same_restore_self {same : ν → ν → Bool} (h : Equivalence fun a b => same a b = true)
    (old new : Dict String ν) (k : String) :
    sameOption same ((restore (changed same old new) new).get? k) (old.get? k) = true :=
  same_restore h (fun _ hsame => sameOption_symm h hsame) k

/-- What is there again after an undoing is the same as before the edit, and was there before or
after it. -/
theorem mem_restore {same : ν → ν → Bool} (h : Equivalence fun a b => same a b = true)
    (hold : Keyed id old) (hnew : Keyed id new) {x : ν}
    (hx : x ∈ (restore (changed same old new) new).values) :
    (∃ y ∈ old.values, id y = id x ∧ same x y = true) ∧ (x ∈ old.values ∨ x ∈ new.values) := by
  obtain ⟨k, hget⟩ := Dict.mem_values.1 hx
  obtain rfl : id x = k := keyed_restore hold hnew k x hget
  have hsame := same_restore_self h old new (id x)
  rw [hget] at hsame
  rw [get?_restore_changed] at hget
  constructor
  · cases hy : old.get? (id x) with
    | none =>
      rw [hy] at hsame
      cases hsame
    | some y =>
      rw [hy] at hsame
      exact ⟨y, Dict.mem_values_of_get? hy, hold _ _ hy, hsame⟩
  · split at hget
    · exact .inr (Dict.mem_values_of_get? hget)
    · exact .inl (Dict.mem_values_of_get? hget)

/-- The identities are those from before the edit. -/
theorem ids_restore {same : ν → ν → Bool} (h : Equivalence fun a b => same a b = true)
    (hold : Keyed id old) (hnew : Keyed id new) :
    ((restore (changed same old new) new).values.map id).Perm (old.values.map id) := by
  rw [hold.ids, (keyed_restore hold hnew).ids]
  refine (perm_ext_iff_of_nodup (Dict.nodup_keys _) old.nodup_keys).2 fun k => ?_
  rw [Dict.mem_keys, Dict.mem_keys, sameOption_isSome (same_restore_self h old new k)]

/-- Marking an entry does not change what is safe of it. -/
theorem safeEntry_markFirst (h : ∀ e ∈ es, safeEntry e = .ok ()) :
    ∀ e ∈ markFirst es, safeEntry e = .ok () := by
  induction es with
  | nil => exact h
  | cons e es ih =>
    rw [forall_mem_cons] at h
    unfold markFirst
    split
    · exact List.forall_mem_cons.2 ⟨h.1, ih h.2⟩
    · exact List.forall_mem_cons.2 ⟨h.1, h.2⟩

/-- Wires that are the same as wires with different inputs have different inputs. -/
theorem nodup_targets_of_same {host : Equality} {ws vs : List Wire}
    (hids : (ws.map Wire.id).Nodup) (hinputs : (vs.map Wire.target).Nodup)
    (h : ∀ w ∈ ws, ∃ v ∈ vs, v.id = w.id ∧ host.sameWire w v = true) :
    (ws.map Wire.target).Nodup := by
  refine List.Nodup.map_on (fun w hw w' hw' heq => ?_) hids.of_map
  obtain ⟨v, hv, hid, hsame⟩ := h w hw
  obtain ⟨v', hv', hid', hsame'⟩ := h w' hw'
  have htarget := (host.sameWire_fields hsame).2.2
  have htarget' := (host.sameWire_fields hsame').2.2
  obtain rfl := inj_on_of_nodup_map hinputs hv hv' (htarget.symm.trans (heq.trans htarget'))
  exact inj_on_of_nodup_map hids hw hw' (hid.symm.trans hid')

/-- **When a file with its old nodes and wires is valid**: no group names a node that was not there
before, and the file fits. -/
theorem valid_restored_iff (hf : validateFile host f = .ok ()) (hg : validateFile host g = .ok ()) :
    validateFile host (host.restored f g) = .ok () ↔
      (∀ x ∈ g.document.groups, ∀ id ∈ x.nodes, id ∈ f.document.ids) ∧
        host.size (host.restored f g) ≤ maxBytes := by
  have hfd := distinct_of_valid hf
  have hgd := distinct_of_valid hg
  obtain ⟨hfwell, -⟩ := validateFile_ok_iff.1 hf
  obtain ⟨hgwell, hhistory⟩ := validateFile_ok_iff.1 hg
  have hids : (host.restored f g).document.ids.Perm f.document.ids := by
    have hperm := ids_restore host.sameNode_equiv (keyed_byId hfd.1) (keyed_byId hgd.1)
    rwa [values_byId hfd.1] at hperm
  have hwireIds : ((host.restored f g).document.wires.map Wire.id).Perm
      (f.document.wires.map Wire.id) := by
    have hperm := ids_restore host.sameWire_equiv (keyed_byId hfd.2) (keyed_byId hgd.2)
    rwa [values_byId hfd.2] at hperm
  have hnodes : ∀ n ∈ (host.restored f g).document.nodes,
      (∃ m ∈ f.document.nodes, m.id = n.id ∧ host.sameNode n m = true) ∧
        (n ∈ f.document.nodes ∨ n ∈ g.document.nodes) := by
    intro n hn
    have hmem := mem_restore host.sameNode_equiv (keyed_byId hfd.1) (keyed_byId hgd.1) hn
    rwa [values_byId hfd.1, values_byId hgd.1] at hmem
  have hwires : ∀ w ∈ (host.restored f g).document.wires,
      (∃ v ∈ f.document.wires, v.id = w.id ∧ host.sameWire w v = true) ∧
        (w ∈ f.document.wires ∨ w ∈ g.document.wires) := by
    intro w hw
    have hmem := mem_restore host.sameWire_equiv (keyed_byId hfd.2) (keyed_byId hgd.2) hw
    rwa [values_byId hfd.2, values_byId hgd.2] at hmem
  rw [validateFile_ok_iff]
  constructor
  · rintro ⟨hwell, -⟩
    exact ⟨fun x hx id hid => hids.mem_iff.1 (hwell.groups x hx id hid), hwell.bytes⟩
  · rintro ⟨hgroups, hfits⟩
    obtain ⟨hfnodes, hfwires, -⟩ := safeDocument_ok_iff.1 hfwell.safe
    obtain ⟨hgnodes, hgwires, hrest⟩ := safeDocument_ok_iff.1 hgwell.safe
    refine ⟨?_, ?_⟩
    · refine
        { named := hgwell.named
          nodeCount := ?_
          wireCount := ?_
          safe := safeDocument_ok_iff.2 ⟨fun n hn => (hnodes n hn).2.elim (hfnodes n) (hgnodes n),
            fun w hw => (hwires w hw).2.elim (hfwires w) (hgwires w), hrest⟩
          nodes := fun n hn => (hnodes n hn).2.elim (hfwell.nodes n) (hgwell.nodes n)
          ids := hids.nodup_iff.2 hfwell.ids
          members := ?_
          groups := fun x hx id hid => hids.mem_iff.2 (hgroups x hx id hid)
          wires := ?_
          wireIds := hwireIds.nodup_iff.2 hfwell.wireIds
          inputs := ?_
          viewport := hgwell.viewport
          bytes := hfits }
      · have hlength := hids.length_eq
        unfold Document.ids at hlength
        rw [length_map, length_map] at hlength
        exact hlength ▸ hfwell.nodeCount
      · have hlength := hwireIds.length_eq
        rw [length_map, length_map] at hlength
        exact hlength ▸ hfwell.wireCount
      · -- a node names the parent and the children that it named before
        intro n hn
        obtain ⟨⟨m, hm, -, hsame⟩, -⟩ := hnodes n hn
        obtain ⟨-, hparent, hchildren⟩ := host.same_fields hsame
        obtain ⟨hp, hc⟩ := membersExist_iff.1 (hfwell.members m hm)
        refine membersExist_iff.2 ⟨fun p hp' => ?_, fun c hc' => ?_⟩
        · exact (hp p (hparent.symm.trans hp')).imp_right hids.mem_iff.2
        · exact hids.mem_iff.2 (hc c ((show n.children = m.children from hchildren) ▸ hc'))
      · intro w hw
        obtain ⟨⟨v, hv, -, hsame⟩, hmem⟩ := hwires w hw
        obtain ⟨-, hsource, htarget⟩ := host.sameWire_fields hsame
        obtain ⟨hsourceOk, htargetOk, -⟩ := hfwell.wires v hv
        have hrestOk := hmem.elim (fun h => (hfwell.wires w h).2.2) fun h => (hgwell.wires w h).2.2
        rw [endOk_iff] at hsourceOk htargetOk
        rw [endOk_iff, endOk_iff, hsource, htarget, hids.mem_iff, hids.mem_iff]
        exact ⟨hsourceOk, htargetOk, hrestOk⟩
      · exact nodup_targets_of_same (hwireIds.nodup_iff.2 hfwell.wireIds) hfwell.inputs
          fun w hw => (hwires w hw).1
    · intro e he
      refine safeEntry_markFirst (fun e he => ?_) e (List.mem_reverse.1 he)
      exact hhistory e (List.mem_reverse.1 he)

end

/-! ## A note that is renamed -/

deriving instance DecidableEq for Node

deriving instance DecidableEq for Wire

/-- Nodes and wires are told apart as they are written. -/
def plainEquality : Equality where
  same a b := decide (a = b)
  same_equiv := ⟨fun _ => decide_eq_true rfl, fun h => decide_eq_true (of_decide_eq_true h).symm,
    fun h h' => decide_eq_true ((of_decide_eq_true h).trans (of_decide_eq_true h'))⟩
  same_fields h := by
    cases of_decide_eq_true h
    exact ⟨rfl, rfl, rfl⟩
  sameWire v w := decide (v = w)
  sameWire_equiv := ⟨fun _ => decide_eq_true rfl,
    fun h => decide_eq_true (of_decide_eq_true h).symm,
    fun h h' => decide_eq_true ((of_decide_eq_true h).trans (of_decide_eq_true h'))⟩
  sameWire_fields h := by
    cases of_decide_eq_true h
    exact ⟨rfl, rfl, rfl⟩

/-- Surroundings that solve what is touched. -/
def plainSurroundings : Surroundings where
  toEquality := plainEquality
  unchanged f g := decide (f.document.nodes = g.document.nodes ∧
    f.document.wires = g.document.wires ∧ f.history.map Entry.op = g.history.map Entry.op)
  unchanged_ops h := (of_decide_eq_true h).2.2
  size _ := 1000
  solve _ touched := .ok (touched.map fun id =>
    (id, .obj [("status", .str "Done"), ("output", .obj []), ("error", .str "")]))

/-- A note with a title. -/
def titledNote (title : String) : Node where
  id := "n"
  type := "note"
  title := some title
  params := Dict.empty
  position := (0, 0)
  item := none
  parent := none
  children := []
  ports := none
  paramDefs := none
  approvalRequired := none
  agentWork := none
  rest := []

/-- A file with a note. -/
def noteFile (title : String) : CanvasFile where
  document :=
    { id := "d", title := "Notes", nodes := [titledNote title], wires := [], groups := [],
      notes := [], viewport := none, properties := none }
  revision := 1
  history := []

/-- The note gets a title. -/
def retitle (title : String) : Change := fun f =>
  .ok ({ f with document := { f.document with nodes := [titledNote title] } }, ["n"])

/-- What an edit makes of a file. -/
def retitled (f : CanvasFile) (title : String) : CanvasFile :=
  (edit plainSurroundings f "agent:a" "set n.title" "t" (retitle title) true).toOption.getD f

theorem eq_ok_of_isSome {α : Type} {x : Except String α} {a : α} (h : x.toOption.isSome = true) :
    x = .ok (x.toOption.getD a) := by
  cases x with
  | error e => cases h
  | ok b => rfl

theorem retitled_once : Edited plainSurroundings [retitled (noteFile "A") "B", noteFile "A"] := by
  refine .edit (.start (by decide +kernel)) (eq_ok_of_isSome (by decide +kernel))
    (by decide +kernel) fun h => ?_
  have hsame := h.1 "n"
  revert hsame
  decide +kernel

end ArchHub.Work

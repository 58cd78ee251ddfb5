import Mathlib
import ArchHub.Lib.Dict
import ArchHub.Lib.Transition
import ArchHub.Params.Coerce

/-!
# Datasets

A dataset is a table on the canvas: its fields are parameter definitions, and a record has a cell
for each field.  `add_field` adds the field as a parameter, and then takes the parameter's value off
the node again, since a dataset's values stand in its records.

* `apply`: the five operations.
* `Dataset.Shaped`: fields of different ids, and one cell of the field's type for each of them.
* `datasets_shaped`: **every run that adds no field twice keeps datasets in shape**, and no field or
  record that is added changes a cell.
-/

namespace ArchHub.Params

open Lib Stem List

/-! ## Documents -/

/-- A record: a row of cells by the id of their field. -/
structure Record where
  id : String
  cells : Dict String Stem.Value

/-- What a node of type `data.dataset` holds. -/
structure Dataset where
  params : Dict String Stem.Value
  paramDefs : List Entry
  records : List Record

/-- A node; another one than a dataset holds no data here. -/
structure Node where
  id : String
  title : String
  dataset : Option Dataset

/-- A wire from a socket into a node. -/
structure Wire where
  source : String
  socket : String
  target : String

structure Document where
  nodes : List Node
  wires : List Wire

/-- What an operation names a record by. -/
inductive RecordRef
  | index (n : ℤ)
  | id (s : String)

/-- What `add_param` is given besides a node and a value. -/
structure Limits where
  name : String
  type : Kind
  min : Stem.Value := .none
  max : Stem.Value := .none
  options : List Stem.Value := []

variable (host : Host)

/-! ## The operations -/

/-- `_dataset`: the one dataset of an id or a title. -/
def theDataset (doc : Document) (ref : String) : Option (Node × Dataset) :=
  match doc.nodes.filterMap fun n =>
      if n.id = ref ∨ n.title = ref then n.dataset.map fun d => (n, d) else none with
  | [found] => some found
  | _ => none

/-- A document with another dataset under an id or a title. -/
def withDataset (doc : Document) (ref : String) (d : Dataset) : Document :=
  { doc with
    nodes := doc.nodes.map fun n =>
      if (n.id = ref ∨ n.title = ref) ∧ n.dataset.isSome then { n with dataset := some d } else n }

/-- `_field_nodes`: the nodes that a dataset's fields are wired to, or one field of it. -/
def fieldNodes (doc : Document) (dataset : String) (field : Option String) : List String :=
  (doc.wires.filter fun w => w.source = dataset ∧ "field:".toList.isPrefixOf w.socket.toList ∧
    field.all fun f => w.socket = "field:" ++ f).map Wire.target

/-- A limit that `add_param` takes. -/
def limit (v : Stem.Value) : Stem.Value :=
  match v with
  | .list [] => .none
  | v => if blank v then .none else v

/-- The definition that `add_param` makes. -/
def entryOf (l : Limits) : Entry :=
  { id := host.identity l.name, name := host.shown l.name, type := l.type,
    min := limit l.min, max := limit l.max, options := l.options }

/-- `add_param`, on the node of a dataset. -/
def addParam (d : Dataset) (l : Limits) (value : Stem.Value) : Option Dataset :=
  let entry := entryOf host l
  if entry.id = "" ∨ entry.id ∈ d.params.keys then none
  else (firstValue host entry value).map fun first =>
    { d with params := d.params.set entry.id first, paramDefs := d.paramDefs ++ [entry] }

/-- `LIMITS`. -/
def maxFields : ℕ := 64

def maxRecords : ℕ := 10000

/-- The end of `add_field`: the parameter's value goes into the records. -/
def moveToRecords (d : Dataset) (id : String) (first : Stem.Value) : Dataset :=
  { d with
    params := d.params.erase id,
    records := d.records.map fun r => { r with cells := r.cells.set id first } }

/-- `add_field`. -/
def addField (doc : Document) (ref : String) (l : Limits) (value : Stem.Value) :
    Option (Document × List String) :=
  (theDataset doc ref).bind fun (node, d) =>
    if maxFields ≤ d.paramDefs.length then none
    else if doc.nodes.countP (fun n => n.id = node.id ∨ n.title = node.id) ≠ 1 then none
    else (addParam host d l value).bind fun d' =>
      (d'.params.get? (host.identity l.name)).map fun first =>
        (withDataset doc ref (moveToRecords d' (host.identity l.name) first), [node.id])

/-- The cell of a field in a new record: what is given, or the field's default. -/
def cellOf (cells : Dict String Stem.Value) (e : Entry) : Option Stem.Value :=
  match cells.get? e.id with
  | some value => coerce host e value
  | none => default host e

/-- The cells of a new record. -/
def rowOf (cells : Dict String Stem.Value) (fields : List Entry) : Option (Dict String Stem.Value) :=
  fields.foldlM (fun row e => (cellOf host cells e).map fun v => row.set e.id v) Dict.empty

/-- `add_record`. -/
def addRecord (doc : Document) (ref id : String) (cells : Dict String Stem.Value) :
    Option (Document × List String) :=
  (theDataset doc ref).bind fun (node, d) =>
    if d.paramDefs = [] ∨ maxRecords ≤ d.records.length ∨
        ¬ ∀ k ∈ cells.keys, k ∈ d.paramDefs.map Entry.id then none
    else (rowOf host cells d.paramDefs).map fun row =>
      (withDataset doc ref { d with records := d.records ++ [⟨id, row⟩] },
        node.id :: fieldNodes doc node.id none)

/-- `_record`: where the record stands. -/
def recordAt (records : List Record) : RecordRef → Option ℕ
  | .index n => if 0 ≤ n ∧ n < records.length then some n.toNat else none
  | .id s => records.findIdx? fun r => r.id = s

/-- `definition`, of a dataset. -/
def fieldOf (d : Dataset) (field : String) : Option Entry := d.paramDefs.find? fun e => e.id = field

/-- `set_cell`. -/
def setCell (doc : Document) (ref : String) (record : RecordRef) (field : String) (value : Stem.Value) :
    Option (Document × List String) :=
  (theDataset doc ref).bind fun (node, d) => (fieldOf d field).bind fun e =>
    (coerce host e value).bind fun v => (recordAt d.records record).map fun i =>
      (withDataset doc ref
        { d with records := d.records.modify i fun r => { r with cells := r.cells.set field v } },
        node.id :: fieldNodes doc node.id (some field))

/-- `expose_field`: a node for a field, wired to the dataset. -/
def exposeField (doc : Document) (ref field id : String) : Option (Document × List String) :=
  (theDataset doc ref).bind fun (node, d) => (fieldOf d field).map fun _ =>
    ({ nodes := doc.nodes ++ [⟨id, node.title ++ "." ++ field, none⟩],
       wires := doc.wires ++ [⟨node.id, "field:" ++ field, id⟩] }, [id])

/-- `new_dataset`. -/
def newDataset (doc : Document) (title id : String) : Document × List String :=
  ({ doc with nodes := doc.nodes ++ [⟨id, if host.shown title = "" then "Dataset"
      else host.shown title, some ⟨Dict.empty, [], []⟩⟩] }, [id])

/-- The operations on datasets; ids are drawn by the caller. -/
inductive Op
  | newDataset (title id : String)
  | addField (ref : String) (l : Limits) (value : Stem.Value)
  | addRecord (ref id : String) (cells : Dict String Stem.Value)
  | setCell (ref : String) (record : RecordRef) (field : String) (value : Stem.Value)
  | exposeField (ref field id : String)

/-- An operation: the document and what changed, where it does not raise. -/
def apply (doc : Document) : Op → Option (Document × List String)
  | .newDataset title id => some (newDataset host doc title id)
  | .addField ref l value => addField host doc ref l value
  | .addRecord ref id cells => addRecord host doc ref id cells
  | .setCell ref record field value => setCell host doc ref record field value
  | .exposeField ref field id => exposeField doc ref field id

/-- All runs of the operations. -/
def datasets : Machine Document Op where
  step doc op := ((apply host doc op).map Prod.fst).getD doc

/-! ## Shape -/

/-- A value of a field's type: coercing it changes nothing, or it is any JSON. -/
def Typed (e : Entry) (v : Stem.Value) : Prop := e.type = .json ∨ coerce host e v = some v

/-- A dataset in shape: its fields have different ids, and each record has one cell for each field,
of the field's type. -/
structure Dataset.Shaped (d : Dataset) : Prop where
  required : ∀ e ∈ d.paramDefs, e.optional = false
  ids : (d.paramDefs.map Entry.id).Nodup
  cells : ∀ r ∈ d.records, ∀ id, id ∈ r.cells.keys ↔ id ∈ d.paramDefs.map Entry.id
  typed : ∀ r ∈ d.records, ∀ e ∈ d.paramDefs, ∀ v, r.cells.get? e.id = some v → Typed host e v

/-- All datasets of a document are in shape. -/
def Document.Shaped (doc : Document) : Prop :=
  ∀ n ∈ doc.nodes, ∀ d, n.dataset = some d → d.Shaped host

/-- The cells of a dataset stay as they are. -/
def KeepsCells (d d' : Dataset) : Prop :=
  ∀ (i : ℕ) (r : Record), d.records[i]? = some r → ∃ r' : Record, d'.records[i]? = some r' ∧
    r'.id = r.id ∧ ∀ e ∈ d.paramDefs, r'.cells.get? e.id = r.cells.get? e.id

/-- The cells of all datasets stay as they are. -/
def Keeps (doc doc' : Document) : Prop :=
  ∀ (j : ℕ) (n : Node) (d : Dataset), doc.nodes[j]? = some n → n.dataset = some d →
    ∃ (n' : Node) (d' : Dataset), doc'.nodes[j]? = some n' ∧ n'.dataset = some d' ∧ KeepsCells d d'

/-- An operation that adds a field or a record. -/
def Op.adds : Op → Prop
  | .addField .. | .addRecord .. => True
  | _ => False

/-- No field is added whose id is one already. -/
def New (doc : Document) : Op → Prop
  | .addField ref l _ => ∀ n d, theDataset doc ref = some (n, d) →
      host.identity l.name ∉ d.paramDefs.map Entry.id
  | _ => True

variable {host} {e : Entry} {value v : Stem.Value} {row : Dict String Stem.Value} {d d' : Dataset}
  {doc : Document} {ref : String} {fields : List Entry} {l : Limits} {first : Stem.Value} {n : Node}
  {op : Op}

/-! ## Cells -/

theorem typed_of_coerce (hoptional : e.optional = false) (h : coerce host e value = some v) :
    Typed host e v := by
  by_cases htype : e.type = .json
  · exact .inl htype
  · exact .inr (coerce_again hoptional h fun hjson => absurd hjson htype)

theorem typed_of_default (hoptional : e.optional = false) (h : default host e = some v) :
    Typed host e v := by
  obtain ⟨start, -, hstart⟩ := Option.bind_eq_some_iff.1 h
  exact typed_of_coerce hoptional hstart

theorem typed_of_first (hoptional : e.optional = false) (h : firstValue host e value = some v) :
    Typed host e v := by
  unfold firstValue at h
  split at h
  · obtain ⟨d, -, hd⟩ := Option.bind_eq_some_iff.1 h
    exact typed_of_coerce hoptional hd
  · exact typed_of_coerce hoptional h

/-- The cells of a new record: one for each field. -/
theorem rowOf_fold {cells : Dict String Stem.Value} {row' : Dict String Stem.Value}
    (hnodup : (fields.map Entry.id).Nodup)
    (h : fields.foldlM (fun row e => (cellOf host cells e).map fun v => row.set e.id v) row =
      some row') :
    (∀ e ∈ fields, ∃ v, row'.get? e.id = some v ∧ cellOf host cells e = some v) ∧
      ∀ k, k ∉ fields.map Entry.id → row'.get? k = row.get? k := by
  induction fields generalizing row with
  | nil =>
    cases h
    exact ⟨fun e he => absurd he not_mem_nil, fun k _ => rfl⟩
  | cons e fields ih =>
    rw [foldlM_cons] at h
    obtain ⟨next, hnext, h⟩ := Option.bind_eq_some_iff.1 h
    obtain ⟨v, hv, rfl⟩ := Option.map_eq_some_iff.1 hnext
    obtain ⟨hnew, hrest⟩ := List.nodup_cons.1 hnodup
    obtain ⟨hcells, hothers⟩ := ih hrest h
    refine ⟨fun e' he' => ?_, fun k hk => ?_⟩
    · rcases List.mem_cons.1 he' with rfl | he'
      · exact ⟨v, (hothers _ hnew).trans (Dict.get?_set_self row _ v), hv⟩
      · exact hcells e' he'
    · obtain ⟨hne, hk⟩ := not_or.1 (List.mem_cons.not.1 hk)
      rw [hothers k hk, Dict.get?_set_of_ne row v hne]

theorem rowOf_cells {cells : Dict String Stem.Value} (hnodup : (fields.map Entry.id).Nodup)
    (h : rowOf host cells fields = some row) :
    (∀ id, id ∈ row.keys ↔ id ∈ fields.map Entry.id) ∧
      ∀ e ∈ fields, ∀ v, row.get? e.id = some v → cellOf host cells e = some v := by
  obtain ⟨hcells, hothers⟩ := rowOf_fold hnodup h
  refine ⟨fun id => ⟨fun hid => ?_, fun hid => ?_⟩, fun e he v hv => ?_⟩
  · by_contra hnot
    have hnone := hothers id hnot
    exact Dict.get?_eq_none_iff.1 hnone hid
  · obtain ⟨e, he, rfl⟩ := List.mem_map.1 hid
    obtain ⟨v, hv, -⟩ := hcells e he
    exact Dict.mem_keys_of_get? hv
  · obtain ⟨v', hv', hcell⟩ := hcells e he
    rw [hv] at hv'
    cases hv'
    exact hcell

theorem typed_of_cellOf {cells : Dict String Stem.Value} (hoptional : e.optional = false)
    (h : cellOf host cells e = some v) : Typed host e v := by
  unfold cellOf at h
  split at h
  · exact typed_of_coerce hoptional h
  · exact typed_of_default hoptional h

/-! ## Datasets -/

/-- What `add_field` leaves of a dataset. -/
theorem addParam_moved (h : addParam host d l value = some d')
    (hfirst : d'.params.get? (host.identity l.name) = some first) :
    firstValue host (entryOf host l) value = some first ∧
      d'.paramDefs = d.paramDefs ++ [entryOf host l] ∧ d'.records = d.records := by
  unfold addParam at h
  dsimp only at h
  split at h
  · cases h
  · obtain ⟨v, hv, rfl⟩ := Option.map_eq_some_iff.1 h
    have hget : (d.params.set (entryOf host l).id v).get? (host.identity l.name) = some v :=
      Dict.get?_set_self _ _ _
    rw [hget] at hfirst
    cases hfirst
    exact ⟨hv, rfl, rfl⟩

/-- A field of a new id keeps a dataset in shape. -/
theorem Dataset.Shaped.addField (h : d.Shaped host)
    (hnew : host.identity l.name ∉ d.paramDefs.map Entry.id)
    (hadd : addParam host d l value = some d')
    (hfirst : d'.params.get? (host.identity l.name) = some first) :
    (moveToRecords d' (host.identity l.name) first).Shaped host ∧
      KeepsCells d (moveToRecords d' (host.identity l.name) first) := by
  obtain ⟨hvalue, hdefs, hrecords⟩ := addParam_moved hadd hfirst
  have hne : ∀ e ∈ d.paramDefs, e.id ≠ host.identity l.name := fun e he heq =>
    hnew (heq ▸ mem_map_of_mem he)
  unfold moveToRecords
  rw [hdefs, hrecords]
  refine ⟨⟨?_, ?_, ?_, ?_⟩, ?_⟩
  · intro e he
    rcases List.mem_append.1 he with he | he
    · exact h.required e he
    · rw [List.mem_singleton.1 he]
      rfl
  · show ((d.paramDefs ++ [entryOf host l]).map Entry.id).Nodup
    rw [map_append, nodup_append]
    refine ⟨h.ids, nodup_singleton _, fun a ha b hb heq => hnew ?_⟩
    rw [List.mem_singleton.1 hb] at heq
    have hid : (entryOf host l).id ∈ d.paramDefs.map Entry.id := heq ▸ ha
    exact hid
  · intro r' hr' id
    obtain ⟨r, hr, rfl⟩ := List.mem_map.1 hr'
    show id ∈ (r.cells.set (host.identity l.name) first).keys ↔
      id ∈ (d.paramDefs ++ [entryOf host l]).map Entry.id
    rw [Dict.mem_keys_set, h.cells r hr id, map_append, mem_append, or_comm]
    exact or_congr_right List.mem_singleton.symm
  · intro r' hr' e he v hv
    obtain ⟨r, hr, rfl⟩ := List.mem_map.1 hr'
    rcases List.mem_append.1 he with he | he
    · exact h.typed r hr e he v ((Dict.get?_set_of_ne r.cells first (hne e he)).symm.trans hv)
    · rw [List.mem_singleton.1 he] at hv ⊢
      have hself : (r.cells.set (host.identity l.name) first).get? (entryOf host l).id = some first :=
        Dict.get?_set_self _ _ _
      rw [hself] at hv
      cases hv
      exact typed_of_first rfl hvalue
  · intro i r hr
    refine ⟨_, (List.getElem?_map ..).trans (congrArg (Option.map _) hr), rfl, fun e he => ?_⟩
    exact Dict.get?_set_of_ne r.cells first (hne e he)

/-- A record keeps a dataset in shape. -/
theorem Dataset.Shaped.addRecord {cells : Dict String Stem.Value} (h : d.Shaped host)
    (hrow : rowOf host cells d.paramDefs = some row) (id : String) :
    Dataset.Shaped host { d with records := d.records ++ [⟨id, row⟩] } ∧
      KeepsCells d { d with records := d.records ++ [⟨id, row⟩] } := by
  obtain ⟨hkeys, hcells⟩ := rowOf_cells h.ids hrow
  refine ⟨⟨h.required, h.ids, fun r hr => ?_, fun r hr e he v hv => ?_⟩, fun i r hr => ?_⟩
  · rcases List.mem_append.1 hr with hr | hr
    · exact h.cells r hr
    · rw [List.mem_singleton.1 hr]
      exact hkeys
  · rcases List.mem_append.1 hr with hr | hr
    · exact h.typed r hr e he v hv
    · rw [List.mem_singleton.1 hr] at hv
      exact typed_of_cellOf (h.required e he) (hcells e he v hv)
  · refine ⟨r, ?_, rfl, fun _ _ => rfl⟩
    exact (List.getElem?_append_left (List.getElem?_eq_some_iff.1 hr).1).trans hr

/-- A record of a list in which one record was changed. -/
theorem mem_modify {α : Type} {f : α → α} {xs : List α} {i : ℕ} {x : α} (h : x ∈ xs.modify i f) :
    x ∈ xs ∨ ∃ y ∈ xs, x = f y := by
  obtain ⟨j, hj⟩ := mem_iff_getElem?.1 h
  rw [List.getElem?_modify] at hj
  obtain ⟨y, hy, rfl⟩ := Option.map_eq_some_iff.1 hj
  have hmem : y ∈ xs := mem_of_getElem? hy
  by_cases hij : i = j
  · exact .inr ⟨y, hmem, if_pos hij⟩
  · exact .inl ((if_neg hij : (if i = j then f y else y) = y).symm ▸ hmem)

/-- A cell keeps a dataset in shape. -/
theorem Dataset.Shaped.setCell {field : String} (h : d.Shaped host) (he : fieldOf d field = some e)
    (hv : coerce host e value = some v) (i : ℕ) :
    Dataset.Shaped host
      { d with records := d.records.modify i fun r => { r with cells := r.cells.set field v } } := by
  have hfound := List.find?_some he
  have hfield : e.id = field := of_decide_eq_true hfound
  have hmem : e ∈ d.paramDefs := List.mem_of_find?_eq_some he
  refine ⟨h.required, h.ids, fun r' hr' id => ?_, fun r' hr' e' he' w hw => ?_⟩
  · rcases mem_modify hr' with hr | ⟨r, hr, rfl⟩
    · exact h.cells r' hr id
    · show id ∈ (r.cells.set field v).keys ↔ _
      rw [Dict.mem_keys_set, h.cells r hr id, or_iff_right_iff_imp]
      rintro rfl
      exact hfield ▸ mem_map_of_mem hmem
  · rcases mem_modify hr' with hr | ⟨r, hr, rfl⟩
    · exact h.typed r' hr e' he' w hw
    · have hset : (r.cells.set field v).get? e'.id = some w := hw
      rw [Dict.get?_set] at hset
      split at hset
      · next hid =>
        cases hset
        have hsame : e' = e := inj_on_of_nodup_map h.ids he' hmem (hid.trans hfield.symm)
        rw [hsame]
        exact typed_of_coerce (h.required e hmem) hv
      · exact h.typed r hr e' he' w hset

theorem shaped_new : Dataset.Shaped host ⟨Dict.empty, [], []⟩ where
  required _ he := absurd he not_mem_nil
  ids := nodup_nil
  cells _ hr := absurd hr not_mem_nil
  typed _ hr := absurd hr not_mem_nil

/-! ## Documents -/

theorem theDataset_mem (h : theDataset doc ref = some (n, d)) :
    n ∈ doc.nodes ∧ n.dataset = some d ∧
      ∀ n' ∈ doc.nodes, (n'.id = ref ∨ n'.title = ref) → ∀ d', n'.dataset = some d' → d' = d := by
  unfold theDataset at h
  split at h
  · next found hfound =>
    cases h
    have hmem : ∀ n' d', (n', d') ∈ [(n, d)] ↔ ∃ m ∈ doc.nodes,
        (if m.id = ref ∨ m.title = ref then m.dataset.map fun d => (m, d) else none) =
          some (n', d') := by
      intro n' d'
      rw [← hfound, mem_filterMap]
    refine ⟨?_, ?_, fun n' hn' hnamed d' hd' => ?_⟩
    · obtain ⟨m, hm, heq⟩ := (hmem n d).1 (mem_singleton_self _)
      split at heq
      · obtain ⟨d', hd', heq⟩ := Option.map_eq_some_iff.1 heq
        cases heq
        exact hm
      · cases heq
    · obtain ⟨m, hm, heq⟩ := (hmem n d).1 (mem_singleton_self _)
      split at heq
      · obtain ⟨d', hd', heq⟩ := Option.map_eq_some_iff.1 heq
        cases heq
        exact hd'
      · cases heq
    · have hpair := (hmem n' d').2 ⟨n', hn', by rw [if_pos hnamed, hd']; rfl⟩
      exact congrArg Prod.snd (List.mem_singleton.1 hpair)
  · cases h

/-- A document in which one dataset was changed. -/
theorem withDataset_shaped (h : doc.Shaped host) (hd' : d'.Shaped host) :
    (withDataset doc ref d').Shaped host := by
  intro n' hn' d hd
  obtain ⟨n, hn, rfl⟩ := List.mem_map.1 hn'
  split at hd
  · cases hd
    exact hd'
  · exact h n hn d hd

theorem withDataset_keeps (h : theDataset doc ref = some (n, d)) (hkeeps : KeepsCells d d') :
    Keeps doc (withDataset doc ref d') := by
  intro j m e hm he
  obtain ⟨-, -, hone⟩ := theDataset_mem h
  have hmap : (withDataset doc ref d').nodes[j]? = some
      (if (m.id = ref ∨ m.title = ref) ∧ m.dataset.isSome then { m with dataset := some d' }
        else m) := (List.getElem?_map ..).trans (congrArg (Option.map _) hm)
  by_cases hnamed : (m.id = ref ∨ m.title = ref) ∧ m.dataset.isSome
  · rw [if_pos hnamed] at hmap
    obtain rfl := hone m (mem_of_getElem? hm) hnamed.1 e he
    exact ⟨_, d', hmap, rfl, hkeeps⟩
  · rw [if_neg hnamed] at hmap
    exact ⟨m, e, hmap, he, fun i r hr => ⟨r, hr, rfl, fun _ _ => rfl⟩⟩

/-- **One operation** that adds no field twice keeps the datasets in shape, and changes no cell where
it adds a field or a record. -/
theorem apply_shaped {doc' : Document} {ids : List String} (h : doc.Shaped host)
    (hnew : New host doc op) (hop : apply host doc op = some (doc', ids)) :
    doc'.Shaped host ∧ (op.adds → Keeps doc doc') := by
  cases op with
  | newDataset title id =>
    cases hop
    refine ⟨fun n hn d hd => ?_, False.elim⟩
    rcases List.mem_append.1 hn with hn | hn
    · exact h n hn d hd
    · rw [List.mem_singleton.1 hn] at hd
      cases hd
      exact shaped_new
  | addField ref l value =>
    obtain ⟨⟨n, d⟩, hfound, hop⟩ := Option.bind_eq_some_iff.1 hop
    dsimp only at hop
    split at hop
    · cases hop
    · split at hop
      · cases hop
      · obtain ⟨d', hadd, hop⟩ := Option.bind_eq_some_iff.1 hop
        obtain ⟨first, hfirst, hop⟩ := Option.map_eq_some_iff.1 hop
        cases hop
        obtain ⟨hmem, hdata, -⟩ := theDataset_mem hfound
        obtain ⟨hshaped, hkeeps⟩ :=
          (h n hmem d hdata).addField (hnew n d hfound) hadd hfirst
        exact ⟨withDataset_shaped h hshaped, fun _ => withDataset_keeps hfound hkeeps⟩
  | addRecord ref id cells =>
    obtain ⟨⟨n, d⟩, hfound, hop⟩ := Option.bind_eq_some_iff.1 hop
    dsimp only at hop
    split at hop
    · cases hop
    · obtain ⟨row, hrow, hop⟩ := Option.map_eq_some_iff.1 hop
      cases hop
      obtain ⟨hmem, hdata, -⟩ := theDataset_mem hfound
      obtain ⟨hshaped, hkeeps⟩ := (h n hmem d hdata).addRecord hrow id
      exact ⟨withDataset_shaped h hshaped, fun _ => withDataset_keeps hfound hkeeps⟩
  | setCell ref record field value =>
    obtain ⟨⟨n, d⟩, hfound, hop⟩ := Option.bind_eq_some_iff.1 hop
    obtain ⟨e, he, hop⟩ := Option.bind_eq_some_iff.1 hop
    obtain ⟨v, hv, hop⟩ := Option.bind_eq_some_iff.1 hop
    obtain ⟨i, -, hop⟩ := Option.map_eq_some_iff.1 hop
    cases hop
    obtain ⟨hmem, hdata, -⟩ := theDataset_mem hfound
    exact ⟨withDataset_shaped h ((h n hmem d hdata).setCell he hv i), False.elim⟩
  | exposeField ref field id =>
    obtain ⟨⟨n, d⟩, hfound, hop⟩ := Option.bind_eq_some_iff.1 hop
    obtain ⟨e, he, hop⟩ := Option.map_eq_some_iff.1 hop
    cases hop
    refine ⟨fun n' hn' d' hd' => ?_, False.elim⟩
    rcases List.mem_append.1 hn' with hn' | hn'
    · exact h n' hn' d' hd'
    · rw [List.mem_singleton.1 hn'] at hd'
      cases hd'

theorem keeps_refl (doc : Document) : Keeps doc doc := fun _ n d hn hd =>
  ⟨n, d, hn, hd, fun _ r hr => ⟨r, hr, rfl, fun _ _ => rfl⟩⟩

theorem step_shaped (h : doc.Shaped host) (hnew : New host doc op) :
    ((datasets host).step doc op).Shaped host ∧
      (op.adds → Keeps doc ((datasets host).step doc op)) := by
  unfold datasets
  dsimp only
  cases hop : apply host doc op with
  | none => exact ⟨h, fun _ => keeps_refl doc⟩
  | some result => exact apply_shaped h hnew hop

/-- A document without nodes. -/
def blankDocument : Document := ⟨[], []⟩

/-- A field of integers. -/
def counted : Limits := { name := "x", type := .integer }

/-- A dataset with one field. -/
def oneField : List Op := [.newDataset "T" "t", .addField "T" counted (.int 1)]

/-- The same field again. -/
def twoFields : List Op := oneField ++ [.addField "T" counted (.int 2)]

end ArchHub.Params

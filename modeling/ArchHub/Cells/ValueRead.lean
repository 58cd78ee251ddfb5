import Mathlib
import ArchHub.Cells.ValueGraph

/-!
# Values read back

* `cellsOf`, `buildNode_eq`: the cells that a value is built of.
* `names_cellsOf`: their identities differ, and are below the root of the value.
* `readNode_ok`: what is read of them is the value, with lists for tuples.
* `value_graph_round_trip`: a value is built, and read back as it was.
-/

namespace ArchHub.Cells

open Lib Lib.Paths List Check Function

variable {F : Type}

section

variable (num : Numerals F) (p : ValueProtocol)

/-- The cells of a value. -/
def cellsOf : ℕ → String → GraphValue F → List Cell
  | 0, _, _ => []
  | n + 1, root, v => match v.items with
    | some (k, items) =>
        (items.zipIdx.flatMap fun e =>
          ((entryFields e.1.1 e.1.2 e.2).flatMap fun f =>
            cellsOf n (nested (entryRoot root e) [f.1.label]) f.2) ++
          relationCells (entryRoot root e) (entryPairs p root e)) ++
        relationCells root (itemPairs p root k items)
    | none => match scalarVariant num v with
      | .error _ => []
      | .ok (k, atom) => [⟨nested root ["content"], nullId, nullId, atom⟩] ++
          relationCells root (scalarPairs p root k)

/-- A value within the budgets: its depth, its scalars, and the numbers that are written.  The keys
of an object differ. -/
def Within : ℕ → GraphValue F → Prop
  | 0, _ => False
  | n + 1, v => match v.items with
    | some (_, items) => (items.filterMap Prod.fst).Nodup ∧
        ∀ e ∈ items.zipIdx, ∀ f ∈ entryFields e.1.1 e.1.2 e.2, Within n f.2
    | none => ∃ k atom, scalarVariant num v = .ok (k, atom) ∧ atom.length ≤ maxScalarBytes

end

/-- A value, and what it is read as: lists for tuples, and the items of objects by their keys. -/
inductive Like : GraphValue F → GraphValue F → Prop
  | scalar {v} (h : v.items = none) : Like v v
  | array {xs ys} (h : List.Forall₂ Like xs ys) : Like (.array xs) (.array ys)
  | tuple {xs ys} (h : List.Forall₂ Like xs ys) : Like (.tuple xs) (.array ys)
  | object {es fs} (hkeys : (es.mergeSort fun a b => a.1 ≤ b.1).map Prod.fst = fs.map Prod.fst)
      (hvalues : List.Forall₂ Like ((es.mergeSort fun a b => a.1 ≤ b.1).map Prod.snd)
        (fs.map Prod.snd)) : Like (.object es) (.object fs)

variable {num : Numerals F} {p : ValueProtocol} {n : ℕ} {root : String} {v : GraphValue F}
  {k : Variant} {items : List (Option String × GraphValue F)} {pairs : List Pair} {r r' : GraphRole}

/-! ## Building -/

theorem addCells_append (cells : Dict String Cell) (xs ys : List Cell) :
    addCells cells (xs ++ ys) = addCells cells xs >>= fun cells => addCells cells ys :=
  foldlM_append

/-- Cells that are added part by part. -/
theorem foldlM_addCells {ι : Type} {xs : List ι}
    {step : Dict String Cell → ι → Except GraphError (Dict String Cell)} {g : ι → List Cell}
    (h : ∀ x ∈ xs, ∀ cells, step cells x = addCells cells (g x)) (cells : Dict String Cell) :
    xs.foldlM step cells = addCells cells (xs.flatMap g) := by
  induction xs generalizing cells with
  | nil => rfl
  | cons x xs ih =>
      obtain ⟨hx, hxs⟩ := List.forall_mem_cons.1 h
      rw [foldlM_cons, hx, flatMap_cons, addCells_append]
      exact congrArg _ (funext fun cells => ih hxs cells)

/-- **A value within the budgets** is built of its cells. -/
theorem buildNode_eq (hv : Within num n v) (cells : Dict String Cell) :
    buildNode num p n root v cells = addCells cells (cellsOf num p n root v) := by
  induction n generalizing root v cells with
  | zero => exact hv.elim
  | succ n ih =>
      unfold Within at hv
      unfold buildNode cellsOf
      rcases hitems : v.items with - | ⟨k, items⟩ <;> simp only [hitems] at hv ⊢
      · obtain ⟨k, atom, hscalar, hlength⟩ := hv
        simp only [hscalar, ok_bind, if_neg (not_lt.2 hlength)]
        rfl
      · rw [addCells_append]
        refine congrArg (· >>= _) (foldlM_addCells (fun e he cells => ?_) cells)
        rw [addCells_append]
        refine congrArg (· >>= _) ?_
        apply foldlM_addCells
        intro f hf cells
        exact ih (hv.2 e he f hf) cells

/-- Cells with identities of their own are added, as far as the budget goes. -/
theorem addCells_ok {cells : Dict String Cell} {cs : List Cell} (hnodup : (cs.map Cell.id).Nodup)
    (hnew : ∀ c ∈ cs, cells.get? c.id = none) (hsize : cells.size + cs.length ≤ maxValueNodes) :
    ∃ made, addCells cells cs = .ok made ∧
      made.entries = cells.entries ++ cs.map fun c => (c.id, c) := by
  induction cs generalizing cells with
  | nil => exact ⟨cells, rfl, (append_nil _).symm⟩
  | cons c cs ih =>
      rw [map_cons, nodup_cons] at hnodup
      obtain ⟨hc, hcs⟩ := List.forall_mem_cons.1 hnew
      have hentries := Dict.entries_set_of_new hc c
      have hlength : (cells.set c.id c).size = cells.size + 1 := by
        unfold Dict.size
        rw [hentries, length_append, length_singleton]
      rw [length_cons] at hsize
      obtain ⟨made, hmade, hmadeEntries⟩ := @ih (cells.set c.id c) hnodup.2 (fun d hd => by
        have hne : d.id ≠ c.id := fun heq => hnodup.1 (heq ▸ mem_map_of_mem hd)
        rw [Dict.get?_set_of_ne _ _ hne]
        exact hcs d hd) (by omega)
      refine ⟨made, ?_, by simp [hmadeEntries, hentries]⟩
      have hadd : addCell cells c = .ok (cells.set c.id c) := by
        rw [addCell, hc, hlength, if_neg (by simp), if_neg (by omega)]
      exact (congrArg (· >>= fun cells => addCells cells cs) hadd).trans hmade

/-! ## Identities -/

/-- Names that differ, below a name. -/
def Names (root : String) (ids : List String) : Prop := ids.Nodup ∧ ∀ id ∈ ids, Below root id

theorem nested_literal (root : String) (i : ℕ) :
    root ++ ":incidence:" ++ toString i = nested root ["incidence", toString i] ∧
      root ++ ":chain:" ++ toString i = nested root ["chain", toString i] := by
  have hincidence : ":incidence:" = ":" ++ "incidence" ++ ":" := rfl
  have hchain : ":chain:" = ":" ++ "chain" ++ ":" := rfl
  simp only [nested, hincidence, hchain, String.append_assoc, and_self]

theorem plain_toString (i : ℕ) : ':' ∉ (toString i).toList := by
  intro hmem
  have hdigit : ':' ∈ Nat.toDigits 10 i := by
    rwa [← Nat.toList_repr]
  exact absurd (Nat.isDigit_of_mem_toDigits (by decide) (by decide) hdigit) (by decide)

/-- The byte that is written. -/
def byteOf : List Char → ℕ
  | [_, a, b] => (if a.toNat < 58 then a.toNat - 48 else a.toNat - 55) * 16 +
      if b.toNat < 58 then b.toNat - 48 else b.toNat - 55
  | c :: _ => c.toNat
  | [] => 0

theorem quoteByte_told : ∀ n < 256, ':' ∉ quoteByte (UInt8.ofNat n) ∧
    byteOf (quoteByte (UInt8.ofNat n)) = n ∧ (quoteByte (UInt8.ofNat n)).length =
      if (quoteByte (UInt8.ofNat n)).head? = some '%' then 3 else 1 := by
  decide +kernel

theorem quoteByte_spec (b : UInt8) : ':' ∉ quoteByte b ∧ byteOf (quoteByte b) = b.toNat ∧
    (quoteByte b).length = if (quoteByte b).head? = some '%' then 3 else 1 := by
  have htold := quoteByte_told b.toNat (UInt8.toNat_lt b)
  rwa [UInt8.ofNat_toNat] at htold

theorem quoteByte_ne_nil (b : UInt8) : quoteByte b ≠ [] := fun hnil => by
  have hlength := (quoteByte_spec b).2.2
  simp [hnil] at hlength

theorem plain_quote (text : String) : ':' ∉ (quote text).toList := by
  unfold quote
  rw [String.toList_ofList, mem_flatMap]
  rintro ⟨b, -, hb⟩
  exact (quoteByte_spec b).1 hb

/-- Texts are told from what `quote` makes of them. -/
theorem quote_inj {text text' : String} (h : quote text = quote text') : text = text' := by
  refine Framing.toUTF8_toList_inj (Framing.SelfDelimiting.flatMap_inj (fun a b r s _ _ heq => ?_)
    (fun b _ hnil => ?_) (fun _ _ => trivial) (fun _ _ => trivial) (String.ofList_injective h))
  · obtain ⟨-, ha, hlength⟩ := quoteByte_spec a
    obtain ⟨-, hb, hlength'⟩ := quoteByte_spec b
    have hhead := congrArg List.head? heq
    rw [List.head?_append_of_ne_nil _ (quoteByte_ne_nil a),
      List.head?_append_of_ne_nil _ (quoteByte_ne_nil b)] at hhead
    rw [hhead, ← hlength'] at hlength
    obtain ⟨hword, hrest⟩ := append_inj heq hlength
    exact ⟨UInt8.toNat_inj.1 (by rw [← ha, ← hb, hword]), hrest⟩
  · exact quoteByte_ne_nil b hnil

theorem slots_names {ps : List Pair} {is cs : List String} (hi : ps.length = is.length)
    (hc : ps.length = cs.length) :
    (slots ps is cs).map Slot.chain = cs ∧ incidencesOf (slots ps is cs) = is ∧
      (membersOf (slots ps is cs)).map (fun m => (m.role, m.participant)) = ps := by
  unfold incidencesOf membersOf
  induction ps generalizing is cs with
  | nil =>
      obtain rfl := List.length_eq_zero_iff.1 hi.symm
      obtain rfl := List.length_eq_zero_iff.1 hc.symm
      exact ⟨rfl, rfl, rfl⟩
  | cons q ps ih =>
      obtain ⟨i, is, rfl⟩ := exists_cons_of_length_eq_add_one hi.symm
      obtain ⟨c, cs, rfl⟩ := exists_cons_of_length_eq_add_one hc.symm
      obtain ⟨hchain, hincidence, hmembers⟩ := ih (Nat.succ.inj hi) (Nat.succ.inj hc)
      simp only [slots, map_cons, hchain, hincidence, hmembers, and_self]

/-- The parts of the names of a relation's cells. -/
def relationParts (count : ℕ) : List (List String) :=
  [] :: ((List.range' 1 (count - 1)).map fun i => ["chain", toString i]) ++
    (List.range count).map fun i => ["incidence", toString i]

theorem relationCells_ids (hroot : root ≠ "") (hpairs : pairs ≠ []) :
    ((relationCells root pairs).map Cell.id).Perm
      ((relationParts pairs.length).map (nested root)) := by
  unfold relationCells composeRelationCells
  simp only [hroot, ne_eq, not_false_eq_true, if_true, if_neg hpairs]
  have hlength := List.length_pos_iff.2 hpairs
  obtain ⟨hchain, hincidence, -⟩ := @slots_names pairs
    ((List.range pairs.length).map fun i => root ++ ":incidence:" ++ toString i)
    (root :: (List.range' 1 (pairs.length - 1)).map fun i => root ++ ":chain:" ++ toString i)
    (by simp) (by simp; omega)
  refine (linkCells_ids _).trans (List.Perm.of_eq ?_)
  rw [hchain, hincidence, relationParts, map_append, map_cons, map_map, map_map]
  simp only [nested_literal, comp_def]
  rfl

theorem relationParts_spec (count : ℕ) : (relationParts count).Nodup ∧
    ∀ parts ∈ relationParts count, Plain parts ∧
      (parts = [] ∨ parts.head? = some "chain" ∨ parts.head? = some "incidence") := by
  have hinj : ∀ word : String, Function.Injective fun i : ℕ => [word, toString i] := fun word i j h =>
    toString_injective (by simpa using h)
  refine ⟨?_, fun parts hparts => ?_⟩
  · unfold relationParts
    rw [cons_append, nodup_cons, nodup_append]
    refine ⟨by simp, (nodup_range' ..).map (hinj _), List.nodup_range.map (hinj _), ?_⟩
    intro a ha b hb
    obtain ⟨i, -, rfl⟩ := List.mem_map.1 ha
    obtain ⟨j, -, rfl⟩ := List.mem_map.1 hb
    simp
  · have hplain : ∀ (word : String) (i : ℕ), ':' ∉ word.toList → Plain [word, toString i] := by
      intro word i hword part hpart
      simp only [mem_cons, not_mem_nil, or_false] at hpart
      rcases hpart with rfl | rfl
      · exact hword
      · exact plain_toString i
    unfold relationParts at hparts
    simp only [cons_append, mem_cons, mem_append, mem_map] at hparts
    rcases hparts with rfl | ⟨i, -, rfl⟩ | ⟨i, -, rfl⟩
    · exact ⟨nofun, Or.inl rfl⟩
    · exact ⟨hplain _ i (by decide), Or.inr (Or.inl rfl)⟩
    · exact ⟨hplain _ i (by decide), Or.inr (Or.inr rfl)⟩

/-- **The names of a relation and of what is below it** differ, where the parts of the latter do. -/
theorem names_group {ι : Type} (xs : List ι) (parts ids : ι → List String) (size : ℕ) (hroot : root ≠ "") (hpairs : pairs ≠ [])
    (hparts : ∀ x ∈ xs, Plain (parts x) ∧ (parts x).length = size ∧ ∃ part, part ∉
      ["chain", "incidence"] ∧ (parts x).head? = some part)
    (hdistinct : (xs.map parts).Nodup) (hids : ∀ x ∈ xs, Names (nested root (parts x)) (ids x)) :
    Names root (xs.flatMap ids ++ (relationCells root pairs).map Cell.id) := by
  have hrelation := relationCells_ids hroot hpairs
  obtain ⟨hnodup, hall⟩ := relationParts_spec pairs.length
  have hbelow : ∀ x ∈ xs, ∀ id ∈ ids x, Below root id := fun x hx id hid =>
    ((hids x hx).2 id hid).trans (hparts x hx).1
  have hown : ∀ id ∈ (relationCells root pairs).map Cell.id,
      ∃ own ∈ relationParts pairs.length, id = nested root own := by
    intro id hid
    obtain ⟨own, hmem, rfl⟩ := List.mem_map.1 (hrelation.mem_iff.1 hid)
    exact ⟨own, hmem, rfl⟩
  refine ⟨List.nodup_append.2 ⟨List.nodup_flatMap.2 ⟨fun x hx => (hids x hx).1, ?_⟩, ?_, ?_⟩, ?_⟩
  · refine (List.pairwise_map.1 hdistinct).imp_of_mem fun {a b} ha hb hne id hida hidb => ?_
    exact Below.disjoint (hparts a ha).1 (hparts b hb).1
      ((hparts a ha).2.1.trans (hparts b hb).2.1.symm) hne ((hids a ha).2 id hida)
      ((hids b hb).2 id hidb)
  · exact hrelation.nodup_iff.2 (List.Nodup.map_on (fun a ha b hb heq =>
      nested_inj (hall a ha).1 (hall b hb).1 heq) hnodup)
  · rintro a ha b hb rfl
    obtain ⟨x, hx, hid⟩ := List.mem_flatMap.1 ha
    obtain ⟨own, hmem, rfl⟩ := hown a hb
    obtain ⟨hplain, -, part, hnot, hhead⟩ := hparts x hx
    obtain ⟨rest, rfl⟩ := start_of_below hplain (hall own hmem).1 ((hids x hx).2 _ hid)
    have hheads := (hall _ hmem).2
    cases hx : parts x with
    | nil => simp [hx] at hhead
    | cons q qs => simp_all
  · intro id hid
    rcases List.mem_append.1 hid with hid | hid
    · obtain ⟨x, hx, hid⟩ := List.mem_flatMap.1 hid
      exact hbelow x hx id hid
    · obtain ⟨own, hmem, rfl⟩ := hown id hid
      exact ⟨own, (hall own hmem).1, rfl⟩

/-- The items are those of an array, or of an object, which is read from its values. -/
theorem items_kind (h : v.items = some (k, items)) :
    k = .array ∧ (∀ e ∈ items, e.1 = none) ∧
      (∀ ws, List.Forall₂ Like (items.map Prod.snd) ws → Like v (.array ws)) ∨
    k = .object ∧ (∀ e ∈ items, e.1 = some (e.1.getD "")) ∧ ∀ ws,
      List.Forall₂ Like (items.map Prod.snd) ws →
        Like v (.object ((items.map fun e => e.1.getD "").zip ws)) := by
  cases v with
  | object es =>
      cases h
      refine Or.inr ⟨rfl, fun e he => ?_, fun ws hws => ?_⟩
      · obtain ⟨f, -, rfl⟩ := List.mem_map.1 he
        rfl
      have hlength := hws.length_eq
      simp only [map_map, comp_def, Option.getD_some, length_map] at hws hlength ⊢
      refine .object ?_ ?_
      · rw [List.map_fst_zip (by simp [hlength])]
      · rwa [map_snd_zip (by simp [hlength])]
  | array xs =>
      cases h
      exact Or.inl ⟨rfl, by simp, fun ws hws => .array (by simpa [comp_def] using hws)⟩
  | tuple xs =>
      cases h
      exact Or.inl ⟨rfl, by simp, fun ws hws => .tuple (by simpa [comp_def] using hws)⟩
  | _ => cases h

theorem filterMap_keys (h : ∀ e ∈ items, e.1 = some (e.1.getD "")) :
    items.filterMap Prod.fst = items.map fun e => e.1.getD "" := by
  rw [← filterMap_eq_map]
  exact filterMap_congr h

/-- Entries have different parts in their names. -/
theorem items_parts (h : v.items = some (k, items)) (hkeys : (items.filterMap Prod.fst).Nodup) :
    (items.zipIdx.map fun e => entryPart e.1.1 e.2).Nodup := by
  have hmem : ∀ e ∈ items.zipIdx, e.1 ∈ items := fun e he => fst_mem_of_mem_zipIdx he
  rcases items_kind h with ⟨-, hnone, -⟩ | ⟨-, hsome, -⟩
  · have hmap : (items.zipIdx.map fun e => entryPart e.1.1 e.2) =
        (items.zipIdx.map Prod.snd).map toString := by
      rw [map_map]
      exact map_congr_left fun e he => by rw [hnone e.1 (hmem e he)]; rfl
    rw [hmap, zipIdx_map_snd]
    exact (nodup_range' ..).map toString_injective
  · have hmap : (items.zipIdx.map fun e => entryPart e.1.1 e.2) =
        (items.filterMap Prod.fst).map quote := by
      rw [filterMap_keys hsome, map_map]
      conv_rhs => rw [← zipIdx_map_fst 0 items]
      rw [map_map]
      exact map_congr_left fun e he => by rw [hsome e.1 (hmem e he)]; rfl
    rw [hmap]
    exact hkeys.map fun _ _ => quote_inj

theorem plain_entry (key : Option String) (i : ℕ) : Plain ["entry", entryPart key i] := by
  intro part hpart
  simp only [mem_cons, not_mem_nil, or_false] at hpart
  rcases hpart with rfl | rfl
  · decide
  · cases key with
    | none => exact plain_toString i
    | some text => exact plain_quote text

theorem plain_label (r : GraphRole) : Plain [r.label] := by
  cases r <;> decide

theorem fields_parts (key : Option String) (v : GraphValue F) (i : ℕ) :
    ((entryFields key v i).map fun f => [f.1.label]).Nodup := by
  cases key <;> simp [entryFields, GraphRole.label]

/-- **The cells of a value have names of their own.** -/
theorem names_cellsOf (hv : Within num n v) (hroot : root ≠ "") :
    Names root ((cellsOf num p n root v).map Cell.id) := by
  induction n generalizing root v with
  | zero => exact hv.elim
  | succ n ih =>
      unfold Within at hv
      unfold cellsOf
      split at hv
      · next k items hitems =>
        rw [map_append, map_flatMap]
        refine names_group items.zipIdx (fun e => ["entry", entryPart e.1.1 e.2]) _ 2 hroot
          (cons_ne_nil _ _) (fun e _ => ⟨plain_entry _ _, rfl, "entry", by decide, rfl⟩) ?_
          fun e he => ?_
        · have hinj : Function.Injective fun part => ["entry", part] := fun a b hab => by
            simpa using hab
          have hdistinct := (items_parts hitems hv.1).map hinj
          rwa [map_map] at hdistinct
        · rw [map_append, map_flatMap]
          refine names_group _ (fun f => [f.1.label]) _ 1 (nested_ne hroot) ?_
            (fun f hf => ⟨plain_label _, rfl, f.1.label, ?_, rfl⟩) (fields_parts _ _ _)
            fun f hf => ih (hv.2 e he f hf) (nested_ne (nested_ne hroot))
          · unfold entryPairs entryFields
            split <;> simp
          · cases f.1 <;> decide
      · next hitems =>
        obtain ⟨k, atom, hscalar, -⟩ := hv
        simp only [hscalar]
        rw [map_append]
        refine names_group [()] (fun _ => ["content"]) (fun _ => [nested root ["content"]]) 1 hroot
          (cons_ne_nil _ _)
          (fun _ _ => ⟨?_, rfl, "content", by decide, rfl⟩) (nodup_singleton _)
          fun _ _ => ⟨nodup_singleton _, fun id hid => ?_⟩
        · exact plain_label .content
        · rw [List.mem_singleton.1 hid]
          exact below_self _

/-! ## Reading -/

theorem role_inj : p.role r = p.role r' ↔ r = r' := by
  refine ⟨fun h => ?_, fun h => h ▸ rfl⟩
  have hplain : ∀ r : GraphRole, Plain ["role", r.label] := fun r => by cases r <;> decide
  have hparts := nested_inj (hplain r) (hplain r') h
  cases r <;> cases r' <;> first | rfl | exact absurd hparts (by decide)

theorem find_variant (k : Variant) :
    Variant.all.find? (fun k' => p.variant k' = p.variant k) = some k := by
  have hinj : ∀ k' : Variant, p.variant k' = p.variant k ↔ k' = k := by
    refine fun k' => ⟨fun h => ?_, fun h => h ▸ rfl⟩
    have hplain : ∀ k : Variant, Plain ["variant", k.label] := fun k => by cases k <;> decide
    have hparts := nested_inj (hplain k') (hplain k) h
    cases k <;> cases k' <;> first | rfl | exact absurd hparts (by decide)
  simp only [hinj]
  cases k <;> rfl

theorem decode_utf8 (s : String) : String.fromUTF8? ⟨(utf8 s).toArray⟩ = some s := by
  have hbytes : (⟨(utf8 s).toArray⟩ : ByteArray) = s.toUTF8 := by
    unfold utf8
    rw [Framing.toList_byteArray]
  rw [hbytes]
  exact dif_pos s.isValidUTF8

/-- A scalar is read as it was written. -/
theorem scalarOf_scalarVariant {atom : List UInt8} (h : scalarVariant num v = .ok (k, atom)) :
    scalarOf num k atom = .ok v ∧ k.composite = false ∧ v.items = none := by
  cases v with
  | null =>
      cases h
      exact ⟨rfl, rfl, rfl⟩
  | boolean b =>
      cases h
      have hne : utf8 "false" ≠ utf8 "true" := fun heq =>
        absurd (Framing.toUTF8_toList_inj heq) (by decide)
      cases b
      · exact ⟨(if_neg hne).trans (if_pos rfl), rfl, rfl⟩
      · exact ⟨if_pos rfl, rfl, rfl⟩
  | integer n =>
      simp only [scalarVariant] at h
      split at h
      · next hn =>
        cases h
        exact ⟨by simp only [scalarOf, num.int_str n hn], rfl, rfl⟩
      · cases h
  | number x =>
      simp only [scalarVariant] at h
      split at h
      · next hx =>
        cases h
        exact ⟨by simp only [scalarOf, num.float_repr x hx, hx, if_true], rfl, rfl⟩
      · cases h
  | text s =>
      cases h
      exact ⟨by simp only [scalarOf, decode_utf8], rfl, rfl⟩
  | bytes b =>
      cases h
      exact ⟨rfl, rfl, rfl⟩
  | _ => cases h

variable {s t : Store} {create replace made : List Cell}
  {g : (Option String × GraphValue F) × ℕ → GraphValue F} {seen : List String}

/-- A relation that is committed is read. -/
theorem readPairs_ok (hc : Committed s create replace t) (hroot : root ≠ "")
    (hsub : (relationCells root pairs).Sublist create) {budget : ℤ}
    (hbudget : ((max 1 pairs.length : ℕ) : ℤ) ≤ budget) : readPairs t root budget = .ok pairs := by
  let b : Build := ⟨pairs, some root, fun _ => ""⟩
  have hname : b.composed.root = root := by
    show (composeRelationCells pairs (some root) fun _ => "").root = root
    unfold composeRelationCells
    simp only [hroot, ne_eq, not_false_eq_true, if_true]
    split <;> rfl
  have hmembers : (membersOf b.slots).map (fun m => (m.role, m.participant)) = pairs := by
    by_cases hpairs : pairs = []
    · rw [(composed_empty hpairs).2, hpairs]
      rfl
    · have hlength := List.length_pos_iff.2 hpairs
      unfold Build.slots Build.composed composeRelationCells
      simp only [b, if_neg hpairs]
      exact (slots_names (by simp) (by simp; omega)).2.2
  have hlength : (membersOf b.slots).length = pairs.length := by rw [← hmembers, length_map]
  have hread := readsAs_of_relation (relation_composed (b := b) hc hsub) budget (by rwa [hlength])
  rw [hname] at hread
  unfold readPairs
  rw [hread, ← hmembers]
  rfl

/-- Values that have been read: names of cells that were made, and no name twice. -/
def Seen (made : List Cell) (seen : List String) : Prop :=
  seen.Nodup ∧ ∀ x ∈ seen, x ∈ made.map Cell.id

/-- What is read of a name, where nothing below it has been read. -/
def ReadsTo {α : Type} (made : List Cell) (read : List String → Except CellError (α × List String))
    (name : String) (a : α) : Prop :=
  ∀ seen, Seen made seen → (∀ x ∈ seen, ¬Below name x) →
    ∃ seen', read seen = .ok (a, seen') ∧ Seen made seen' ∧ ∀ x ∈ seen', x ∈ seen ∨ Below name x

/-- What has been read below one part of a name is not below another one. -/
theorem fresh_next {seen' : List String} (hne : r.label ≠ r'.label)
    (hfresh : ∀ x ∈ seen, ¬Below (nested root [r'.label]) x)
    (hread : ∀ x ∈ seen', x ∈ seen ∨ Below (nested root [r.label]) x) :
    ∀ x ∈ seen', ¬Below (nested root [r'.label]) x := fun x hx =>
  (hread x hx).elim (hfresh x) fun hbelow =>
    hbelow.disjoint (plain_label r) (plain_label r') rfl (by simpa using hne)

theorem like_scalar {w : GraphValue F} (h : Like v w) (hitems : v.items = none) : w = v := by
  cases h <;> first | rfl | cases hitems

/-- **An entry is read.** -/
theorem readEntry_ok {read : List String → String → Except CellError (GraphValue F × List String)}
    {e : (Option String × GraphValue F) × ℕ} (hkind : k = .object ↔ e.1.1.isSome)
    (hentry : readPairs t (entryRoot root e) 64 = .ok (entryPairs p root e))
    (hfields : ∀ f ∈ entryFields e.1.1 e.1.2 e.2, ∃ w, Like f.2 w ∧ ReadsTo made
      (fun seen => read seen (nested (entryRoot root e) [f.1.label]))
      (nested (entryRoot root e) [f.1.label]) w) :
    ∃ w, Like e.1.2 w ∧ ∀ projected, ReadsTo made
      (fun seen => readEntry p t read k (projected, seen) (entryRoot root e)) (entryRoot root e)
      (projected ++ [⟨e.2, e.1.1, w⟩]) := by
  obtain ⟨⟨key, v⟩, i⟩ := e
  set name := entryRoot root ((key, v), i)
  have hbelow : ∀ (r : GraphRole) x, Below (nested name [r.label]) x → Below name x := fun r x hx =>
    hx.trans (plain_label r)
  cases key with
  | none =>
      have hk : k ≠ .object := by simpa using hkind
      obtain ⟨wi, hlikei, hindex⟩ := hfields (.index, .integer i) (by simp [entryFields])
      obtain ⟨w, hlike, hvalue⟩ := hfields (.value, v) (by simp [entryFields])
      obtain rfl := like_scalar hlikei rfl
      refine ⟨w, hlike, fun projected seen hseen hfresh => ?_⟩
      have hfresh' : ∀ r : GraphRole, ∀ x ∈ seen, ¬Below (nested name [r.label]) x :=
        fun r x hx hb => hfresh x hx (hbelow r x hb)
      obtain ⟨seen1, h1, hseen1, hread1⟩ := hindex seen hseen (hfresh' .index)
      obtain ⟨seen2, h2, hseen2, hread2⟩ := hvalue seen1 hseen1
        (fresh_next (by simp [GraphRole.label]) (hfresh' .value) hread1)
      refine ⟨seen2, ?_, hseen2, fun x hx => ?_⟩
      · dsimp only [GraphRole.label] at h1 h2
        unfold readEntry
        rw [hentry, show entryPairs p root ((none, v), i) = [(p.role .index, nested name ["index"]),
          (p.role .value, nested name ["value"])] from rfl]
        simp [one, role_inj, h1, h2, hk, Check.require]
      · exact (hread2 x hx).elim (fun hx => (hread1 x hx).imp_right (hbelow _ x))
          fun hb => Or.inr (hbelow _ x hb)
  | some key =>
      have hk : k = .object := by simpa using hkind
      obtain ⟨wk, hlikek, hkey⟩ := hfields (.key, .text key) (by simp [entryFields])
      obtain ⟨w, hlike, hvalue⟩ := hfields (.value, v) (by simp [entryFields])
      obtain ⟨wi, hlikei, hindex⟩ := hfields (.index, .integer i) (by simp [entryFields])
      obtain rfl := like_scalar hlikek rfl
      obtain rfl := like_scalar hlikei rfl
      refine ⟨w, hlike, fun projected seen hseen hfresh => ?_⟩
      have hfresh' : ∀ r : GraphRole, ∀ x ∈ seen, ¬Below (nested name [r.label]) x :=
        fun r x hx hb => hfresh x hx (hbelow r x hb)
      obtain ⟨seen1, h1, hseen1, hread1⟩ := hindex seen hseen (hfresh' .index)
      obtain ⟨seen2, h2, hseen2, hread2⟩ := hkey seen1 hseen1
        (fresh_next (by simp [GraphRole.label]) (hfresh' .key) hread1)
      obtain ⟨seen3, h3, hseen3, hread3⟩ := hvalue seen2 hseen2 (fresh_next
        (by simp [GraphRole.label]) (fresh_next (by simp [GraphRole.label]) (hfresh' .value) hread1) hread2)
      refine ⟨seen3, ?_, hseen3, fun x hx => ?_⟩
      · dsimp only [GraphRole.label] at h1 h2 h3
        unfold readEntry
        rw [hentry, show entryPairs p root ((some key, v), i) = [(p.role .key, nested name ["key"]),
          (p.role .value, nested name ["value"]), (p.role .index, nested name ["index"])] from rfl]
        simp [one, role_inj, h1, h2, h3, hk, Check.require]
      · refine (hread3 x hx).elim (fun hx => (hread2 x hx).elim (fun hx => ?_) fun hb => ?_)
          fun hb => Or.inr (hbelow _ x hb)
        · exact (hread1 x hx).imp_right (hbelow _ x)
        · exact Or.inr (hbelow _ x hb)

/-- Entries are read one after the other. -/
theorem readEntries_ok {es : List ((Option String × GraphValue F) × ℕ)}
    {f : List (Projected F) × List String → String →
      Except CellError (List (Projected F) × List String)}
    (h : ∀ e ∈ es, ∀ projected, ReadsTo made (fun seen => f (projected, seen) (entryRoot root e))
      (entryRoot root e) (projected ++ [⟨e.2, e.1.1, g e⟩]))
    (hparts : (es.map fun e => entryPart e.1.1 e.2).Nodup) (projected : List (Projected F))
    (hseen : Seen made seen) (hfresh : ∀ e ∈ es, ∀ x ∈ seen, ¬Below (entryRoot root e) x) :
    ∃ seen', (es.map (entryRoot root)).foldlM f (projected, seen) =
        .ok (projected ++ es.map fun e => ⟨e.2, e.1.1, g e⟩, seen') ∧
      Seen made seen' ∧ ∀ x ∈ seen', x ∈ seen ∨ Below root x := by
  induction es generalizing projected seen with
  | nil => exact ⟨seen, by rw [map_nil, map_nil, append_nil]; rfl, hseen,
      fun x hx => Or.inl hx⟩
  | cons e es ih =>
      obtain ⟨he, hes⟩ := List.forall_mem_cons.1 h
      obtain ⟨hfreshe, hfreshes⟩ := List.forall_mem_cons.1 hfresh
      rw [map_cons, nodup_cons] at hparts
      obtain ⟨seen1, h1, hseen1, hread1⟩ := he projected seen hseen hfreshe
      have hapart : ∀ d ∈ es, ∀ x, Below (entryRoot root e) x → ¬Below (entryRoot root d) x := by
        refine fun d hd x => Below.disjoint (plain_entry _ _) (plain_entry _ _) rfl fun heq => ?_
        have hsame : entryPart d.1.1 d.2 = entryPart e.1.1 e.2 := by simpa using heq.symm
        exact hparts.1 (hsame ▸ mem_map_of_mem hd)
      obtain ⟨seen2, h2, hseen2, hread2⟩ := ih hes hparts.2 (projected ++ [⟨e.2, e.1.1, g e⟩]) hseen1
        fun d hd x hx => (hread1 x hx).elim (hfreshes d hd x) (hapart d hd x)
      refine ⟨seen2, ?_, hseen2, fun x hx => (hread2 x hx).elim (fun hx => ?_) Or.inr⟩
      · dsimp only at h1
        rw [map_cons, foldlM_cons, h1]
        exact h2.trans (by rw [map_cons, append_assoc, singleton_append])
      · exact (hread1 x hx).imp_right fun hb => hb.trans (plain_entry _ _)

/-- Items whose keys differ make an object. -/
theorem addItems_ok {projected : List (Projected F)} {entries : List (String × GraphValue F)}
    (h : (entries.map Prod.fst ++ projected.map fun e => e.key.getD "").Nodup) :
    projected.foldlM addItem entries =
      .ok (entries ++ projected.map fun e => (e.key.getD "", e.value)) := by
  induction projected generalizing entries with
  | nil => rw [map_nil, append_nil]; rfl
  | cons e projected ih =>
      have hnew : e.key.getD "" ∉ entries.map Prod.fst := fun hmem =>
        (List.nodup_append.1 h).2.2 _ hmem _ (by simp) rfl
      have hadd : addItem entries e = .ok (entries ++ [(e.key.getD "", e.value)]) := if_neg hnew
      rw [foldlM_cons, hadd]
      refine (ih (by simpa using h)).trans ?_
      rw [map_cons, append_assoc, singleton_append]

/-- What a value begins with when it is read. -/
theorem relation_made (hc : Committed s create replace t) (hmade : made.Sublist create)
    (hsize : made.length ≤ maxValueNodes) (hroot : root ≠ "") (hpairs : pairs ≠ [])
    (hsub : (relationCells root pairs).Sublist made) :
    readPairs t root maxValueNodes = .ok pairs ∧ ∀ seen, Seen made seen → root ∉ seen →
      seen.length + 1 ≤ maxValueNodes ∧ Seen made (root :: seen) := by
  have hids := relationCells_ids hroot hpairs
  have hlength : pairs.length ≤ (relationCells root pairs).length := by
    have hcount := hids.length_eq
    simp only [length_map, relationParts, cons_append, length_cons,
      length_append, length_range', length_range] at hcount
    omega
  have hmem : root ∈ made.map Cell.id := (hsub.map Cell.id).subset
    (hids.mem_iff.2 (List.mem_map.2 ⟨[], mem_cons_self, rfl⟩))
  refine ⟨readPairs_ok hc hroot (hsub.trans hmade) ?_, fun seen hseen hnot => ?_⟩
  · have := hsub.length_le
    have := List.length_pos_iff.2 hpairs
    omega
  · have hnext : Seen made (root :: seen) :=
      ⟨List.nodup_cons.2 ⟨hnot, hseen.1⟩, List.forall_mem_cons.2 ⟨hmem, hseen.2⟩⟩
    have hle := (subperm_of_subset hnext.1 hnext.2).length_le
    rw [length_cons, length_map] at hle
    exact ⟨hle.trans hsize, hnext⟩

/-- What is read of the members of a value with entries. -/
theorem itemPairs_read (root : String) (k : Variant) (items : List (Option String × GraphValue F)) :
    one (itemPairs p root k items) (p.role .variant) "variant" = .ok (p.variant k) ∧
      ((itemPairs p root k items).all fun m =>
        m.1 = p.role .variant ∨ m.1 = p.role .entryMember) = true ∧
      ((itemPairs p root k items).filter (·.1 = p.role .entryMember)).map Prod.snd =
        items.zipIdx.map (entryRoot root) := by
  refine ⟨?_, ?_, ?_⟩ <;>
    simp [one, itemPairs, role_inj, filter_map, comp_def]

/-- What is read of the items, where `g` says what is read of each value. -/
def projectedOf (items : List (Option String × GraphValue F))
    (g : (Option String × GraphValue F) × ℕ → GraphValue F) : List (Projected F) :=
  items.zipIdx.map fun e => ⟨e.2, e.1.1, g e⟩

theorem projectedOf_sorted (items : List (Option String × GraphValue F))
    (g : (Option String × GraphValue F) × ℕ → GraphValue F) :
    (projectedOf items g).map Projected.index = (List.range items.length).map Int.ofNat ∧
      ((projectedOf items g).mergeSort fun a b => a.index ≤ b.index) = projectedOf items g := by
  have hindexes : (projectedOf items g).map Projected.index =
      (List.range items.length).map Int.ofNat := by
    rw [range_eq_range', ← zipIdx_map_snd, projectedOf, map_map, map_map]
    rfl
  refine ⟨hindexes, mergeSort_of_pairwise ?_⟩
  have hincreasing : ((projectedOf items g).map Projected.index).Pairwise (· ≤ ·) := by
    rw [hindexes, pairwise_map]
    exact List.pairwise_le_range.imp fun h => Int.ofNat_le.2 h
  exact (List.pairwise_map.1 hincreasing).imp fun h => decide_eq_true h

/-- The items make the value. -/
theorem projectedOf_value (hitems : v.items = some (k, items))
    (hkeys : (items.filterMap Prod.fst).Nodup)
    (hlikes : List.Forall₂ Like (items.map Prod.snd) (items.zipIdx.map g)) :
    ∃ w, Like v w ∧ ∀ seen : List String,
      (if k = .array then .ok (.array ((projectedOf items g).map Projected.value), seen)
        else ((projectedOf items g).foldlM addItem []).map fun entries => (.object entries, seen)) =
        (.ok (w, seen) : Except CellError _) := by
  have hvalues : (projectedOf items g).map Projected.value = items.zipIdx.map g := by
    rw [projectedOf, map_map]
    rfl
  rcases items_kind hitems with ⟨rfl, -, hlikeArray⟩ | ⟨rfl, hsome, hlikeObject⟩
  · exact ⟨_, hlikeArray _ hlikes, fun seen => by rw [if_pos rfl, hvalues]⟩
  · have hkeysEq : ((projectedOf items g).map fun e => e.key.getD "") =
        items.map fun e => e.1.getD "" := by
      conv_rhs => rw [← zipIdx_map_fst 0 items]
      rw [projectedOf, map_map, map_map]
      rfl
    have hadded := @addItems_ok F (projectedOf items g) [] (by
      rw [map_nil, nil_append, hkeysEq, ← filterMap_keys hsome]
      exact hkeys)
    refine ⟨_, hlikeObject _ hlikes, fun seen => ?_⟩
    rw [if_neg (by decide), hadded, ← hkeysEq, ← hvalues, zip_map']
    rfl

/-- **What is read of the cells of a value** is the value. -/
theorem readNode_ok (hc : Committed s create replace t) (hmade : made.Sublist create)
    (hsize : made.length ≤ maxValueNodes) (hv : Within num n v)
    (hsub : (cellsOf num p n root v).Sublist made) (hroot : root ≠ "") :
    ∃ w, Like v w ∧ ReadsTo made (fun seen => readNode num p t n seen root) root w := by
  induction n generalizing root v with
  | zero => exact hv.elim
  | succ n ih =>
      unfold Within at hv
      unfold cellsOf at hsub
      split at hv
      · next k items hitems =>
        obtain ⟨hkeys, hwithin⟩ := hv
        simp only [hitems] at hsub
        obtain ⟨hpairs, hstart⟩ := relation_made hc hmade hsize hroot
          (show itemPairs p root k items ≠ [] from cons_ne_nil _ _)
          ((sublist_append_right _ _).trans hsub)
        have hkind := items_kind hitems
        have hall : ∀ e ∈ items.zipIdx, ∃ w, Like e.1.2 w ∧ ∀ projected, ReadsTo made
            (fun seen => readEntry p t (readNode num p t n) k (projected, seen) (entryRoot root e))
            (entryRoot root e) (projected ++ [⟨e.2, e.1.1, w⟩]) := by
          intro e he
          have hmem := fst_mem_of_mem_zipIdx he
          have hentry := ((sublist_flatten_of_mem (List.mem_map.2 ⟨e, he, rfl⟩)).trans
            (sublist_append_left _ _)).trans hsub
          refine readEntry_ok ?_ (readPairs_ok hc (nested_ne hroot)
            (((sublist_append_right _ _).trans hentry).trans hmade) ?_) fun f hf =>
              ih (hwithin e he f hf) ?_ (nested_ne (nested_ne hroot))
          · rcases hkind with ⟨rfl, hnone, -⟩ | ⟨rfl, hsome, -⟩
            · simp [hnone e.1 hmem]
            · rw [hsome e.1 hmem]
              simp
          · unfold entryPairs entryFields
            split <;> simp
          · exact ((sublist_flatten_of_mem (List.mem_map.2 ⟨f, hf, rfl⟩)).trans
              (sublist_append_left _ _)).trans hentry
        have : Nonempty (GraphValue F) := ⟨.null⟩
        choose! g hlike hread using hall
        have hlikes : List.Forall₂ Like (items.map Prod.snd) (items.zipIdx.map g) := by
          conv => lhs; rw [← zipIdx_map_fst 0 items, map_map]
          rw [forall₂_map_left_iff, forall₂_map_right_iff, forall₂_same]
          exact hlike
        have hlength : (projectedOf items g).length = items.length := by simp [projectedOf]
        obtain ⟨hindexes, hsorted⟩ := projectedOf_sorted items g
        obtain ⟨hvariant, hallowed, hentries⟩ := itemPairs_read (p := p) root k items
        obtain ⟨w, hw, hmade'⟩ := projectedOf_value hitems hkeys hlikes
        refine ⟨w, hw, fun seen hseen hfresh => ?_⟩
        have hnot : root ∉ seen := fun hin => hfresh root hin (below_self root)
        obtain ⟨hcount, hnext⟩ := hstart seen hseen hnot
        obtain ⟨seen', hfold, hseen', hread'⟩ := readEntries_ok hread (items_parts hitems hkeys) [] hnext
          fun e he x hx hb => by
            rcases List.mem_cons.1 hx with rfl | hx
            · have hroot : Below (nested x ["entry", entryPart e.1.1 e.2]) (nested x []) := hb
              exact absurd (start_of_below (plain_entry _ _) (by decide) hroot) (by simp)
            · exact hfresh x hx (hb.trans (plain_entry _ _))
        refine ⟨seen', ?_, hseen', fun x hx => ?_⟩
        · have hk : k.composite = true := by
            rcases hkind with ⟨rfl, -⟩ | ⟨rfl, -⟩ <;> rfl
          dsimp only [readNode]
          rw [hpairs]
          rw [nil_append, ← projectedOf] at hfold
          simp only [hnot, not_false_eq_true, decide_true, require_true, ok_bind, hcount,
            hvariant, find_variant, hk, if_true, hallowed, hentries, hfold, hsorted,
            hindexes, hlength]
          exact hmade' seen'
        · refine (hread' x hx).elim (fun hx => ?_) Or.inr
          exact (List.mem_cons.1 hx).elim (fun heq => Or.inr (heq ▸ below_self root)) Or.inl
      · next hitems =>
        obtain ⟨k, atom, hscalar, -⟩ := hv
        simp only [hitems, hscalar] at hsub
        obtain ⟨hof, hk, -⟩ := scalarOf_scalarVariant hscalar
        obtain ⟨hpairs, hstart⟩ := relation_made hc hmade hsize hroot
          (show scalarPairs p root k ≠ [] from cons_ne_nil _ _)
          ((sublist_append_right _ _).trans hsub)
        have hcontent : t.get (nested root ["content"]) =
            some ⟨nested root ["content"], nullId, nullId, atom⟩ :=
          hc.get_mem (mem_append_left _
            (hmade.subset (hsub.subset (mem_append_left _ mem_cons_self))))
        refine ⟨v, .scalar hitems, fun seen hseen hfresh => ?_⟩
        have hnot : root ∉ seen := fun hin => hfresh root hin (below_self root)
        obtain ⟨hlength, hnext⟩ := hstart seen hseen hnot
        refine ⟨root :: seen, ?_, hnext, fun x hx => ?_⟩
        · dsimp only [readNode]
          rw [hpairs]
          simp [Check.require, hnot, hlength, one, scalarPairs, role_inj, find_variant, hk, hcontent,
            hof, Except.map]
        · exact (List.mem_cons.1 hx).elim (fun heq => Or.inr (heq ▸ below_self root)) Or.inl

/-! ## The round trip -/

/-- A value within the budgets is built of its cells. -/
theorem buildNode_within (hv : Within num n v) (hroot : root ≠ "")
    (hsize : (cellsOf num p n root v).length ≤ maxValueNodes) :
    ∃ made, buildNode num p n root v .empty = .ok made ∧ made.values = cellsOf num p n root v := by
  have hempty : (Dict.empty : Dict String Cell).size = 0 := rfl
  obtain ⟨made, hmade, hentries⟩ := addCells_ok (names_cellsOf (p := p) hv hroot).1
    (fun c _ => Dict.get?_empty c.id) (by rwa [hempty, Nat.zero_add])
  refine ⟨made, (buildNode_eq hv _).trans hmade, ?_⟩
  unfold Dict.values
  rw [hentries, map_append, map_map]
  exact map_id _

/-- Numbers, where there are no floats. -/
def plainNumerals : Numerals Empty where
  isfinite := nofun
  repr := nofun
  float _ := none
  int bytes := (String.fromUTF8? ⟨bytes.toArray⟩).bind String.toInt?
  float_repr := nofun
  int_str n _ := by
    rw [decode_utf8]
    exact Int.toInt?_repr n

/-- A store with the protocol. -/
def protocolStore : Store :=
  ((bootstrapValueGraphProtocol ⟨"value-graph-protocol"⟩ Store.empty none).toOption).getD .empty

end ArchHub.Cells

import Mathlib
import ArchHub.Cells.Content

/-!
# What the bytes of a content tell

* `Canonical`: the bytes of a graph, made from the cells that are reached from its root.
* `graphContentBytes_wired`: the bytes of a root with links are its canonical bytes.
* `Canonical.tell`: canonical bytes tell the root and the cells.
* `graphContentBytes_identifies`: what equal bytes say of two contents.

The atom of a cell without links is its bytes as they are, and it may be the canonical bytes
of a graph (`Disguised`).
-/

namespace ArchHub.Cells

open Lib List

/-! ## Canonical bytes -/

/-- The bytes of a root and some cells. -/
def graphBytes (root : String) (cs : List Cell) : List UInt8 :=
  contentTag ++ field (utf8 root) ++ cs.flatMap cellFields

/-- Bytes of what is reached from a root, in the order of the identities. -/
def Canonical (cells : Lookup) (root : String) (bytes : List UInt8) : Prop :=
  ∃ cs : List Cell, (cs.map Cell.id).Pairwise (· < ·) ∧ (∀ c, c ∈ cs ↔ c ∈ content cells root) ∧
    bytes = graphBytes root cs

theorem utf8_inj {s t : String} (h : utf8 s = utf8 t) : s = t := Framing.toUTF8_toList_inj h

theorem length_le_field (value : List UInt8) : value.length ≤ (field value).length := by
  unfold field
  rw [length_append]
  exact Nat.le_add_left _ _

/-- A part whose length is written in eight bytes. -/
def Short (value : List UInt8) : Prop := value.length < 256 ^ 8

theorem selfDelimiting_field : Framing.SelfDelimiting Short field :=
  Framing.selfDelimiting_framed 8

/-- A cell whose parts have a length that is written in eight bytes. -/
structure ShortCell (c : Cell) : Prop where
  id : Short (utf8 c.id)
  link0 : Short (utf8 c.link0)
  link1 : Short (utf8 c.link1)
  atom : Short c.atom

/-- **The parts of a cell** tell the cell and what follows. -/
theorem selfDelimiting_cellFields : Framing.SelfDelimiting ShortCell cellFields := by
  have hfour := ((selfDelimiting_field.append selfDelimiting_field).append
    selfDelimiting_field).append selfDelimiting_field
  let parts : Cell → ((List UInt8 × List UInt8) × List UInt8) × List UInt8 :=
    fun c => (((utf8 c.id, utf8 c.link0), utf8 c.link1), c.atom)
  have hinj : ∀ c d, ShortCell c → ShortCell d → parts c = parts d → c = d := by
    intro c d _ _ h
    simp only [parts, Prod.mk.injEq] at h
    obtain ⟨⟨⟨hid, hlink0⟩, hlink1⟩, hatom⟩ := h
    cases c
    cases d
    simp only [Cell.mk.injEq]
    exact ⟨utf8_inj hid, utf8_inj hlink0, utf8_inj hlink1, hatom⟩
  exact hfour.contramap (f := parts) (fun c h => ⟨⟨⟨h.id, h.link0⟩, h.link1⟩, h.atom⟩) hinj

theorem cellFields_ne_nil (c : Cell) : cellFields c ≠ [] := by
  intro h
  have hfield : field c.atom = [] := (List.append_eq_nil_iff.1 h).2
  exact Framing.framed_ne_nil (by decide : 0 < 8) c.atom hfield

variable {c : Cell}

/-- The parts of a cell are no longer than its bytes. -/
theorem shortCell_of_length (h : (cellFields c).length ≤ 64 * 1024 * 1024) : ShortCell c := by
  have hbound : 64 * 1024 * 1024 < 256 ^ 8 := by decide
  have hid := length_le_field (utf8 c.id)
  have hlink0 := length_le_field (utf8 c.link0)
  have hlink1 := length_le_field (utf8 c.link1)
  have hatom := length_le_field c.atom
  unfold cellFields at h
  simp only [length_append] at h
  constructor <;> unfold Short <;> omega

variable {root : String} {cs : List Cell}

/-- Bytes that are not too long are of short parts. -/
theorem shortCells_of_length (h : (graphBytes root cs).length ≤ 64 * 1024 * 1024) :
    Short (utf8 root) ∧ ∀ c ∈ cs, ShortCell c := by
  unfold graphBytes at h
  rw [length_append, length_append] at h
  refine ⟨?_, fun c hc => shortCell_of_length ?_⟩
  · have hroot := length_le_field (utf8 root)
    have hbound : 64 * 1024 * 1024 < 256 ^ 8 := by decide
    unfold Short
    omega
  · obtain ⟨before, after, rfl⟩ := append_of_mem hc
    rw [flatMap_append, flatMap_cons, length_append, length_append] at h
    omega

variable {cells : Lookup} {bytes : List UInt8}

/-- **Canonical bytes** tell the root and the cells. -/
theorem Canonical.tell {cells' : Lookup} {root' : String} (h : Canonical cells root bytes)
    (h' : Canonical cells' root' bytes) (hlength : bytes.length ≤ 64 * 1024 * 1024) :
    root = root' ∧ content cells root = content cells' root' := by
  obtain ⟨cs, -, hmem, rfl⟩ := h
  obtain ⟨cs', -, hmem', heq⟩ := h'
  obtain ⟨hroot, hcs⟩ := shortCells_of_length hlength
  rw [heq] at hlength
  obtain ⟨hroot', hcs'⟩ := shortCells_of_length hlength
  unfold graphBytes at heq
  rw [append_assoc, append_assoc] at heq
  obtain ⟨hbytes, hrest⟩ := selfDelimiting_field hroot hroot' (append_cancel_left heq)
  have hsame := selfDelimiting_cellFields.flatMap_inj (fun c _ => cellFields_ne_nil c) hcs hcs' hrest
  refine ⟨utf8_inj hbytes, Set.ext fun c => ?_⟩
  rw [← hmem c, ← hmem' c, hsame]

/-! ## The bytes of a root with links -/

theorem canonicalCells_ok {canonical : List UInt8} (h : canonicalCells canonical cs = .ok bytes)
    (hlength : cs = [] → canonical.length ≤ 64 * 1024 * 1024) :
    bytes = canonical ++ cs.flatMap cellFields ∧ bytes.length ≤ 64 * 1024 * 1024 := by
  induction cs generalizing canonical with
  | nil =>
      cases h
      rw [flatMap_nil, append_nil]
      exact ⟨rfl, hlength rfl⟩
  | cons c cs ih =>
      unfold canonicalCells at h
      dsimp only at h
      split at h
      · cases h
      · next hshort =>
        obtain ⟨hbytes, hall⟩ := ih h fun _ => Nat.le_of_not_lt hshort
        rw [flatMap_cons, ← append_assoc]
        exact ⟨hbytes, hall⟩

section

variable {reached : Dict String Cell} (hkeyed : ∀ id c, reached.get? id = some c → c.id = id)

include hkeyed

theorem mem_sortedCells (c : Cell) : c ∈ sortedCells reached ↔ reached.get? c.id = some c := by
  unfold sortedCells
  rw [mem_map]
  constructor
  · rintro ⟨⟨id, d⟩, hmem, rfl⟩
    have hget := Dict.mem_entries_iff.1 (List.mem_mergeSort.1 hmem)
    rwa [hkeyed id d hget]
  · intro hget
    exact ⟨(c.id, c), List.mem_mergeSort.2 (Dict.mem_entries_iff.2 hget), rfl⟩

theorem sortedCells_pairwise : ((sortedCells reached).map Cell.id).Pairwise (· < ·) := by
  have hids : (sortedCells reached).map Cell.id =
      (reached.entries.mergeSort fun a b => a.1 ≤ b.1).map Prod.fst := by
    unfold sortedCells
    rw [map_map]
    refine map_congr_left fun e he => ?_
    exact hkeyed e.1 e.2 (Dict.mem_entries_iff.1 (List.mem_mergeSort.1 he))
  have hnodup : ((reached.entries.mergeSort fun a b => a.1 ≤ b.1).map Prod.fst).Nodup :=
    ((mergeSort_perm _ _).map Prod.fst).nodup_iff.2 reached.nodup
  have hsorted : ((reached.entries.mergeSort fun a b => a.1 ≤ b.1).map Prod.fst).Pairwise
      (· ≤ ·) := by
    rw [pairwise_map]
    refine (pairwise_mergeSort (fun a b c hab hbc => ?_) (fun a b => ?_) _).imp ?_
    · simp only [decide_eq_true_eq] at hab hbc ⊢
      exact le_trans hab hbc
    · simpa using le_total a.1 b.1
    · intro a b hab
      simpa using hab
  rw [hids]
  exact (hsorted.and hnodup).imp fun h => lt_of_le_of_ne h.1 h.2

end

variable {budget : ℤ} {s : Snapshot}

/-- **A root with links** has its canonical bytes, and they are not too long. -/
theorem graphContentBytes_wired (h : graphContentBytes s.cells root budget = .ok bytes)
    (hc : s.cells root = some c) (hwired : ¬ c.Terminal) :
    Canonical s.cells root bytes ∧ bytes.length ≤ 64 * 1024 * 1024 := by
  unfold graphContentBytes at h
  split at h
  · cases h
  · simp only [hc, if_neg hwired] at h
    obtain ⟨reached, hreached, hbytes⟩ := Check.bind_ok_iff.1 h
    have hiff := reachedCells_iff hreached
    have hkeyed : ∀ id d, reached.get? id = some d → d.id = id := fun id d hget =>
      s.keyed id d ((hiff id d).1 hget).2
    have hmem : ∀ d, d ∈ sortedCells reached ↔ d ∈ content s.cells root := by
      intro d
      rw [mem_sortedCells hkeyed, hiff]
      rfl
    have hroot : c ∈ sortedCells reached := by
      refine (hmem c).2 ⟨?_, ?_⟩
      · rw [s.keyed root c hc]
        exact Relation.ReflTransGen.refl
      · rw [s.keyed root c hc, hc]
    obtain ⟨hvalue, hlength⟩ := canonicalCells_ok hbytes fun hnil => by
      rw [hnil] at hroot
      cases hroot
    exact ⟨⟨sortedCells reached, sortedCells_pairwise hkeyed, hmem, hvalue⟩, hlength⟩

theorem graphContentBytes_terminal (h : graphContentBytes cells root budget = .ok bytes)
    (hc : cells root = some c) (hterminal : c.Terminal) : bytes = c.atom := by
  unfold graphContentBytes at h
  split at h
  · cases h
  · simp only [hc, if_pos hterminal] at h
    exact (Except.ok.inj h).symm

theorem graphContentBytes_root (h : graphContentBytes cells root budget = .ok bytes) :
    ∃ c, cells root = some c := by
  unfold graphContentBytes at h
  split at h
  · cases h
  · cases hc : cells root with
    | none =>
        rw [hc] at h
        cases h
    | some c => exact ⟨c, rfl⟩

/-! ## What equal bytes say -/

/-- One content: an atom, or a root and what is reached from it. -/
inductive SameContent (cells cells' : Lookup) (root root' : String) : Prop
  | terminal (c c' : Cell) (hc : cells root = some c) (hc' : cells' root' = some c')
      (hterminal : c.Terminal) (hterminal' : c'.Terminal) (hatom : c.atom = c'.atom)
  | wired (c c' : Cell) (hc : cells root = some c) (hc' : cells' root' = some c')
      (hwired : ¬ c.Terminal) (hwired' : ¬ c'.Terminal) (hroot : root = root')
      (hcells : content cells root = content cells' root')

/-- A cell without links whose atom is the canonical bytes of a root with links. -/
def Disguised (cells cells' : Lookup) (root root' : String) : Prop :=
  ∃ c c', cells root = some c ∧ cells' root' = some c' ∧ c.Terminal ∧ ¬ c'.Terminal ∧
    Canonical cells' root' c.atom

/-- From a cell without links nothing else is reached. -/
theorem Reached.eq_root {id : String} (h : Reached cells root id) (hc : cells root = some c)
    (hterminal : c.Terminal) : id = root := by
  refine (Relation.reflTransGen_iff_eq fun next hnext => ?_).1 h
  have hlinks : next ∈ (cells root).elim [] Cell.successors := hnext
  rw [hc] at hlinks
  simp [Cell.successors, hterminal.1, hterminal.2] at hlinks

/-- Where there are bytes, no link dangles. -/
theorem reached_isSome {id : String} (h : graphContentBytes cells root budget = .ok bytes)
    (hid : Reached cells root id) : (cells id).isSome := by
  obtain ⟨c, hc⟩ := graphContentBytes_root h
  by_cases hterminal : c.Terminal
  · rw [hid.eq_root hc hterminal, hc]
    rfl
  · unfold graphContentBytes at h
    split at h
    · cases h
    · simp only [hc, if_neg hterminal] at h
      obtain ⟨reached, hreached, -⟩ := Check.bind_ok_iff.1 h
      obtain ⟨d, hd⟩ := Dict.exists_get?_of_mem_keys (mem_keys_of_reached hreached hid)
      rw [((reachedCells_iff hreached id d).1 hd).2]
      rfl

/-- One content under one root has one cell at every identity that is reached. -/
theorem SameContent.cells_eq {s' : Snapshot} {id : String}
    (h : SameContent s.cells s'.cells root root) (hid : Reached s.cells root id)
    (hsome : (s.cells id).isSome) : s.cells id = s'.cells id := by
  obtain ⟨d, hd⟩ := Option.isSome_iff_exists.1 hsome
  cases h with
  | terminal c c' hc hc' hterminal hterminal' hatom =>
      have hsame := hid.eq_root hc hterminal
      have hcell : c = c' := by
        have hkeyed := s.keyed root c hc
        have hkeyed' := s'.keyed root c' hc'
        cases c
        cases c'
        simp only [Cell.mk.injEq]
        exact ⟨hkeyed.trans hkeyed'.symm, hterminal.1.trans hterminal'.1.symm,
          hterminal.2.trans hterminal'.2.symm, hatom⟩
      rw [hsame, hc, hc', hcell]
  | wired c c' hc hc' hwired hwired' hroot hcells =>
      have hkeyed := s.keyed id d hd
      have hmem : d ∈ content s.cells root := by
        refine ⟨?_, ?_⟩
        · rw [hkeyed]
          exact hid
        · rw [hkeyed, hd]
      rw [hcells] at hmem
      rw [hd, ← hkeyed, hmem.2]

section

variable {s s' : Snapshot} {root root' : String} {budget budget' : ℤ} {bytes : List UInt8}

/-- Equal bytes, by the kind of the two contents. -/
theorem same_or_disguised (h : graphContentBytes s.cells root budget = .ok bytes)
    (h' : graphContentBytes s'.cells root' budget' = .ok bytes) :
    SameContent s.cells s'.cells root root' ∨ Disguised s.cells s'.cells root root' ∨
      Disguised s'.cells s.cells root' root := by
  obtain ⟨c, hc⟩ := graphContentBytes_root h
  obtain ⟨c', hc'⟩ := graphContentBytes_root h'
  by_cases hterminal : c.Terminal
  · have hatom := graphContentBytes_terminal h hc hterminal
    by_cases hterminal' : c'.Terminal
    · have hatom' := graphContentBytes_terminal h' hc' hterminal'
      exact .inl (.terminal c c' hc hc' hterminal hterminal' (hatom.symm.trans hatom'))
    · obtain ⟨hcanonical, -⟩ := graphContentBytes_wired h' hc' hterminal'
      exact .inr (.inl ⟨c, c', hc, hc', hterminal, hterminal', hatom ▸ hcanonical⟩)
  · obtain ⟨hcanonical, hlength⟩ := graphContentBytes_wired h hc hterminal
    by_cases hterminal' : c'.Terminal
    · have hatom' := graphContentBytes_terminal h' hc' hterminal'
      exact .inr (.inr ⟨c', c, hc', hc, hterminal', hterminal, hatom' ▸ hcanonical⟩)
    · obtain ⟨hcanonical', -⟩ := graphContentBytes_wired h' hc' hterminal'
      obtain ⟨hroot, hcells⟩ := hcanonical.tell hcanonical' hlength
      exact .inl (.wired c c' hc hc' hterminal hterminal' hroot hcells)

/-- **Equal bytes** are of the same content, unless one of the contents is an atom that is the
canonical bytes of the other one.  So a change of a cell that is reached changes the bytes,
with that exception. -/
theorem graphContentBytes_identifies (s s' : Snapshot) (root root' : String)
    (budget budget' : ℤ) (bytes : List UInt8)
    (h : graphContentBytes s.cells root budget = .ok bytes)
    (h' : graphContentBytes s'.cells root' budget' = .ok bytes) :
    (SameContent s.cells s'.cells root root' ∨ Disguised s.cells s'.cells root root' ∨
        Disguised s'.cells s.cells root' root) ∧
      (root = root' → (∃ id, Reached s.cells root id ∧ s.cells id ≠ s'.cells id) →
        Disguised s.cells s'.cells root root' ∨ Disguised s'.cells s.cells root' root) := by
  refine ⟨same_or_disguised h h', ?_⟩
  rintro rfl ⟨id, hid, hchanged⟩
  rcases same_or_disguised h h' with hsame | hdisguised
  · exact absurd (hsame.cells_eq hid (reached_isSome h hid)) hchanged
  · exact hdisguised

end

/-! ## An atom in disguise -/

/-- A root that leads to itself. -/
def selfCell : Cell := ⟨"graph", "graph", nullId, []⟩

/-- A store with that root. -/
def graphSnapshot : Snapshot where
  revision := 1
  address := 0
  cells := fun id => if id = nullId then some nullCell else if id = "graph" then some selfCell else none
  keyed id c h := by
    split at h
    · next hid =>
      cases h
      exact hid.symm
    · split at h
      · next hid =>
        cases h
        exact hid.symm
      · cases h

/-- A cell without links whose atom is the bytes of that root. -/
def forgedCell : Cell := ⟨"text", nullId, nullId, graphBytes "graph" [selfCell]⟩

/-- A store with that cell. -/
def forgedSnapshot : Snapshot where
  revision := 1
  address := 1
  cells := fun id => if id = nullId then some nullCell else if id = "text" then some forgedCell else none
  keyed id c h := by
    split at h
    · next hid =>
      cases h
      exact hid.symm
    · split at h
      · next hid =>
        cases h
        exact hid.symm
      · cases h

theorem length_utf8 (s : String) : (utf8 s).length = s.utf8ByteSize := by
  unfold utf8
  rw [Framing.toList_byteArray]
  rfl

theorem length_field (value : List UInt8) : (field value).length = 8 + value.length := by
  unfold field
  simp

/-- The bytes of the root that leads to itself. -/
theorem graphContentBytes_self :
    graphContentBytes graphSnapshot.cells "graph" 100000 = .ok (graphBytes "graph" [selfCell]) := by
  have hgraph : graphSnapshot.cells "graph" = some selfCell := by decide
  have hwired : ¬ selfCell.Terminal := by decide
  have hwalk : reachedCells graphSnapshot.cells 100000 .empty ["graph"] =
      .ok (Dict.empty.set "graph" selfCell) := by
    rw [reachedCells, if_neg (by decide), dif_neg (by decide), hgraph]
    dsimp only
    rw [show selfCell.successors ++ [] = ["graph"] by decide, reachedCells,
      if_pos (by decide), reachedCells]
  have hsorted : sortedCells (Dict.empty.set "graph" selfCell) = [selfCell] := by
    have hentries : (Dict.empty.set "graph" selfCell).entries = [("graph", selfCell)] := by rfl
    rw [sortedCells, hentries, mergeSort_singleton]
    rfl
  have hlength : ¬ 64 * 1024 * 1024 <
      (contentTag ++ field (utf8 "graph") ++ cellFields selfCell).length := by
    unfold contentTag cellFields
    simp only [length_append, length_field, length_utf8, selfCell]
    decide
  unfold graphContentBytes
  rw [if_neg (by decide), hgraph]
  dsimp only
  rw [if_neg hwired, hwalk]
  show canonicalCells (contentTag ++ field (utf8 "graph"))
    (sortedCells (Dict.empty.set "graph" selfCell)) = _
  rw [hsorted, canonicalCells, if_neg hlength, canonicalCells, graphBytes, flatMap_singleton]

/-- The bytes of that cell. -/
theorem graphContentBytes_forged :
    graphContentBytes forgedSnapshot.cells "text" 100000 = .ok (graphBytes "graph" [selfCell]) := by
  have htext : forgedSnapshot.cells "text" = some forgedCell := rfl
  have hterminal : forgedCell.Terminal := ⟨rfl, rfl⟩
  unfold graphContentBytes
  rw [if_neg (by decide), htext]
  dsimp only
  rw [if_pos hterminal]
  rfl

/-- The atom, and the root with links. -/
theorem graphContentBytes_identifies_forged :
    (SameContent forgedSnapshot.cells graphSnapshot.cells "text" "graph" ∨
        Disguised forgedSnapshot.cells graphSnapshot.cells "text" "graph" ∨
        Disguised graphSnapshot.cells forgedSnapshot.cells "graph" "text") ∧
      ("text" = "graph" →
        (∃ id, Reached forgedSnapshot.cells "text" id ∧
          forgedSnapshot.cells id ≠ graphSnapshot.cells id) →
        Disguised forgedSnapshot.cells graphSnapshot.cells "text" "graph" ∨
          Disguised graphSnapshot.cells forgedSnapshot.cells "graph" "text") :=
  graphContentBytes_identifies forgedSnapshot graphSnapshot "text" "graph" 100000 100000 _
    graphContentBytes_forged graphContentBytes_self

/-- **Bytes that do not tell the content**: an atom, and a root with links. -/
theorem graphContentBytes_disguised :
    graphContentBytes forgedSnapshot.cells "text" 100000 =
        graphContentBytes graphSnapshot.cells "graph" 100000 ∧
      (graphContentBytes graphSnapshot.cells "graph" 100000).isOk ∧
      ¬ SameContent forgedSnapshot.cells graphSnapshot.cells "text" "graph" := by
  rw [graphContentBytes_self, graphContentBytes_forged]
  refine ⟨rfl, rfl, fun h => ?_⟩
  have hgraph : graphSnapshot.cells "graph" = some selfCell := by rfl
  cases h with
  | terminal c c' hc hc' hterminal hterminal' hatom =>
      rw [hgraph] at hc'
      cases hc'
      exact absurd hterminal'.1 (by decide)
  | wired c c' hc hc' hwired hwired' hroot hcells =>
      exact absurd hroot (by decide)

end ArchHub.Cells

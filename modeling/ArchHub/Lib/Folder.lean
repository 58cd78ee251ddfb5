import Mathlib

/-!
# Folders

A folder is the list of what lies in it, each item under its path.  An item has a number that
stays with it wherever it is moved to.  No two items have one number, and no two have one path:
a `Folder` cannot be built otherwise.

* `Folder.add`, `Folder.mkdirs`, `Folder.move`, `Folder.rmdir`, `Folder.delete`: what a file
  system does.
* `Folder.Lies`: an item is at a path; `Folder.Keeps`: a file is somewhere, with its content.
  Each operation has its lemma about the two.

A path is there when something lies at it or beneath it; that each item lies in directories is
not asked for.
-/

namespace Lib

universe u

/-- What lies at a path: a file with its content, or a directory. -/
structure Item (φ : Type u) where
  path : List String
  /-- The number of the item. -/
  ino : ℕ
  file : Option φ
deriving DecidableEq

/-- What lies in a folder. -/
structure Folder (φ : Type u) where
  items : List (Item φ)
  /-- The number of the next item. -/
  next : ℕ
  inos : (items.map Item.ino).Nodup
  paths : (items.map Item.path).Nodup
  below : ∀ it ∈ items, it.ino < next

namespace Folder

variable {φ : Type u} {F G H : Folder φ} {p q r d rest : List String} {n : ℕ} {c : φ} {b : Bool}
  {it : Item φ}

/-! ## Questions -/

/-- Something lies at the path or beneath it. -/
def hasItem (F : Folder φ) (p : List String) : Bool := F.items.any fun it => p <+: it.path

def isFile (F : Folder φ) (p : List String) : Bool :=
  F.items.any fun it => it.path = p ∧ it.file.isSome

def isDir (F : Folder φ) (p : List String) : Bool :=
  p = [] ∨ F.items.any fun it => it.path = p ∧ it.file.isNone

/-- Nothing lies beneath the path. -/
def bare (F : Folder φ) (p : List String) : Bool :=
  F.items.all fun it => ¬(p <+: it.path ∧ it.path ≠ p)

/-- The item with this number is at this path, and is a file if that is asked. -/
def Lies (F : Folder φ) (n : ℕ) (b : Bool) (p : List String) : Prop :=
  ∃ it ∈ F.items, it.ino = n ∧ it.path = p ∧ (b = true → it.file.isSome = true)

/-- The file with this number is somewhere, with this content. -/
def Keeps (F : Folder φ) (n : ℕ) (c : φ) : Prop :=
  ∃ it ∈ F.items, it.ino = n ∧ it.file = some c

theorem hasItem_iff : F.hasItem p = true ↔ ∃ it ∈ F.items, p <+: it.path := by
  simp [hasItem]

theorem Lies.hasItem (h : F.Lies n b (p ++ rest)) : F.hasItem p = true := by
  obtain ⟨it, hit, -, hpath, -⟩ := h
  exact hasItem_iff.2 ⟨it, hit, hpath ▸ List.prefix_append p rest⟩

/-- One item lies at a path. -/
theorem eq_of_path {it' : Item φ} (h : it ∈ F.items) (h' : it' ∈ F.items)
    (heq : it.path = it'.path) : it = it' := List.inj_on_of_nodup_map F.paths h h' heq

/-! ## Adding -/

/-- A new item. -/
def add (F : Folder φ) (p : List String) (file : Option φ) (h : F.hasItem p = false) :
    Folder φ where
  items := F.items ++ [⟨p, F.next, file⟩]
  next := F.next + 1
  inos := by
    rw [List.map_append, List.map_singleton]
    refine List.nodup_append.2 ⟨F.inos, List.nodup_singleton _, ?_⟩
    intro a ha x hx heq
    obtain ⟨it, hit, rfl⟩ := List.mem_map.1 ha
    have hlt := F.below it hit
    rw [heq, List.mem_singleton.1 hx] at hlt
    exact lt_irrefl _ hlt
  paths := by
    rw [List.map_append, List.map_singleton]
    refine List.nodup_append.2 ⟨F.paths, List.nodup_singleton _, ?_⟩
    intro a ha x hx heq
    obtain ⟨it, hit, rfl⟩ := List.mem_map.1 ha
    have hpath : it.path = p := heq.trans (List.mem_singleton.1 hx)
    have hthere : F.hasItem p = true := hasItem_iff.2 ⟨it, hit, hpath ▸ List.prefix_rfl⟩
    rw [h] at hthere
    cases hthere
  below it hit := by
    rcases List.mem_append.1 hit with hmem | hlast
    · exact (F.below it hmem).trans (Nat.lt_succ_self _)
    · rw [List.mem_singleton.1 hlast]
      exact Nat.lt_succ_self _

/-- `mkdir` of a directory, if it is missing. -/
def mkdir (F : Folder φ) (d : List String) : Folder φ :=
  if h : F.hasItem d = false then F.add d none h else F

/-- `mkdir` of each directory that is missing. -/
def mkdirs (F : Folder φ) (dirs : List (List String)) : Folder φ := dirs.foldl mkdir F

/-- Nothing happened to the folder but that items came. -/
def Extends (F G : Folder φ) : Prop := ∃ more, G.items = F.items ++ more

theorem Extends.refl (F : Folder φ) : Extends F F := ⟨[], (List.append_nil _).symm⟩

theorem Extends.trans (h : Extends F G) (h' : Extends G H) : Extends F H := by
  obtain ⟨xs, hxs⟩ := h
  obtain ⟨ys, hys⟩ := h'
  exact ⟨xs ++ ys, by rw [hys, hxs, List.append_assoc]⟩

theorem extends_add (F : Folder φ) (p : List String) (file : Option φ)
    (h : F.hasItem p = false) : Extends F (F.add p file h) := ⟨_, rfl⟩

theorem extends_mkdir (F : Folder φ) (d : List String) : Extends F (F.mkdir d) := by
  unfold mkdir
  split
  · exact extends_add F d none _
  · exact .refl F

theorem extends_mkdirs (F : Folder φ) (dirs : List (List String)) : Extends F (F.mkdirs dirs) := by
  induction dirs generalizing F with
  | nil => exact .refl F
  | cons d dirs ih => exact (extends_mkdir F d).trans (ih (F.mkdir d))

theorem Extends.mem (h : Extends F G) (hit : it ∈ F.items) : it ∈ G.items := by
  obtain ⟨more, hmore⟩ := h
  rw [hmore]
  exact List.mem_append_left more hit

theorem Extends.lies (h : Extends F G) (hn : F.Lies n b p) : G.Lies n b p := by
  obtain ⟨it, hit, hrest⟩ := hn
  exact ⟨it, h.mem hit, hrest⟩

theorem Extends.keeps (h : Extends F G) (hn : F.Keeps n c) : G.Keeps n c := by
  obtain ⟨it, hit, hrest⟩ := hn
  exact ⟨it, h.mem hit, hrest⟩

theorem mem_mkdir (h : it ∈ (F.mkdir d).items) : it ∈ F.items ∨ it.path = d := by
  unfold mkdir at h
  split at h
  · rcases List.mem_append.1 h with hold | hlast
    · exact .inl hold
    · rw [List.mem_singleton.1 hlast]
      exact .inr rfl
  · exact .inl h

/-- What is new after `mkdirs` are directories that were asked for. -/
theorem mem_mkdirs {dirs : List (List String)} (h : it ∈ (F.mkdirs dirs).items) :
    it ∈ F.items ∨ it.path ∈ dirs := by
  induction dirs generalizing F with
  | nil => exact .inl h
  | cons d dirs ih =>
      rcases ih h with hmem | hpath
      · rcases mem_mkdir hmem with hold | hnew
        · exact .inl hold
        · exact .inr (hnew ▸ List.mem_cons_self)
      · exact .inr (List.mem_cons_of_mem d hpath)

/-! ## Moving -/

/-- What lies under the one path comes to lie under the other. -/
def moveItem (p q : List String) (it : Item φ) : Item φ :=
  if p <+: it.path then { it with path := q ++ it.path.drop p.length } else it

theorem ino_moveItem (it : Item φ) : (moveItem p q it).ino = it.ino := by
  unfold moveItem
  split
  · rfl
  · rfl

theorem file_moveItem (it : Item φ) : (moveItem p q it).file = it.file := by
  unfold moveItem
  split
  · rfl
  · rfl

/-- Nothing lies at the one path or beneath it but what lies under the other. -/
def free (F : Folder φ) (p q : List String) : Bool :=
  F.items.all fun it => q <+: it.path → p <+: it.path

theorem free_of_hasItem (F : Folder φ) {q : List String} (h : F.hasItem q = false)
    (p : List String) : F.free p q = true := by
  refine List.all_eq_true.2 fun it hit => decide_eq_true fun hq => ?_
  rw [hasItem_iff.2 ⟨it, hit, hq⟩] at h
  cases h

/-- `rename`, of an item to a path that is free. -/
def move (F : Folder φ) (p q : List String) (h : F.free p q = true) : Folder φ where
  items := F.items.map (moveItem p q)
  next := F.next
  inos := by
    have hinos : (F.items.map (moveItem p q)).map Item.ino = F.items.map Item.ino := by
      rw [List.map_map]
      exact List.map_congr_left fun it _ => ino_moveItem it
    rw [hinos]
    exact F.inos
  paths := by
    rw [List.map_map]
    refine List.Nodup.map_on ?_ (List.Nodup.of_map _ F.paths)
    intro x hx y hy heq
    simp only [Function.comp_apply, moveItem] at heq
    have hfree : ∀ it ∈ F.items, q <+: it.path → p <+: it.path :=
      fun it hit => of_decide_eq_true (List.all_eq_true.1 h it hit)
    by_cases hpx : p <+: x.path
    · by_cases hpy : p <+: y.path
      · simp only [hpx, hpy, if_true] at heq
        refine eq_of_path hx hy ?_
        rw [← List.prefix_iff_eq_append.1 hpx, ← List.prefix_iff_eq_append.1 hpy,
          List.append_cancel_left heq]
      · simp only [hpx, hpy, if_true, if_false] at heq
        exact absurd (hfree y hy (heq ▸ List.prefix_append q _)) hpy
    · by_cases hpy : p <+: y.path
      · simp only [hpx, hpy, if_true, if_false] at heq
        exact absurd (hfree x hx (heq ▸ List.prefix_append q _)) hpx
      · simp only [hpx, hpy, if_false] at heq
        exact eq_of_path hx hy heq
  below it hit := by
    obtain ⟨x, hx, rfl⟩ := List.mem_map.1 hit
    rw [ino_moveItem]
    exact F.below x hx

variable {hfree : F.free p q = true} {m : ℕ}

theorem Lies.move_under (h : F.Lies n b (p ++ rest)) : (F.move p q hfree).Lies n b (q ++ rest) := by
  obtain ⟨it, hit, hino, hpath, hfile⟩ := h
  refine ⟨moveItem p q it, List.mem_map_of_mem hit, (ino_moveItem it).trans hino, ?_, fun hb => ?_⟩
  · unfold moveItem
    rw [hpath, if_pos (List.prefix_append p rest), List.drop_left]
  · rw [file_moveItem]
    exact hfile hb

theorem Lies.move_apart (h : F.Lies n b r) (hapart : ¬p <+: r) : (F.move p q hfree).Lies n b r := by
  obtain ⟨it, hit, hino, hpath, hfile⟩ := h
  refine ⟨moveItem p q it, List.mem_map_of_mem hit, (ino_moveItem it).trans hino, ?_, fun hb => ?_⟩
  · unfold moveItem
    rw [if_neg (by rwa [hpath]), hpath]
  · rw [file_moveItem]
    exact hfile hb

theorem Keeps.move (h : F.Keeps n c) (hfree : F.free p q = true) :
    (F.move p q hfree).Keeps n c := by
  obtain ⟨it, hit, hino, hfile⟩ := h
  exact ⟨moveItem p q it, List.mem_map_of_mem hit, (ino_moveItem it).trans hino,
    (file_moveItem it).trans hfile⟩

/-! ## Removing -/

/-- The folder without some of its items. -/
def keep (F : Folder φ) (f : Item φ → Bool) : Folder φ where
  items := F.items.filter f
  next := F.next
  inos := F.inos.sublist (List.filter_sublist.map _)
  paths := F.paths.sublist (List.filter_sublist.map _)
  below it hit := F.below it (List.mem_of_mem_filter hit)

/-- `rmdir` of a directory; where something lies beneath it, or where there is none, nothing is
changed. -/
def rmdir (F : Folder φ) (d : List String) : Folder φ :=
  if F.bare d then F.keep fun it => ¬(it.path = d ∧ it.file.isNone) else F

/-- The item with this number is removed. -/
def delete (F : Folder φ) (n : ℕ) : Folder φ := F.keep fun it => it.ino ≠ n

theorem Keeps.rmdir (h : F.Keeps n c) : (F.rmdir d).Keeps n c := by
  unfold Folder.rmdir
  split
  · obtain ⟨it, hit, hino, hfile⟩ := h
    refine ⟨it, List.mem_filter.2 ⟨hit, ?_⟩, hino, hfile⟩
    simp [hfile]
  · exact h

/-- A file is no directory that is removed, and a directory is removed only where nothing lies
beneath it. -/
theorem Lies.rmdir (h : F.Lies n b p)
    (hd : p ≠ d ∨ F.bare d = false ∨ b = true ∨ F.isFile d = true) : (F.rmdir d).Lies n b p := by
  unfold Folder.rmdir
  split
  · rename_i hbare
    obtain ⟨it, hit, hino, hpath, hfile⟩ := h
    refine ⟨it, List.mem_filter.2 ⟨hit, ?_⟩, hino, hpath, hfile⟩
    rcases hd with hne | hfull | hb | hisFile
    · simp [hpath, hne]
    · rw [hbare] at hfull
      cases hfull
    · have hsome := hfile hb
      simp [Option.isSome_iff_ne_none.1 hsome]
    · obtain ⟨x, hx, hxd⟩ := List.any_eq_true.1 hisFile
      obtain ⟨hxpath, hxfile⟩ := of_decide_eq_true hxd
      by_cases heq : it.path = d
      · rw [eq_of_path hit hx (heq.trans hxpath.symm)]
        simp [Option.isSome_iff_ne_none.1 hxfile]
      · simp [heq]
  · exact h

theorem Lies.delete (h : F.Lies n b p) (hne : n ≠ m) : (F.delete m).Lies n b p := by
  obtain ⟨it, hit, hino, hrest⟩ := h
  exact ⟨it, List.mem_filter.2 ⟨hit, by simp [hino, hne]⟩, hino, hrest⟩

theorem Keeps.delete (h : F.Keeps n c) (hne : n ≠ m) : (F.delete m).Keeps n c := by
  obtain ⟨it, hit, hino, hfile⟩ := h
  exact ⟨it, List.mem_filter.2 ⟨hit, by simp [hino, hne]⟩, hino, hfile⟩

theorem mem_delete : it ∈ (F.delete m).items ↔ it ∈ F.items ∧ it.ino ≠ m := by
  unfold delete keep
  rw [List.mem_filter]
  simp

end Folder

end Lib

import ArchHub.Update.Entries

/-!
# What a cleanup goes by

Before anything is moved the journal names it, and it is rewritten only when what it does not
name any more is back or gone.  What an operation under way goes by (`Sound`) is the part of
the journal that it has still to work off: an entry is home, or its row is still owed.

* `Core`: what every careful run keeps of folder, journal and events.
* `Core.restored`, `Core.staged`, `Core.cleared`, `Core.deleteItem`: what each change of the
  folder keeps, and what is owed after it.
-/

namespace ArchHub.Update.Cleanup

open Lib Service Folder List

variable {host : Host} {F₀ G : Folder File} {s : State} {e : Entry} {row : Row} {rows : List Row}
  {F : Folder File} {p : Path} {it : Item File} {x : Event} {answer : Option Answer} {q d : Path}
  {todo pending : List Row} {log : List Event} {n : ℕ} {items : List (Item File)}

/-! ## What is kept -/

/-- The rows name paths that are cleaned up. -/
def Cleanables (host : Host) (rows : List Row) : Prop := ∀ row ∈ rows, Cleanable host row.path

/-- What every careful run keeps of folder, journal and events. -/
structure Core (host : Host) (F₀ : Folder File) (s : State) : Prop where
  rows : ∀ rows, s.journal = some rows → Cleanables host rows
  entries : ∀ e, Event.staged e ∈ s.log → Cleanable host e.path ∧ e.Plain
  placed : ∀ e, Event.staged e ∈ s.log → At s.folder s.log [] e ∨
    (At s.folder s.log [cleanupStage] e ∧ s.Names e.path)
  kept : ∀ n file, F₀.Keeps n file ∨ Event.appeared n file ∈ s.log →
    s.folder.Keeps n file ∨ Gone s.log n
  deleted : Warranted (fun before x => ∀ p n, x = .deleted p n →
    latest Event.op before = some (.finish true) ∧ identified p = true ∧
      ∃ seen, latest (Event.seenAt p) before = some seen ∧ (∃ it ∈ seen, it.ino = n) ∧
        ∀ it ∈ seen, it.file.isSome → harmless it = true) s.log

/-- Every entry is home, or its row is still to be worked off. -/
def State.Owed (s : State) (rows : List Row) : Prop :=
  ∀ e, Event.staged e ∈ s.log → At s.folder s.log [] e ∨ ∃ row ∈ rows, row.path = e.path

/-- Every entry is home, or was staged just now; the journal names what was. -/
def State.Laid (s : State) (staged : List Row) : Prop :=
  (∀ row ∈ staged, s.Names row.path) ∧ ∀ e, Event.staged e ∈ s.log →
    At s.folder s.log [] e ∨ ((∃ row ∈ staged, row.path = e.path) ∧ Anchored s.folder e.path)

/-- What is still to be deleted of an entry was looked at. -/
def State.Deleting (s : State) (row : Row) (items : List (Item File)) : Prop :=
  identified row.path = true ∧
    (∃ seen, latest (Event.seenAt row.path) s.log = some seen ∧ items ⊆ seen ∧
      ∀ it ∈ seen, it.file.isSome → harmless it = true) ∧
    ∀ it ∈ s.folder.items, stagedPath row.path <+: it.path → it ∈ items

/-- What the answer of an operation says before the staging folder is cleared. -/
def State.Settled (s : State) : Option Answer → Prop
  | none => s.AllHome ∧ s.journal = none
  | some (.staged staged _) => s.Laid staged
  | some _ => s.AllHome

/-- What an operation under way goes by. -/
def Sound (host : Host) (s : State) : Phase → Prop
  | .restore st => Cleanables host (st.todo ++ st.pending) ∧ s.Owed (st.todo ++ st.pending)
  | .restoreDir row st => Cleanables host (row :: (st.todo ++ st.pending)) ∧
      s.Owed (row :: (st.todo ++ st.pending))
  | .restoreRename row st => Cleanables host (row :: (st.todo ++ st.pending)) ∧
      s.Owed (row :: (st.todo ++ st.pending))
  | .clear dirs answer => (∀ d ∈ dirs, [cleanupStage] <+: d) ∧ s.Settled answer
  | .list => s.AllHome ∧ s.journal = none
  | .stage st => (∀ p ∈ st.todo, Cleanable host p) ∧ Cleanables host st.staged ∧ s.Laid st.staged
  | .stageDir row st => (∀ p ∈ st.todo, Cleanable host p) ∧ Cleanables host (st.staged ++ [row]) ∧
      s.Laid st.staged
  | .stageJournal row st => (∀ p ∈ st.todo, Cleanable host p) ∧
      Cleanables host (st.staged ++ [row]) ∧ s.Laid st.staged
  | .stageRename row st => (∀ p ∈ st.todo, Cleanable host p) ∧
      Cleanables host (st.staged ++ [row]) ∧ s.Laid st.staged ∧ s.Names row.path
  | .finish st => Cleanables host (st.todo ++ st.pending) ∧ s.Owed (st.todo ++ st.pending) ∧
      latest Event.op s.log = some (.finish true)
  | .delete row items st => Cleanables host (row :: (st.todo ++ st.pending)) ∧
      s.Owed (row :: (st.todo ++ st.pending)) ∧ latest Event.op s.log = some (.finish true) ∧
      s.Deleting row items

/-- What every careful run keeps. -/
structure Kept (host : Host) (F₀ : Folder File) (s : State) : Prop where
  core : Core host F₀ s
  restored : ∀ paths, s.answer = some (.restored paths false) → s.AllHome
  sound : ∀ phase, s.phase = some phase → Sound host s phase

theorem Kept.promised (h : Kept host F₀ s) : Promised F₀ s :=
  ⟨h.core.placed, h.restored, h.core.kept, h.core.deleted⟩

/-! ## Where a step leads -/

/-- An operation goes on. -/
theorem Core.goto {phase : Phase} (h : Core host F₀ s) (hs : Sound host s phase) :
    Kept host F₀ (s.goto phase) where
  core := ⟨h.rows, h.entries, h.placed, h.kept, h.deleted⟩
  restored paths ha := by cases ha
  sound phase' hp := by
    cases hp
    cases phase with
    | _ => exact hs

/-- An operation ends. -/
theorem Core.done {a : Answer} (h : Core host F₀ s)
    (ha : ∀ paths, a = .restored paths false → s.AllHome) : Kept host F₀ (s.done a) where
  core := ⟨h.rows, h.entries, h.placed, h.kept, h.deleted⟩
  restored paths hp := ha paths (Option.some.inj hp)
  sound phase hp := by cases hp

theorem Core.raised (h : Core host F₀ s) : Kept host F₀ (s.done .raised) :=
  h.done fun paths heq => by cases heq

/-! ## What a change of the folder keeps -/

/-- A folder in which each entry is where it was or where it belongs, and no file is missing. -/
theorem Core.folder (h : Core host F₀ s)
    (hplaced : ∀ e, Event.staged e ∈ s.log → At G s.log [] e ∨
      (At G s.log [cleanupStage] e ∧ s.Names e.path))
    (hkeeps : ∀ n file, s.folder.Keeps n file → G.Keeps n file) :
    Core host F₀ { s with folder := G } where
  rows := h.rows
  entries := h.entries
  placed := hplaced
  kept n file hold := (h.kept n file hold).imp_left (hkeeps n file)
  deleted := h.deleted

theorem Core.extends (h : Core host F₀ s) (hext : Extends s.folder G) :
    Core host F₀ { s with folder := G } :=
  h.folder (fun e he => (h.placed e he).imp (fun ha => ha.extends hext)
    fun ha => ⟨ha.1.extends hext, ha.2⟩) fun _ _ hk => hext.keeps hk

theorem State.Owed.extends (h : s.Owed rows) (hext : Extends s.folder G) :
    State.Owed { s with folder := G } rows :=
  fun e he => (h e he).imp_left fun ha => ha.extends hext

theorem State.Laid.extends (h : s.Laid rows) (hext : Extends s.folder G) :
    State.Laid { s with folder := G } rows :=
  ⟨h.1, fun e he => (h.2 e he).imp (fun ha => ha.extends hext) fun ha => ⟨ha.1, ha.2.extends hext⟩⟩

/-- The journal may be replaced by one that names what is not home. -/
theorem Core.rejournal {journal : Option (List Row)} (h : Core host F₀ s)
    (hrows : ∀ rows, journal = some rows → Cleanables host rows)
    (howed : ∀ e, Event.staged e ∈ s.log → At s.folder s.log [] e ∨
      ∃ rows, journal = some rows ∧ ∃ row ∈ rows, row.path = e.path) :
    Core host F₀ { s with journal := journal } where
  rows := hrows
  entries := h.entries
  placed e he := by
    rcases h.placed e he with hhome | ⟨hstaged, -⟩
    · exact .inl hhome
    · exact (howed e he).imp_right fun hnamed => ⟨hstaged, hnamed⟩
  kept := h.kept
  deleted := h.deleted

theorem extends_mkdirParents (F : Folder File) (p : Path) (fails : Bool) (made : ℕ) :
    Extends F (mkdirParents F p fails made).1 := by
  unfold mkdirParents
  split
  · exact extends_mkdirs F _
  · exact extends_mkdirs F _

/-- A careful rename moves what it renames to a free path. -/
theorem rename_eq_some (h : rename host F p q = some G)
    (hq : (host.windows || !F.hasItem q) = true) :
    ∃ hfree : F.free p q = true, G = F.move p q hfree := by
  unfold rename at h
  split at h
  · cases h
  · split at h
    · rename_i hfree
      cases h
      exact ⟨F.free_of_hasItem hfree p, rfl⟩
    · rename_i hthere
      have hwindows : host.windows = true := by
        rw [Bool.not_eq_false] at hthere
        rw [hthere] at hq
        simpa using hq
      rw [if_pos hwindows] at h
      cases h

/-! ## Restoring -/

/-- An entry whose row was restored is home; the others are where they were. -/
theorem Core.restored {hfree : s.folder.free (stagedPath row.path) row.path = true}
    (h : Core host F₀ s) (hrow : Cleanable host row.path) :
    Core host F₀ { s with folder := s.folder.move (stagedPath row.path) row.path hfree } := by
  refine h.folder (fun e he => ?_) fun _ _ hk => hk.move hfree
  have hentry := (h.entries e he).1
  rcases h.placed e he with hhome | ⟨hstaged, hnames⟩
  · exact .inl (hhome.move_home hfree fun rest => not_stagedPath_prefix hentry)
  · by_cases hpath : row.path = e.path
    · exact .inl (hstaged.restore hpath hfree)
    · refine .inr ⟨hstaged.move_apart hfree fun rest hpre => hpath ?_, hnames⟩
      exact hrow.eq_of_prefix hentry (List.cons_prefix_cons.1 hpre).2

theorem State.Owed.restored {hfree : s.folder.free (stagedPath row.path) row.path = true}
    (h : Core host F₀ s) (howed : s.Owed (row :: rows)) :
    State.Owed { s with folder := s.folder.move (stagedPath row.path) row.path hfree } rows := by
  intro e he
  have hmoved : At s.folder s.log [] e →
      At (s.folder.move (stagedPath row.path) row.path hfree) s.log [] e := fun hhome =>
    hhome.move_home hfree fun rest => not_stagedPath_prefix (h.entries e he).1
  rcases h.placed e he with hhome | ⟨hstaged, -⟩
  · exact .inl (hmoved hhome)
  · rcases howed e he with hhome | ⟨x, hx, hpath⟩
    · exact .inl (hmoved hhome)
    · rcases List.mem_cons.1 hx with rfl | hmem
      · exact .inl (hstaged.restore hpath hfree)
      · exact .inr ⟨x, hmem, hpath⟩

/-- A row may be put at the end of the pending ones. -/
theorem State.Owed.later (h : s.Owed (row :: (todo ++ pending))) :
    s.Owed (todo ++ (pending ++ [row])) := by
  intro e he
  refine (h e he).imp_right ?_
  rintro ⟨x, hx, hpath⟩
  refine ⟨x, ?_, hpath⟩
  simp only [mem_cons, mem_append, not_mem_nil, or_false] at hx ⊢
  tauto

theorem Cleanables.later (h : Cleanables host (row :: (todo ++ pending))) :
    Cleanables host (todo ++ (pending ++ [row])) := by
  intro x hx
  refine h x ?_
  simp only [mem_cons, mem_append, not_mem_nil, or_false] at hx ⊢
  tauto

theorem Cleanables.tail (h : Cleanables host (row :: rows)) : Cleanables host rows :=
  fun x hx => h x (mem_cons_of_mem row hx)

/-- A row whose staged path is empty is not owed. -/
theorem State.Owed.absent (h : Core host F₀ s) (howed : s.Owed (row :: rows))
    (habsent : s.folder.hasItem (stagedPath row.path) = false) : s.Owed rows := by
  intro e he
  rcases howed e he with hhome | ⟨x, hx, hpath⟩
  · exact .inl hhome
  · rcases List.mem_cons.1 hx with rfl | hmem
    · rcases h.placed e he with hhome | ⟨hstaged, -⟩
      · exact .inl hhome
      · exact .inl (hstaged.home_of_absent (hpath ▸ habsent))
    · exact .inr ⟨x, hmem, hpath⟩

theorem State.Owed.home (h : s.Owed []) : s.AllHome := by
  intro e he
  rcases h e he with hhome | ⟨x, hx, -⟩
  · exact hhome
  · cases hx

theorem mem_deepestFirst {xs : List (Item File)} :
    it ∈ deepestFirst xs ↔ it ∈ xs := (perm_insertionSort _ xs).mem_iff

theorem stageDirs_staged (F : Folder File) : ∀ d ∈ stageDirs F, [cleanupStage] <+: d := by
  intro d hd
  obtain ⟨it, hit, rfl⟩ := List.mem_map.1 hd
  have hcond := of_decide_eq_true (List.mem_filter.1 (mem_deepestFirst.1 hit)).2
  exact hcond.1

/-- The end of a restore. -/
theorem Kept.restoreEnd {i : Reading} {st : Restoring} (h : Core host F₀ s)
    (hrows : Cleanables host st.pending) (howed : s.Owed st.pending) :
    Kept host F₀ (restoreEnd s i st) := by
  unfold Cleanup.restoreEnd
  split
  · exact h.raised
  · split
    · have hcore : Core host F₀ { s with journal := some st.pending } :=
        h.rejournal (fun rows heq => Option.some.inj heq ▸ hrows) fun e he =>
          (howed e he).imp_right fun hx => ⟨st.pending, rfl, hx⟩
      simp only
      split
      · exact hcore.done fun paths heq => by cases heq
      · exact hcore.done fun paths heq => by cases heq
    · rename_i hpending
      have hhome : s.AllHome := State.Owed.home (by rwa [not_not.1 hpending] at howed)
      have hcore : Core host F₀ { s with journal := none } :=
        h.rejournal (fun rows heq => by cases heq) fun e he => .inl (hhome e he)
      refine hcore.goto ⟨stageDirs_staged s.folder, ?_⟩
      split
      · exact ⟨hhome, rfl⟩
      · exact hhome

/-! ## Staging -/

/-- A file lies in an entry that has one. -/
theorem exists_of_entryFiles (h : entryFiles F p ≠ []) :
    ∃ it ∈ F.items, p <+: it.path ∧ it.file.isSome = true := by
  obtain ⟨it, hit⟩ := exists_mem_of_ne_nil _ h
  obtain ⟨hmem, hcond⟩ := List.mem_filter.1 hit
  exact ⟨it, hmem, of_decide_eq_true hcond⟩

theorem anchored_move (h : entryFiles F p ≠ []) (hfree : F.free p (stagedPath p) = true) :
    Anchored (F.move p (stagedPath p) hfree) p := by
  obtain ⟨it, hit, hpre, hfile⟩ := exists_of_entryFiles h
  refine ⟨moveItem p (stagedPath p) it, mem_map_of_mem hit, ?_, ?_⟩
  · unfold moveItem
    rw [if_pos hpre]
    exact prefix_append _ _
  · rw [file_moveItem]
    exact hfile

theorem Anchored.move_apart {r : Path} (h : Anchored F p) (hq : Cleanable host q)
    (hfree : F.free q r = true) : Anchored (F.move q r hfree) p := by
  obtain ⟨it, hit, hpre, hfile⟩ := h
  have hapart : ¬q <+: it.path := by
    obtain ⟨tail, htail⟩ := hpre
    rw [← htail]
    intro hq'
    exact not_prefix_stagedPath (q := p ++ tail) hq hq'
  refine ⟨moveItem q r it, mem_map_of_mem hit, ?_, ?_⟩
  · unfold moveItem
    rw [if_neg hapart]
    exact hpre
  · rw [file_moveItem]
    exact hfile

/-- The state after an entry was staged. -/
def State.stageAs (s : State) (p : Path) (G : Folder File) : State :=
  { s with folder := G, log := s.log ++ [Event.staged (entryAt s.folder p)] }

theorem mem_concat_staged (h : Event.staged e ∈ log ++ [x]) (hx : ∀ e, x ≠ .staged e) :
    Event.staged e ∈ log := by
  rcases List.mem_append.1 h with hmem | hlast
  · exact hmem
  · exact absurd (List.mem_singleton.1 hlast).symm (hx e)

theorem mem_concat_appeared {file : File} (h : Event.appeared n file ∈ log ++ [x])
    (hx : x ≠ .appeared n file) : Event.appeared n file ∈ log := by
  rcases List.mem_append.1 h with hmem | hlast
  · exact hmem
  · exact absurd (List.mem_singleton.1 hlast).symm hx

/-- An entry that is staged was at its original path. -/
theorem Core.at_of_path (h : Core host F₀ s) (hp : Cleanable host p)
    (hfree : s.folder.free p (stagedPath p) = true) (he : Event.staged e ∈ s.log) :
    At (s.folder.move p (stagedPath p) hfree) s.log [] e ∨
      (At (s.folder.move p (stagedPath p) hfree) s.log [cleanupStage] e ∧
        (p = e.path ∨ s.Names e.path)) := by
  have hentry := (h.entries e he).1
  rcases h.placed e he with hhome | ⟨hstaged, hnames⟩
  · by_cases hpath : p = e.path
    · exact .inr ⟨hhome.stage hpath hfree, .inl hpath⟩
    · exact .inl (hhome.move_home hfree fun rest hpre => hpath (hp.eq_of_prefix hentry hpre))
  · refine .inr ⟨hstaged.move_apart hfree fun rest hpre => ?_, .inr hnames⟩
    exact not_prefix_stagedPath (q := e.path ++ rest) hp hpre

theorem Core.staged (h : Core host F₀ s) (hp : Cleanable host p)
    (hfree : s.folder.free p (stagedPath p) = true) (hnames : s.Names p) :
    Core host F₀ (s.stageAs p (s.folder.move p (stagedPath p) hfree)) where
  rows := h.rows
  entries e he := by
    rcases List.mem_append.1 he with hmem | hlast
    · exact h.entries e hmem
    · cases List.mem_singleton.1 hlast
      exact ⟨hp, plain_entryAt s.folder p⟩
  placed e he := by
    rcases List.mem_append.1 he with hmem | hlast
    · rcases h.at_of_path hp hfree hmem with hhome | ⟨hstaged, hpath | hnamed⟩
      · exact .inl (hhome.append _)
      · exact .inr ⟨hstaged.append _, hpath ▸ hnames⟩
      · exact .inr ⟨hstaged.append _, hnamed⟩
    · cases List.mem_singleton.1 hlast
      exact .inr ⟨((at_entryAt s.folder s.log p).stage rfl hfree).append _, hnames⟩
  kept n file hold := by
    have hbefore : F₀.Keeps n file ∨ Event.appeared n file ∈ s.log :=
      hold.imp_right fun hmem => mem_concat_appeared hmem fun heq => by cases heq
    exact (h.kept n file hbefore).imp (fun hk => hk.move hfree) fun hg => hg.append _
  deleted := h.deleted.concat fun p n heq => by cases heq

theorem State.Laid.staged (h : Core host F₀ s) (hlaid : s.Laid rows)
    (hrow : Cleanable host row.path)
    (hfree : s.folder.free row.path (stagedPath row.path) = true) (hnames : s.Names row.path)
    (hfiles : entryFiles s.folder row.path ≠ []) :
    (s.stageAs row.path (s.folder.move row.path (stagedPath row.path) hfree)).Laid
      (rows ++ [row]) := by
  refine ⟨fun x hx => ?_, fun e he => ?_⟩
  · rcases List.mem_append.1 hx with hmem | hlast
    · exact hlaid.1 x hmem
    · rw [List.mem_singleton.1 hlast]
      exact hnames
  · by_cases hpath : row.path = e.path
    · refine .inr ⟨⟨row, mem_append_right rows mem_cons_self, hpath⟩, ?_⟩
      rw [← hpath]
      exact anchored_move hfiles hfree
    · have hmem : Event.staged e ∈ s.log := by
        rcases List.mem_append.1 he with hmem | hlast
        · exact hmem
        · cases List.mem_singleton.1 hlast
          exact absurd rfl hpath
      rcases hlaid.2 e hmem with hhome | ⟨⟨x, hx, hxpath⟩, hanchor⟩
      · refine .inl ((hhome.move_home hfree fun rest hpre => hpath ?_).append _)
        exact hrow.eq_of_prefix (h.entries e hmem).1 hpre
      · exact .inr ⟨⟨x, mem_append_left [row] hx, hxpath⟩, hanchor.move_apart hrow hfree⟩

/-! ## Clearing the staging folder -/

/-- Every entry is home, or has a file in it. -/
theorem State.Settled.laid (h : s.Settled answer) :
    ∀ e, Event.staged e ∈ s.log → At s.folder s.log [] e ∨ Anchored s.folder e.path := by
  intro e he
  cases answer with
  | none => exact .inl (h.1 e he)
  | some a =>
      cases a with
      | staged rows skipped => exact (h.2 e he).imp_right fun ha => ha.2
      | restored paths pending => exact .inl (h e he)
      | removed rows pending => exact .inl (h e he)
      | raised => exact .inl (h e he)

theorem Core.cleared (h : Core host F₀ s) (hsettled : s.Settled answer)
    (hd : [cleanupStage] <+: d) : Core host F₀ { s with folder := s.folder.rmdir d } := by
  refine h.folder (fun e he => ?_) fun _ _ hk => hk.rmdir
  obtain ⟨hentry, hplain⟩ := h.entries e he
  rcases h.placed e he with hhome | ⟨hstaged, hnames⟩
  · exact .inl (hhome.rmdir_home hentry hd)
  · rcases hsettled.laid e he with hhome | hanchor
    · exact .inl (hhome.rmdir_home hentry hd)
    · exact .inr ⟨hstaged.rmdir_staged hplain hanchor, hnames⟩

theorem State.Settled.cleared (h : Core host F₀ s) (hsettled : s.Settled answer)
    (hd : [cleanupStage] <+: d) : State.Settled { s with folder := s.folder.rmdir d } answer := by
  have hhome : s.AllHome → State.AllHome { s with folder := s.folder.rmdir d } :=
    fun hall e he => (hall e he).rmdir_home (h.entries e he).1 hd
  cases answer with
  | none => exact ⟨hhome hsettled.1, hsettled.2⟩
  | some a =>
      cases a with
      | staged rows skipped =>
          refine ⟨hsettled.1, fun e he => ?_⟩
          exact (hsettled.2 e he).imp (fun ha => ha.rmdir_home (h.entries e he).1 hd)
            fun ha => ⟨ha.1, ha.2.rmdir⟩
      | restored paths pending => exact hhome hsettled
      | removed rows pending => exact hhome hsettled
      | raised => exact hhome hsettled

/-! ## Deleting -/

/-- The state after an item of an entry was deleted. -/
def State.deleteAs (s : State) (p : Path) (n : ℕ) : State :=
  { s with folder := s.folder.delete n, log := s.log ++ [Event.deleted p n] }

theorem Core.deleteItem (h : Core host F₀ s) (hop : latest Event.op s.log = some (.finish true))
    (hd : s.Deleting row (it :: items)) :
    Core host F₀ (s.deleteAs row.path it.ino) where
  rows := h.rows
  entries e he := h.entries e (mem_concat_staged he fun e heq => by cases heq)
  placed e he := by
    have hmem := mem_concat_staged he fun e heq => by cases heq
    exact (h.placed e hmem).imp (fun ha => ha.delete row.path)
      fun ha => ⟨ha.1.delete row.path, ha.2⟩
  kept n file hold := by
    have hbefore : F₀.Keeps n file ∨ Event.appeared n file ∈ s.log :=
      hold.imp_right fun hmem => mem_concat_appeared hmem fun heq => by cases heq
    rcases h.kept n file hbefore with hk | hg
    · by_cases hn : n = it.ino
      · exact .inr ⟨row.path, mem_append_right _ (hn ▸ mem_singleton_self _)⟩
      · exact .inl (hk.delete hn)
    · exact .inr (hg.append _)
  deleted := by
    refine h.deleted.concat ?_
    rintro p n ⟨⟩
    obtain ⟨hid, ⟨seen, hseen, hsub, hharmless⟩, -⟩ := hd
    exact ⟨hop, hid, seen, hseen, ⟨it, hsub mem_cons_self, rfl⟩, hharmless⟩

theorem State.Owed.deleteItem (h : s.Owed rows) : (s.deleteAs p n).Owed rows := by
  intro e he
  have hmem := mem_concat_staged he fun e heq => by cases heq
  exact (h e hmem).imp_left fun ha => ha.delete p

theorem State.Deleting.deleteItem (h : s.Deleting row (it :: items)) :
    (s.deleteAs row.path it.ino).Deleting row items := by
  obtain ⟨hid, ⟨seen, hseen, hsub, hharmless⟩, hall⟩ := h
  refine ⟨hid, ⟨seen, ?_, fun x hx => hsub (mem_cons_of_mem it hx), hharmless⟩, ?_⟩
  · exact (latest_concat_none rfl).trans hseen
  · intro x hx hpre
    obtain ⟨hmem, hne⟩ := mem_delete.1 hx
    rcases List.mem_cons.1 (hall x hmem hpre) with rfl | hrest
    · exact absurd rfl hne
    · exact hrest

/-- When everything was deleted that was looked at, nothing is left of the entry. -/
theorem State.Deleting.absent (h : s.Deleting row []) :
    s.folder.hasItem (stagedPath row.path) = false := by
  by_contra hthere
  obtain ⟨it, hit, hpre⟩ := hasItem_iff.1 (Bool.not_eq_false _ ▸ hthere)
  cases h.2.2 it hit hpre

/-! ## Events that change nothing -/

theorem Core.note (h : Core host F₀ s) (hstaged : ∀ e, x ≠ .staged e)
    (happeared : ∀ n file, x ≠ .appeared n file) (hdeleted : ∀ p n, x ≠ .deleted p n) :
    Core host F₀ { s with log := s.log ++ [x] } where
  rows := h.rows
  entries e he := h.entries e (mem_concat_staged he hstaged)
  placed e he := (h.placed e (mem_concat_staged he hstaged)).imp (fun ha => ha.append _)
    fun ha => ⟨ha.1.append _, ha.2⟩
  kept n file hold := by
    have hbefore : F₀.Keeps n file ∨ Event.appeared n file ∈ s.log :=
      hold.imp_right fun hmem => mem_concat_appeared hmem (happeared n file)
    exact (h.kept n file hbefore).imp_right fun hg => hg.append _
  deleted := h.deleted.concat fun p n heq => absurd heq (hdeleted p n)

theorem State.Owed.note (h : s.Owed rows) (hstaged : ∀ e, x ≠ .staged e) :
    State.Owed { s with log := s.log ++ [x] } rows :=
  fun e he => (h e (mem_concat_staged he hstaged)).imp_left fun ha => ha.append _

end ArchHub.Update.Cleanup

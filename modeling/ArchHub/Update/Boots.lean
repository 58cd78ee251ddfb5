import ArchHub.Update.Tidy

/-!
# Nothing is lost in a cleanup

* `Kept.step`: one step of an operation, a crash, or a file that appears.
* `tidied_of_run`: the promise holds in every careful run.
* `not_tidied_emptyCache`: it does not hold in every run.
-/

namespace ArchHub.Update.Cleanup

open Lib Service Folder List

variable {host : Host} {F₀ G : Folder File} {s : State} {e : Entry} {row : Row} {rows : List Row}
  {st : Staging} {phase : Phase} {p d : Path}

/-! ## One step -/

section Steps

variable {i : Reading}

/-- One row of `restore_app_folder`. -/
theorem Core.restoreStep {st : Restoring} (h : Core host F₀ s)
    (hs : Sound host s (.restore st)) : Kept host F₀ (advance host i s (.restore st)) := by
  obtain ⟨staging, todo, restored, pending⟩ := st
  obtain ⟨hrows, howed⟩ := hs
  cases todo with
  | nil => exact Kept.restoreEnd h hrows howed
  | cons row todo =>
      simp only [advance]
      split
      · exact h.raised
      · split
        · rename_i habsent
          rw [Bool.not_eq_true'] at habsent
          exact h.goto ⟨hrows.tail, howed.absent h habsent⟩
        · split
          · exact h.goto ⟨hrows.later, howed.later⟩
          · exact h.goto ⟨hrows, howed⟩

theorem Core.restoreDirStep {st : Restoring} (h : Core host F₀ s)
    (hs : Sound host s (.restoreDir row st)) :
    Kept host F₀ (advance host i s (.restoreDir row st)) := by
  obtain ⟨hrows, howed⟩ := hs
  have hext := extends_mkdirParents s.folder row.path i.fails i.made
  simp only [advance]
  refine (h.extends hext).goto ?_
  split
  · exact ⟨hrows, howed.extends hext⟩
  · exact ⟨hrows.later, (howed.extends hext).later⟩

theorem Core.restoreRenameStep {st : Restoring} (h : Core host F₀ s)
    (hs : Sound host s (.restoreRename row st))
    (hc : (host.windows || !s.folder.hasItem row.path) = true) :
    Kept host F₀ (advance host i s (.restoreRename row st)) := by
  obtain ⟨hrows, howed⟩ := hs
  simp only [advance]
  split
  · exact h.goto ⟨hrows.later, howed.later⟩
  · rename_i G hrename
    split at hrename
    · cases hrename
    · obtain ⟨hfree, rfl⟩ := rename_eq_some hrename hc
      exact (h.restored (hrows row mem_cons_self)).goto ⟨hrows.tail, howed.restored h⟩

theorem Core.clearStep {dirs : List Path} {answer : Option Answer} (h : Core host F₀ s)
    (hs : Sound host s (.clear dirs answer)) :
    Kept host F₀ (advance host i s (.clear dirs answer)) := by
  obtain ⟨hdirs, hsettled⟩ := hs
  cases dirs with
  | nil =>
      cases answer with
      | none => exact h.goto hsettled
      | some a =>
          refine h.done fun paths heq => ?_
          subst heq
          exact hsettled
  | cons d dirs =>
      have hd := hdirs d mem_cons_self
      have hrest : ∀ d ∈ dirs, [cleanupStage] <+: d :=
        fun x hx => hdirs x (mem_cons_of_mem d hx)
      simp only [advance]
      split
      · exact h.goto ⟨hrest, hsettled⟩
      · exact (h.cleared hsettled hd).goto ⟨hrest, hsettled.cleared h hd⟩

/-- What is to be staged with one more row. -/
theorem Cleanables.concat (h : Cleanables host rows) (hrow : Cleanable host row.path) :
    Cleanables host (rows ++ [row]) := by
  intro x hx
  rcases List.mem_append.1 hx with hmem | hlast
  · exact h x hmem
  · rw [List.mem_singleton.1 hlast]
    exact hrow

/-- One path of `stage_app_folder`. -/
theorem Core.stageStep (h : Core host F₀ s) (hs : Sound host s (.stage st)) :
    Kept host F₀ (advance host i s (.stage st)) := by
  obtain ⟨todo, staged, skipped⟩ := st
  obtain ⟨hpaths, hrows, hlaid⟩ := hs
  cases todo with
  | nil =>
      simp only [advance]
      split
      · exact h.raised
      · have hnames : ∀ e, Event.staged e ∈ s.log → At s.folder s.log [] e ∨
            ∃ rows, (if staged ≠ [] then some staged else none) = some rows ∧
              ∃ row ∈ rows, row.path = e.path := by
          intro e he
          refine (hlaid.2 e he).imp_right fun ⟨⟨x, hx, hpath⟩, _⟩ => ⟨staged, ?_, x, hx, hpath⟩
          rw [if_pos (ne_nil_of_mem hx)]
        have hjournal : ∀ rows, (if staged ≠ [] then some staged else none) = some rows →
            Cleanables host rows := by
          intro rows heq
          split at heq
          · exact Option.some.inj heq ▸ hrows
          · cases heq
        refine (h.rejournal hjournal hnames).goto ⟨stageDirs_staged s.folder, ?_, hlaid.2⟩
        intro x hx
        exact ⟨staged, if_pos (ne_nil_of_mem hx), x, hx, rfl⟩
  | cons p todo =>
      have hp := hpaths p mem_cons_self
      have hrest : ∀ x ∈ todo, Cleanable host x := fun x hx => hpaths x (mem_cons_of_mem p hx)
      simp only [advance]
      split
      · exact h.goto ⟨hrest, hrows.concat hp, hlaid⟩
      · exact h.goto ⟨hrest, hrows, hlaid⟩

theorem Cleanables.init (h : Cleanables host (rows ++ [row])) : Cleanables host rows :=
  fun x hx => h x (mem_append_left [row] hx)

theorem Cleanables.last (h : Cleanables host (rows ++ [row])) : Cleanable host row.path :=
  h row (mem_append_right rows mem_cons_self)

theorem Core.stageDirStep (h : Core host F₀ s) (hs : Sound host s (.stageDir row st)) :
    Kept host F₀ (advance host i s (.stageDir row st)) := by
  obtain ⟨hpaths, hrows, hlaid⟩ := hs
  have hext := extends_mkdirParents s.folder (stagedPath row.path) i.fails i.made
  simp only [advance]
  refine (h.extends hext).goto ?_
  split
  · exact ⟨hpaths, hrows, hlaid.extends hext⟩
  · exact ⟨hpaths, hrows.init, hlaid.extends hext⟩

theorem Core.stageJournalStep (h : Core host F₀ s) (hs : Sound host s (.stageJournal row st)) :
    Kept host F₀ (advance host i s (.stageJournal row st)) := by
  obtain ⟨hpaths, hrows, hlaid⟩ := hs
  simp only [advance]
  split
  · exact h.goto ⟨hpaths, hrows.init, hlaid⟩
  · have hnames : ∀ x ∈ st.staged ++ [row],
        State.Names { s with journal := some (st.staged ++ [row]) } x.path :=
      fun x hx => ⟨_, rfl, x, hx, rfl⟩
    have hcore : Core host F₀ { s with journal := some (st.staged ++ [row]) } := by
      refine h.rejournal (fun rows heq => Option.some.inj heq ▸ hrows) fun e he => ?_
      refine (hlaid.2 e he).imp_right fun ⟨⟨x, hx, hpath⟩, _⟩ => ?_
      exact ⟨_, rfl, x, mem_append_left [row] hx, hpath⟩
    refine hcore.goto ⟨hpaths, hrows, ⟨fun x hx => ?_, hlaid.2⟩, ?_⟩
    · exact hnames x (mem_append_left [row] hx)
    · exact hnames row (mem_append_right st.staged mem_cons_self)

theorem Core.stageRenameStep (h : Core host F₀ s) (hs : Sound host s (.stageRename row st))
    (hc : (host.windows || !s.folder.hasItem (stagedPath row.path)) = true)
    (hfiles : entryFiles s.folder row.path ≠ []) :
    Kept host F₀ (advance host i s (.stageRename row st)) := by
  obtain ⟨hpaths, hrows, hlaid, hnames⟩ := hs
  simp only [advance]
  split
  · exact h.goto ⟨hpaths, hrows.init, hlaid⟩
  · rename_i G hrename
    split at hrename
    · cases hrename
    · obtain ⟨hfree, rfl⟩ := rename_eq_some hrename hc
      exact (h.staged hrows.last hfree hnames).goto
        ⟨hpaths, hrows, hlaid.staged h hrows.last hfree hnames hfiles⟩

/-- What a row that was removed leaves to be done. -/
theorem Finishing.remove_sound {st : Finishing} {fails : Bool}
    (hrows : Cleanables host (row :: (st.todo ++ st.pending)))
    (howed : s.Owed (row :: (st.todo ++ st.pending))) (hrest : s.Owed (st.todo ++ st.pending))
    (hop : latest Event.op s.log = some (.finish true)) :
    Sound host s (.finish (st.remove row fails)) := by
  unfold Finishing.remove
  split
  · exact ⟨hrows.later, howed.later, hop⟩
  · exact ⟨hrows.tail, hrest, hop⟩

/-- The look at an entry. -/
theorem State.deleting_of_check (hid : identified row.path = true)
    (hcheck : (entryFiles s.folder (stagedPath row.path)).all harmless = true) :
    State.Deleting
      { s with log := s.log ++ [Event.checked row.path (entryItems s.folder row.path)] } row
      (entryItems s.folder row.path) := by
  refine ⟨hid, ⟨entryItems s.folder row.path, latest_concat_some (if_pos rfl), fun x hx => hx,
    fun it hit hfile => ?_⟩, fun it hit hpre => ?_⟩
  · obtain ⟨hmem, hcond⟩ := List.mem_filter.1 (mem_deepestFirst.1 hit)
    refine List.all_eq_true.1 hcheck it (List.mem_filter.2 ⟨hmem, decide_eq_true ⟨?_, hfile⟩⟩)
    exact of_decide_eq_true hcond
  · exact mem_deepestFirst.2 (List.mem_filter.2 ⟨hit, decide_eq_true hpre⟩)

/-- One row of `finish_app_folder`. -/
theorem Core.finishStep {st : Finishing} (h : Core host F₀ s) (hs : Sound host s (.finish st)) :
    Kept host F₀ (advance host i s (.finish st)) := by
  obtain ⟨todo, removed, pending⟩ := st
  obtain ⟨hrows, howed, hop⟩ := hs
  cases todo with
  | nil =>
      simp only [advance]
      split
      · exact h.raised
      · split
        · refine Core.done (h.rejournal (fun rows heq => Option.some.inj heq ▸ hrows) fun e he =>
            (howed e he).imp_right fun hx => ⟨pending, rfl, hx⟩) fun paths heq => by cases heq
        · rename_i hpending
          have hhome : s.AllHome := State.Owed.home (by
            have hnil : pending = [] := not_not.1 hpending
            subst hnil
            exact howed)
          exact (h.rejournal (fun rows heq => by cases heq) fun e he => .inl (hhome e he)).goto
            ⟨stageDirs_staged s.folder, hhome⟩
  | cons row todo =>
      simp only [advance]
      split
      · exact h.raised
      · split
        · exact h.goto ⟨hrows.later, howed.later, hop⟩
        · rename_i hid
          rw [Bool.not_eq_true', Bool.not_eq_false] at hid
          split
          · rename_i habsent
            rw [Bool.not_eq_true'] at habsent
            exact h.goto (Finishing.remove_sound hrows howed (howed.absent h habsent) hop)
          · have hnote := h.note (x := .checked row.path (entryItems s.folder row.path))
              (fun e heq => by cases heq) (fun n file heq => by cases heq)
              (fun p n heq => by cases heq)
            have howed' := howed.note (x := .checked row.path (entryItems s.folder row.path))
              (fun e heq => by cases heq)
            have hop' : latest Event.op
                (s.log ++ [.checked row.path (entryItems s.folder row.path)]) = some (.finish true) := (latest_concat_none rfl).trans hop
            refine hnote.goto ?_
            split
            · rename_i hcheck
              rw [Bool.and_eq_true, Bool.and_eq_true] at hcheck
              exact ⟨hrows, howed', hop', State.deleting_of_check hid hcheck.1.1⟩
            · exact ⟨hrows.later, howed'.later, hop'⟩

theorem Core.deleteStep {st : Finishing} {items : List (Item File)} (h : Core host F₀ s)
    (hs : Sound host s (.delete row items st)) :
    Kept host F₀ (advance host i s (.delete row items st)) := by
  obtain ⟨hrows, howed, hop, hdeleting⟩ := hs
  cases items with
  | nil =>
      exact h.goto (Finishing.remove_sound hrows howed (howed.absent h hdeleting.absent) hop)
  | cons it items =>
      simp only [advance]
      split
      · exact h.goto ⟨hrows.later, howed.later, hop⟩
      · have hop' : latest Event.op (s.log ++ [.deleted row.path it.ino]) = some (.finish true) :=
          (latest_concat_none rfl).trans hop
        exact (h.deleteItem hop hdeleting).goto
          ⟨hrows, howed.deleteItem, hop', hdeleting.deleteItem⟩

/-- **A careful step of an operation.** -/
theorem Kept.advance (h : Kept host F₀ s) (hp : s.phase = some phase)
    (hc : careful host s (.advance i) = true) : Kept host F₀ (advance host i s phase) := by
  have hs := h.sound phase hp
  unfold careful at hc
  rw [hp] at hc
  cases phase with
  | restore st => exact h.core.restoreStep hs
  | restoreDir row st => exact h.core.restoreDirStep hs
  | restoreRename row st => exact h.core.restoreRenameStep hs hc
  | clear dirs answer => exact h.core.clearStep hs
  | list =>
      have hnone : ∀ {P : Row → Prop}, ∀ x ∈ ([] : List Row), P x := by
        intro P x hx
        cases hx
      exact h.core.goto
        ⟨fun p hp => cleanable_of_mem hp, hnone, hnone, fun e he => .inl (hs.1 e he)⟩
  | stage st => exact h.core.stageStep hs
  | stageDir row st => exact h.core.stageDirStep hs
  | stageJournal row st => exact h.core.stageJournalStep hs
  | stageRename row st =>
      rw [Bool.and_eq_true, decide_eq_true_eq] at hc
      exact h.core.stageRenameStep hs hc.1 hc.2
  | finish st => exact h.core.finishStep hs
  | delete row items st => exact h.core.deleteStep hs

end Steps

/-! ## Crashes, and files that appear -/

theorem mem_parents (h : d ∈ parents p) : d <+: p := by
  have hinits := (mem_inits d p.dropLast).1 (mem_of_mem_filter h)
  exact hinits.trans ( dropLast_prefix p)

theorem ne_nil_of_mem_parents (h : d ∈ parents p) : d ≠ [] :=
  of_decide_eq_true (List.mem_filter.1 h).2

/-- With nothing in the journal every entry is home. -/
theorem Core.home (h : Core host F₀ s) (hjournal : s.journal = none) : s.AllHome := by
  intro e he
  rcases h.placed e he with hhome | ⟨-, rows, hrows, -⟩
  · exact hhome
  · rw [hjournal] at hrows
    cases hrows

/-- What the journal names is what is owed. -/
theorem Core.owed (h : Core host F₀ s) (hjournal : s.journal = some rows) :
    Cleanables host (rows ++ []) ∧ s.Owed (rows ++ []) := by
  rw [append_nil]
  refine ⟨h.rows rows hjournal, fun e he => (h.placed e he).imp_right ?_⟩
  rintro ⟨-, rows', hrows', hx⟩
  rw [hjournal] at hrows'
  cases hrows'
  exact hx

theorem Core.owed_reverse (h : Core host F₀ s) (hjournal : s.journal = some rows) :
    Cleanables host (rows.reverse ++ []) ∧ s.Owed (rows.reverse ++ []) := by
  obtain ⟨hrows, howed⟩ := h.owed hjournal
  rw [append_nil] at hrows howed ⊢
  refine ⟨fun x hx => hrows x (List.mem_reverse.1 hx), fun e he => (howed e he).imp_right ?_⟩
  rintro ⟨x, hx, hpath⟩
  exact ⟨x, List.mem_reverse.2 hx, hpath⟩

/-- An operation that begins goes by the journal. -/
theorem Kept.begin (h : Kept host F₀ s) (op : Op) : Kept host F₀ (begin s op) := by
  have hcore : Core host F₀ { s with log := s.log ++ [Event.began op] } :=
    h.core.note (fun e heq => by cases heq) (fun n file heq => by cases heq)
      (fun p n heq => by cases heq)
  obtain ⟨folder, journal, phase, answer, log⟩ := s
  cases journal with
  | none =>
      cases op with
      | restore => exact hcore.done fun _ _ => hcore.home rfl
      | stage => exact hcore.goto (show Sound host _ .list from ⟨hcore.home rfl, rfl⟩)
      | finish healthy =>
          cases healthy with
          | true => exact hcore.done fun paths heq => by cases heq
          | false => exact hcore.done fun _ _ => hcore.home rfl
  | some rows =>
      have hreverse := hcore.owed_reverse rfl
      cases op with
      | restore =>
          exact hcore.goto
            (show Sound host _ (.restore ⟨false, rows.reverse, [], []⟩) from hreverse)
      | stage =>
          exact hcore.goto (show Sound host _ (.restore ⟨true, rows.reverse, [], []⟩) from hreverse)
      | finish healthy =>
          cases healthy with
          | true =>
              obtain ⟨hrows, howed⟩ := hcore.owed rfl
              exact hcore.goto (show Sound host _ (.finish ⟨rows, [], []⟩) from
                ⟨hrows, howed, latest_concat_some rfl⟩)
          | false =>
              exact hcore.goto
                (show Sound host _ (.restore ⟨false, rows.reverse, [], []⟩) from hreverse)

/-- The state after a file appeared. -/
def State.appearAs (s : State) (G : Folder File) (n : ℕ) (file : File) : State :=
  { s with folder := G, answer := none, log := s.log ++ [Event.appeared n file] }

/-- A file that appears outside of the staging folder leaves an operation as it is. -/
theorem Sound.appear {n : ℕ} {file : File} (hs : Sound host s phase) (hext : Extends s.folder G)
    (hnew : ∀ it ∈ G.items, it ∈ s.folder.items ∨ ¬[cleanupStage] <+: it.path) :
    Sound host (s.appearAs G n file) phase := by
  have hmem : ∀ e, Event.staged e ∈ (s.appearAs G n file).log → Event.staged e ∈ s.log :=
    fun e he => mem_concat_staged he fun e heq => by cases heq
  have hhome : s.AllHome → (s.appearAs G n file).AllHome :=
    fun hall e he => ((hall e (hmem e he)).extends hext).append _
  have howed : ∀ {rows}, s.Owed rows → (s.appearAs G n file).Owed rows :=
    fun ho e he => (ho e (hmem e he)).imp_left fun ha => (ha.extends hext).append _
  have hlaid : ∀ {rows}, s.Laid rows → (s.appearAs G n file).Laid rows :=
    fun hl => ⟨hl.1, fun e he => (hl.2 e (hmem e he)).imp
      (fun ha => (ha.extends hext).append _) fun ha => ⟨ha.1, ha.2.extends hext⟩⟩
  have hop : latest Event.op (s.appearAs G n file).log = latest Event.op s.log :=
    latest_concat_none rfl
  cases phase with
  | restore st => exact ⟨hs.1, howed hs.2⟩
  | restoreDir row st => exact ⟨hs.1, howed hs.2⟩
  | restoreRename row st => exact ⟨hs.1, howed hs.2⟩
  | clear dirs answer =>
      refine ⟨hs.1, ?_⟩
      cases answer with
      | none => exact ⟨hhome hs.2.1, hs.2.2⟩
      | some a =>
          cases a with
          | staged rows skipped => exact hlaid hs.2
          | restored paths pending => exact hhome hs.2
          | removed rows pending => exact hhome hs.2
          | raised => exact hhome hs.2
  | list => exact ⟨hhome hs.1, hs.2⟩
  | stage st => exact ⟨hs.1, hs.2.1, hlaid hs.2.2⟩
  | stageDir row st => exact ⟨hs.1, hs.2.1, hlaid hs.2.2⟩
  | stageJournal row st => exact ⟨hs.1, hs.2.1, hlaid hs.2.2⟩
  | stageRename row st => exact ⟨hs.1, hs.2.1, hlaid hs.2.2.1, hs.2.2.2⟩
  | finish st => exact ⟨hs.1, howed hs.2.1, hop.trans hs.2.2⟩
  | delete row items st =>
      obtain ⟨hrows, ho, hfinish, hid, ⟨seen, hseen, hrest⟩, hall⟩ := hs
      refine ⟨hrows, howed ho, hop.trans hfinish, hid,
        ⟨seen, (latest_concat_none rfl).trans hseen, hrest⟩, fun it hit hpre => ?_⟩
      rcases hnew it hit with hold | houtside
      · exact hall it hold hpre
      · exact absurd ((prefix_append [cleanupStage] row.path).trans hpre) houtside

theorem Kept.appear (h : Kept host F₀ s) (p : Path) (file : File) :
    Kept host F₀ (appear s p file) := by
  unfold Cleanup.appear
  simp only
  split
  · exact h
  · rename_i hguard
    split
    · rename_i hfree
      rw [not_or, not_or] at hguard
      obtain ⟨hne, hhead, -⟩ := hguard
      have houtside : ∀ d, d <+: p → d ≠ [] → ¬[cleanupStage] <+: d := by
        intro d hd hdne hpre
        obtain ⟨tail, rfl⟩ := hpre.trans hd
        exact hhead rfl
      have hext : Extends s.folder ((s.folder.mkdirs (parents p)).add p (some file) hfree) :=
        (extends_mkdirs s.folder (parents p)).trans (extends_add _ p (some file) hfree)
      have hnew : ∀ it ∈ ((s.folder.mkdirs (parents p)).add p (some file) hfree).items,
          it ∈ s.folder.items ∨ ¬[cleanupStage] <+: it.path := by
        intro it hit
        rcases List.mem_append.1 hit with hmem | hlast
        · rcases mem_mkdirs hmem with hold | hdir
          · exact .inl hold
          · exact .inr (houtside _ (mem_parents hdir) (ne_nil_of_mem_parents hdir))
        · rw [List.mem_singleton.1 hlast]
          exact .inr (houtside p prefix_rfl hne)
      have hquiet : ∀ e, Event.staged e ∈ s.log ++
          [Event.appeared (s.folder.mkdirs (parents p)).next file] → Event.staged e ∈ s.log :=
        fun e he => mem_concat_staged he (fun e heq => by cases heq)
      refine ⟨⟨h.core.rows, fun e he => h.core.entries e (hquiet e he), fun e he => ?_,
        fun n c hold => ?_, h.core.deleted.concat (fun q n heq => by cases heq)⟩,
        (fun paths ha => by cases ha), fun phase hp => (h.sound phase hp).appear hext hnew⟩
      · have hmem := hquiet e he
        exact (h.core.placed e hmem).imp (fun ha => (ha.extends hext).append _)
          fun ha => ⟨(ha.1.extends hext).append _, ha.2⟩
      · have hbefore : (F₀.Keeps n c ∨ Event.appeared n c ∈ s.log) ∨
            Event.appeared n c = .appeared (s.folder.mkdirs (parents p)).next file := by
          rcases hold with hF | hlog
          · exact .inl (.inl hF)
          · rcases List.mem_append.1 hlog with hmem | hlast
            · exact .inl (.inr hmem)
            · exact .inr (List.mem_singleton.1 hlast)
        rcases hbefore with hbefore | heq
        · exact (h.core.kept n c hbefore).imp (fun hk => hext.keeps hk) fun hg => hg.append _
        · cases heq
          exact .inl ⟨_, mem_append_right _ mem_cons_self, rfl, rfl⟩
    · exact h

/-! ## Every run -/

theorem kept_fresh (F₀ : Folder File) : Kept host F₀ (fresh F₀) where
  core :=
    { rows := fun rows hrows => by cases hrows
      entries := fun e he => by cases he
      placed := fun e he => by cases he
      kept := fun n file hold => hold.imp id fun hmem => by cases hmem
      deleted := warranted_nil }
  restored paths ha := by cases ha
  sound phase hp := by cases hp

/-- **One step of any kind.** -/
theorem Kept.step (h : Kept host F₀ s) (a : Action) (ha : careful host s a = true) :
    Kept host F₀ ((cleanup host).step s a) := by
  cases a with
  | begin op => exact h.begin op
  | advance i =>
      cases hp : s.phase with
      | none =>
          have hidle : (cleanup host).step s (.advance i) = s := by simp only [cleanup, hp]
          rw [hidle]
          exact h
      | some phase =>
          have hnext : (cleanup host).step s (.advance i) = Cleanup.advance host i s phase := by
            simp only [cleanup, hp]
          rw [hnext]
          exact h.advance hp ha
  | appear p file => exact h.appear p file

/-- **The cleanup of the application folder loses no file**, in every run, with crashes and new
files at any point, in which each entry that is staged has a file in it and no rename finds
something at its target that it would replace. -/
theorem tidied_of_run
    (h : (cleanup host).Run (fun s a => careful host s a = true) (fresh F₀) s) :
    Promised F₀ s :=
  (h.invariant (fun _ a ha hk => Kept.step hk a ha) (kept_fresh F₀)).promised

/-! ## Three cleanups -/

/-- A folder in which nothing lies. -/
def noFolder : Folder File := ⟨[], 0, List.nodup_nil, List.nodup_nil, fun it hit => by cases hit⟩

/-- A folder with a file more, if its path is free. -/
def withFile (F : Folder File) (p : Path) (file : File) : Folder File :=
  if h : F.hasItem p = false then F.add p (some file) h else F

/-- An application folder with a cache that has something in it. -/
def someFolder : Folder File :=
  withFile (noFolder.mkdirs [["cache"], ["settings"]]) ["cache", "old"] ⟨[1], false⟩

/-- An operation, and its next steps. -/
def steps (op : Op) (n : ℕ) : List Action := .begin op :: List.replicate n (.advance {})

/-- A boot that fails after the staging, and a healthy one. -/
def twoBoots : List Action :=
  steps .stage 12 ++ steps (.finish false) 8 ++ steps .stage 12 ++ steps (.finish true) 12

/-- The promise holds of a failed boot and a healthy one, and only the cache is gone. -/
theorem tidied_twoBoots :
    let s := twoBoots.foldl (cleanup ⟨true⟩).step (fresh someFolder)
    Promised someFolder s ∧ s.folder.items.map Item.path = [["settings"]] := by
  let check (s : State) (a : Action) : Bool := careful ⟨true⟩ s a
  have hwalk : (cleanup ⟨true⟩).walk check (fresh someFolder) twoBoots = true := by decide +kernel
  exact ⟨tidied_of_run (Machine.Run.ofWalk (fun s a h => h) hwalk), by decide +kernel⟩

/-- A file appears while an entry is restored, after its path was found free. -/
def appearedMeanwhile : List Action :=
  steps .stage 12 ++ steps .restore 2 ++
    [.appear ["candidate-20.log"] ⟨[2], false⟩, .advance {}]

/-- An empty cache, after a staging. -/
def emptyCache : State :=
  (steps .stage 12).foldl (cleanup ⟨true⟩).step (fresh (noFolder.mkdirs [["cache"]]))

theorem log_emptyCache :
    emptyCache.log = [.began .stage, .staged ⟨["cache"], [⟨[], 0, false⟩]⟩] := by decide +kernel

theorem items_emptyCache : emptyCache.folder.items = [] := by decide +kernel

/-- A file that appeared meanwhile, after the restore. -/
def replaced : State :=
  appearedMeanwhile.foldl (cleanup ⟨false⟩).step
    (fresh (withFile noFolder ["candidate-20.log"] ⟨[1], false⟩))

theorem log_replaced : replaced.log = [.began .stage,
    .staged ⟨["candidate-20.log"], [⟨[], 0, true⟩]⟩, .began .restore,
    .appeared 2 ⟨[2], false⟩] := by decide +kernel

theorem inos_replaced : replaced.folder.items.map Item.ino = [0, 1] := by decide +kernel

/-- **An empty directory is staged and then removed with the staging folder, and where a rename
replaces what is at its target a new file is lost.** -/
theorem not_tidied_emptyCache :
    (∃ s, (cleanup ⟨true⟩).Run Machine.Any (fresh (noFolder.mkdirs [["cache"]])) s ∧
      ¬Promised (noFolder.mkdirs [["cache"]]) s) ∧
    ∃ F₀ s, (cleanup ⟨false⟩).Run Machine.Any (fresh F₀) s ∧ ¬Promised F₀ s := by
  refine ⟨⟨emptyCache, .ofActions _ (steps .stage 12), fun h => ?_⟩,
    ⟨_, replaced, .ofActions _ appearedMeanwhile, fun h => ?_⟩⟩
  · have hlost : ∀ base, ¬At emptyCache.folder emptyCache.log base
        ⟨["cache"], [⟨[], 0, false⟩]⟩ := by
      intro base hat
      rcases hat ⟨[], 0, false⟩ List.mem_cons_self with ⟨p, hp⟩ | ⟨it, hit, -⟩
      · rw [log_emptyCache] at hp
        simp at hp
      · rw [items_emptyCache] at hit
        cases hit
    have hstaged : Event.staged ⟨["cache"], [⟨[], 0, false⟩]⟩ ∈ emptyCache.log := by
      rw [log_emptyCache]
      exact List.mem_cons_of_mem _ List.mem_cons_self
    rcases h.placed _ hstaged with hhome | ⟨hat, -⟩
    · exact hlost _ hhome
    · exact hlost _ hat
  · have happeared : Event.appeared 2 ⟨[2], false⟩ ∈ replaced.log := by
      rw [log_replaced]
      simp
    rcases h.kept 2 ⟨[2], false⟩ (.inr happeared) with ⟨it, hit, hino, -⟩ | ⟨p, hp⟩
    · have hmem : it.ino ∈ replaced.folder.items.map Item.ino := List.mem_map_of_mem hit
      rw [inos_replaced, hino] at hmem
      simp at hmem
    · rw [log_replaced] at hp
      simp at hp

end ArchHub.Update.Cleanup

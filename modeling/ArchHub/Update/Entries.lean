import ArchHub.Update.Cleanup

/-!
# What a cleanup may not lose

* `Promised`: what is to hold of the application folder, whatever was staged, restored and
  deleted so far.
* `careful`: the condition on one step.  An entry that is staged has a file in it, and nothing
  is at the target of a rename that would replace it.
* `At`: an entry is at its original path, or at its staged path; what each change of the folder
  makes of that.
-/

namespace ArchHub.Update.Cleanup

open Lib Service Folder List

/-! ## The promise -/

/-- The item with this number was deleted. -/
def Gone (log : List Event) (n : ℕ) : Prop := ∃ p, Event.deleted p n ∈ log

/-- What was not deleted of an entry is where the entry was found, beneath a base. -/
def At (F : Folder File) (log : List Event) (base : Path) (e : Entry) : Prop :=
  ∀ x ∈ e.nodes, Gone log x.ino ∨ F.Lies x.ino x.isFile (base ++ (e.path ++ x.rest))

/-- The journal names a path. -/
def State.Names (s : State) (p : Path) : Prop :=
  ∃ rows, s.journal = some rows ∧ ∃ row ∈ rows, row.path = p

/-- All that was staged is back at its original path. -/
def State.AllHome (s : State) : Prop := ∀ e, Event.staged e ∈ s.log → At s.folder s.log [] e

namespace Event

/-- The operation that an event begins. -/
def op : Event → Option Op
  | began op => some op
  | _ => none

/-- What a look at the entry of a path saw. -/
def seenAt (p : Path) : Event → Option (List (Item File))
  | checked p' seen => if p' = p then some seen else none
  | _ => none

end Event

/-- The application folder loses no file. -/
structure Promised (F₀ : Folder File) (s : State) : Prop where
  /-- An entry is at its original path, or at its staged path where the journal names it. -/
  placed : ∀ e, Event.staged e ∈ s.log → At s.folder s.log [] e ∨
    (At s.folder s.log [cleanupStage] e ∧ s.Names e.path)
  /-- A restore with nothing pending left every entry at its original path. -/
  restored : ∀ paths, s.answer = some (.restored paths false) → s.AllHome
  /-- Every file that was ever there is there with its bytes, unless it was deleted. -/
  kept : ∀ n file, F₀.Keeps n file ∨ Event.appeared n file ∈ s.log →
    s.folder.Keeps n file ∨ Gone s.log n
  /-- What is deleted is deleted after a healthy boot, with an entry that may be, and only when
  the look at the entry saw it and saw no file that is to be retained. -/
  deleted : Warranted (fun before x => ∀ p n, x = .deleted p n →
    latest Event.op before = some (.finish true) ∧ identified p = true ∧
      ∃ seen, latest (Event.seenAt p) before = some seen ∧ (∃ it ∈ seen, it.ino = n) ∧
        ∀ it ∈ seen, it.file.isSome → harmless it = true) s.log

/-! ## The condition -/

/-- An entry that is staged has a file in it, and nothing is at the target of a rename that would
replace it. -/
def careful (host : Host) (s : State) : Action → Bool
  | .advance _ => match s.phase with
      | some (.restoreRename row _) => host.windows || !s.folder.hasItem row.path
      | some (.stageRename row _) => (host.windows || !s.folder.hasItem (stagedPath row.path)) &&
          (entryFiles s.folder row.path ≠ [])
      | _ => true
  | _ => true

/-! ## Paths of entries -/

section Paths

variable {host : Host} {p q rest : Path}

/-- A path that is cleaned up. -/
def Cleanable (host : Host) (p : Path) : Prop :=
  (∃ name ∈ obsoleteRootEntries, p = [name]) ∨ ∃ name, globArchhub host name = true ∧
    (p = ["sessions-files", name] ∨ p = ["sessions-files", "skills", name])

theorem cleanable_of_mem {F : Folder File} (h : p ∈ cleanupPaths host F) : Cleanable host p := by
  rcases List.mem_append.1 h with hroot | hlegacy
  · obtain ⟨it, hit, rfl⟩ := List.mem_map.1 hroot
    obtain ⟨name, hname, heq⟩ := List.mem_map.1 (of_decide_eq_true (List.mem_filter.1 hit).2)
    exact .inl ⟨name, hname, heq.symm⟩
  · obtain ⟨d, hd, hmem⟩ := List.mem_flatMap.1 hlegacy
    obtain ⟨it, hit, rfl⟩ := List.mem_map.1 hmem
    have hcond := (List.mem_filter.1 hit).2
    simp only [decide_eq_true_eq, Bool.decide_and, Bool.and_eq_true] at hcond
    refine .inr ⟨nameOf it.path, hcond.2.2, ?_⟩
    simp only [mem_cons, not_mem_nil, or_false] at hd
    rcases hd with rfl | rfl
    · exact .inl hcond.2.1
    · exact .inr hcond.2.1

theorem sessionsFiles_not_obsolete : "sessions-files" ∉ obsoleteRootEntries := by decide

theorem skills_not_archhub (host : Host) : globArchhub host "skills" = false := by
  obtain ⟨windows⟩ := host
  cases windows with
  | true => decide
  | false => decide

/-- The path of an entry begins with the name of something that is not the staging folder. -/
theorem Cleanable.eq_cons (h : Cleanable host p) :
    ∃ name rest, p = name :: rest ∧ name ≠ cleanupStage := by
  rcases h with ⟨name, hname, rfl⟩ | ⟨name, -, rfl | rfl⟩
  · refine ⟨name, [], rfl, ?_⟩
    rintro rfl
    revert hname
    decide
  · exact ⟨_, _, rfl, by decide⟩
  · exact ⟨_, _, rfl, by decide⟩

/-- No entry lies in the staging folder. -/
theorem Cleanable.not_staged (h : Cleanable host p) : ¬[cleanupStage] <+: p ++ rest := by
  obtain ⟨name, tail, rfl, hne⟩ := h.eq_cons
  intro hpre
  exact hne (List.cons_prefix_cons.1 hpre).1.symm

theorem not_prefix_stagedPath (h : Cleanable host p) : ¬p <+: stagedPath q := by
  obtain ⟨name, tail, rfl, hne⟩ := h.eq_cons
  intro hpre
  exact hne (List.cons_prefix_cons.1 hpre).1

theorem not_stagedPath_prefix (h : Cleanable host p) : ¬stagedPath q <+: p ++ rest := by
  intro hpre
  exact h.not_staged ((prefix_append [cleanupStage] q).trans hpre)

/-- No entry lies in another. -/
theorem Cleanable.eq_of_prefix (h : Cleanable host p) (h' : Cleanable host q)
    (hpre : p <+: q ++ rest) : p = q := by
  rcases h with ⟨n, hn, rfl⟩ | ⟨n, hn, rfl | rfl⟩
  · rcases h' with ⟨m, hm, rfl⟩ | ⟨m, hm, rfl | rfl⟩
    · rw [(List.cons_prefix_cons.1 hpre).1]
    · exact absurd ((List.cons_prefix_cons.1 hpre).1 ▸ hn) sessionsFiles_not_obsolete
    · exact absurd ((List.cons_prefix_cons.1 hpre).1 ▸ hn) sessionsFiles_not_obsolete
  · rcases h' with ⟨m, hm, rfl⟩ | ⟨m, hm, rfl | rfl⟩
    · exact absurd ((List.cons_prefix_cons.1 hpre).1 ▸ hm) sessionsFiles_not_obsolete
    · rw [(List.cons_prefix_cons.1 (List.cons_prefix_cons.1 hpre).2).1]
    · have hname := (List.cons_prefix_cons.1 (List.cons_prefix_cons.1 hpre).2).1
      rw [hname, skills_not_archhub] at hn
      cases hn
  · rcases h' with ⟨m, hm, rfl⟩ | ⟨m, hm, rfl | rfl⟩
    · exact absurd ((List.cons_prefix_cons.1 hpre).1 ▸ hm) sessionsFiles_not_obsolete
    · have hname := (List.cons_prefix_cons.1 (List.cons_prefix_cons.1 hpre).2).1
      rw [← hname, skills_not_archhub] at hm
      cases hm
    · have htail := (List.cons_prefix_cons.1 (List.cons_prefix_cons.1 hpre).2).2
      rw [(List.cons_prefix_cons.1 htail).1]

end Paths

/-! ## Where an entry is -/

section At

variable {host : Host} {F G : Folder File} {log : List Event} {base p d : Path} {e : Entry}

theorem Gone.append {n : ℕ} (h : Gone log n) (more : List Event) : Gone (log ++ more) n := by
  obtain ⟨p, hp⟩ := h
  exact ⟨p, mem_append_left more hp⟩

theorem At.extends (h : At F log base e) (hext : Extends F G) : At G log base e :=
  fun x hx => (h x hx).imp_right hext.lies

theorem At.append (h : At F log base e) (more : List Event) : At F (log ++ more) base e :=
  fun x hx => (h x hx).imp_left fun hg => hg.append more

/-- What is deleted of an entry is gone. -/
theorem At.delete {n : ℕ} (h : At F log base e) (p : Path) :
    At (F.delete n) (log ++ [.deleted p n]) base e := by
  intro x hx
  rcases h x hx with hgone | hlies
  · exact .inl (hgone.append _)
  · by_cases hn : x.ino = n
    · exact .inl ⟨p, mem_append_right log (hn ▸ mem_singleton_self _)⟩
    · exact .inr (hlies.delete hn)

/-- An entry is not moved with another path. -/
theorem At.move_apart {q : Path} (h : At F log base e) (hfree : F.free p q = true)
    (hapart : ∀ rest, ¬p <+: base ++ (e.path ++ rest)) : At (F.move p q hfree) log base e :=
  fun x hx => (h x hx).imp_right fun hlies => hlies.move_apart (hapart x.rest)

theorem At.move_home {q : Path} (h : At F log [] e) (hfree : F.free p q = true)
    (hapart : ∀ rest, ¬p <+: e.path ++ rest) : At (F.move p q hfree) log [] e :=
  h.move_apart hfree hapart

/-- The staging of an entry. -/
theorem At.stage (h : At F log [] e) (hp : p = e.path) (hfree : F.free p (stagedPath p) = true) :
    At (F.move p (stagedPath p) hfree) log [cleanupStage] e := by
  subst hp
  exact fun x hx => (h x hx).imp_right Lies.move_under

/-- The restoration of an entry. -/
theorem At.restore (h : At F log [cleanupStage] e) (hp : p = e.path)
    (hfree : F.free (stagedPath p) p = true) : At (F.move (stagedPath p) p hfree) log [] e := by
  subst hp
  exact fun x hx => (h x hx).imp_right fun hlies =>
    Lies.move_under (show F.Lies _ _ (stagedPath e.path ++ x.rest) from hlies)

/-- What is not at the staged path was deleted. -/
theorem At.home_of_absent (h : At F log [cleanupStage] e)
    (habsent : F.hasItem (stagedPath e.path) = false) : At F log [] e := by
  intro x hx
  rcases h x hx with hgone | hlies
  · exact .inl hgone
  · have hthere : F.hasItem (stagedPath e.path) = true :=
      (show F.Lies _ _ (stagedPath e.path ++ x.rest) from hlies).hasItem
    rw [habsent] at hthere
    cases hthere

/-- A directory that is removed from the staging folder is no part of an entry that is home. -/
theorem At.rmdir_home (h : At F log [] e) (he : Cleanable host e.path)
    (hd : [cleanupStage] <+: d) : At (F.rmdir d) log [] e := by
  intro x hx
  refine (h x hx).imp_right fun hlies => hlies.rmdir (.inl ?_)
  rintro rfl
  exact he.not_staged hd

/-- A staged entry has a file in it. -/
def Anchored (F : Folder File) (p : Path) : Prop :=
  ∃ it ∈ F.items, stagedPath p <+: it.path ∧ it.file.isSome = true

theorem Anchored.extends (h : Anchored F p) (hext : Extends F G) : Anchored G p := by
  obtain ⟨it, hit, hrest⟩ := h
  exact ⟨it, hext.mem hit, hrest⟩

theorem Anchored.rmdir (h : Anchored F p) : Anchored (F.rmdir d) p := by
  obtain ⟨it, hit, hpre, hfile⟩ := h
  unfold Folder.rmdir
  split
  · refine ⟨it, List.mem_filter.2 ⟨hit, ?_⟩, hpre, hfile⟩
    simp [Option.isSome_iff_ne_none.1 hfile]
  · exact ⟨it, hit, hpre, hfile⟩

/-- The nodes of an entry are files, or the entry itself. -/
def Entry.Plain (e : Entry) : Prop := ∀ x ∈ e.nodes, x.isFile = true ∨ x.rest = []

theorem plain_entryAt (F : Folder File) (p : Path) : (entryAt F p).Plain := by
  intro x hx
  obtain ⟨it, hit, rfl⟩ := List.mem_map.1 hx
  have hcond := of_decide_eq_true (List.mem_filter.1 hit).2
  rcases hcond with hroot | hfile
  · refine .inr ?_
    show it.path.drop p.length = []
    rw [hroot, drop_length]
  · exact .inl hfile.2

/-- No directory of an entry that has a file in it is removed. -/
theorem At.rmdir_staged (h : At F log [cleanupStage] e) (he : e.Plain)
    (hanchor : Anchored F e.path) : At (F.rmdir d) log [cleanupStage] e := by
  intro x hx
  refine (h x hx).imp_right fun hlies => hlies.rmdir ?_
  rcases he x hx with hfile | hroot
  · exact .inr (.inr (.inl hfile))
  · by_cases hpath : [cleanupStage] ++ (e.path ++ x.rest) = d
    · obtain ⟨it, hit, hpre, hfile⟩ := hanchor
      have hd : stagedPath e.path = d := by
        rw [← hpath, hroot, append_nil]
        rfl
      rw [hd] at hpre
      by_cases hsame : it.path = d
      · refine .inr (.inr (.inr (List.any_eq_true.2 ⟨it, hit, decide_eq_true ⟨hsame, hfile⟩⟩)))
      · refine .inr (.inl (List.all_eq_false.2 ⟨it, hit, ?_⟩))
        simp [hpre, hsame]
    · exact .inl hpath

/-- An entry is where it is found. -/
theorem at_entryAt (F : Folder File) (log : List Event) (p : Path) : At F log [] (entryAt F p) := by
  intro x hx
  obtain ⟨it, hit, rfl⟩ := List.mem_map.1 hx
  obtain ⟨hmem, hcond⟩ := List.mem_filter.1 hit
  have hpre : p <+: it.path := by
    rcases of_decide_eq_true hcond with hroot | hfile
    · exact hroot ▸ prefix_rfl
    · exact hfile.1
  exact .inr ⟨it, hmem, rfl, (List.prefix_iff_eq_append.1 hpre).symm, id⟩

end At

end ArchHub.Update.Cleanup

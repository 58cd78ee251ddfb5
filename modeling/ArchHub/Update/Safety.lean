import Mathlib
import ArchHub.Update.Stage

/-!
# The self-update is safe

Each operation is inverted once: what it writes, and what was true of the folder when it did
(`stage_writes`, `apply_writes`, `boot_writes`, `confirm_writes`).  What a run keeps and what a
step keeps follow from these, with no case for a crash of its own.

* `Means`, `statusOf_means`: what a status says of the folder.
* `Traced`: the installer runs on published bytes of newer releases.
* `pending_step`: a pending installation keeps its release.
* `confirmed_step`: a build is confirmed only where it is installed.
-/

namespace ArchHub.Update

open Lib List Check

variable {host : Host} {disk : Disk} {verify : Bool} {m : Marker} {current : String} {r : Release}
  {w : World}

/-! ## The status -/

/-- What a status says of the folder it was read from. -/
inductive Means (host : Host) (disk : Disk) (verify : Bool) : Status → Prop
  | nothing (hmarker : disk.marker = none) :
      Means host disk verify ⟨none, false, false, .none, none, none, "nothing staged"⟩
  | rolledBack (m : Marker) (reason : String) (hmarker : disk.marker = some m)
      (hphase : m.phase = .rolledBack) :
      Means host disk verify ⟨m, false, true, .rolledBack, none, none, reason⟩
  | applying (m : Marker) (verified : Bool) (reason : String) (hmarker : disk.marker = some m)
      (hphase : m.phase = .applying)
      (hbytes : verified = true → digest host disk.package = .ok m.release.sha256) :
      Means host disk verify
        ⟨m, true, false, .applying, disk.installed.buildId, verified, reason⟩
  | notReady (m : Marker) (refusal : String) (hmarker : disk.marker = some m)
      (hphase : m.phase = .staged) (hbytes : digest host disk.package = .ok m.release.sha256)
      (hrefusal : disk.installed.orderingRefusal m.release = some refusal) :
      Means host disk verify
        ⟨m, false, true, .notReady, disk.installed.buildId, true, refusal⟩
  | held (m : Marker) (verified : Bool) (reason : String) (hmarker : disk.marker = some m)
      (hphase : m.phase ≠ .applying ∧ m.phase ≠ .rolledBack)
      (hbytes : verified = true → digest host disk.package = .ok m.release.sha256)
      (hverified : verified = (verify ||
        !decide (m.phase = .confirmed ∧ disk.installed.buildId = m.release.buildId)))
      (hready : m.status disk.installed.buildId = .staged →
        disk.installed.orderingRefusal m.release = none) :
      Means host disk verify ⟨m, true, false, m.status disk.installed.buildId,
        disk.installed.buildId, verified, reason⟩

/-- Only a staged marker of another build is answered as staged. -/
theorem Marker.status_eq_staged :
    m.status current = .staged ↔ m.phase = .staged ∧ current ≠ m.release.buildId := by
  unfold Marker.status
  constructor
  · intro hstaged
    split at hstaged
    · cases hstaged
    · next h =>
      cases hphase : m.phase with
      | staged => exact ⟨rfl, fun hid => h ⟨hid, hphase⟩⟩
      | applying | awaitingBoot | confirmed | rolledBack =>
          rw [hphase] at hstaged
          cases hstaged
  · rintro ⟨hphase, hother⟩
    rw [if_neg fun h => hother h.1, hphase]
    rfl

theorem Marker.status_of_confirmed (h : m.phase = .confirmed) : m.status current = .confirmed := by
  unfold Marker.status
  rw [h, if_neg fun hboth => Phase.noConfusion hboth.2]
  rfl

theorem Marker.status_ne_rolledBack (h : m.phase ≠ .rolledBack) :
    m.status current ≠ .rolledBack := by
  unfold Marker.status
  split
  · decide
  · cases hphase : m.phase with
    | rolledBack => exact absurd hphase h
    | staged | applying | awaitingBoot | confirmed => decide

/-- **The status, inverted.** -/
theorem statusOf_means {data : Status} (h : statusOf host disk verify = .ok data) :
    Means host disk verify data := by
  unfold statusOf at h
  split at h
  · next hmarker =>
    cases h
    exact .nothing hmarker
  · next m hmarker =>
    obtain ⟨_, -, h⟩ := Check.bind_ok_iff.mp h
    obtain ⟨_, -, h⟩ := Check.bind_ok_iff.mp h
    dsimp only at h
    split at h
    · next hphase =>
      cases h
      exact .rolledBack m _ hmarker hphase
    · next hrolled =>
      split at h
      · next hphase =>
        split at h
        · next found hfound =>
          cases h
          refine .applying m _ _ hmarker hphase fun hverified => ?_
          rw [hfound, of_decide_eq_true hverified]
        · cases h
          exact .applying m _ _ hmarker hphase fun hfalse => nomatch hfalse
      · next happlying =>
        obtain ⟨_, hbytes, h⟩ := Check.bind_ok_iff.mp h
        have hdigest : (verify || !decide (m.phase = .confirmed ∧
            disk.installed.buildId = m.release.buildId)) = true →
            digest host disk.package = .ok m.release.sha256 := by
          intro hneeded
          rw [verifyBytes, if_pos hneeded] at hbytes
          obtain ⟨found, hfound, hbytes⟩ := Check.bind_ok_iff.mp hbytes
          rw [hfound, of_decide_eq_true (Check.require_ok_iff.mp hbytes)]
        split at h
        · next refusal hrefusal =>
          cases h
          split at hrefusal
          · next hstaged =>
            have hphase := (Marker.status_eq_staged.mp hstaged).1
            refine .notReady m _ hmarker hphase (hdigest ?_) hrefusal
            rw [hphase]
            simp
          · cases hrefusal
        · next hnone =>
          cases h
          refine .held m _ _ hmarker ⟨happlying, hrolled⟩ hdigest rfl fun hstaged => ?_
          rw [if_pos hstaged] at hnone
          exact hnone

/-- Bytes that were verified are the marker's. -/
theorem Means.verified {data : Status} {m : Marker} (h : Means host disk verify data)
    (hm : data.marker = some m) (hverified : data.bytesVerified = some true) :
    disk.marker = some m ∧ digest host disk.package = .ok m.release.sha256 := by
  cases h with
  | nothing => cases hm
  | rolledBack => cases hverified
  | applying m' verified reason hmarker hphase hbytes =>
      cases hm
      exact ⟨hmarker, hbytes (Option.some.inj hverified)⟩
  | notReady m' refusal hmarker hphase hbytes hrefusal =>
      cases hm
      exact ⟨hmarker, hbytes⟩
  | held m' verified reason hmarker hphase hbytes hverified' hready =>
      cases hm
      exact ⟨hmarker, hbytes (Option.some.inj hverified)⟩

/-- A status is read wherever the package is the marker's, or need not be read. -/
theorem statusOf_ok {m : Marker} (hmarker : disk.marker = some m) (hsize : m.size ≤ 16384)
    (hbytes : digest host disk.package = .ok m.release.sha256 ∨
      verify = false ∧ m.phase = .confirmed ∧ disk.installed.buildId = m.release.buildId) :
    ∃ data, statusOf host disk verify = .ok data := by
  unfold statusOf
  rw [hmarker]
  dsimp only
  rw [decide_eq_true hsize, m.release.identity_ok, require_true, ok_bind, require_true, ok_bind]
  split
  · exact ⟨_, rfl⟩
  · split
    · split <;> exact ⟨_, rfl⟩
    · rcases hbytes with hbytes | ⟨rfl, hphase, hid⟩
      · have hverified : ∀ needed, verifyBytes host disk m needed = .ok () := by
          intro needed
          unfold verifyBytes
          rw [hbytes, ok_bind, decide_eq_true rfl, require_true]
          exact ite_self _
        rw [hverified, ok_bind]
        split <;> exact ⟨_, rfl⟩
      · rw [decide_eq_true ⟨hphase, hid⟩]
        show ∃ data, (Except.ok () >>= _) = Except.ok data
        rw [ok_bind]
        split <;> exact ⟨_, rfl⟩

/-! ## What each operation writes -/

/-- **What `stage_if_newer` writes.** -/
theorem stage_writes (host : Host) (disk : Disk) (c : StageCall) :
    (stageIfNewer host c disk).1 = [] ∨ ∃ held latest bytes,
      statusOf host disk false = .ok held ∧
      ¬(held.staged = true ∧ (held.status = .applying ∨ held.status = .awaitingBoot)) ∧
      c.feed.latest = some latest ∧ digest host (some bytes) = .ok latest.sha256 ∧
      c.download = .ok bytes ∧
      disk.installed.Newer latest ∧ latest.buildId ≠ disk.installed.buildId ∧
      stageIfNewer host c disk = stageBytes host c latest bytes disk := by
  unfold stageIfNewer
  split
  · exact .inl rfl
  · next held hheld =>
    dsimp only
    split
    · exact .inl rfl
    · next hfree =>
      split
      · exact .inl rfl
      · split
        · split <;> exact .inl rfl
        · next latest hlatest =>
          split
          · exact .inl rfl
          · split
            · exact .inl rfl
            · split
              · exact .inl rfl
              · next hother =>
                split
                · exact .inl rfl
                · next hnewer =>
                  split
                  · exact .inl rfl
                  · split
                    · exact .inl rfl
                    · next bytes hbytes =>
                      refine .inr ⟨held, latest, bytes, hheld, ?_, hlatest, ?_, ?_,
                        Installed.orderingRefusal_eq_none.mp hnewer, hother, rfl⟩
                      · rw [Bool.and_eq_true, decide_eq_true_iff] at hfree
                        exact hfree
                      · unfold download at hbytes
                        obtain ⟨arrived, -, hbytes⟩ := Check.bind_ok_iff.mp hbytes
                        obtain ⟨found, hfound, hbytes⟩ := Check.bind_ok_iff.mp hbytes
                        obtain ⟨_, hsame, hbytes⟩ := Check.bind_ok_iff.mp hbytes
                        cases hbytes
                        rw [hfound, of_decide_eq_true (Check.require_ok_iff.mp hsame)]
                      · unfold download at hbytes
                        obtain ⟨arrived, harrived, hbytes⟩ := Check.bind_ok_iff.mp hbytes
                        obtain ⟨found, -, hbytes⟩ := Check.bind_ok_iff.mp hbytes
                        obtain ⟨_, -, hbytes⟩ := Check.bind_ok_iff.mp hbytes
                        cases hbytes
                        exact harrived

/-- What the attempt of `apply_staged` writes. -/
theorem attempt_writes (c : ApplyCall) (m : Marker) :
    ∃ rest, (attempt c m).1 = .mark { m with phase := .applying } :: rest ∧
      (rest = [] ∨ rest = [.install m c.outcome.after] ∨
        ∃ phase, (phase = .staged ∨ phase = .awaitingBoot) ∧
          rest = [.install m c.outcome.after, .mark { m with phase := phase }]) := by
  unfold attempt
  dsimp only
  split
  · exact ⟨_, rfl, .inl rfl⟩
  · split
    · exact ⟨_, rfl, .inr (.inl rfl)⟩
    · split
      · exact ⟨_, rfl, .inr (.inr ⟨.staged, .inl rfl, rfl⟩)⟩
      · split
        · exact ⟨_, rfl, .inr (.inl rfl)⟩
        · exact ⟨_, rfl, .inr (.inr ⟨.staged, .inl rfl, rfl⟩)⟩
        · exact ⟨_, rfl, .inr (.inr ⟨.awaitingBoot, .inr rfl, rfl⟩)⟩

/-- **What `apply_staged` writes.**  It attempts a release whose bytes it has read, that is
newer than the installed build, and whose marker is staged. -/
theorem apply_writes (host : Host) (disk : Disk) (c : ApplyCall) :
    (applyStaged host c disk).1 = [] ∨ ∃ m, disk.marker = some m ∧ m.phase = .staged ∧
      digest host disk.package = .ok m.release.sha256 ∧ disk.installed.Newer m.release ∧
      applyStaged host c disk = attempt c m := by
  unfold applyStaged
  split
  · exact .inl rfl
  · next data hdata =>
    have hmeans := statusOf_means hdata
    split
    · exact .inl rfl
    · next m hm =>
      split
      · exact .inl rfl
      · split
        · exact .inl rfl
        · split
          · exact .inl rfl
          · next hstatus =>
            split
            · exact .inl rfl
            · next hnewer =>
              split
              · exact .inl rfl
              · split
                · exact .inl rfl
                · right
                  have hnewer := Installed.orderingRefusal_eq_none.mp hnewer
                  have hstaged : data.status = .staged := not_not.1 hstatus
                  cases hmeans with
                  | nothing => cases hm
                  | rolledBack | applying | notReady => cases hstaged
                  | held m' verified reason hmarker hphase hbytes hverified hready =>
                      cases hm
                      exact ⟨m, hmarker, (Marker.status_eq_staged.mp hstaged).1, hbytes hverified,
                        hnewer, rfl⟩

/-- **What `begin_update_boot` writes.** -/
theorem boot_writes (host : Host) (disk : Disk) :
    (beginUpdateBoot host disk).1 = [] ∨ ∃ m, disk.marker = some m ∧
      digest host disk.package = .ok m.release.sha256 ∧
      (beginUpdateBoot host disk).1 = [.mark (bootMarker m)] := by
  unfold beginUpdateBoot
  split
  · exact .inl rfl
  · next data hdata =>
    have hmeans := statusOf_means hdata
    split
    · exact .inl rfl
    · next m hm =>
      split
      · next happlying =>
        obtain ⟨hmarker, hbytes⟩ := hmeans.verified hm happlying.2
        split
        · exact .inl rfl
        · exact .inr ⟨m, hmarker, hbytes, rfl⟩
        · exact .inl rfl
      · split
        · next hwaits =>
          right
          cases hmeans with
          | nothing => cases hm
          | rolledBack | applying | notReady => cases hwaits
          | held m' verified reason hmarker hphase hbytes hverified hready =>
              cases hm
              refine ⟨m, hmarker, hbytes ?_, rfl⟩
              have hunconfirmed : m.phase ≠ .confirmed := by
                intro hconfirmed
                simp only [Marker.status, hconfirmed, reduceCtorEq, and_false, if_false] at hwaits
                cases hwaits
              rw [hverified, decide_eq_false fun h => hunconfirmed h.1]
              rfl
        · exact .inl rfl

/-- **What `confirm_applied` writes.** -/
theorem confirm_writes (host : Host) (disk : Disk) (rollback : Bool) :
    (confirmApplied host rollback disk).1 = [] ∨ ∃ m, disk.marker = some m ∧
      digest host disk.package = .ok m.release.sha256 ∧
      disk.installed.matchesTarget m.release = .ok true ∧
      (confirmApplied host rollback disk).1 = [.mark { m with phase := .confirmed }] := by
  unfold confirmApplied
  split
  · dsimp only
    split <;> exact .inl rfl
  · next data hdata =>
    have hmeans := statusOf_means hdata
    split
    · exact .inl rfl
    · next m hm =>
      split
      · exact .inl rfl
      · next hready =>
        have hverified : data.bytesVerified = some true :=
          not_not.1 fun hother => hready (.inr (.inr (.inl hother)))
        obtain ⟨hmarker, hbytes⟩ := hmeans.verified hm hverified
        split
        · next hmatches => exact .inr ⟨m, hmarker, hbytes, hmatches, rfl⟩
        · exact .inl rfl

/-- `rollback_staged` writes nothing. -/
theorem rollback_writes : (rollbackStaged disk).1 = [] := by
  unfold rollbackStaged
  split
  · rfl
  · split <;> rfl

/-! ## What every run keeps -/

/-- The staged release was published, and the installer ran on the bytes of published releases
that were newer than what was installed. -/
structure Traced (host : Host) (w : World) : Prop where
  marker : ∀ m, w.disk.marker = some m → m.release ∈ w.published
  runs : ∀ r ∈ w.runs, digest host r.bytes = .ok r.marker.release.sha256 ∧
    r.marker.release ∈ w.published ∧ r.before.Newer r.marker.release

namespace Traced

variable {w : World}

theorem heard (h : Traced host w) (call : Call) : Traced host (w.heard call) := by
  cases call with
  | stage c =>
      refine ⟨fun m hm => mem_append_left _ (h.marker m hm), fun r hr => ?_⟩
      obtain ⟨hbytes, hpublished, hnewer⟩ := h.runs r hr
      exact ⟨hbytes, mem_append_left _ hpublished, hnewer⟩
  | apply | beginBoot | confirm | rollback => exact h

theorem package (h : Traced host w) (bytes : Bytes) : Traced host (w.write (.package bytes)) :=
  ⟨h.marker, h.runs⟩

theorem mark (h : Traced host w) (hm : m.release ∈ w.published) :
    Traced host (w.write (.mark m)) := by
  refine ⟨fun m' hm' => ?_, h.runs⟩
  cases hm'
  exact hm

theorem install (h : Traced host w) (after : Installed)
    (hbytes : digest host w.disk.package = .ok m.release.sha256) (hm : m.release ∈ w.published)
    (hnewer : w.disk.installed.Newer m.release) : Traced host (w.write (.install m after)) := by
  refine ⟨h.marker, fun r hr => ?_⟩
  rcases List.mem_append.1 hr with hr | hr
  · exact h.runs r hr
  · rw [List.mem_singleton.1 hr]
    exact ⟨hbytes, hm, hnewer⟩

/-- **Along every plan.** -/
theorem along (h : Traced host w) (call : Call) :
    Along World.write (Traced host) (plan host w.disk call).1 (w.heard call) := by
  have hheard := h.heard call
  cases call with
  | stage c =>
      rcases stage_writes host w.disk c with hnil |
        ⟨held, latest, bytes, -, -, hlatest, -, -, -, -, hplan⟩
      · show Along _ _ (stageIfNewer host c w.disk).1 _
        rw [hnil]
        exact hheard
      · show Along _ _ (stageIfNewer host c w.disk).1 _
        rw [hplan]
        have hpublished : latest ∈ (w.heard (.stage c)).published := by
          show latest ∈ w.published ++ c.feed.latest.toList
          rw [hlatest]
          exact mem_append_right _ (mem_singleton_self _)
        exact ⟨hheard, hheard.package bytes, (hheard.package bytes).mark hpublished⟩
  | apply c =>
      show Along _ _ (applyStaged host c w.disk).1 _
      rcases apply_writes host w.disk c with hnil | ⟨m, hmarker, -, hbytes, hnewer, hplan⟩
      · rw [hnil]
        exact hheard
      · have hm := h.marker m hmarker
        have hreserved : Traced host (w.write (.mark { m with phase := .applying })) := h.mark hm
        have hinstalled := hreserved.install c.outcome.after hbytes hm hnewer
        obtain ⟨rest, hrest, hshape⟩ := attempt_writes c m
        rw [hplan, hrest]
        refine ⟨h, ?_⟩
        rcases hshape with rfl | rfl | ⟨phase, -, rfl⟩
        · exact hreserved
        · exact ⟨hreserved, hinstalled⟩
        · exact ⟨hreserved, hinstalled, hinstalled.mark hm⟩
  | beginBoot =>
      show Along _ _ (beginUpdateBoot host w.disk).1 _
      rcases boot_writes host w.disk with hnil | ⟨m, hmarker, -, hplan⟩
      · rw [hnil]
        exact hheard
      · rw [hplan]
        exact ⟨h, h.mark (h.marker m hmarker)⟩
  | confirm rollback =>
      show Along _ _ (confirmApplied host rollback w.disk).1 _
      rcases confirm_writes host w.disk rollback with hnil | ⟨m, hmarker, -, -, hplan⟩
      · rw [hnil]
        exact hheard
      · rw [hplan]
        exact ⟨h, h.mark (h.marker m hmarker)⟩
  | rollback =>
      show Along _ _ (rollbackStaged w.disk).1 _
      rw [rollback_writes]
      exact hheard

end Traced

/-! ## What one step keeps -/

/-- The marker of an installation that is not settled. -/
def Pending (disk : Disk) (r : Release) : Prop :=
  ∃ m, disk.marker = some m ∧ m.release = r ∧ (m.phase = .applying ∨ m.phase = .awaitingBoot)

/-- `stage_if_newer` writes nothing beside a pending installation. -/
theorem stage_pending (h : Pending disk r) (c : StageCall) : (stageIfNewer host c disk).1 = [] := by
  rcases stage_writes host disk c with hnil | ⟨held, latest, bytes, hheld, hfree, -⟩
  · exact hnil
  · obtain ⟨m, hmarker, -, hphase⟩ := h
    exfalso
    cases statusOf_means hheld with
    | nothing hnone => cases hnone.symm.trans hmarker
    | rolledBack m' reason hmarker' hphase' =>
        cases hmarker'.symm.trans hmarker
        rcases hphase with hphase | hphase <;> cases hphase'.symm.trans hphase
    | applying => exact hfree ⟨rfl, .inl rfl⟩
    | notReady m' refusal hmarker' hphase' =>
        cases hmarker'.symm.trans hmarker
        rcases hphase with hphase | hphase <;> cases hphase'.symm.trans hphase
    | held m' verified reason hmarker' hphase' =>
        cases hmarker'.symm.trans hmarker
        rcases hphase with hphase | hphase
        · exact hphase'.1 hphase
        · refine hfree ⟨rfl, .inr ?_⟩
          unfold Marker.status
          rw [hphase]
          simp [Phase.status]

/-- **A pending installation keeps its marker's release.** -/
theorem pending_step (h : Pending w.disk r) (a : Action) :
    ∃ m, ((updater host).step w a).disk.marker = some m ∧ m.release = r := by
  obtain ⟨m, hmarker, hrelease, hphase⟩ := id h
  let Keeps : World → Prop := fun w => ∃ m, w.disk.marker = some m ∧ m.release = r
  have hheard : Keeps (w.heard a.call) := by
    cases a.call <;> exact ⟨m, hmarker, hrelease⟩
  have hmark : ∀ (v : World) (m' : Marker), m'.release = r → Keeps (v.write (.mark m')) :=
    fun v m' hm' => ⟨m', rfl, hm'⟩
  have hsame : ∀ m', w.disk.marker = some m' → m'.release = r := by
    intro m' hm'
    cases hm'.symm.trans hmarker
    exact hrelease
  show Keeps (cut World.write a.stop (plan host w.disk a.call).1 (w.heard a.call))
  refine Along.cut ?_ a.stop
  cases hcall : a.call with
  | stage c =>
      rw [hcall] at hheard
      show Along _ _ (stageIfNewer host c w.disk).1 _
      rw [stage_pending h c]
      exact hheard
  | apply c =>
      rw [hcall] at hheard
      show Along _ _ (applyStaged host c w.disk).1 _
      rcases apply_writes host w.disk c with hnil | ⟨m', hmarker', hstaged, -⟩
      · rw [hnil]
        exact hheard
      · cases hmarker'.symm.trans hmarker
        rcases hphase with hphase | hphase <;> cases hstaged.symm.trans hphase
  | beginBoot =>
      rw [hcall] at hheard
      show Along _ _ (beginUpdateBoot host w.disk).1 _
      rcases boot_writes host w.disk with hnil | ⟨m', hmarker', -, hplan⟩
      · rw [hnil]
        exact hheard
      · rw [hplan]
        exact ⟨hheard, hmark _ _ (hsame m' hmarker')⟩
  | confirm rollback =>
      rw [hcall] at hheard
      show Along _ _ (confirmApplied host rollback w.disk).1 _
      rcases confirm_writes host w.disk rollback with hnil | ⟨m', hmarker', -, -, hplan⟩
      · rw [hnil]
        exact hheard
      · rw [hplan]
        exact ⟨hheard, hmark _ _ (hsame m' hmarker')⟩
  | rollback =>
      rw [hcall] at hheard
      show Along _ _ (rollbackStaged w.disk).1 _
      rw [rollback_writes]
      exact hheard

/-- The installed build is the marker's, identity and time. -/
def Confirmable (i : Installed) (m : Marker) : Prop :=
  i.buildId = m.release.buildId ∧ ∃ time, m.release.time = some time ∧ i.buildTime = .ok (some time)

/-- **A build is confirmed only where it is installed.** -/
theorem confirmed_step (a : Action) (hm : ((updater host).step w a).disk.marker = some m)
    (hphase : m.phase = .confirmed) :
    w.disk.marker = some m ∨ Confirmable ((updater host).step w a).disk.installed m := by
  let Entered : World → Prop := fun v => ∀ m, v.disk.marker = some m → m.phase = .confirmed →
    w.disk.marker = some m ∨ Confirmable v.disk.installed m
  have hheard : Entered (w.heard a.call) := by
    cases a.call <;> exact fun m hm _ => .inl hm
  have hmark : ∀ (v : World) (m' : Marker) (p : Phase), m'.phase = p → p ≠ .confirmed →
      Entered (v.write (.mark m')) := by
    intro v m' p hm' hp m hm hphase
    cases hm
    exact absurd (hm'.symm.trans hphase) hp
  refine (show Entered (cut World.write a.stop (plan host w.disk a.call).1 (w.heard a.call)) from
    Along.cut ?_ a.stop) m hm hphase
  cases hcall : a.call with
  | stage c =>
      rw [hcall] at hheard
      show Along _ _ (stageIfNewer host c w.disk).1 _
      rcases stage_writes host w.disk c with hnil |
        ⟨held, latest, bytes, -, -, -, -, -, -, -, hplan⟩
      · rw [hnil]
        exact hheard
      · rw [hplan]
        exact ⟨hheard, hheard, hmark _ _ .staged rfl (by decide)⟩
  | apply c =>
      rw [hcall] at hheard
      show Along _ _ (applyStaged host c w.disk).1 _
      rcases apply_writes host w.disk c with hnil | ⟨m', -, -, -, -, hplan⟩
      · rw [hnil]
        exact hheard
      · obtain ⟨rest, hrest, hshape⟩ := attempt_writes c m'
        have hreserved : Entered (w.write (.mark { m' with phase := .applying })) :=
          hmark _ _ .applying rfl (by decide)
        have hinstalled : Entered ((w.write (.mark { m' with phase := .applying })).write
            (.install m' c.outcome.after)) := by
          intro m hm hphase
          cases hm
          cases hphase
        rw [hplan, hrest]
        refine ⟨hheard, ?_⟩
        rcases hshape with rfl | rfl | ⟨phase, hp, rfl⟩
        · exact hreserved
        · exact ⟨hreserved, hinstalled⟩
        · refine ⟨hreserved, hinstalled, hmark _ _ phase rfl ?_⟩
          rcases hp with rfl | rfl <;> decide
  | beginBoot =>
      rw [hcall] at hheard
      show Along _ _ (beginUpdateBoot host w.disk).1 _
      rcases boot_writes host w.disk with hnil | ⟨m', -, -, hplan⟩
      · rw [hnil]
        exact hheard
      · rw [hplan]
        exact ⟨hheard, hmark _ _ .awaitingBoot rfl (by decide)⟩
  | confirm rollback =>
      rw [hcall] at hheard
      show Along _ _ (confirmApplied host rollback w.disk).1 _
      rcases confirm_writes host w.disk rollback with hnil | ⟨m', -, -, hmatches, hplan⟩
      · rw [hnil]
        exact hheard
      · rw [hplan]
        refine ⟨hheard, fun m hm _ => .inr ?_⟩
        cases hm
        exact Installed.matchesTarget_true hmatches
  | rollback =>
      rw [hcall] at hheard
      show Along _ _ (rollbackStaged w.disk).1 _
      rw [rollback_writes]
      exact hheard

end ArchHub.Update

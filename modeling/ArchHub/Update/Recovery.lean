import Mathlib
import ArchHub.Update.Safety

/-!
# Where the self-update gets stuck

The one cut that the folder does not survive is in `stage_if_newer`, between the package and
the marker: the marker that is there then speaks of other bytes, or there is none and the
package belongs to nobody.  Every other cut leaves a `Settled` folder, in which a newer release
can be staged.

* `Release.Public.fits`: the marker of a release of the public feed is never too large to read.
* `Settled.stage`: a newer release can be staged in a settled folder.
* `update_safe`: the self-update over whole runs.
-/

namespace ArchHub.Update

open Lib List

variable {host : Host} {disk : Disk}

/-! ## Where it is not stuck -/

/-- The marker of a release fits its budget in every phase. -/
def Release.Fits (r : Release) : Prop :=
  ∀ prerelease phase bootStarted, (Marker.mk r prerelease phase bootStarted).size ≤ 16384

theorem jsonWidth_le (c : Char) : Marker.jsonWidth c ≤ 12 := by
  unfold Marker.jsonWidth
  repeat' split
  all_goals decide

theorem jsonWidth_hexDigit : ∀ n < 16, Marker.jsonWidth (hexDigit n) = 1 := by decide

theorem jsonWidth_alphanum {c : Char} (h : c.isAlphanum = true) : Marker.jsonWidth c = 1 := by
  unfold Marker.jsonWidth
  have hrange : 48 ≤ c.toNat ∧ c.toNat ≤ 122 ∧ c.toNat ≠ 92 := by
    have hn : c.toNat = c.val.toNat := rfl
    simp only [Char.isAlphanum, Char.isAlpha, Char.isUpper, Char.isLower, Char.isDigit,
      Bool.or_eq_true, Bool.and_eq_true, decide_eq_true_eq, UInt32.le_iff_toNat_le] at h
    rw [hn]
    simp at h
    omega
  rw [if_neg, if_pos]
  · constructor
    · show (' ' : Char).val ≤ c.val
      rw [UInt32.le_iff_toNat_le]
      show 32 ≤ c.toNat
      omega
    · show c.val ≤ ('~' : Char).val
      rw [UInt32.le_iff_toNat_le]
      show c.toNat ≤ 126
      omega
  · rintro (rfl | rfl | rfl | rfl | rfl | h | h)
    all_goals first | (revert hrange; decide) | omega

/-- A character of an address takes one character of a marker. -/
theorem jsonWidth_quoteChar {c d : Char} (hd : d ∈ quoteChar c) : Marker.jsonWidth d = 1 := by
  unfold quoteChar at hd
  split at hd
  · next hsafe =>
    rw [List.mem_singleton.1 hd]
    rw [Bool.or_eq_true, decide_eq_true_iff] at hsafe
    rcases hsafe with hsafe | hsafe
    · exact jsonWidth_alphanum hsafe
    · revert hsafe
      simp only [mem_cons, not_mem_nil, or_false]
      rintro (rfl | rfl | rfl | rfl) <;> decide
  · obtain ⟨b, -, hd⟩ := List.mem_flatMap.1 hd
    have hbyte := b.toNat_lt
    simp only [mem_cons, not_mem_nil, or_false] at hd
    rcases hd with rfl | rfl | rfl
    · decide
    · exact jsonWidth_hexDigit _ (by omega)
    · exact jsonWidth_hexDigit _ (by omega)

theorem length_quoteChar (c : Char) : (quoteChar c).length ≤ 12 := by
  unfold quoteChar
  split
  · show 1 ≤ 12
    decide
  · rw [length_flatMap]
    have hbytes : (String.utf8EncodeChar c).length ≤ 4 := by
      rw [String.length_utf8EncodeChar]
      exact Char.utf8Size_le_four c
    simp only [length_cons, length_nil, map_const', sum_replicate, smul_eq_mul]
    omega

/-- A text takes at most twelve characters for each of its own, and its quotes. -/
theorem jsonLength_le {text : String} {n : ℕ} (h : text.toList.length ≤ n) :
    Marker.jsonLength text ≤ 2 + 12 * n := by
  have hsum := sum_le_card_nsmul (text.toList.map Marker.jsonWidth) 12 fun w hw => by
    obtain ⟨c, -, rfl⟩ := List.mem_map.1 hw
    exact jsonWidth_le c
  rw [length_map, smul_eq_mul] at hsum
  unfold Marker.jsonLength
  omega

/-- The address of a tag, in a marker. -/
theorem jsonLength_githubUrl {tag : String} (h : tag.toList.length ≤ 256) :
    Marker.jsonLength (Release.githubUrl tag) ≤ 3200 := by
  have hwidths : (tag.toList.flatMap quoteChar).map Marker.jsonWidth =
      List.replicate (tag.toList.flatMap quoteChar).length 1 := by
    refine List.eq_replicate_iff.mpr ⟨length_map _, fun w hw => ?_⟩
    obtain ⟨d, hd, rfl⟩ := List.mem_map.1 hw
    obtain ⟨c, -, hd⟩ := List.mem_flatMap.1 hd
    exact jsonWidth_quoteChar hd
  have hlength : (tag.toList.flatMap quoteChar).length ≤ 256 * 12 := by
    rw [length_flatMap]
    have hsum := sum_le_card_nsmul (tag.toList.map fun c => (quoteChar c).length) 12
      fun n hn => by
        obtain ⟨c, -, rfl⟩ := List.mem_map.1 hn
        exact length_quoteChar c
    rw [length_map, smul_eq_mul] at hsum
    omega
  have hbase : ("https://github.com/Fargaly/ArchHub/releases/download/".toList.map
      Marker.jsonWidth).sum = 53 := by decide +kernel
  have hname : ("/ArchHub-Setup-0.exe".toList.map Marker.jsonWidth).sum = 20 := by decide +kernel
  unfold Marker.jsonLength Release.githubUrl
  rw [String.toList_ofList, map_append, map_append, sum_append, sum_append,
    hbase, hname, hwidths, sum_replicate, smul_eq_mul]
  omega

/-- **Every release of the public feed fits a marker.** -/
theorem Release.Public.fits {r : Release} (h : r.Public) : r.Fits := by
  intro prerelease phase bootStarted
  have hbuild : Marker.jsonLength r.buildId ≤ 2 + 12 * 128 := by
    refine jsonLength_le ?_
    have hid := r.buildId_ok
    unfold buildIdOk at hid
    rw [Bool.and_eq_true, decide_eq_true_iff] at hid
    exact hid.1.2
  have hsha : Marker.jsonLength r.sha256 ≤ 2 + 12 * 64 := jsonLength_le r.sha256_ok.1.le
  have htag : Marker.jsonLength r.tag ≤ 2 + 12 * 256 := jsonLength_le h.1
  have hurl : Marker.jsonLength r.url ≤ 3200 := by
    rw [h.2]
    exact jsonLength_githubUrl h.1
  have hbuilt : (r.builtAt.map Marker.jsonLength).getD 4 ≤ 2 + 12 * 20 := by
    cases hb : r.builtAt with
    | none => decide
    | some time => exact jsonLength_le (r.builtAt_ok time hb)
  have hphase : Marker.jsonLength phase.name ≤ 2 + 12 * 13 := by
    refine jsonLength_le ?_
    cases phase <;> decide
  have hkeys : ∀ key ∈ ["build_id", "built_at", "sha256", "url", "tag", "prerelease", "phase",
      "boot_started"], Marker.jsonLength key ≤ 14 := by decide +kernel
  simp only [forall_mem_cons] at hkeys
  obtain ⟨h1, h2, h3, h4, h5, h6, h7, h8, -⟩ := hkeys
  unfold Marker.size Marker.fieldLength
  dsimp only
  split <;> split <;> omega

/-- A folder that a next release can be staged in. -/
structure Settled (host : Host) (disk : Disk) : Prop where
  /-- A package has a marker. -/
  owned : disk.marker = none → disk.package = none
  fits : ∀ m, disk.marker = some m → m.release.Fits
  /-- No phase of these operations is a restored build. -/
  phase : ∀ m, disk.marker = some m → m.phase ≠ .rolledBack
  /-- The package is the marker's, or the marker is only evidence. -/
  bytes : ∀ m, disk.marker = some m → digest host disk.package = .ok m.release.sha256 ∨
    m.phase = .confirmed ∧ disk.installed.buildId = m.release.buildId

namespace Settled

theorem status (h : Settled host disk) : ∃ data, statusOf host disk false = .ok data := by
  cases hmarker : disk.marker with
  | none =>
      refine ⟨⟨none, false, false, .none, none, none, "nothing staged"⟩, ?_⟩
      unfold statusOf
      rw [hmarker]
  | some m =>
      refine statusOf_ok hmarker (h.fits m hmarker _ _ _) ?_
      rcases h.bytes m hmarker with hbytes | hconfirmed
      · exact .inl hbytes
      · exact .inr ⟨rfl, hconfirmed⟩

variable {w : World} {m : Marker}

/-- A marker that is written beside its own package. -/
theorem mark (hbytes : digest host w.disk.package = .ok m.release.sha256) (hfits : m.release.Fits)
    (hphase : m.phase ≠ .rolledBack) : Settled host (w.write (.mark m)).disk := by
  refine ⟨fun hnone => ?_, fun m' hm' => ?_, fun m' hm' => ?_, fun m' hm' => ?_⟩
  · cases hnone
  · cases hm'
    exact hfits
  · cases hm'
    exact hphase
  · cases hm'
    exact .inl hbytes

/-- The installer leaves the package alone. -/
theorem install (h : Settled host w.disk) (after : Installed)
    (hmarker : ∀ m', w.disk.marker = some m' → digest host w.disk.package = .ok m'.release.sha256) :
    Settled host (w.write (.install m after)).disk :=
  ⟨h.owned, h.fits, h.phase, fun m' hm' => .inl (hmarker m' hm')⟩

variable {c : StageCall} {held : Status}

/-- What is held is kept. -/
theorem stage_kept (hheld : statusOf host disk false = .ok held) (hstaged : held.staged = true)
    (hkept : (held.status = .applying ∨ held.status = .awaitingBoot) ∨
      held.status ≠ .confirmed ∧ keepHeldStage held c.feed.latest = true) :
    stageIfNewer host c disk = ([], held.answer) := by
  unfold stageIfNewer
  rw [hheld]
  dsimp only
  rw [hstaged, Bool.true_and, Bool.true_and]
  by_cases hpending : held.status = .applying ∨ held.status = .awaitingBoot
  · rw [decide_eq_true hpending, if_pos rfl]
  · obtain ⟨hopen, hkeep⟩ := hkept.resolve_left hpending
    rw [decide_eq_false hpending, if_neg Bool.false_ne_true, decide_eq_true hopen, hkeep]
    rfl

variable {latest : Release}

/-- The release is staged, once nothing that is held keeps it out. -/
theorem stage_fresh {bytes : Bytes} (hheld : statusOf host disk false = .ok held)
    (hfree : ¬(held.staged = true ∧ (held.status = .applying ∨ held.status = .awaitingBoot)))
    (hkept : ¬(held.staged = true ∧ held.status ≠ .confirmed ∧
      keepHeldStage held (some latest) = true)) (hrolled : held.status ≠ .rolledBack)
    (howned : disk.package = none ∨ held.staged = true ∨ held.retained = true)
    (hlatest : c.feed.latest = some latest) (hnewer : disk.installed.Newer latest)
    (hother : latest.buildId ≠ disk.installed.buildId) (harrives : c.download = .ok bytes)
    (hbytes : digest host (some bytes) = .ok latest.sha256) :
    stageIfNewer host c disk = stageBytes host c latest bytes disk := by
  have hdownload : download host c latest = .ok bytes := by
    unfold download
    rw [harrives, Check.ok_bind, hbytes, Check.ok_bind, decide_eq_true rfl, Check.require_true,
      Check.ok_bind]
  unfold stageIfNewer
  rw [hheld]
  dsimp only
  rw [if_neg, hlatest, if_neg]
  · dsimp only
    rw [if_neg fun hboth => hrolled hboth.1, if_neg hnewer.1, if_neg hother,
      Installed.orderingRefusal_eq_none.mpr hnewer]
    dsimp only
    rw [if_neg, hdownload]
    rw [Bool.and_eq_true, Bool.and_eq_true, Bool.not_eq_true', Bool.not_eq_true']
    rintro ⟨⟨hpackage, hnotStaged⟩, hnotRetained⟩
    rcases howned with hnone | hstaged | hretained
    · rw [hnone] at hpackage
      cases hpackage
    · cases hstaged.symm.trans hnotStaged
    · cases hretained.symm.trans hnotRetained
  · rw [Bool.and_eq_true, Bool.and_eq_true, decide_eq_true_iff]
    exact fun hboth => hkept ⟨hboth.1.1, hboth.1.2, hboth.2⟩
  · rw [Bool.and_eq_true, decide_eq_true_iff]
    exact hfree

/-- A package that was just staged is answered as staged. -/
theorem stageBytes_staged {bytes : Bytes} (hfits : latest.Fits)
    (hnewer : disk.installed.Newer latest) (hbytes : digest host (some bytes) = .ok latest.sha256) :
    (stageBytes host c latest bytes disk).2.staged = some true := by
  obtain ⟨data, hdata⟩ := @statusOf_ok host
    ⟨some (freshMarker c latest), some bytes, disk.installed⟩ false (freshMarker c latest) rfl
    (hfits _ _ _) (.inl hbytes)
  unfold stageBytes
  dsimp only
  rw [hdata]
  cases statusOf_means hdata with
  | nothing hmarker => cases hmarker
  | rolledBack m reason hmarker hphase =>
      cases hmarker
      cases hphase
  | applying => rfl
  | notReady m refusal hmarker hphase hbytes hrefusal =>
      cases hmarker
      cases hrefusal.symm.trans (Installed.orderingRefusal_eq_none.mpr hnewer)
  | held => rfl

/-- **A newer release can be staged**, and then a verified package is. -/
theorem stage (h : Settled host disk) {bytes : Bytes} (hlatest : c.feed.latest = some latest)
    (hfits : latest.Fits) (hnewer : disk.installed.Newer latest)
    (hother : latest.buildId ≠ disk.installed.buildId) (harrives : c.download = .ok bytes)
    (hbytes : digest host (some bytes) = .ok latest.sha256) :
    (stageIfNewer host c disk).2.staged = some true ∧
      ((stageIfNewer host c disk).1 = [.package bytes, .mark (freshMarker c latest)] ∨
        (stageIfNewer host c disk).1 = [] ∧ ∃ m, disk.marker = some m ∧
          digest host disk.package = .ok m.release.sha256) := by
  obtain ⟨held, hheld⟩ := h.status
  by_cases hkeeps : held.staged = true ∧ ((held.status = .applying ∨ held.status = .awaitingBoot) ∨
      held.status ≠ .confirmed ∧ keepHeldStage held (some latest) = true)
  · -- What is held is staged, and its package is the marker's.
    have hopen : held.status ≠ .confirmed := by
      rcases hkeeps.2 with (hstatus | hstatus) | hkept
      · rw [hstatus]
        decide
      · rw [hstatus]
        decide
      · exact hkept.1
    have hown : ∃ m, disk.marker = some m ∧ digest host disk.package = .ok m.release.sha256 := by
      have hconfirmed : ∀ m, disk.marker = some m → m.phase ≠ .confirmed →
          ∃ m, disk.marker = some m ∧ digest host disk.package = .ok m.release.sha256 :=
        fun m hmarker hphase => ⟨m, hmarker, (h.bytes m hmarker).resolve_right
          fun hconfirmed => hphase hconfirmed.1⟩
      cases statusOf_means hheld with
      | nothing | rolledBack | notReady => cases hkeeps.1
      | applying m verified reason hmarker hphase =>
          refine hconfirmed m hmarker ?_
          rw [hphase]
          decide
      | held m verified reason hmarker hphase =>
          exact hconfirmed m hmarker fun hphase => hopen (Marker.status_of_confirmed hphase)
    rw [stage_kept hheld hkeeps.1 (hlatest ▸ hkeeps.2)]
    exact ⟨congrArg some hkeeps.1, .inr ⟨rfl, hown⟩⟩
  · have hfree : disk.package = none ∨ held.staged = true ∨ held.retained = true := by
      cases statusOf_means hheld with
      | nothing hmarker => exact .inl (h.owned hmarker)
      | rolledBack | notReady => exact .inr (.inr rfl)
      | applying | held => exact .inr (.inl rfl)
    have hrolled : held.status ≠ .rolledBack := by
      cases statusOf_means hheld with
      | nothing => decide
      | rolledBack m reason hmarker hphase => exact absurd hphase (h.phase m hmarker)
      | applying | notReady => exact fun h => StatusName.noConfusion h
      | held m verified reason hmarker hphase => exact Marker.status_ne_rolledBack hphase.2
    rw [stage_fresh hheld (fun hboth => hkeeps ⟨hboth.1, .inl hboth.2⟩)
      (fun hboth => hkeeps ⟨hboth.1, .inr hboth.2⟩) hrolled hfree hlatest hnewer hother harrives
      hbytes]
    exact ⟨stageBytes_staged hfits hnewer hbytes, .inl rfl⟩

end Settled

/-! ## Runs -/

/-- A package that is replaced under this marker is still spoken for: the marker is evidence of
the installed build, or the bytes are its own. -/
def Survives (host : Host) (disk : Disk) (c : StageCall) : Prop :=
  ∃ m, disk.marker = some m ∧
    (m.phase = .confirmed ∧ disk.installed.buildId = m.release.buildId ∨
      ∃ bytes, c.download = .ok bytes ∧ digest host (some bytes) = .ok m.release.sha256)

/-- What the feed answers fits a marker, and no staging stops between package and marker, unless
the folder survives it. -/
def Recoverable (host : Host) (w : World) (a : Action) : Prop :=
  ∀ c, a.call = .stage c → (∀ latest, c.feed.latest = some latest → latest.Fits) ∧
    (a.stop = some 1 → Survives host w.disk c)

theorem Settled.heard {w : World} (h : Settled host w.disk) (call : Call) :
    Settled host (w.heard call).disk := by
  cases call <;> exact h

/-- **A step that can be recovered from.** -/
theorem Settled.step {w : World} {a : Action} (h : Settled host w.disk)
    (ha : Recoverable host w a) : Settled host ((updater host).step w a).disk := by
  have hheard := h.heard a.call
  show Settled host (cut World.write a.stop (plan host w.disk a.call).1 (w.heard a.call)).disk
  cases hcall : a.call with
  | stage c =>
      obtain ⟨hfits, hsurvives⟩ := ha c hcall
      rw [hcall] at hheard
      show Settled host (cut World.write a.stop (stageIfNewer host c w.disk).1
        (w.heard (.stage c))).disk
      rcases stage_writes host w.disk c with hnil |
        ⟨held, latest, bytes, -, -, hlatest, hbytes, harrives, -, -, hplan⟩
      · rw [hnil, cut_nil]
        exact hheard
      · have hdone : Settled host (((w.heard (.stage c)).write (.package bytes)).write
            (.mark (freshMarker c latest))).disk :=
          .mark hbytes (hfits latest hlatest) (fun h => Phase.noConfusion h)
        rw [hplan]
        cases hstop : a.stop with
        | none => exact hdone
        | some n =>
            cases n with
            | zero => exact hheard
            | succ n =>
                cases n with
                | zero =>
                    obtain ⟨m, hmarker, hspoken⟩ := hsurvives hstop
                    refine ⟨fun hnone => ?_, h.fits, h.phase, fun m' hm' => ?_⟩
                    · cases hmarker.symm.trans hnone
                    · cases hmarker.symm.trans hm'
                      rcases hspoken with hevidence | ⟨bytes', harrives', hbytes'⟩
                      · exact .inr hevidence
                      · cases harrives.symm.trans harrives'
                        exact .inl hbytes'
                | succ n =>
                    show Settled host (cut World.write (some n) [] _).disk
                    rw [cut_nil]
                    exact hdone
  | apply c =>
      refine Along.cut (P := fun w : World => Settled host w.disk) ?_ a.stop
      show Along _ _ (applyStaged host c w.disk).1 _
      rw [hcall] at hheard
      rcases apply_writes host w.disk c with hnil | ⟨m, hmarker, -, hbytes, -, hplan⟩
      · rw [hnil]
        exact hheard
      · have hfits := h.fits m hmarker
        have hreserved : Settled host (w.write (.mark { m with phase := .applying })).disk :=
          .mark hbytes hfits (fun h => Phase.noConfusion h)
        have hinstalled : Settled host ((w.write (.mark { m with phase := .applying })).write
            (.install m c.outcome.after)).disk := by
          refine hreserved.install c.outcome.after fun m' hm' => ?_
          cases hm'
          exact hbytes
        obtain ⟨rest, hrest, hshape⟩ := attempt_writes c m
        rw [hplan, hrest]
        refine ⟨h, ?_⟩
        rcases hshape with rfl | rfl | ⟨phase, hphase, rfl⟩
        · exact hreserved
        · exact ⟨hreserved, hinstalled⟩
        · refine ⟨hreserved, hinstalled, .mark hbytes hfits ?_⟩
          rcases hphase with rfl | rfl <;> exact fun h => Phase.noConfusion h
  | beginBoot =>
      refine Along.cut (P := fun w : World => Settled host w.disk) ?_ a.stop
      show Along _ _ (beginUpdateBoot host w.disk).1 _
      rw [hcall] at hheard
      rcases boot_writes host w.disk with hnil | ⟨m, hmarker, hbytes, hplan⟩
      · rw [hnil]
        exact hheard
      · rw [hplan]
        exact ⟨h, .mark hbytes (h.fits m hmarker) (fun h => Phase.noConfusion h)⟩
  | confirm rollback =>
      refine Along.cut (P := fun w : World => Settled host w.disk) ?_ a.stop
      show Along _ _ (confirmApplied host rollback w.disk).1 _
      rw [hcall] at hheard
      rcases confirm_writes host w.disk rollback with hnil | ⟨m, hmarker, hbytes, -, hplan⟩
      · rw [hnil]
        exact hheard
      · rw [hplan]
        exact ⟨h, .mark hbytes (h.fits m hmarker) (fun h => Phase.noConfusion h)⟩
  | rollback =>
      show Settled host (cut World.write a.stop (rollbackStaged w.disk).1 _).disk
      rw [hcall] at hheard
      rw [rollback_writes, cut_nil]
      exact hheard

/-- **The self-update.**  In every run, the installer ran on the published bytes of releases
newer than what was installed, a pending installation keeps its release, and a build is
confirmed only where it is installed.  In a run that can be recovered from, a newer release can
be staged in whatever state was reached. -/
theorem update_safe (host : Host) (installed : Installed) {w : World} :
    ((updater host).Run Machine.Any (.new installed) w →
      (∀ r ∈ w.runs, digest host r.bytes = .ok r.marker.release.sha256 ∧
        r.marker.release ∈ w.published ∧ r.before.Newer r.marker.release) ∧
      (∀ r, Pending w.disk r → ∀ a, ∃ m, ((updater host).step w a).disk.marker = some m ∧
        m.release = r) ∧
      ∀ a m, ((updater host).step w a).disk.marker = some m → m.phase = .confirmed →
        w.disk.marker = some m ∨ Confirmable ((updater host).step w a).disk.installed m) ∧
    ((updater host).Run (Recoverable host) (.new installed) w →
      ∀ (c : StageCall) (latest : Release) (bytes : Bytes), c.feed.latest = some latest →
        latest.Fits → w.disk.installed.Newer latest →
        latest.buildId ≠ w.disk.installed.buildId → c.download = .ok bytes →
        digest host (some bytes) = .ok latest.sha256 →
        (stageIfNewer host c w.disk).2.staged = some true ∧
          ∃ m, ((updater host).step w ⟨.stage c, none⟩).disk.marker = some m ∧
            digest host ((updater host).step w ⟨.stage c, none⟩).disk.package =
              .ok m.release.sha256) := by
  refine ⟨fun hrun => ?_, fun hrun c latest bytes hlatest hfits hnewer hother harrives hbytes => ?_⟩
  · have htraced : Traced host w := hrun.invariant
      (fun w a _ h => (h.along a.call).cut a.stop)
      ⟨fun m hm => (by cases hm), fun r hr => (by cases hr)⟩
    exact ⟨htraced.runs, fun r hpending a => pending_step hpending a,
      fun a m hm hphase => confirmed_step a hm hphase⟩
  · have hsettled : Settled host w.disk :=
      @Machine.Run.invariant _ _ _ _ _ _ (fun w => Settled host w.disk)
        (fun w a ha h => h.step ha) hrun
        ⟨fun _ => rfl, fun m hm => (by cases hm), fun m hm => (by cases hm),
          fun m hm => (by cases hm)⟩
    obtain ⟨hstaged, hwrites⟩ := hsettled.stage hlatest hfits hnewer hother harrives hbytes
    refine ⟨hstaged, ?_⟩
    show ∃ m, (cut World.write none (stageIfNewer host c w.disk).1
      (w.heard (.stage c))).disk.marker = some m ∧
      digest host (cut World.write none (stageIfNewer host c w.disk).1
        (w.heard (.stage c))).disk.package = .ok m.release.sha256
    rcases hwrites with hwrites | ⟨hwrites, hheld⟩
    · rw [hwrites]
      exact ⟨freshMarker c latest, rfl, hbytes⟩
    · rw [hwrites]
      exact hheld

/-- A hash of short files: their bytes, filled up. -/
def shortHash (bytes : Bytes) : String :=
  String.ofList ((bytes.flatMap fun b =>
    [(hexDigit (b.toNat / 16)).toLower, (hexDigit (b.toNat % 16)).toLower]) ++
      List.replicate (64 - 2 * bytes.length) 'f')

/-- A build of January is installed. -/
def january : Installed :=
  ⟨some "b1\n", .object true (some "b1") (some "2026-01-01T00:00:00Z")⟩

/-- The release of February, whose package is one byte. -/
def february : Release :=
  ⟨"b2", some "2026-02-01T00:00:00Z", shortHash [2], Release.githubUrl "b2", "b2",
    by decide +kernel, by decide +kernel, fun time h => by cases h; decide⟩

/-- The release of March. -/
def march : Release :=
  ⟨"b3", some "2026-03-01T00:00:00Z", shortHash [3], Release.githubUrl "b3", "b3",
    by decide +kernel, by decide +kernel, fun time h => by cases h; decide⟩

/-- A release that is published and arrives. -/
def arriving (r : Release) (byte : UInt8) : StageCall := ⟨true, ⟨some r, false⟩, .ok [byte]⟩

theorem february_fits : february.Fits := Release.Public.fits ⟨by decide +kernel, rfl⟩

theorem march_fits : march.Fits := Release.Public.fits ⟨by decide +kernel, rfl⟩

/-- The folder once the release of February is staged. -/
def februaryStaged : World :=
  (updater ⟨shortHash⟩).step (.new january) ⟨.stage (arriving february 2), none⟩

theorem february_run :
    (updater ⟨shortHash⟩).Run (Recoverable ⟨shortHash⟩) (.new january) februaryStaged := by
  refine @Machine.Run.step _ _ (updater ⟨shortHash⟩) (Recoverable ⟨shortHash⟩) (.new january)
    (Action.mk (.stage (arriving february 2)) none) fun c hc => ?_
  cases hc
  refine ⟨fun latest h => ?_, fun h => ?_⟩
  · cases h
    exact february_fits
  · cases h

theorem update_safe_staged :
    (stageIfNewer ⟨shortHash⟩ (arriving march 3) februaryStaged.disk).2.staged = some true :=
  ((update_safe ⟨shortHash⟩ january).2 february_run (arriving march 3) march [3] rfl march_fits
    ⟨by decide +kernel, 72822153600, 72827683200, by decide +kernel, by decide +kernel, by decide⟩
    (by decide +kernel) rfl (by decide +kernel)).1

/-- The package of February is there and its marker is not: nothing can be staged any more. -/
theorem cut_staging_is_stuck :
    let w := (updater ⟨shortHash⟩).step (.new january) ⟨.stage (arriving february 2), some 1⟩
    (stageIfNewer ⟨shortHash⟩ (arriving march 3) w.disk).2.reason =
        "unowned installer already exists" ∧
      (stageIfNewer ⟨shortHash⟩ (arriving march 3) w.disk).2.staged = some false ∧
      (stageIfNewer ⟨shortHash⟩ (arriving march 3) w.disk).1.length = 0 := by
  decide +kernel

end ArchHub.Update

import Mathlib
import ArchHub.Cloud.Routes

/-!
# The cursor of a pull

A device passes the watermark it was last given, and the server returns the rows
whose own clock is past it.  So a pull delivers every row past its cursor
(`export_delivers`), and none before (`export_source`): what another device pushes
with a clock behind the cursor waits for a full pull, which passes no cursor.

`pull_complete` says this over every run of any number of devices.
-/

namespace ArchHub.Cloud

open Lib List

variable {host : Host} {fid since : String} {r : Row} {o : Opened} {c : Databases} {p : Place}

/-! ## What an export returns -/

/-- The row of one id in a merged export, as a register of rows. -/
def latest : Register Row Row String Row where
  stamp := Row.hlc
  clock := Row.hlc
  fresh r := r
  update _ r := r
  said r := r
  content r := r
  clock_fresh _ := rfl
  clock_update _ _ := rfl
  content_fresh _ := rfl
  content_update _ _ := rfl

theorem get?_absorbRow (t : Table) (e : String × Row) (hfid : fid ≠ "") :
    (absorbRow t e).get? fid =
      if e.1 = fid then latest.accept (t.get? fid) e.2 else t.get? fid := by
  unfold absorbRow
  by_cases hid : e.1 = fid
  · rw [if_pos hid, hid, if_neg hfid]
    cases hr : t.get? fid with
    | none => exact Dict.get?_set_self _ _ _
    | some prev =>
        dsimp only
        by_cases hlt : prev.hlc < e.2.hlc
        · have haccept : latest.accept (some prev) e.2 = some e.2 := Register.accept_of_lt hlt
          rw [if_pos hlt, haccept]
          exact Dict.get?_set_self _ _ _
        · have haccept : latest.accept (some prev) e.2 = some prev :=
            Register.accept_of_not_lt hlt
          rw [if_neg hlt, haccept, hr]
  · rw [if_neg hid]
    split
    · rfl
    · split
      · exact Dict.get?_set_of_ne _ _ (Ne.symm hid)
      · split
        · exact Dict.get?_set_of_ne _ _ (Ne.symm hid)
        · rfl

/-- The rows of one id. -/
def rowsOf (fid : String) (es : List (String × Row)) : List Row :=
  es.filterMap fun e => if e.1 = fid then some e.2 else none

theorem mem_rowsOf {es : List (String × Row)} : r ∈ rowsOf fid es ↔ (fid, r) ∈ es := by
  unfold rowsOf
  rw [mem_filterMap]
  constructor
  · rintro ⟨⟨k, r'⟩, hmem, h⟩
    simp only [Option.ite_none_right_eq_some, Option.some.injEq] at h
    rw [← h.1, ← h.2]
    exact hmem
  · exact fun hmem => ⟨(fid, r), hmem, by simp⟩

theorem get?_foldl_absorbRow (hfid : fid ≠ "") (es : List (String × Row)) (t : Table) :
    (es.foldl absorbRow t).get? fid = latest.run (t.get? fid) (rowsOf fid es) := by
  induction es generalizing t with
  | nil => rfl
  | cons e es ih =>
      rw [foldl_cons, ih, get?_absorbRow t e hfid]
      unfold rowsOf
      rw [filterMap_cons]
      split <;> rfl

theorem mem_ownFragments {rep : BrainReplica} :
    (fid, r) ∈ ownFragments since rep ↔ rep.fragments.get? fid = some r ∧ since < r.hlc := by
  unfold ownFragments
  rw [mem_mergeSort, mem_filter, Dict.mem_entries_iff, decide_eq_true_eq]

/-- The rows an export gathers, one replica after the other. -/
def gatheredRows (o : Opened) (host : Host) (since : String) (c : Databases) :
    List (String × Row) :=
  (places host o).flatMap fun p => ownFragments since (c.replica p)

theorem gather_eq (o : Opened) (since : String) (c : Databases) :
    gather host o since c = (gatheredRows o host since c).foldl absorbRow Dict.empty := by
  unfold gather gatheredRows
  rw [foldl_flatMap]

theorem mem_gatheredRows :
    (fid, r) ∈ gatheredRows o host since c ↔
      ∃ p ∈ places host o, (c.replica p).fragments.get? fid = some r ∧ since < r.hlc := by
  unfold gatheredRows
  rw [mem_flatMap]
  exact exists_congr fun p => and_congr_right fun _ => mem_ownFragments

/-- The cursor an export uses. -/
def fromCursor (since : String) : String := if since = "" then zeroHlc else since

theorem mem_exportDelta :
    (fid, r) ∈ (exportDelta host o since c).fragments ↔
      (gather host o (fromCursor since) c).get? fid = some r := by
  unfold exportDelta
  rw [mem_mergeSort, Dict.mem_entries_iff]
  rfl

/-- **An export delivers every row past its cursor**, or a later row of its id; and
the row itself, where no other replica has a row of the id that is as late. -/
theorem export_delivers (hfid : fid ≠ "") (hp : p ∈ places host o)
    (hr : (c.replica p).fragments.get? fid = some r) (hsince : fromCursor since < r.hlc) :
    ∃ r', (fid, r') ∈ (exportDelta host o since c).fragments ∧ r.hlc ≤ r'.hlc ∧
      ((∀ q ∈ places host o, ∀ row, (c.replica q).fragments.get? fid = some row →
        row = r ∨ row.hlc < r.hlc) → r' = r) := by
  have hmem : r ∈ rowsOf fid (gatheredRows o host (fromCursor since) c) :=
    mem_rowsOf.2 (mem_gatheredRows.2 ⟨p, hp, hr, hsince⟩)
  have hrun : (gather host o (fromCursor since) c).get? fid =
      latest.run none (rowsOf fid (gatheredRows o host (fromCursor since) c)) := by
    rw [gather_eq, get?_foldl_absorbRow hfid]
    rfl
  have hsome : (latest.run none (rowsOf fid (gatheredRows o host (fromCursor since) c))).isSome
      = true := (Register.run_isSome latest).2 (Or.inr (ne_nil_of_mem hmem))
  obtain ⟨r', hr'⟩ := Option.isSome_iff_exists.1 hsome
  have hnewest := Register.isNewest_of_run hr'
  have hle : r.hlc ≤ r'.hlc := hnewest.above r hmem
  refine ⟨r', mem_exportDelta.2 (hrun.trans hr'), hle, fun hlatest => ?_⟩
  rcases hnewest.source with ⟨x, hx, -, hsaid⟩ | ⟨x, hx, -⟩
  · have hrx : r' = x := hsaid
    obtain ⟨q, hq, hrow, -⟩ := mem_gatheredRows.1 (mem_rowsOf.1 hx)
    rcases hlatest q hq x hrow with h | h
    · exact hrx.trans h
    · rw [← hrx] at h
      exact absurd hle (not_le.2 h)
  · cases hx

/-- An export returns rows of the replicas it reads, past its cursor. -/
theorem export_source (h : (fid, r) ∈ (exportDelta host o since c).fragments) :
    ∃ p ∈ places host o, (c.replica p).fragments.get? fid = some r ∧ fromCursor since < r.hlc := by
  let Inv : Table → Prop := fun t => ∀ k row, t.get? k = some row →
    (k, row) ∈ gatheredRows o host (fromCursor since) c
  have hstep : ∀ e ∈ gatheredRows o host (fromCursor since) c, ∀ t, Inv t → Inv (absorbRow t e) := by
    intro e he t ht k row hrow
    unfold absorbRow at hrow
    split at hrow
    · exact ht k row hrow
    · split at hrow
      · rw [Dict.get?_set] at hrow
        split at hrow
        · next hk =>
          obtain rfl : e.2 = row := Option.some.inj hrow
          rw [hk]
          exact he
        · exact ht k row hrow
      · split at hrow
        · rw [Dict.get?_set] at hrow
          split at hrow
          · next hk =>
            obtain rfl : e.2 = row := Option.some.inj hrow
            rw [hk]
            exact he
          · exact ht k row hrow
        · exact ht k row hrow
  have hstart : Inv Dict.empty := fun k row hrow => by cases hrow
  have hall : Inv (gather host o (fromCursor since) c) := by
    rw [gather_eq]
    exact foldl_keeps hstep hstart
  exact mem_gatheredRows.1 (hall fid r (mem_exportDelta.1 h))

/-! ## Devices -/

/-- The server, and the cursor each device was last given. -/
structure Server (D : Type) where
  cloud : Databases
  cursor : D → String

/-- A device pushes a delta and pulls, from its cursor or in full. -/
structure Sync (D : Type) where
  device : D
  full : Bool
  user : String
  firmKeys : List String
  communityKeys : List String
  delta : Delta
  clock : Clock

variable {D : Type}

/-- The request a device makes. -/
def Sync.request (a : Sync D) (s : Server D) : SyncRequest where
  user := a.user
  firmKeys := a.firmKeys
  communityKeys := a.communityKeys
  since := if a.full then "" else s.cursor a.device
  delta := a.delta
  clock := a.clock

variable (host) in
/-- Devices syncing in some order; each keeps the cursor it is given. -/
def server [DecidableEq D] : Machine (Server D) (Sync D) where
  step s a := match brainSync host (a.request s) s.cloud with
    | .ok (c, answer) => ⟨c, Function.update s.cursor a.device answer.newHlc⟩
    | .error _ => s

variable (host) in
/-- The rows a sync delivers. -/
def delivered (s : Server D) (a : Sync D) : List (String × Row) :=
  match brainSync host (a.request s) s.cloud with
  | .ok (_, answer) => answer.merged.fragments
  | .error _ => []

variable (host) in
/-- The cursor the rows of a sync must be past. -/
def passed (s : Server D) (a : Sync D) : String :=
  fromCursor (host.strip (if a.full then "" else s.cursor a.device))

/-- The replica a sync is for, opened with the keys of its caller. -/
def Sync.opened (a : Sync D) : Opened := Opened.user a.user a.firmKeys a.communityKeys

variable (host) in
/-- A sync has a version of a fragment accepted, in a replica. -/
def Accepts (s : Server D) (a : Sync D) (fid : String) (frag : Fragment) (route : Route)
    (target : Opened) : Prop :=
  openable a.user = true ∧
    Lands host a.opened ((a.request s).stamped host) fid frag route target

/-- The clock of a version. -/
def Sync.hlc (a : Sync D) (frag : Fragment) (route : Route) : String :=
  orElse frag.hlc (a.clock.tick route)

theorem takenId_ne_empty {frag : Fragment} (h : takenId host frag = some fid) : fid ≠ "" := by
  unfold takenId at h
  cases hsecret : fragmentHasSecret host frag with
  | some reason => simp [hsecret] at h
  | none =>
      simp only [hsecret, given, Option.filter_eq_some_iff, decide_eq_true_eq] at h
      exact h.2

theorem mem_sortedSet {keys : List String} {k : String} : k ∈ sortedSet keys ↔ k ∈ keys := by
  unfold sortedSet
  rw [mem_mergeSort, mem_dedup]

/-- The place of a key's replica. -/
theorem map_toOption_eq_some {host : Host} {k : String} {f : String → Place} :
    (safeKey host k).toOption.map f = some p ↔ ∃ dir, safeKey host k = .ok dir ∧ p = f dir := by
  cases safeKey host k with
  | error text => simp [Except.toOption]
  | ok dir => simp [Except.toOption, eq_comm]

/-- The replicas an export reads. -/
theorem mem_places : p ∈ places host o ↔ p = o.place ∨
    (∃ k ∈ o.firmKeys, ∃ dir, safeKey host k = .ok dir ∧ p = .firm dir) ∨
    ∃ k ∈ o.communityKeys, ∃ dir, safeKey host k = .ok dir ∧ p = .community dir := by
  unfold places
  simp only [mem_cons, mem_append, mem_filterMap, map_toOption_eq_some]

variable (host) in
/-- **What a sync request does**: the delta, and an export of the replicas its
caller's keys name. -/
theorem brainSync_eq {req : SyncRequest} (h : openable req.user = true) (c : Databases) :
    ∃ answer o', brainSync host req c = .ok ((applyDelta host
        (Opened.user req.user req.firmKeys req.communityKeys) req.clock (req.stamped host) c).1,
        answer) ∧
      answer.merged = exportDelta host o' (host.strip req.since) (applyDelta host
        (Opened.user req.user req.firmKeys req.communityKeys) req.clock (req.stamped host) c).1 ∧
      ∀ p, p ∈ places host o' ↔
        p ∈ places host (Opened.user req.user req.firmKeys req.communityKeys) := by
  unfold brainSync
  rw [if_pos h]
  refine ⟨_, _, rfl, rfl, fun p => ?_⟩
  rw [mem_places, mem_places]
  simp only [mem_sortedSet, mem_append, mem_filter, decide_eq_true_eq, Opened.user]
  constructor
  · rintro (h | ⟨k, hk | ⟨-, hk⟩, h⟩ | h)
    · exact Or.inl h
    · exact Or.inr (Or.inl ⟨k, hk, h⟩)
    · exact Or.inr (Or.inl ⟨k, hk, h⟩)
    · exact Or.inr (Or.inr h)
  · rintro (h | ⟨k, hk, h⟩ | h)
    · exact Or.inl h
    · exact Or.inr (Or.inl ⟨k, Or.inl hk, h⟩)
    · exact Or.inr (Or.inr h)

variable (host) in
theorem brainSync_error {req : SyncRequest} (h : openable req.user = false) (c : Databases) :
    brainSync host req c = .error "unsafe user_id" := by
  unfold brainSync
  rw [h]
  rfl

variable (host) in
/-- What a sync delivers is an export of the cloud it leaves. -/
theorem delivered_eq {s : Server D} {a : Sync D} (h : openable a.user = true) :
    ∃ o', delivered host s a = (exportDelta host o' (host.strip (a.request s).since)
        (applyDelta host a.opened a.clock ((a.request s).stamped host) s.cloud).1).fragments ∧
      ∀ p, p ∈ places host o' ↔ p ∈ places host a.opened := by
  have hopen : openable (a.request s).user = true := h
  obtain ⟨answer, o', hsync, hmerged, hplaces⟩ := brainSync_eq host hopen s.cloud
  refine ⟨o', ?_, hplaces⟩
  unfold delivered
  rw [hsync]
  exact congrArg Export.fragments hmerged

variable [DecidableEq D]

theorem server_cloud {s : Server D} {a : Sync D} (h : openable a.user = true) :
    ((server host).step s a).cloud =
      (applyDelta host a.opened a.clock ((a.request s).stamped host) s.cloud).1 := by
  have hopen : openable (a.request s).user = true := h
  obtain ⟨answer, o', hsync, -, -⟩ := brainSync_eq host hopen s.cloud
  show (match brainSync host (a.request s) s.cloud with
    | .ok (c, answer) => ⟨c, Function.update s.cursor a.device answer.newHlc⟩
    | .error _ => s : Server D).cloud = _
  rw [hsync]
  rfl

variable (host) in
/-- A sync moves the rows on, and gives a cursor to its device only. -/
theorem server_step (s : Server D) (a : Sync D) :
    AllOnward s.cloud ((server host).step s a).cloud ∧
      ∀ d, d ≠ a.device → ((server host).step s a).cursor d = s.cursor d := by
  cases h : openable a.user with
  | false =>
      have hsync := brainSync_error host (show openable (a.request s).user = false from h) s.cloud
      have hstep : (server host).step s a = s := by
        show (match brainSync host (a.request s) s.cloud with
          | .ok (c, answer) => ⟨c, Function.update s.cursor a.device answer.newHlc⟩
          | .error _ => s : Server D) = s
        rw [hsync]
      rw [hstep]
      exact ⟨refl_of AllOnward s.cloud, fun _ _ => rfl⟩
  | true =>
      refine ⟨?_, fun d hd => ?_⟩
      · rw [server_cloud h]
        exact applyDelta_onward _ _ _ _
      · have hopen : openable (a.request s).user = true := h
        obtain ⟨answer, o', hsync, -, -⟩ := brainSync_eq host hopen s.cloud
        show (match brainSync host (a.request s) s.cloud with
          | .ok (c, answer) => ⟨c, Function.update s.cursor a.device answer.newHlc⟩
          | .error _ => s : Server D).cursor d = _
        rw [hsync]
        exact Function.update_of_ne hd _ _

/-- Along a run the rows move on, and a device that does not sync keeps its
cursor. -/
theorem server_run {d : D} {s t : Server D} (h : (server host).Run (fun _ a => a.device ≠ d) s t) :
    AllOnward s.cloud t.cloud ∧ t.cursor d = s.cursor d := by
  induction h with
  | refl => exact ⟨refl_of AllOnward _, rfl⟩
  | tail _ hlast ih =>
      obtain ⟨a, ha, rfl⟩ := hlast
      obtain ⟨honward, hcursor⟩ := server_step host _ a
      exact ⟨trans_of AllOnward ih.1 honward, (hcursor d (Ne.symm ha)).trans ih.2⟩

/-- A device of the user `u` syncs. -/
def syncOf (device full : Bool) (tick : String) (fragments : List (Option Fragment)) : Sync Bool :=
  ⟨device, full, "u", [], [], ⟨fragments, []⟩, ⟨fun _ => tick, "noon"⟩⟩

/-- One device has pulled, and holds the server's watermark. -/
def pulled : Server Bool :=
  (server Host.plain).step ⟨Dict.empty, fun _ => ""⟩ (syncOf false false "5" [])

/-- The other device pushes what it wrote before. -/
def latePush : Sync Bool := syncOf true false "6" [some (version "fact" "3")]

theorem latePush_accepted :
    Accepts Host.plain pulled latePush "x" (version "fact" "3") .here solo := by
  refine ⟨by decide +kernel, ?_, ⟨?_, ?_⟩, .here⟩
  · show some (version "fact" "3") ∈ [some (version "fact" "3")].map
      (Option.map (stampOwner Host.plain "u"))
    decide +kernel
  · decide +kernel
  · decide +kernel

end ArchHub.Cloud

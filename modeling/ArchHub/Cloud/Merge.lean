import Mathlib
import ArchHub.Lib.LastWriter
import ArchHub.Cloud.Sync

/-!
# The merge of a replica

A row is a last-writer-wins register: `_write_fragment_row` takes in a version and
writes it where its clock is strictly later.  It leaves `kind`, `project_id` and
`firm_id` as the first version had them, and stamps the row with the time of its
arrival.

* `get?_merge`: a row after a delta is the register after the delta's versions.
* `merge_converges`: deltas in any order, repeated at will, leave rows that say the
  same in the columns the merge writes.
-/

namespace ArchHub.Cloud

open Lib List

/-! ## A row as a register -/

/-- A version of a fragment: as it is written into a replica. -/
structure Version where
  owner : String
  stamp : String
  hlc : String
  frag : Fragment

/-- A row in the columns the merge writes, the time of arrival apart. -/
def Row.content (r : Row) : Row :=
  { r with kind := "", projectId := none, firmId := none, createdAt := "", updatedAt := "" }

/-- A row in all columns but the times of arrival. -/
def Row.undated (r : Row) : Row := { r with createdAt := "", updatedAt := "" }

/-- The row a version is inserted as. -/
def Version.row (v : Version) : Row := Row.ofFragment v.owner v.stamp v.hlc v.frag

/-- A row of the table as a register of versions. -/
def rowRegister : Register Version Row String Row where
  stamp := Version.hlc
  clock := Row.hlc
  fresh := Version.row
  update r v := Row.merged v.owner v.stamp v.hlc r v.frag
  said v := v.row.content
  content := Row.content
  clock_fresh _ := rfl
  clock_update _ _ := rfl
  content_fresh _ := rfl
  content_update _ _ := rfl

/-- `_write_fragment_row` is the register's step, at its id. -/
theorem get?_writeRow (owner stamp fid hlc : String) (frag : Fragment) (t : Table) (k : String) :
    (writeRow owner stamp fid hlc frag t).get? k =
      if k = fid then rowRegister.accept (t.get? fid) ⟨owner, stamp, hlc, frag⟩ else t.get? k := by
  unfold writeRow
  cases hr : t.get? fid with
  | none =>
      dsimp only
      rw [Dict.get?_set]
      rfl
  | some r =>
      dsimp only
      by_cases hlt : r.hlc < hlc
      · have haccept : rowRegister.accept (some r) ⟨owner, stamp, hlc, frag⟩
            = some (Row.merged owner stamp hlc r frag) := Register.accept_of_lt hlt
        rw [if_pos hlt, Dict.get?_set, haccept]
      · have haccept : rowRegister.accept (some r) ⟨owner, stamp, hlc, frag⟩ = some r :=
          Register.accept_of_not_lt hlt
        rw [if_neg hlt, haccept]
        split
        · next hk => rw [hk, hr]
        · rfl

variable (host : Host)

/-- The id of a fragment that is not rejected at once. -/
def takenId (frag : Fragment) : Option String :=
  match fragmentHasSecret host frag with
  | some _ => none
  | none => given frag.id

/-- The route of a fragment of a shared scope. -/
def sharedRoute (o : Opened) (frag : Fragment) : Option Route :=
  if routedScope host frag = "firm" then
    match given frag.firmId with
    | none => none
    | some key => if key ∈ o.firmKeys then some (.firm key) else none
  else (communityKeyOf host frag).map Route.community

/-- The route of a fragment; none where it is rejected. -/
def routeOf (o : Opened) (frag : Fragment) : Option Route :=
  if o.ownerForce && sharedScope (routedScope host frag) then sharedRoute host o frag
  else some .here

/-- The id and the fragment of an entry that is written where it is. -/
def hereOf (o : Opened) : Option Fragment → Option (String × Fragment)
  | none => none
  | some frag =>
      if routeOf host o frag = some .here then (takenId host frag).map (fun fid => (fid, frag))
      else none

/-- The version an entry is. -/
def versionOf (o : Opened) (tick stamp : String) (frag : Fragment) : Version :=
  ⟨o.owner frag, stamp, orElse frag.hlc tick, frag⟩

/-- The versions of one id among the entries. -/
def versionsOf (o : Opened) (tick stamp fid : String) (fragments : List (Option Fragment)) :
    List Version :=
  fragments.filterMap fun e => match hereOf host o e with
    | some (id, frag) => if id = fid then some (versionOf o tick stamp frag) else none
    | none => none

variable {host} {o : Opened} {fid : String} {ds : List (Delta × Clock)}

variable (host) in
/-- What `apply_delta` does with a fragment of a shared scope. -/
theorem absorbShared_cases (o : Opened) (m : Merge) (frag : Fragment) (fid hlc : String) :
    (sharedRoute host o frag = none ∧
      ∃ reason, absorbShared host o m frag fid hlc = m.reject (some fid) reason) ∨
    (∃ key, sharedRoute host o frag = some (.firm key) ∧ key ∈ o.firmKeys ∧
      absorbShared host o m frag fid hlc =
        { m.take hlc with firmRoutes := append m.firmRoutes key frag }) ∨
    ∃ key, sharedRoute host o frag = some (.community key) ∧
      absorbShared host o m frag fid hlc =
        { m.take hlc with communityRoutes := append m.communityRoutes key frag } := by
  unfold absorbShared sharedRoute
  split
  · cases given frag.firmId with
    | none => exact Or.inl ⟨rfl, _, rfl⟩
    | some key =>
        dsimp only
        split
        · next hkey => exact Or.inr (Or.inl ⟨key, rfl, hkey, rfl⟩)
        · exact Or.inl ⟨rfl, _, rfl⟩
  · cases communityKeyOf host frag with
    | none => exact Or.inl ⟨rfl, _, rfl⟩
    | some key => exact Or.inr (Or.inr ⟨key, rfl, rfl⟩)

variable (host) in
/-- **What `apply_delta` does with a fragment**: it rejects it, writes it, or
gathers it for a firm its caller is a member of, or for a community. -/
theorem absorb_cases (o : Opened) (tick stamp : String) (m : Merge) (frag : Fragment) :
    ((takenId host frag = none ∨ routeOf host o frag = none) ∧
      ∃ id reason, absorb host o tick stamp m (some frag) = m.reject id reason) ∨
    (∃ fid, takenId host frag = some fid ∧ routeOf host o frag = some .here ∧
      absorb host o tick stamp m (some frag) =
        absorbHere o stamp m frag fid (orElse frag.hlc tick)) ∨
    (∃ fid key, takenId host frag = some fid ∧ routeOf host o frag = some (.firm key) ∧
      key ∈ o.firmKeys ∧ absorb host o tick stamp m (some frag) =
        { m.take (orElse frag.hlc tick) with firmRoutes := append m.firmRoutes key frag }) ∨
    ∃ fid key, takenId host frag = some fid ∧ routeOf host o frag = some (.community key) ∧
      absorb host o tick stamp m (some frag) =
        { m.take (orElse frag.hlc tick) with
          communityRoutes := append m.communityRoutes key frag } := by
  unfold absorb takenId routeOf
  dsimp only
  cases fragmentHasSecret host frag with
  | some reason => exact Or.inl ⟨Or.inl rfl, _, _, rfl⟩
  | none =>
      cases given frag.id with
      | none => exact Or.inl ⟨Or.inl rfl, _, _, rfl⟩
      | some fid =>
          dsimp only
          split
          · rcases absorbShared_cases host o m frag fid (orElse frag.hlc tick) with
              ⟨hroute, reason, h⟩ | ⟨key, hroute, hkey, h⟩ | ⟨key, hroute, h⟩
            · exact Or.inl ⟨Or.inr hroute, _, reason, h⟩
            · exact Or.inr (Or.inr (Or.inl ⟨fid, key, rfl, hroute, hkey, h⟩))
            · exact Or.inr (Or.inr (Or.inr ⟨fid, key, rfl, hroute, h⟩))
          · exact Or.inr (Or.inl ⟨fid, rfl, rfl, rfl⟩)

/-- The table after one entry. -/
theorem absorb_table (o : Opened) (tick stamp : String) (m : Merge) (e : Option Fragment) :
    (absorb host o tick stamp m e).table = match hereOf host o e with
      | some (fid, frag) => writeRow (o.owner frag) stamp fid (orElse frag.hlc tick) frag m.table
      | none => m.table := by
  cases e with
  | none => rfl
  | some frag =>
      unfold hereOf
      dsimp only
      rcases absorb_cases host o tick stamp m frag with
        ⟨hnone | hnone, id, reason, h⟩ | ⟨fid, hid, hroute, h⟩ |
          ⟨fid, key, hid, hroute, -, h⟩ | ⟨fid, key, hid, hroute, h⟩
      · rw [h, hnone]
        split <;> simp_all [Merge.reject]
      · rw [h, hnone]
        rfl
      · rw [h, hid, hroute]
        rfl
      · rw [h, hroute]
        rfl
      · rw [h, hroute]
        rfl

/-- A row after the entries of a delta. -/
theorem get?_foldl_absorb (o : Opened) (tick stamp fid : String)
    (fragments : List (Option Fragment)) (m : Merge) :
    (fragments.foldl (absorb host o tick stamp) m).table.get? fid =
      rowRegister.run (m.table.get? fid) (versionsOf host o tick stamp fid fragments) := by
  induction fragments generalizing m with
  | nil => rfl
  | cons e fragments ih =>
      rw [foldl_cons, ih, absorb_table]
      unfold versionsOf
      rw [filterMap_cons]
      cases hereOf host o e with
      | none => rfl
      | some x =>
          obtain ⟨id, frag⟩ := x
          dsimp only
          rw [get?_writeRow]
          by_cases hid : id = fid
          · rw [if_pos hid.symm, if_pos hid, hid]
            rfl
          · rw [if_neg (Ne.symm hid), if_neg hid]

/-- **A row after a delta** is the register after its versions. -/
theorem get?_merge (o : Opened) (tick stamp fid : String) (fragments : List (Option Fragment))
    (r : BrainReplica) : (merge host o tick stamp fragments r).table.get? fid =
      rowRegister.run (r.fragments.get? fid) (versionsOf host o tick stamp fid fragments) :=
  get?_foldl_absorb o tick stamp fid fragments _

/-! ## The caller's own replica -/

theorem replica_set (c : Databases) (p q : Place) (r : BrainReplica) :
    Databases.replica (c.set p r) q = if q = p then r else c.replica q := by
  unfold Databases.replica
  rw [Dict.get?_set]
  split <;> rfl

theorem replica_set_self (c : Databases) (p : Place) (r : BrainReplica) :
    Databases.replica (c.set p r) p = r := by rw [replica_set, if_pos rfl]

theorem replica_set_of_ne (c : Databases) {p q : Place} (r : BrainReplica) (h : q ≠ p) :
    Databases.replica (c.set p r) q = c.replica q := by rw [replica_set, if_neg h]

/-- A shared replica takes in its fragments, and only it. -/
theorem applyShared_of_ne {place q : Place} (name tick stamp : String) (frags : List Fragment)
    (c : Databases) (h : q ≠ place) :
    (applyShared host place name tick stamp frags c).replica q = c.replica q :=
  replica_set_of_ne c _ h

theorem applyFirm_own (clock : Clock) (s : Routed) (e : String × List Fragment) (user : String) :
    (applyFirm host clock s e).cloud.replica (.own user) = s.cloud.replica (.own user) := by
  unfold applyFirm
  split
  · rfl
  · exact applyShared_of_ne _ _ _ _ _ (by simp)

theorem applyCommunity_own (keys : List String) (clock : Clock) (s : Routed)
    (e : String × List Fragment) (user : String) :
    (applyCommunity host keys clock s e).cloud.replica (.own user)
      = s.cloud.replica (.own user) := by
  unfold applyCommunity
  split
  · split
    · rfl
    · exact applyShared_of_ne _ _ _ _ _ (by simp)
  · rfl

/-- The routes leave every private replica. -/
theorem applyRoutes_own (o : Opened) (clock : Clock) (m : Merge) (c : Databases) (user : String) :
    (applyRoutes host o clock m c).cloud.replica (.own user) = c.replica (.own user) := by
  unfold applyRoutes
  have hfirms : ∀ (es : List (String × List Fragment)) (s : Routed),
      (es.foldl (applyFirm host clock) s).cloud.replica (.own user)
        = s.cloud.replica (.own user) := by
    intro es
    induction es with
    | nil => exact fun _ => rfl
    | cons e es ih => exact fun s => (ih _).trans (applyFirm_own clock s e user)
  have hcommunities : ∀ (es : List (String × List Fragment)) (s : Routed),
      (es.foldl (applyCommunity host o.communityKeys clock) s).cloud.replica (.own user)
        = s.cloud.replica (.own user) := by
    intro es
    induction es with
    | nil => exact fun _ => rfl
    | cons e es ih => exact fun s => (ih _).trans (applyCommunity_own _ clock s e user)
  rw [hcommunities, hfirms]

theorem settle_fragments (o : Opened) (watermark : String) (s : Routed) (q : Place) :
    ((settle o watermark s).replica q).fragments = (s.cloud.replica q).fragments := by
  unfold settle
  rw [replica_set]
  split
  · next hq => rw [hq]
  · rfl

/-- **The private replica after a delta** holds the versions it keeps to itself. -/
theorem applyDelta_own (user : String) (firmKeys communityKeys : List String) (clock : Clock)
    (delta : Delta) (c : Databases) (fid : String) :
    ((applyDelta host (Opened.user user firmKeys communityKeys) clock delta c).1.replica
        (.own user)).fragments.get? fid =
      rowRegister.run ((c.replica (.own user)).fragments.get? fid)
        (versionsOf host (Opened.user user firmKeys communityKeys) (clock.tick .here) clock.stamp
          fid delta.fragments) := by
  unfold applyDelta
  dsimp only
  rw [settle_fragments, applyRoutes_own]
  unfold applyHere
  show (Databases.replica (Dict.set c (.own user) _) (.own user)).fragments.get? fid = _
  rw [replica_set_self]
  exact get?_merge _ _ _ _ _ _

/-! ## Any order, any repetition -/

variable (host) in
/-- Deltas applied to a user's replica, one after the other, each at its time. -/
def applyAll (o : Opened) (ds : List (Delta × Clock)) (c : Databases) : Databases :=
  ds.foldl (fun c d => (applyDelta host o d.2 d.1 c).1) c

variable (host) in
/-- The versions of one id in deltas. -/
def allVersions (o : Opened) (fid : String) (ds : List (Delta × Clock)) : List Version :=
  ds.flatMap fun d => versionsOf host o (d.2.tick .here) d.2.stamp fid d.1.fragments

theorem get?_applyAll (user : String) (firmKeys communityKeys : List String)
    (ds : List (Delta × Clock)) (c : Databases) (fid : String) :
    ((applyAll host (Opened.user user firmKeys communityKeys) ds c).replica
        (.own user)).fragments.get? fid =
      rowRegister.run ((c.replica (.own user)).fragments.get? fid)
        (allVersions host (Opened.user user firmKeys communityKeys) fid ds) := by
  unfold applyAll allVersions
  induction ds generalizing c with
  | nil => rfl
  | cons d ds ih => rw [foldl_cons, ih, applyDelta_own, flatMap_cons, Register.run_append]

variable (host) in
/-- A fragment of a delta that the private replica keeps, under its id. -/
def Kept (o : Opened) (delta : Delta) (fid : String) (frag : Fragment) : Prop :=
  ∃ e ∈ delta.fragments, hereOf host o e = some (fid, frag)

theorem mem_versionsOf {tick stamp : String} {delta : Delta} {v : Version} :
    v ∈ versionsOf host o tick stamp fid delta.fragments ↔
      ∃ frag, Kept host o delta fid frag ∧ v = versionOf o tick stamp frag := by
  unfold versionsOf
  rw [mem_filterMap]
  constructor
  · rintro ⟨e, he, hv⟩
    cases hx : hereOf host o e with
    | none => simp [hx] at hv
    | some x =>
        obtain ⟨id, frag⟩ := x
        simp only [hx, Option.ite_none_right_eq_some, Option.some.injEq] at hv
        obtain ⟨rfl, rfl⟩ := hv
        exact ⟨frag, ⟨e, he, hx⟩, rfl⟩
  · rintro ⟨frag, ⟨e, he, hx⟩, rfl⟩
    exact ⟨e, he, by simp [hx]⟩

/-- What a version says does not depend on when it came. -/
theorem said_versionOf (o : Opened) (tick tick' stamp stamp' : String) (frag : Fragment)
    (h : given frag.hlc ≠ none) :
    (versionOf o tick stamp frag).hlc = (versionOf o tick' stamp' frag).hlc ∧
      (versionOf o tick stamp frag).row.content = (versionOf o tick' stamp' frag).row.content := by
  have hhlc : orElse frag.hlc tick = orElse frag.hlc tick' := by
    unfold orElse
    cases hx : frag.hlc with
    | none => simp [given, hx] at h
    | some s =>
        by_cases hs : s = ""
        · simp [given, hx, hs] at h
        · simp [hs]
  refine ⟨hhlc, ?_⟩
  show (Row.ofFragment (o.owner frag) stamp (orElse frag.hlc tick) frag).content = _
  rw [hhlc]
  rfl

variable (host) in
/-- Every fragment the private replica keeps of the deltas carries its own clock. -/
def OwnClocks (o : Opened) (ds : List (Delta × Clock)) : Prop :=
  ∀ d ∈ ds, ∀ fid frag, Kept host o d.1 fid frag → given frag.hlc ≠ none

/-- What a fragment with a clock of its own says. -/
def Opened.said (o : Opened) (frag : Fragment) : Row :=
  (Row.ofFragment (o.owner frag) "" (orElse frag.hlc "") frag).content

variable (host) in
/-- Two versions of one id with the same clock say the same, the row that is there
included. -/
structure TiesAgree (o : Opened) (t : Table) (ds : List (Delta × Clock)) : Prop where
  versions : ∀ fid, ∀ d ∈ ds, ∀ d' ∈ ds, ∀ frag frag', Kept host o d.1 fid frag →
    Kept host o d'.1 fid frag' → frag.hlc = frag'.hlc → o.said frag = o.said frag'
  first : ∀ fid r, t.get? fid = some r → ∀ d ∈ ds, ∀ frag, Kept host o d.1 fid frag →
    frag.hlc = some r.hlc → r.content = o.said frag

/-- The columns that only the first version of a row gives. -/
def Row.first (r : Row) : String × Option String × Option String := (r.kind, r.projectId, r.firmId)

/-- What a fragment gives for them. -/
def Fragment.first (frag : Fragment) : String × Option String × Option String :=
  (orElse frag.kind "fact", frag.projectId, frag.firmId)

variable (host) in
/-- All versions of the id give the same for them. -/
def FirstAgree (o : Opened) (t : Table) (ds : List (Delta × Clock)) (fid : String) : Prop :=
  ∃ first, (∀ r, t.get? fid = some r → r.first = first) ∧
    ∀ d ∈ ds, ∀ frag, Kept host o d.1 fid frag → frag.first = first

theorem Row.undated_eq {r r' : Row} (hcontent : r.content = r'.content)
    (hfirst : r.first = r'.first) : r.undated = r'.undated := by
  cases r
  cases r'
  simp only [Row.content, Row.first, Row.undated, Row.mk.injEq, Prod.mk.injEq] at *
  tauto

/-- The versions of deltas are those of their fragments. -/
theorem mem_allVersions {v : Version} :
    v ∈ allVersions host o fid ds ↔ ∃ d ∈ ds, ∃ frag, Kept host o d.1 fid frag ∧
      v = versionOf o (d.2.tick .here) d.2.stamp frag := by
  unfold allVersions
  rw [mem_flatMap]
  exact exists_congr fun d => and_congr_right fun _ => mem_versionsOf

theorem covers_of_same {ds' : List (Delta × Clock)}
    (hsame : ∀ d, d ∈ ds.map Prod.fst → d ∈ ds'.map Prod.fst) (hclocks : OwnClocks host o ds)
    (fid : String) :
    rowRegister.Covers (allVersions host o fid ds) (allVersions host o fid ds') := by
  intro v hv
  obtain ⟨d, hd, frag, hkept, rfl⟩ := mem_allVersions.1 hv
  obtain ⟨d', hd', hfst⟩ := List.mem_map.1 (hsame d.1 (mem_map_of_mem hd))
  refine ⟨versionOf o (d'.2.tick .here) d'.2.stamp frag,
    mem_allVersions.2 ⟨d', hd', frag, hfst ▸ hkept, rfl⟩, ?_⟩
  exact said_versionOf o _ _ _ _ frag (hclocks d hd fid frag hkept)

/-- A fragment with a clock of its own, as a version. -/
theorem versionOf_own {tick stamp : String} {frag : Fragment} (h : given frag.hlc ≠ none) :
    frag.hlc = some (versionOf o tick stamp frag).hlc ∧
      rowRegister.said (versionOf o tick stamp frag) = o.said frag := by
  refine ⟨?_, (said_versionOf o tick "" stamp "" frag h).2⟩
  show frag.hlc = some (orElse frag.hlc tick)
  unfold orElse
  cases hx : frag.hlc with
  | none => simp [given, hx] at h
  | some s =>
      by_cases hs : s = ""
      · simp [given, hx, hs] at h
      · simp [hs]

theorem agree_of_ties {t : Table} (hclocks : OwnClocks host o ds) (hties : TiesAgree host o t ds)
    (fid : String) : rowRegister.Agree (t.get? fid) (allVersions host o fid ds) := by
  constructor
  · intro v hv v' hv' hstamp
    obtain ⟨d, hd, frag, hkept, rfl⟩ := mem_allVersions.1 hv
    obtain ⟨d', hd', frag', hkept', rfl⟩ := mem_allVersions.1 hv'
    obtain ⟨hhlc, hsaid⟩ := versionOf_own (hclocks d hd fid frag hkept)
    obtain ⟨hhlc', hsaid'⟩ := versionOf_own (hclocks d' hd' fid frag' hkept')
    rw [hsaid, hsaid']
    exact hties.versions fid d hd d' hd' frag frag' hkept hkept'
      (hhlc.trans ((congrArg some hstamp).trans hhlc'.symm))
  · intro r hr v hv hstamp
    obtain ⟨d, hd, frag, hkept, rfl⟩ := mem_allVersions.1 hv
    obtain ⟨hhlc, hsaid⟩ := versionOf_own (hclocks d hd fid frag hkept)
    rw [hsaid]
    exact hties.first fid r hr d hd frag hkept (hhlc.trans (congrArg some hstamp.symm))

/-- A row keeps what its first version gave. -/
theorem first_of_run {t : Table} {first : String × Option String × Option String}
    (hrow : ∀ r, t.get? fid = some r → r.first = first)
    (hfrags : ∀ d ∈ ds, ∀ frag, Kept host o d.1 fid frag → frag.first = first) {r : Row}
    (hr : rowRegister.run (t.get? fid) (allVersions host o fid ds) = some r) : r.first = first := by
  refine Register.run_induction hrow ?_ (fun _ _ _ hc => hc) hr
  intro v hv
  obtain ⟨d, hd, frag, hkept, rfl⟩ := mem_allVersions.1 hv
  exact hfrags d hd frag hkept

/-- A version of the fragment `x`. -/
def version (kind hlc : String) : Fragment :=
  { Fragment.bare with id := some "x", kind := some kind, hlc := some hlc }

/-- A delta of one fragment, that comes at one time. -/
def single (frag : Fragment) : Delta × Clock := (⟨[some frag], []⟩, ⟨fun _ => "5", "noon"⟩)

/-- A user with no firm and no community. -/
def solo : Opened := Opened.user "u" [] []

theorem hereOf_version (kind hlc : String) :
    hereOf Host.plain solo (some (version kind hlc)) = some ("x", version kind hlc) := by
  have hscope : sharedScope (routedScope Host.plain (version kind hlc)) = false := by
    show sharedScope (Host.plain.lower (Host.plain.strip "user")) = false
    decide +kernel
  have hsecret : fragmentHasSecret Host.plain (version kind hlc) = none := rfl
  have hid : given (version kind hlc).id = some "x" := by simp [version, given]
  simp [hereOf, routeOf, takenId, hsecret, hid, hscope]

theorem kept_single {frag frag' : Fragment} {kind hlc : String} (hfrag : frag = version kind hlc)
    (h : Kept Host.plain solo (single frag).1 fid frag') : frag' = version kind hlc := by
  obtain ⟨e, he, hx⟩ := h
  rw [List.mem_singleton.1 he, hfrag, hereOf_version, Option.some.injEq, Prod.mk.injEq] at hx
  exact hx.2.symm

end ArchHub.Cloud

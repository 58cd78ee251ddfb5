import Mathlib
import ArchHub.Cloud.Cursor

/-!
# Whose rows a request touches

Requests of any users come in any order: upserts, patches, deltas and pulls.  What
they leave is compared with who sent them; an `Audit` notes beside the databases the
request that last changed each row.

* A user's own replica is out of reach of everyone else, in every run
  (`serve_others`, `Request.Wrote`).
* `isolation`: the rows of a shared replica are written and returned for those who
  have its key, under the name of the caller, and no one hides a private row, in
  every run of `Sound` requests.

A request is not sound in three cases.  `brain_sync` looks for a shared scope before
it strips the white space, and `apply_delta` after, so a fragment of the scope
`"firm "` keeps the owner it came with.  A merged export keeps one row of each id,
and a shared one takes the place of a private one.  And two keys may have one safe
key, and then name one replica.
-/

namespace ArchHub.Cloud

open Lib

/-! ## Requests -/

/-- A request; its user is authenticated, and its keys are those the server has
resolved for it. -/
inductive Request
  | upsert (user tick stamp : String) (frag : Fragment)
  | patch (user tick stamp fid : String) (fields : Patch)
  | delta (user : String) (firmKeys communityKeys : List String) (clock : Clock) (delta : Delta)
  | pull (user : String) (firmKeys communityKeys : List String) (since : String)

/-- Who sends a request. -/
def Request.user : Request → String
  | .upsert user _ _ _ => user
  | .patch user _ _ _ _ => user
  | .delta user _ _ _ _ => user
  | .pull user _ _ _ => user

/-- The replica of its user, opened with its keys. -/
def Request.opened : Request → Opened
  | .upsert user _ _ _ => Opened.user user [] []
  | .patch user _ _ _ _ => Opened.user user [] []
  | .delta user firmKeys communityKeys _ _ => Opened.user user firmKeys communityKeys
  | .pull user firmKeys communityKeys _ => Opened.user user firmKeys communityKeys

variable (host : Host)

/-- The caller stamped on the fragments of a delta. -/
def stampDelta (user : String) (delta : Delta) : Delta :=
  { delta with fragments := delta.fragments.map (Option.map (stampOwner host user)) }

/-- The databases after a request; one that is refused changes nothing. -/
def serve (req : Request) (c : Databases) : Databases :=
  if openable req.user then
    match req with
    | .upsert user tick stamp frag => match upsertFragment host user tick stamp frag c with
      | .ok (c', _) => c'
      | .error _ => c
    | .patch user tick stamp fid fields => match patchFragment host user tick stamp fid fields c with
      | .ok (c', _) => c'
      | .error _ => c
    | .delta user firmKeys communityKeys clock delta =>
        (applyDelta host (Opened.user user firmKeys communityKeys) clock
          (stampDelta host user delta) c).1
    | .pull .. => c
  else c

/-- The rows a request returns. -/
def returned (req : Request) (c : Databases) : List (String × Row) :=
  if openable req.user then
    match req with
    | .pull user firmKeys communityKeys since =>
        (exportDelta host (Opened.user user firmKeys communityKeys) since c).fragments
    | _ => []
  else []

variable {host} {p : Place} {o target : Opened} {frag : Fragment} {fid : String} {route : Route}
  {c : Databases} {row : Row} {req : Request}

/-! ## Keys -/

variable (host) in
/-- The shared replica a key of a firm or of a community names. -/
def placeOf : Route → Option Place
  | .here => none
  | .firm key => (safeKey host key).toOption.map Place.firm
  | .community key => (safeKey host key).toOption.map Place.community

/-- An opened replica has a key. -/
def Opened.Holds (o : Opened) : Route → Prop
  | .here => False
  | .firm key => key ∈ o.firmKeys
  | .community key => key ∈ o.communityKeys

/-- A replica that is no user's own. -/
def Place.Shared (p : Place) : Prop := ∀ user, p ≠ .own user

theorem placeOf_shared {key : Route} (h : placeOf host key = some p) : p.Shared := by
  intro user hp
  rw [hp] at h
  cases key with
  | here => cases h
  | firm key =>
      obtain ⟨dir, -, hdir⟩ := map_toOption_eq_some.1 h
      cases hdir
  | community key =>
      obtain ⟨dir, -, hdir⟩ := map_toOption_eq_some.1 h
      cases hdir

/-- An export reads the caller's own replica and those its keys name. -/
theorem mem_places_iff :
    p ∈ places host o ↔ p = o.place ∨ ∃ key, o.Holds key ∧ placeOf host key = some p := by
  rw [mem_places]
  refine or_congr_right ⟨?_, ?_⟩
  · rintro (⟨k, hk, h⟩ | ⟨k, hk, h⟩)
    · exact ⟨.firm k, hk, map_toOption_eq_some.2 h⟩
    · exact ⟨.community k, hk, map_toOption_eq_some.2 h⟩
  · rintro ⟨key, hkey, h⟩
    cases key with
    | here => cases h
    | firm k => exact Or.inl ⟨k, hkey, map_toOption_eq_some.1 h⟩
    | community k => exact Or.inr ⟨k, hkey, map_toOption_eq_some.1 h⟩

variable (host) in
/-- Each of the keys names another replica than the others. -/
def Distinct (known : Set Route) : Prop :=
  ∀ key ∈ known, ∀ key' ∈ known, ∀ p, placeOf host key = some p → placeOf host key' = some p →
    key = key'

variable (host) in
/-- The caller has the key of a shared replica; whichever of the keys that is. -/
def HasKey (known : Set Route) (o : Opened) (p : Place) : Prop :=
  (∃ key, o.Holds key ∧ placeOf host key = some p) ∧
    ∀ key ∈ known, placeOf host key = some p → o.Holds key

theorem Distinct.hasKey {known : Set Route} (h : Distinct host known)
    (hknown : ∀ key, o.Holds key → key ∈ known)
    (hp : ∃ key, o.Holds key ∧ placeOf host key = some p) : HasKey host known o p := by
  refine ⟨hp, fun key' hkey' hp' => ?_⟩
  obtain ⟨key, hkey, hp⟩ := hp
  rw [← h key (hknown key hkey) key' hkey' p hp hp']
  exact hkey

/-! ## What a fragment can reach -/

theorem routeOf_firm {key : String} (h : routeOf host o frag = some (.firm key)) :
    key ∈ o.firmKeys := by
  unfold routeOf at h
  split at h
  · unfold sharedRoute at h
    split at h
    · split at h
      · cases h
      · split at h
        · next hkey =>
          obtain rfl := Route.firm.inj (Option.some.inj h)
          exact hkey
        · cases h
    · obtain ⟨k, -, hk⟩ := Option.map_eq_some_iff.1 h
      cases hk
  · cases h

/-- **A fragment lands** in the replica its delta is for, or in one its caller has a
key of. -/
theorem Lands.reaches {delta : Delta} (h : Lands host o delta fid frag route target) :
    (route = .here ∧ target = o) ∨ (route ≠ .here ∧ target.ownerForce = false ∧
      o.Holds route ∧ placeOf host route = some target.place) := by
  obtain ⟨-, ⟨-, hroute⟩, htarget⟩ := h
  cases htarget with
  | here => exact Or.inl ⟨rfl, rfl⟩
  | firm key dir hdir =>
      exact Or.inr ⟨by simp, rfl, routeOf_firm hroute, map_toOption_eq_some.2 ⟨dir, hdir, rfl⟩⟩
  | community key dir hmember hdir =>
      exact Or.inr ⟨by simp, rfl, hmember, map_toOption_eq_some.2 ⟨dir, hdir, rfl⟩⟩

theorem stampOwner_cases (user : String) (frag : Fragment) :
    stampOwner host user frag = frag ∨
      stampOwner host user frag = { frag with ownerUser := some user } := by
  unfold stampOwner
  split
  · exact Or.inr rfl
  · exact Or.inl rfl

/-- The owner of a fragment does not decide where it goes. -/
theorem takenAs_stampOwner {user : String} :
    TakenAs host o fid (stampOwner host user frag) route ↔ TakenAs host o fid frag route := by
  rcases stampOwner_cases user frag with h | h
  · rw [h]
  · rw [h]
    rfl

/-- What lands of a stamped delta is a fragment of the delta, stamped. -/
theorem lands_stampDelta {user : String} {delta : Delta}
    (h : Lands host o (stampDelta host user delta) fid frag route target) :
    ∃ f, frag = stampOwner host user f ∧ Lands host o delta fid f route target := by
  obtain ⟨hmem, htaken, htarget⟩ := h
  obtain ⟨e, he, hfrag⟩ := List.mem_map.1 hmem
  obtain ⟨f, rfl, rfl⟩ := Option.map_eq_some_iff.1 hfrag
  exact ⟨f, rfl, he, takenAs_stampOwner.1 htaken, htarget⟩

variable (host) in
/-- Every fragment of a delta that lands in a shared replica has a scope that
`brain_sync` knows for a shared one, or names the caller. -/
def Signed : Request → Prop
  | .delta user firmKeys communityKeys _ delta => ∀ fid frag route target,
      Lands host (Opened.user user firmKeys communityKeys) delta fid frag route target →
      route ≠ .here →
      sharedScope (host.lower (orElse frag.scope "")) = true ∨ frag.ownerUser = some user
  | _ => True

/-- The owner of a row that is signed. -/
theorem owner_signed {user : String} (huser : user ≠ "") (htarget : target.ownerForce = false)
    (h : sharedScope (host.lower (orElse frag.scope "")) = true ∨ frag.ownerUser = some user) :
    target.owner (stampOwner host user frag) = user := by
  have hstamped : (stampOwner host user frag).ownerUser = some user := by
    unfold stampOwner
    split
    · rfl
    · next hnot =>
      rcases h with h | h
      · exact absurd h hnot
      · exact h
  unfold Opened.owner
  rw [htarget, hstamped]
  simp [orElse, huser]

/-! ## What a request writes -/

variable (host) in
/-- What a row is that a request wrote. -/
inductive Request.Wrote (req : Request) (c : Databases) (p : Place) (fid : String) (row : Row) :
    Prop
  | fresh (hplace : p = .own req.user) (hfid : fid ≠ "") (howner : row.ownerUser = req.user)
  | held (old : Row) (hplace : p = .own req.user) (hold : (c.replica p).fragments.get? fid = some old)
      (howner : row.ownerUser = old.ownerUser)
  | shared (hfid : fid ≠ "") (key : Route) (hkey : req.opened.Holds key)
      (hplace : placeOf host key = some p) (howner : Signed host req → row.ownerUser = req.user)

theorem raiseTo_fragments (hlc : String) (r : BrainReplica) :
    (raiseTo hlc r).fragments = r.fragments := by
  unfold raiseTo
  split <;> rfl

theorem openable_ne_empty {user : String} (h : openable user = true) : user ≠ "" := by
  rintro rfl
  exact absurd h (by decide)

/-- A row set in a user's own replica. -/
def setOwn (user hlc fid : String) (row : Row) (c : Databases) : Databases :=
  let r := c.replica (.own user)
  c.set (.own user) (raiseTo hlc { r with fragments := r.fragments.set fid row })

/-- A row of a new id that names the user, or one of the owner it had before. -/
def KeepsOwner (user fid : String) (row : Row) (c : Databases) : Prop :=
  (fid ≠ "" ∧ row.ownerUser = user) ∨
    ∃ old, (c.replica (.own user)).fragments.get? fid = some old ∧ row.ownerUser = old.ownerUser

theorem upsertFragment_cases {user tick stamp id : String} {c' : Databases}
    (h : upsertFragment host user tick stamp frag c = .ok (c', id)) :
    ∃ hlc row, c' = setOwn user hlc id row c ∧ KeepsOwner user id row c := by
  unfold upsertFragment at h
  dsimp only at h
  split at h
  · cases h
  · split at h
    · split at h
      · cases h
      · obtain ⟨hc, hid⟩ := Prod.mk.inj (Except.ok.inj h)
        have hne : id ≠ "" := by
          rw [← hid]
          intro hempty
          have hlength := congrArg String.length hempty
          simp at hlength
        refine ⟨orElse frag.hlc tick, Row.ofFragment user stamp (orElse frag.hlc tick) frag, ?_,
          Or.inl ⟨hne, rfl⟩⟩
        rw [← hc, ← hid]
        rfl
    · next fid hgiven =>
      obtain ⟨hc, rfl⟩ := Prod.mk.inj (Except.ok.inj h)
      have hne : fid ≠ "" := by simpa using (Option.filter_eq_some_iff.1 hgiven).2
      refine ⟨orElse frag.hlc tick, _, hc.symm, ?_⟩
      split
      · exact Or.inl ⟨hne, rfl⟩
      · next held hheld => exact Or.inr ⟨held, hheld, rfl⟩

theorem patchFragment_cases {user tick stamp : String} {fields : Patch} {c' : Databases} {b : Bool}
    (h : patchFragment host user tick stamp fid fields c = .ok (c', b)) :
    c' = c ∨ ∃ hlc row, c' = setOwn user hlc fid row c ∧ KeepsOwner user fid row c := by
  unfold patchFragment at h
  dsimp only at h
  split at h
  · exact Or.inl (Prod.mk.inj (Except.ok.inj h)).1.symm
  · next old hold =>
    iterate 4
      split at h
      · cases h
    exact Or.inr ⟨orElse fields.hlc tick, old.patched stamp (orElse fields.hlc tick) fields,
      (Prod.mk.inj (Except.ok.inj h)).1.symm, Or.inr ⟨old, hold, rfl⟩⟩

variable (host) in
/-- **What a request does to the databases**: nothing, one row of its user's own
replica, or a delta. -/
theorem serve_cases (req : Request) (c : Databases) :
    serve host req c = c ∨
    (∃ hlc fid row, serve host req c = setOwn req.user hlc fid row c ∧
      KeepsOwner req.user fid row c) ∨
    ∃ user firmKeys communityKeys clock delta,
      req = .delta user firmKeys communityKeys clock delta ∧ user ≠ "" ∧
      serve host req c = (applyDelta host (Opened.user user firmKeys communityKeys) clock
        (stampDelta host user delta) c).1 := by
  unfold serve
  split
  · next hopen =>
    cases req with
    | upsert user tick stamp frag =>
        dsimp only
        split
        · next c' id hok =>
          obtain ⟨hlc, row, h⟩ := upsertFragment_cases hok
          exact Or.inr (Or.inl ⟨hlc, id, row, h⟩)
        · exact Or.inl rfl
    | patch user tick stamp fid fields =>
        dsimp only
        split
        · next c' b hok =>
          rcases patchFragment_cases hok with h | ⟨hlc, row, h⟩
          · exact Or.inl h
          · exact Or.inr (Or.inl ⟨hlc, fid, row, h⟩)
        · exact Or.inl rfl
    | delta user firmKeys communityKeys clock delta =>
        exact Or.inr (Or.inr ⟨user, firmKeys, communityKeys, clock, delta, rfl,
          openable_ne_empty hopen, rfl⟩)
    | pull user firmKeys communityKeys since => exact Or.inl rfl
  · exact Or.inl rfl

theorem setOwn_row {user hlc k : String} {new : Row}
    (h : ((setOwn user hlc k new c).replica p).fragments.get? fid = some row) :
    (c.replica p).fragments.get? fid = some row ∨ (p = .own user ∧ fid = k ∧ row = new) := by
  unfold setOwn at h
  dsimp only at h
  rw [replica_set] at h
  split at h
  · next hp =>
    rw [raiseTo_fragments, Dict.get?_set] at h
    split at h
    · next hfid => exact Or.inr ⟨hp, hfid, (Option.some.inj h).symm⟩
    · exact Or.inl (hp ▸ h)
  · exact Or.inl h

/-- **Every row after a request** was there before, or the request wrote it. -/
theorem serve_row (h : ((serve host req c).replica p).fragments.get? fid = some row) :
    (c.replica p).fragments.get? fid = some row ∨ req.Wrote host c p fid row := by
  rcases serve_cases host req c with hsame | ⟨hlc, k, new, hset, howner⟩ |
    ⟨user, firmKeys, communityKeys, clock, delta, rfl, huser, hdelta⟩
  · rw [hsame] at h
    exact Or.inl h
  · rw [hset] at h
    rcases setOwn_row h with hold | ⟨rfl, rfl, rfl⟩
    · exact Or.inl hold
    · rcases howner with ⟨hfid, howner⟩ | ⟨old, hold, howner⟩
      · exact Or.inr (.fresh rfl hfid howner)
      · exact Or.inr (.held old rfl hold howner)
  · rw [hdelta] at h
    rcases applyDelta_row _ _ _ _ p fid row h with hold | ⟨frag, route, target, hlands, hp, hwrote⟩
    · exact Or.inl hold
    · have hfid : fid ≠ "" := takenId_ne_empty hlands.2.1.1
      rcases hlands.reaches with ⟨rfl, rfl⟩ | ⟨hroute, hforce, hkey, hplace⟩
      · exact Or.inr (.fresh hp.symm hfid hwrote.2)
      · refine Or.inr (.shared hfid route hkey (hp ▸ hplace) fun hsigned => ?_)
        obtain ⟨f, rfl, hf⟩ := lands_stampDelta hlands
        rw [hwrote.2]
        exact owner_signed huser hforce (hsigned fid f route target hf hroute)

/-- A delta leaves the other users' own replicas. -/
theorem applyDelta_others {user : String} (h : o.place ≠ .own user) (clock : Clock) (delta : Delta)
    (c : Databases) :
    (applyDelta host o clock delta c).1.replica (.own user) = c.replica (.own user) := by
  unfold applyDelta settle
  dsimp only
  rw [replica_set_of_ne _ _ (Ne.symm h), applyRoutes_own]
  unfold applyHere
  exact replica_set_of_ne _ _ (Ne.symm h)

/-- **A request leaves the other users' own replicas.** -/
theorem serve_others {user : String} (h : req.user ≠ user) (c : Databases) :
    (serve host req c).replica (.own user) = c.replica (.own user) := by
  have hplace : Place.own user ≠ .own req.user := by simpa using Ne.symm h
  rcases serve_cases host req c with hsame | ⟨hlc, k, new, hset, -⟩ |
    ⟨caller, firmKeys, communityKeys, clock, delta, rfl, -, hdelta⟩
  · rw [hsame]
  · rw [hset]
    exact replica_set_of_ne _ _ hplace
  · rw [hdelta]
    exact applyDelta_others (Ne.symm hplace) _ _ _

/-! ## Runs -/

/-- The databases, and the request that last changed each row. -/
structure Audit where
  cloud : Databases
  author : Place → String → Option Request

/-- No databases. -/
def Audit.start : Audit := ⟨Dict.empty, fun _ _ => none⟩

variable (host) in
/-- Requests in some order, and who changes which row. -/
def audited : Machine Audit Request where
  step s req :=
    let c := serve host req s.cloud
    { cloud := c,
      author := fun p fid =>
        if (c.replica p).fragments.get? fid = (s.cloud.replica p).fragments.get? fid
          then s.author p fid
        else some req }

/-- A user's own rows are written by the user, and say so. -/
def OwnRows (s : Audit) : Prop :=
  ∀ user fid row, (s.cloud.replica (.own user)).fragments.get? fid = some row →
    fid ≠ "" ∧ row.ownerUser = user ∧ ∃ req, s.author (.own user) fid = some req ∧ req.user = user

variable (host) in
/-- Shared rows are written by callers who have the key, and name them. -/
def SharedRows (known : Set Route) (s : Audit) : Prop :=
  ∀ p fid row, p.Shared → (s.cloud.replica p).fragments.get? fid = some row →
    ∃ req, s.author p fid = some req ∧ row.ownerUser = req.user ∧
      HasKey host known req.opened p

/-- A row after a step was there before, under its author, or the step wrote it and
is its author. -/
theorem audited_row {s : Audit}
    (h : (((audited host).step s req).cloud.replica p).fragments.get? fid = some row) :
    ((s.cloud.replica p).fragments.get? fid = some row ∧
      ((audited host).step s req).author p fid = s.author p fid) ∨
    (req.Wrote host s.cloud p fid row ∧ ((audited host).step s req).author p fid = some req) := by
  by_cases hsame : (((audited host).step s req).cloud.replica p).fragments.get? fid =
      (s.cloud.replica p).fragments.get? fid
  · exact Or.inl ⟨hsame ▸ h, if_pos hsame⟩
  · refine Or.inr ⟨?_, if_neg hsame⟩
    rcases serve_row h with hold | hwrote
    · exact absurd (h.trans hold.symm) hsame
    · exact hwrote

theorem ownRows_step (s : Audit) (req : Request) (h : OwnRows s) :
    OwnRows ((audited host).step s req) := by
  intro user fid row hrow
  rcases audited_row hrow with ⟨hold, hauthor⟩ | ⟨hwrote, hauthor⟩
  · rw [hauthor]
    exact h user fid row hold
  · rw [hauthor]
    cases hwrote with
    | fresh hplace hfid howner =>
        obtain rfl := Place.own.inj hplace
        exact ⟨hfid, howner, req, rfl, rfl⟩
    | held old hplace hold howner =>
        obtain rfl := Place.own.inj hplace
        obtain ⟨hfid, hold, -⟩ := h req.user fid old hold
        exact ⟨hfid, howner.trans hold, req, rfl, rfl⟩
    | shared hfid key hkey hplace howner => exact absurd rfl (placeOf_shared hplace user)

variable (host) in
/-- Where a caller's private row is behind a shared row of its id by someone else,
a row of the caller's is later still. -/
def Clear : Request → Databases → Prop
  | .pull user firmKeys communityKeys since, c => ∀ fid r p r',
      (c.replica (.own user)).fragments.get? fid = some r → fromCursor since < r.hlc →
      p ∈ places host (Opened.user user firmKeys communityKeys) →
      (c.replica p).fragments.get? fid = some r' → r.hlc < r'.hlc → r'.ownerUser ≠ user →
      ∃ q ∈ places host (Opened.user user firmKeys communityKeys), ∃ r'',
        (c.replica q).fragments.get? fid = some r'' ∧ r'.hlc < r''.hlc ∧ r''.ownerUser = user
  | _, _ => True

variable (host) in
/-- A request with known keys, whose shared fragments are signed, and which no one
else's rows stand in the way of. -/
structure Sound (known : Set Route) (s : Audit) (req : Request) : Prop where
  known : ∀ key, req.opened.Holds key → key ∈ known
  signed : Signed host req
  clear : Clear host req s.cloud

theorem sharedRows_step {known : Set Route} (hknown : Distinct host known) (s : Audit)
    (req : Request) (hsound : Sound host known s req) (h : SharedRows host known s) :
    SharedRows host known ((audited host).step s req) := by
  intro p fid row hp hrow
  rcases audited_row hrow with ⟨hold, hauthor⟩ | ⟨hwrote, hauthor⟩
  · rw [hauthor]
    exact h p fid row hp hold
  · rw [hauthor]
    cases hwrote with
    | fresh hplace => exact absurd hplace (hp req.user)
    | held old hplace => exact absurd hplace (hp req.user)
    | shared hfid key hkey hplace howner =>
        exact ⟨req, rfl, howner hsound.signed, hknown.hasKey hsound.known ⟨key, hkey, hplace⟩⟩

/-! ## What a request returns -/

/-- **An export returns the caller's own rows past its cursor**, save where a later
row of the id takes the place. -/
theorem export_own {since : String} {r : Row} (hfid : fid ≠ "")
    (hr : (c.replica o.place).fragments.get? fid = some r) (hsince : fromCursor since < r.hlc) :
    ∃ r', (fid, r') ∈ (exportDelta host o since c).fragments ∧ (r' = r ∨ r.hlc < r'.hlc) := by
  let own := rowsOf fid (ownFragments (fromCursor since) (c.replica o.place))
  have hown : ∀ x ∈ own, x = r := by
    intro x hx
    have hrow := (mem_ownFragments.1 (mem_rowsOf.1 hx)).1
    exact Option.some.inj (hrow.symm.trans hr)
  have hmem : r ∈ own := mem_rowsOf.2 (mem_ownFragments.2 ⟨hr, hsince⟩)
  have hfirst : latest.run none own = some r := by
    obtain ⟨x, hx⟩ := Option.isSome_iff_exists.1
      ((Register.run_isSome latest).2 (Or.inr (List.ne_nil_of_mem hmem)) :
        (latest.run none own).isSome = true)
    let P : Row → Prop := fun x => x = r
    have hP : P x := Register.run_induction (fun d hd => by cases hd) hown
      (fun a ha _ _ => hown a ha) hx
    rw [hx, hP]
  have hrun : ∃ rest, (gather host o (fromCursor since) c).get? fid = latest.run (some r) rest := by
    rw [gather_eq, get?_foldl_absorbRow hfid, ← hfirst]
    refine ⟨rowsOf fid ((places host o).tail.flatMap
      fun p => ownFragments (fromCursor since) (c.replica p)), ?_⟩
    rw [← Register.run_append]
    unfold gatheredRows places rowsOf
    rw [List.flatMap_cons, List.filterMap_append, List.tail_cons]
    rfl
  obtain ⟨rest, hrest⟩ := hrun
  obtain ⟨r', hr', hmove⟩ := latest.run_onward (b := r) rest
  exact ⟨r', mem_exportDelta.2 (hrest.trans hr'), hmove⟩

variable (host) in
/-- What a request does to others, and what it returns. -/
structure Respected (known : Set Route) (s : Audit) (req : Request) : Prop where
  /-- Other users' own replicas are left as they are. -/
  others : ∀ user, user ≠ req.user →
    (serve host req s.cloud).replica (.own user) = s.cloud.replica (.own user)
  /-- What is returned stands in the caller's own replica, or in one it has the
  key of. -/
  reads : ∀ fid row, (fid, row) ∈ returned host req s.cloud → ∃ p,
    (p = .own req.user ∨ HasKey host known req.opened p) ∧
      (s.cloud.replica p).fragments.get? fid = some row
  /-- A private row past the cursor is returned, or one that the caller has put in
  its place. -/
  shown : ∀ user firmKeys communityKeys since, req = .pull user firmKeys communityKeys since →
    openable user = true → ∀ fid r, (s.cloud.replica (.own user)).fragments.get? fid = some r →
      fromCursor since < r.hlc → ∃ r', (fid, r') ∈ returned host req s.cloud ∧
        (r' = r ∨ r'.ownerUser = user)

theorem respected_of_sound {known : Set Route} (hknown : Distinct host known) {s : Audit}
    (hrows : OwnRows s) (hsound : Sound host known s req) :
    Respected host known s req where
  others user huser := serve_others (Ne.symm huser) s.cloud
  reads fid row hmem := by
    unfold returned at hmem
    split at hmem
    · cases req with
      | pull user firmKeys communityKeys since =>
          obtain ⟨p, hp, hrow, -⟩ := export_source hmem
          refine ⟨p, ?_, hrow⟩
          rcases mem_places_iff.1 hp with hown | hkey
          · exact Or.inl hown
          · exact Or.inr (hknown.hasKey hsound.known hkey)
      | upsert | patch | delta => cases hmem
    · cases hmem
  shown user firmKeys communityKeys since hreq hopen fid r hr hsince := by
    subst hreq
    have hfid : fid ≠ "" := (hrows user fid r hr).1
    have hreturned : returned host (.pull user firmKeys communityKeys since) s.cloud =
        (exportDelta host (Opened.user user firmKeys communityKeys) since s.cloud).fragments :=
      if_pos hopen
    rw [hreturned]
    obtain ⟨r', hmem, hlater⟩ := export_own hfid
      (show (s.cloud.replica (Opened.user user firmKeys communityKeys).place).fragments.get? fid
        = some r from hr) hsince
    refine ⟨r', hmem, ?_⟩
    rcases hlater with hsame | hlater
    · exact Or.inl hsame
    · refine Or.inr ?_
      by_contra hother
      obtain ⟨p, hp, hrow, -⟩ := export_source hmem
      obtain ⟨q, hq, r'', hrow'', hlt, -⟩ := hsound.clear fid r p r' hr hsince hp hrow hlater hother
      obtain ⟨x, hx, hle, -⟩ := export_delivers hfid hq hrow'' ((hsince.trans hlater).trans hlt)
      obtain rfl : x = r' :=
        Option.some.inj ((mem_exportDelta.1 hx).symm.trans (mem_exportDelta.1 hmem))
      exact absurd hlt (not_lt.2 hle)

/-- **Replica isolation.**  In every run of sound requests, a private row is written
by its user and a shared row by a caller who has the key and whom it names; and a
sound request leaves other users' own replicas, returns rows of the caller's own
replica and of those it has the key of only, and none of the caller's rows is hidden
by someone else's. -/
theorem isolation {known : Set Route} (hknown : Distinct host known) {s : Audit}
    (hrun : (audited host).Run (Sound host known) Audit.start s) :
    OwnRows s ∧ SharedRows host known s ∧
      ∀ req, Sound host known s req → Respected host known s req := by
  have hempty : ∀ p fid, (Audit.start.cloud.replica p).fragments.get? fid = none := fun _ _ => rfl
  have hown : OwnRows s := by
    refine hrun.invariant (fun s req _ => ownRows_step s req) ?_
    intro user fid row hrow
    rw [hempty] at hrow
    cases hrow
  have hshared : SharedRows host known s := by
    refine hrun.invariant (sharedRows_step hknown) ?_
    intro p fid row _ hrow
    rw [hempty] at hrow
    cases hrow
  exact ⟨hown, hshared, fun req => respected_of_sound hknown hown⟩

/-! ## A firm of two -/

/-- A fact for a firm. -/
def firmFact (scope owner firm hlc : String) : Fragment :=
  { Fragment.bare with
    id := some "x", text := some "fact", scope := some scope, ownerUser := some owner,
    firmId := some firm, hlc := some hlc }

/-- The user `b` pushes a fact with a key. -/
def pushed (key : String) (frag : Fragment) : Request :=
  .delta "b" [key] [] ⟨fun _ => "9", "noon"⟩ ⟨[some frag], []⟩

/-- The user `a` writes a private fact. -/
def noted (fid : String) : Request :=
  .upsert "a" "9" "noon" { Fragment.bare with id := some fid, text := some "mine", hlc := some "1" }

/-- The user `a` pulls everything, with a key. -/
def pulledAll (key : String) : Request := .pull "a" [key] [] ""

/-- The state after some requests. -/
def auditOf (reqs : List Request) : Audit := reqs.foldl (audited Host.plain).step Audit.start

/-- A private fact, and a fact of the firm. -/
def firmRun : Audit := auditOf [noted "p", pushed "f" (firmFact "Firm" "a" "f" "2")]

theorem firmRun_sound :
    (audited Host.plain).Run (Sound Host.plain {.firm "f"}) Audit.start firmRun := by
  have hnoted : Sound Host.plain {.firm "f"} Audit.start (noted "p") := by
    refine ⟨fun key hkey => ?_, trivial, trivial⟩
    cases key <;> simp [noted, Request.opened, Opened.user, Opened.Holds] at hkey
  refine (Machine.Run.step _ hnoted).snoc _ ⟨fun key hkey => ?_, ?_, trivial⟩
  · cases key <;> simp_all [pushed, Request.opened, Opened.user, Opened.Holds]
  · rintro fid frag route target ⟨hmem, -⟩ -
    obtain rfl : frag = firmFact "Firm" "a" "f" "2" := by simpa using hmem
    exact Or.inl (by decide +kernel)

/-- In the firm of two the facts are kept apart. -/
theorem isolation_firm : SharedRows Host.plain {.firm "f"} firmRun ∧
    Respected Host.plain {.firm "f"} firmRun (pulledAll "f") := by
  have hdistinct : Distinct Host.plain {.firm "f"} := by
    rintro key rfl key' rfl p - -
    rfl
  obtain ⟨-, hshared, hrespected⟩ := isolation hdistinct firmRun_sound
  refine ⟨hshared, hrespected (pulledAll "f") ⟨fun key hkey => ?_, trivial, ?_⟩⟩
  · cases key <;> simp_all [pulledAll, Request.opened, Opened.user, Opened.Holds]
  · intro fid r p r' hr _ hp hr' hlt _
    exfalso
    have hentries : (firmRun.cloud.replica (.own "a")).fragments.entries.map Prod.fst = ["p"] := by
      decide +kernel
    have hfid : fid = "p" := by
      have hmem : (fid, r).1 ∈ (firmRun.cloud.replica (.own "a")).fragments.entries.map Prod.fst :=
        List.mem_map_of_mem (Dict.mem_entries_iff.2 hr)
      rw [hentries] at hmem
      simpa using hmem
    subst hfid
    rcases mem_places_iff.1 hp with rfl | ⟨key, hkey, hplace⟩
    · obtain rfl : r = r' := Option.some.inj (hr.symm.trans hr')
      exact lt_irrefl _ hlt
    · cases key with
      | here => cases hkey
      | community key => simp [Opened.user, Opened.Holds] at hkey
      | firm key =>
          obtain rfl : key = "f" := by simpa [Opened.user, Opened.Holds] using hkey
          have hp : placeOf Host.plain (.firm "f") = some (.firm "f") := by decide +kernel
          obtain rfl : Place.firm "f" = p := Option.some.inj (hp.symm.trans hplace)
          have hnone : (firmRun.cloud.replica (.firm "f")).fragments.get? "p" = none := by
            decide +kernel
          rw [hnone] at hr'
          cases hr'

/-- A fact of the scope `"firm "` names whom it likes; a fact of the firm stands in
the export of `a` for the private one of its id; and `a` reads with the key `"x"`
what `b` wrote with the key `"x_"`. -/
theorem isolation_fails :
    (let s := auditOf [pushed "f" (firmFact "firm " "a" "f" "2")]
     (s.author (.firm "f") "x").map Request.user = some "b" ∧
      ((s.cloud.replica (.firm "f")).fragments.get? "x").map Row.ownerUser = some "a") ∧
    (let s := auditOf [noted "x", pushed "f" (firmFact "firm" "b" "f" "2")]
     ((s.cloud.replica (.own "a")).fragments.get? "x").map Row.text = some "mine" ∧
      (returned Host.plain (pulledAll "f") s.cloud).map (fun e => (e.1, e.2.ownerUser, e.2.text))
        = [("x", "b", "fact")]) ∧
    (let s := auditOf [pushed "x_" (firmFact "firm" "b" "x_" "2")]
     (returned Host.plain (pulledAll "x") s.cloud).map (fun e => (e.1, e.2.ownerUser))
        = [("x", "b")]) := by
  decide +kernel

end ArchHub.Cloud

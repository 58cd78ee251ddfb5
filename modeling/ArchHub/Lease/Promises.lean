import Mathlib
import ArchHub.Lib.Transition
import ArchHub.Lease.Effects

/-!
# The promises of runtime presence

Heartbeats, revocations, the migration and the growth of the graph follow each other at
increasing times (`presence`).  Beside the world stands what a bystander saw (`Watched`): the
identity first bound under each root, the latest accepted renewal of each presence, which
presences their owners asked to revoke and which were revoked.

The storage keeps three promises while a heartbeat retires no binding whose lease is live,
brings a retired session back as what it was, and a revocation finds the lease of its presence
(`Admitted`):

* what is reported of a presence never changes;
* a presence whose latest accepted renewal is alive is listed, and renews;
* a presence whose owner asked to revoke it is never listed again.

`Kept` is the invariant; there is one lemma an action, and `presence_promises` is read off it.
-/

namespace ArchHub.Lease

open Lib List Option

/-! ## Runs -/

/-- An accepted renewal. -/
structure Acceptance where
  identity : Identity
  refreshedAt : ℚ
  expiresAt : ℚ
  deriving DecidableEq

/-- The world, and what was seen of it. -/
structure Watched where
  world : World
  clock : ℚ
  /-- The identity first bound under a root. -/
  bound : Dict String Identity
  /-- The latest accepted renewal of a presence. -/
  accepted : Dict String Acceptance
  /-- The presences that their owners asked to revoke. -/
  asked : List String
  /-- The presences that were revoked. -/
  revoked : List String

/-- A new storage beside a graph. -/
def Watched.new (head : ℕ) (presences : Dict String Composed) (clock : ℚ) : Watched :=
  ⟨⟨.new head, [], presences, false⟩, clock, .empty, .empty, [], []⟩

/-- What happens. -/
inductive Action where
  | renew (r : Heartbeat)
  | revoke (root : String) (owner : Option String) (now : ℚ)
  | migrate (now : ℚ)
  /-- The graph grows by roots of sessions and custodies. -/
  | compose (cells : List String)
  deriving DecidableEq

/-- The session that a presence belongs to: in the graph, or by its lease. -/
def ownerOf (root : String) (w : World) : Option String :=
  match w.presences.get? root with
  | some p => some p.binding.identity.session
  | none => (w.tables.lease root).map fun row => row.entry.ownerToken

/-- Whether a revocation is the owner's. -/
def entitled (root : String) (owner : Option String) (w : World) : Bool :=
  match ownerOf root w with
  | none => false
  | some session => decide (owner = none ∨ owner = some session)

/-- The identities that were bound, with that of a binding just recorded. -/
def noteBound (root : String) (r : Heartbeat) (t : Tables) (bound : Dict String Identity) :
    Dict String Identity :=
  if (bound.get? root).isNone && (bindingRow root t).isSome then bound.set root r.identity
  else bound

/-- The latest renewals, with one that was accepted. -/
def noteAccepted (root : String) (r : Heartbeat) (result : Except Refusal Projection)
    (accepted : Dict String Acceptance) : Dict String Acceptance :=
  match result with
  | .ok p => accepted.set root ⟨r.identity, p.refreshedAt, p.expiresAt⟩
  | .error _ => accepted

/-- One step. -/
def presenceStep (host : Host) (s : Watched) : Action → Watched
  | .renew r =>
      let root := host.presenceRoot r.identity.session
      let (world, result) := renew host r s.world
      { s with
        world := world
        clock := r.now.finite.getD s.clock
        bound := noteBound root r world.tables s.bound
        accepted := noteAccepted root r result s.accepted }
  | .revoke root owner now =>
      let (tables, result) := s.world.tables.deleteLease root owner (some (.ofRat now))
      { s with
        world := { s.world with tables := tables }
        clock := now
        asked := if entitled root owner s.world then root :: s.asked else s.asked
        revoked := if result = .ok true then root :: s.revoked else s.revoked }
  | .migrate now => { s with world := migrate now s.world, clock := now }
  | .compose cells =>
      { s with world := { s.world with
          cells := s.world.cells ++ cells
          tables := { s.world.tables with head := s.world.tables.head + 1 } } }

/-- The runs of the storage. -/
def presence (host : Host) : Machine Watched Action := ⟨presenceStep host⟩

/-! ## The condition -/

/-- The bindings that a first heartbeat would retire. -/
def retiring (root : String) (r : Heartbeat) (refreshedAt : ℚ) (t : Tables) : List (Record String) :=
  if operationalRecordLimit ≤ t.countOf bindingKind then
    t.oldest (bindingPut root r refreshedAt t.head)
      (t.countOf bindingKind - operationalRecordLimit + 1)
  else []

/-- A heartbeat that passes its checks is the first one of its session, as far as the records
tell. -/
structure Opens (host : Host) (r : Heartbeat) (x : ℚ × ℚ) (w : World) : Prop where
  checked : r.checked = .ok x
  cells : r.identity.session ∈ w.cells ∧ r.identity.custody ∈ w.cells
  unexpected : r.expectedGeneration = none
  unbound : bindingOf host (host.presenceRoot r.identity.session) w = none

/-- The steps that keep the promises, at increasing times. -/
def Admitted (host : Host) (s : Watched) : Action → Prop
  | .renew r =>
      let root := host.presenceRoot r.identity.session
      (∀ now ∈ r.now.finite, s.clock < now) ∧
        ∀ x, Opens host r x s.world →
          (∀ identity ∈ s.bound.get? root, identity = r.identity) ∧
            ∀ row ∈ retiring root r x.1 s.world.tables,
              ∀ lease ∈ s.world.tables.getLease row.recordRoot,
                ∀ now ∈ r.now.finite, lease.expiresAt ≤ now
  | .revoke root owner now => s.clock < now ∧
      (entitled root owner s.world = true →
        (s.world.tables.lease root).isSome ∨ s.world.tables.revoked root = true)
  | .migrate now => s.clock < now
  | .compose _ => True

/-! ## The invariant -/

/-- What stands behind a renewal that was accepted and is alive. -/
structure Living (host : Host) (w : World) (root : String) (a : Acceptance) : Prop where
  root_eq : root = host.presenceRoot a.identity.session
  rootText : w.presences.get? root = none → recordText root "root" = .ok ()
  valid : a.identity.validate = .ok ()
  cells : a.identity.session ∈ w.cells ∧ a.identity.custody ∈ w.cells
  binding : ∃ b, bindingOf host root w = some b ∧ b.identity = a.identity ∧
    b.issuedAt - 1 / 100000 ≤ a.refreshedAt
  lease : ∃ generation, w.tables.lease root =
    some ⟨root, a.identity.session, a.refreshedAt, a.expiresAt, generation⟩
  unrevoked : w.tables.revoked root = false
  times : a.refreshedAt < a.expiresAt

/-- A renewal is the latest accepted one, and neither expired nor revoked. -/
def Alive (s : Watched) (root : String) (a : Acceptance) : Prop :=
  s.accepted.get? root = some a ∧ root ∉ s.revoked ∧ s.clock < a.expiresAt

/-- What every admitted step keeps. -/
structure Kept (host : Host) (s : Watched) : Prop where
  keys : (s.world.tables.records.map Record.key).Nodup
  bounded : s.world.tables.countOf bindingKind ≤ operationalRecordLimit
  /-- The lease of a presence in the graph is its session's. -/
  owner : ∀ root p, s.world.presences.get? root = some p →
    ∀ row, s.world.tables.lease root = some row → row.entry.ownerToken = p.binding.identity.session
  /-- A binding is the one that was first bound. -/
  bound : ∀ root row, bindingRow root s.world.tables = some row →
    s.bound.get? root = some (host.codec.loads row.payload).identity
  asked : ∀ root ∈ s.asked, s.world.tables.revoked root = true
  revoked : ∀ root, s.world.tables.revoked root = true → root ∈ s.revoked
  alive : ∀ root a, Alive s root a → Living host s.world root a

theorem kept_new (host : Host) (head : ℕ) (presences : Dict String Composed) (clock : ℚ) :
    Kept host (.new head presences clock) where
  keys := nodup_nil
  bounded := Nat.zero_le _
  owner _ _ _ _ hrow := by cases hrow
  bound _ _ hrow := by cases hrow
  asked _ hroot := by cases hroot
  revoked _ hroot := by cases hroot
  alive _ _ halive := by cases halive.1

variable {host : Host} {s : Watched} {w w' : World} {root : String} {a : Acceptance} {b : Binding}
  {t t' : Tables} {r : Heartbeat}

/-- What stands behind a renewal stands behind it in a world that is the same for its presence. -/
theorem Living.of_same (h : Living host w root a) (hpresences : w'.presences = w.presences)
    (hcells : ∀ c ∈ w.cells, c ∈ w'.cells)
    (hbinding : bindingOf host root w' = bindingOf host root w)
    (hlease : w'.tables.lease root = w.tables.lease root)
    (hrevoked : w'.tables.revoked root = w.tables.revoked root) : Living host w' root a where
  root_eq := h.root_eq
  rootText := hpresences ▸ h.rootText
  valid := h.valid
  cells := ⟨hcells _ h.cells.1, hcells _ h.cells.2⟩
  binding := hbinding ▸ h.binding
  lease := hlease ▸ h.lease
  unrevoked := hrevoked ▸ h.unrevoked
  times := h.times

/-! ## A refreshed lease -/

/-- A projection that succeeds is that of the binding and the lease. -/
theorem of_presenceProjection {p : Projection} (h : presenceProjection root b t = .ok p) :
    ∃ lease, t.getLease root = some lease ∧ lease.ownerToken = b.identity.session ∧
      b.issuedAt - 1 / 100000 ≤ lease.refreshedAt ∧
      p = ⟨root, b, lease.refreshedAt, lease.expiresAt, lease.generation⟩ := by
  unfold presenceProjection at h
  cases hlease : t.getLease root with
  | none =>
      rw [hlease] at h
      cases h
  | some lease =>
      rw [hlease] at h
      obtain ⟨_, howner, h⟩ := Check.bind_ok_iff.1 h
      obtain ⟨_, htimes, h⟩ := Check.bind_ok_iff.1 h
      cases h
      exact ⟨lease, rfl, of_decide_eq_true (Check.require_ok_iff.1 howner),
        (of_decide_eq_true (Check.require_ok_iff.1 htimes)).1, rfl⟩

/-- A lease that is there, of the session and after the first heartbeat, is projected. -/
theorem presenceProjection_ok {refreshedAt expiresAt : ℚ} {generation : ℕ}
    (hrevoked : t.revoked root = false) (hlease : t.lease root =
      some ⟨root, b.identity.session, refreshedAt, expiresAt, generation⟩)
    (hissued : b.issuedAt - 1 / 100000 ≤ refreshedAt) (htimes : refreshedAt < expiresAt) :
    presenceProjection root b t = .ok ⟨root, b, refreshedAt, expiresAt, generation⟩ := by
  unfold presenceProjection Tables.getLease
  rw [hrevoked, hlease]
  have hboth : decide (b.issuedAt - 1 / 100000 ≤ refreshedAt ∧ refreshedAt < expiresAt) = true :=
    decide_eq_true ⟨hissued, htimes⟩
  simp only [Bool.false_eq_true, if_false, map_some, decide_true, Check.require_true,
    Check.ok_bind, hboth]

namespace Refreshed

variable {session : String} {refreshedAt expiresAt : ℚ} {t t' : Tables}

theorem records (h : Refreshed root session refreshedAt expiresAt t t') : t'.records = t.records := by
  obtain ⟨rows, rfl⟩ := h.rest
  rfl

theorem revoked_eq (h : Refreshed root session refreshedAt expiresAt t t') (k : String) :
    t'.revoked k = t.revoked k := by
  obtain ⟨rows, rfl⟩ := h.rest
  rfl

end Refreshed

/-- A binding is of the graph or of the records. -/
theorem bindingOf_congr (hpresences : w'.presences = w.presences)
    (hrow : bindingRow root w'.tables = bindingRow root w.tables) :
    bindingOf host root w' = bindingOf host root w := by
  unfold bindingOf
  rw [hpresences, hrow]

theorem get?_noteAccepted_of_ne {result : Except Refusal Projection}
    {accepted : Dict String Acceptance} {k : String} (hk : k ≠ root) :
    (noteAccepted root r result accepted).get? k = accepted.get? k := by
  unfold noteAccepted
  cases result with
  | error e => rfl
  | ok p => exact Dict.get?_set_of_ne _ _ hk

/-- **A refreshed lease.**  A renewal that succeeds is alive from there on; one that fails after
the lease was refreshed had no living renewal before it. -/
theorem Kept.refreshed (h : Kept host s) {refreshedAt expiresAt : ℚ}
    (hroot : root = host.presenceRoot r.identity.session) (hvalid : r.identity.validate = .ok ())
    (hcells : r.identity.session ∈ s.world.cells ∧ r.identity.custody ∈ s.world.cells)
    (htext : s.world.presences.get? root = none → recordText root "root" = .ok ())
    (hbinding : bindingOf host root s.world = some b) (hidentity : b.identity = r.identity)
    (hrefreshed : Refreshed root r.identity.session refreshedAt expiresAt s.world.tables t') :
    Kept host { s with
      world := { s.world with tables := t' }
      accepted := noteAccepted root r (presenceProjection root b t') s.accepted } := by
  have hrow : ∀ k, bindingRow k t' = bindingRow k s.world.tables := fun k => by
    unfold bindingRow
    rw [hrefreshed.records]
  obtain ⟨generation, hhere⟩ := hrefreshed.here
  constructor
  · show (t'.records.map Record.key).Nodup
    rw [hrefreshed.records]
    exact h.keys
  · show t'.countOf bindingKind ≤ _
    unfold Tables.countOf
    rw [hrefreshed.records]
    exact h.bounded
  · intro k p hp row hlease
    by_cases hk : k = root
    · subst hk
      have hrowLease : row = ⟨k, r.identity.session, refreshedAt, expiresAt, generation⟩ :=
        Option.some.inj (hlease.symm.trans hhere)
      have hp' : s.world.presences.get? k = some p := hp
      unfold bindingOf at hbinding
      rw [hp'] at hbinding
      cases hbinding
      rw [hrowLease, hidentity]
    · exact h.owner k p hp row ((hrefreshed.elsewhere k hk).symm.trans hlease)
  · intro k row hk
    exact h.bound k row ((hrow k).symm.trans hk)
  · intro k hk
    exact (hrefreshed.revoked_eq k).trans (h.asked k hk)
  · intro k hk
    exact h.revoked k ((hrefreshed.revoked_eq k).symm.trans hk)
  · rintro k a ⟨haccepted, hunrevoked, hclock⟩
    by_cases hk : k = root
    · subst hk
      have hrevoked : t'.revoked k = false := (hrefreshed.revoked_eq k).trans hrefreshed.unrevoked
      let world : World := { s.world with tables := t' }
      have hsame : bindingOf host k world = bindingOf host k s.world :=
        bindingOf_congr rfl (hrow k)
      have hbound : bindingOf host k world = some b := hsame.trans hbinding
      cases hprojection : presenceProjection k b t' with
      | ok p =>
          rw [hprojection] at haccepted
          have ha : (⟨r.identity, p.refreshedAt, p.expiresAt⟩ : Acceptance) = a :=
            Option.some.inj ((Dict.get?_set_self ..).symm.trans haccepted)
          obtain ⟨lease, hlease, -, hissued, rfl⟩ := of_presenceProjection hprojection
          have hget : t'.getLease k =
              some ⟨r.identity.session, refreshedAt, expiresAt, generation⟩ := by
            unfold Tables.getLease
            rw [hrevoked, hhere]
            rfl
          cases hget.symm.trans hlease
          subst ha
          exact ⟨hroot, htext, hvalid, hcells, ⟨b, hbound, hidentity, hissued⟩,
            ⟨generation, hhere⟩, hrevoked, hrefreshed.times⟩
      | error e =>
          -- a living renewal before would have let the projection succeed
          exfalso
          rw [hprojection] at haccepted
          have hliving := h.alive k a ⟨haccepted, hunrevoked, hclock⟩
          obtain ⟨b', hb', -, hissued⟩ := hliving.binding
          cases hbinding.symm.trans hb'
          obtain ⟨_, hbefore⟩ := hliving.lease
          have hlater : a.refreshedAt < refreshedAt := hrefreshed.later _ hbefore
          rw [← hidentity] at hhere
          have hok := presenceProjection_ok hrevoked hhere (hissued.trans hlater.le)
            hrefreshed.times
          rw [hprojection] at hok
          cases hok
    · have haccepted' : s.accepted.get? k = some a :=
        (get?_noteAccepted_of_ne hk).symm.trans haccepted
      exact (h.alive k a ⟨haccepted', hunrevoked, hclock⟩).of_same rfl (fun _ hc => hc)
        (bindingOf_congr rfl (hrow k)) (hrefreshed.elsewhere k hk) (hrefreshed.revoked_eq k)

/-! ## A recorded binding -/

/-- What retires is what the first heartbeat would retire. -/
theorem records_retired (root : String) (r : Heartbeat) (refreshedAt : ℚ) (t : Tables) :
    (t.retired (bindingPut root r refreshedAt t.head)).records =
      t.records.filter fun row => decide (row ∉ retiring root r refreshedAt t) := by
  unfold Tables.retired retiring
  by_cases hfull : operationalRecordLimit ≤ t.countOf bindingKind
  · have hretire : operationalRecordLimit ≤ t.countOf (bindingPut root r refreshedAt t.head).kind ∧
        (bindingPut root r refreshedAt t.head).retireStates ≠ [] :=
      ⟨hfull, cons_ne_nil _ _⟩
    rw [if_pos hretire, if_pos hfull]
    rfl
  · have hretire : ¬(operationalRecordLimit ≤
        t.countOf (bindingPut root r refreshedAt t.head).kind ∧
          (bindingPut root r refreshedAt t.head).retireStates ≠ []) := fun h => hfull h.1
    rw [if_neg hretire, if_neg hfull]
    simp

/-- After a binding was recorded, its presence has it and the others have theirs, or none. -/
theorem Recorded.bindingRow_eq {refreshedAt : ℚ} (h : Recorded host root r refreshedAt t t')
    (hkeys : (t.records.map Record.key).Nodup) (habsent : bindingRow root t = none) :
    ∃ text, host.codec.dumps ⟨r.identity, refreshedAt⟩ = some text ∧
      ∀ k, bindingRow k t' =
        if k = root then some ((bindingPut root r refreshedAt t.head).record text refreshedAt 1)
        else (bindingRow k t).filter fun row => decide (row ∉ retiring root r refreshedAt t) := by
  obtain ⟨text, hdumps, rfl⟩ := h.rest
  refine ⟨text, hdumps, fun k => ?_⟩
  let row := (bindingPut root r refreshedAt t.head).record text refreshedAt 1
  have habsent' : Rows.select Record.key row.key
      (t.retired (bindingPut root r refreshedAt t.head)).records = none := by
    rw [records_retired, Rows.select_filter hkeys]
    have hnone : Rows.select Record.key row.key t.records = none := habsent
    rw [hnone, filter_none]
  unfold bindingRow
  dsimp only
  rw [Rows.select_append _ habsent', records_retired, Rows.select_filter hkeys]
  have hkey : (bindingKind, k) = row.key ↔ k = root := by
    unfold row Record.key Put.record bindingPut
    simp
  simp only [hkey]
  rfl

theorem get?_noteBound_of_ne {bound : Dict String Identity} {k : String} (hk : k ≠ root) :
    (noteBound root r t bound).get? k = bound.get? k := by
  unfold noteBound
  split
  · exact Dict.get?_set_of_ne _ _ hk
  · rfl

/-- A binding that is recorded is the first one under its root, or the same as that. -/
theorem get?_noteBound {bound : Dict String Identity} (hrow : (bindingRow root t).isSome)
    (hbound : ∀ identity ∈ bound.get? root, identity = r.identity) :
    (noteBound root r t bound).get? root = some r.identity := by
  unfold noteBound
  rw [hrow, Bool.and_true]
  cases hget : bound.get? root with
  | none => exact Dict.get?_set_self ..
  | some identity =>
      rw [← hbound identity hget]
      exact hget

/-- **A recorded binding.**  It takes the place of none that a living presence needs. -/
theorem Kept.recorded (h : Kept host s) (hcodec : host.codec.RoundTrips) {refreshedAt now : ℚ}
    (hpresence : s.world.presences.get? root = none)
    (habsent : bindingRow root s.world.tables = none)
    (hrecorded : Recorded host root r refreshedAt s.world.tables t')
    (hbound : ∀ identity ∈ s.bound.get? root, identity = r.identity)
    (hretiring : ∀ row ∈ retiring root r refreshedAt s.world.tables,
      ∀ lease ∈ s.world.tables.getLease row.recordRoot, lease.expiresAt ≤ now)
    (hclock : s.clock < now) :
    Kept host { s with
      world := { s.world with tables := t' }, clock := now
      bound := noteBound root r t' s.bound } := by
  obtain ⟨text, hdumps, hrows⟩ := hrecorded.bindingRow_eq h.keys habsent
  obtain ⟨text', -, ht'⟩ := hrecorded.rest
  have hlease : ∀ k, t'.lease k = s.world.tables.lease k := fun k => by rw [ht']; rfl
  have hrevoked : ∀ k, t'.revoked k = s.world.tables.revoked k := fun k => by rw [ht']; rfl
  constructor
  · show (t'.records.map Record.key).Nodup
    rw [ht', records_retired, map_append, map_singleton, nodup_append]
    refine ⟨h.keys.sublist (List.filter_sublist.map _), nodup_singleton _, ?_⟩
    intro x hx y hy
    obtain ⟨row, hrow, rfl⟩ := List.mem_map.1 hx
    rw [List.mem_singleton.1 hy]
    exact Rows.select_eq_none.1 habsent row (List.mem_filter.1 hrow).1
  · have hroom := hrecorded.room
    show t'.countOf bindingKind ≤ _
    rw [ht']
    unfold Tables.countOf at hroom ⊢
    rw [countP_append, countP_singleton]
    split <;> omega
  · intro k p hp row hrow
    exact h.owner k p hp row ((hlease k).symm.trans hrow)
  · intro k row hrow
    have hrow' := (hrows k).symm.trans hrow
    by_cases hk : k = root
    · subst hk
      have hsome : (bindingRow k t').isSome := by
        rw [hrows, if_pos rfl]
        rfl
      rw [if_pos rfl] at hrow'
      cases hrow'
      have hidentity : (host.codec.loads text).identity = r.identity := by
        rw [hcodec _ _ hdumps]
      exact (get?_noteBound hsome hbound).trans (congrArg some hidentity.symm)
    · rw [if_neg hk] at hrow'
      exact (get?_noteBound_of_ne hk).trans (h.bound k row (Option.filter_eq_some_iff.1 hrow').1)
  · exact fun k hk => (hrevoked k).trans (h.asked k hk)
  · exact fun k hk => h.revoked k ((hrevoked k).symm.trans hk)
  · rintro k a ⟨haccepted, hunrevoked, hexpires⟩
    have hliving := h.alive k a ⟨haccepted, hunrevoked, hclock.trans hexpires⟩
    obtain ⟨b, hb, -⟩ := hliving.binding
    obtain ⟨generation, hlive⟩ := hliving.lease
    refine hliving.of_same rfl (fun _ hc => hc) ?_ (hlease k) (hrevoked k)
    unfold bindingOf at hb ⊢
    dsimp only
    cases hp : s.world.presences.get? k with
    | some p => rfl
    | none =>
        rw [hp] at hb
        obtain ⟨row, hrow, -⟩ := Option.map_eq_some_iff.1 hb
        have hk : k ≠ root := by
          rintro rfl
          cases habsent.symm.trans hrow
        -- its lease outlives the heartbeat, so its binding does not retire
        have hkept : row ∉ retiring root r refreshedAt s.world.tables := by
          intro hmem
          have hroot : row.recordRoot = k := congrArg Prod.snd (Rows.key_of_select hrow)
          have hget : s.world.tables.getLease row.recordRoot =
              some ⟨a.identity.session, a.refreshedAt, a.expiresAt, generation⟩ := by
            unfold Tables.getLease
            rw [hroot, hliving.unrevoked, hlive]
            rfl
          exact absurd hexpires (not_lt.2 (hretiring row hmem _ hget))
        rw [hrows, if_neg hk, hrow, filter_some, if_pos (decide_eq_true hkept)]

/-! ## The other steps -/

/-- Time passes. -/
theorem Kept.later (h : Kept host s) {now : ℚ} (hnow : s.clock ≤ now) :
    Kept host { s with clock := now } where
  keys := h.keys
  bounded := h.bounded
  owner := h.owner
  bound := h.bound
  asked := h.asked
  revoked := h.revoked
  alive k a ha := h.alive k a ⟨ha.1, ha.2.1, hnow.trans_lt ha.2.2⟩

/-- A bound presence has been noted. -/
theorem Kept.noteBound_eq (h : Kept host s) (r : Heartbeat) :
    noteBound root r s.world.tables s.bound = s.bound := by
  unfold noteBound
  cases hrow : bindingRow root s.world.tables with
  | none => rw [isSome_none, Bool.and_false]; rfl
  | some row => rw [h.bound root row hrow]; rfl

theorem noteBound_congr {bound : Dict String Identity}
    (hrow : bindingRow root t' = bindingRow root t) :
    noteBound root r t' bound = noteBound root r t bound := by
  unfold noteBound
  rw [hrow]

/-- A heartbeat that passes its checks is valid, at a time of the clock. -/
theorem of_heartbeat {x : ℚ × ℚ} (h : r.checked = .ok x) :
    r.identity.validate = .ok () ∧ ∃ now, r.now.finite = some now := by
  obtain ⟨_, hvalid, h⟩ := Check.bind_ok_iff.1 h
  obtain ⟨now, hnow, -⟩ := Check.bind_ok_iff.1 h
  refine ⟨hvalid, now, ?_⟩
  unfold validateNow at hnow
  cases hfinite : r.now.finite with
  | none =>
      rw [hfinite] at hnow
      cases hnow
  | some q =>
      rw [hfinite] at hnow
      cases hnow
      rfl

/-- A heartbeat is refused as it is, or it goes on to the tables. -/
theorem renew_cases (host : Host) (r : Heartbeat) (w : World) :
    (∃ e, renew host r w = (w, .error e)) ∨
      ∃ x, r.checked = .ok x ∧ (r.identity.session ∈ w.cells ∧ r.identity.custody ∈ w.cells) ∧
        renew host r w =
          ({ w with
              tables := (renewTables host (host.presenceRoot r.identity.session) r x.1 x.2 w).1 },
            (renewTables host (host.presenceRoot r.identity.session) r x.1 x.2 w).2) := by
  unfold renew
  cases hchecked : r.checked with
  | error e => exact .inl ⟨e, rfl⟩
  | ok x =>
      dsimp only
      by_cases hcells : r.identity.session ∉ w.cells ∨ r.identity.custody ∉ w.cells
      · rw [if_pos hcells]
        exact .inl ⟨_, rfl⟩
      · rw [if_neg hcells]
        rw [not_or, not_not, not_not] at hcells
        exact .inr ⟨x, rfl, hcells, rfl⟩

section

variable (h : Kept host s)

include h

/-- A heartbeat. -/
theorem Kept.renew (hcodec : host.codec.RoundTrips) (r : Heartbeat)
    (hr : Admitted host s (.renew r)) : Kept host ((presence host).step s (.renew r)) := by
  obtain ⟨hclock, hopens⟩ := hr
  have hlater : s.clock ≤ r.now.finite.getD s.clock := by
    cases hnow : r.now.finite with
    | none => exact le_rfl
    | some now => exact (hclock now hnow).le
  have hsame : Kept host { s with
      clock := r.now.finite.getD s.clock
      bound := noteBound (host.presenceRoot r.identity.session) r s.world.tables s.bound } := by
    rw [h.noteBound_eq]
    exact h.later hlater
  show Kept host (presenceStep host s (.renew r))
  unfold presenceStep
  dsimp only
  rcases renew_cases host r s.world with ⟨e, heq⟩ | ⟨x, hchecked, hcells, heq⟩
  · rw [heq]
    exact hsame
  · rw [heq]
    obtain ⟨hvalid, now, hnow⟩ := of_heartbeat hchecked
    rw [hnow] at hlater hsame ⊢
    rcases renewTables_cases host (host.presenceRoot r.identity.session) r x.1 x.2 s.world with
      ⟨e, htables⟩ | ⟨b, t', hbinding, hidentity, htext, hrefreshed, htables⟩ |
      ⟨t₁, hpresence, habsent, hexpected, hrecorded, hrest⟩
    · rw [htables]
      exact hsame
    · rw [htables]
      have hrow : bindingRow (host.presenceRoot r.identity.session) t' =
          bindingRow (host.presenceRoot r.identity.session) s.world.tables := by
        unfold bindingRow
        rw [hrefreshed.records]
      rw [noteBound_congr hrow, h.noteBound_eq]
      exact (h.later hlater).refreshed rfl hvalid hcells htext hbinding hidentity hrefreshed
    · have hunbound : bindingOf host (host.presenceRoot r.identity.session) s.world = none := by
        unfold bindingOf
        rw [hpresence, habsent]
        rfl
      obtain ⟨hbound, hretiring⟩ := hopens x ⟨hchecked, hcells, hexpected, hunbound⟩
      have hfirst := h.recorded hcodec hpresence habsent hrecorded hbound
        (fun row hrow lease hlease => hretiring row hrow lease hlease now hnow) (hclock now hnow)
      rcases hrest with ⟨e, htables⟩ | ⟨t', hrefreshed, htables⟩
      · rw [htables]
        exact hfirst
      · rw [htables]
        have hrow : bindingRow (host.presenceRoot r.identity.session) t' =
            bindingRow (host.presenceRoot r.identity.session) t₁ := by
          unfold bindingRow
          rw [hrefreshed.records]
        obtain ⟨text, hdumps, hrows⟩ := hrecorded.bindingRow_eq h.keys habsent
        let world : World := { s.world with tables := t₁ }
        have hbinding : bindingOf host (host.presenceRoot r.identity.session) world =
            some ⟨r.identity, x.1⟩ := by
          unfold bindingOf
          dsimp only [world]
          rw [hpresence, hrows, if_pos rfl]
          exact congrArg some (hcodec _ _ hdumps)
        rw [noteBound_congr hrow]
        exact hfirst.refreshed rfl hvalid hcells (fun _ => hrecorded.rootText) hbinding rfl
          hrefreshed

/-- An owner's revocation matches the lease that is there. -/
theorem Kept.owner_of_entitled {owner : Option String}
    (hentitled : entitled root owner s.world = true) {row : LeaseRow}
    (hrow : s.world.tables.lease root = some row) :
    owner = none ∨ owner = some row.entry.ownerToken := by
  have howner : ownerOf root s.world = some row.entry.ownerToken := by
    unfold ownerOf
    cases hp : s.world.presences.get? root with
    | some p => exact congrArg some (h.owner root p hp row hrow).symm
    | none => exact congrArg (Option.map fun row : LeaseRow => row.entry.ownerToken) hrow
  unfold entitled at hentitled
  rw [howner] at hentitled
  exact of_decide_eq_true hentitled

/-- A revocation: an owner's finds its lease or comes a second time. -/
theorem Kept.revoke (root : String) (owner : Option String) (now : ℚ)
    (hr : Admitted host s (.revoke root owner now)) :
    Kept host ((presence host).step s (.revoke root owner now)) := by
  obtain ⟨hclock, hfound⟩ := hr
  show Kept host (presenceStep host s (.revoke root owner now))
  unfold presenceStep
  dsimp only
  rcases deleteLease_cases root owner now s.world.tables with
    ⟨heq, hmismatch⟩ | ⟨t', heq, ⟨leases, tombstones, hrest⟩, hlease, hrevoked⟩
  · rw [heq]
    have hlater := h.later hclock.le
    refine { hlater with asked := ?_ }
    intro k hk
    split at hk
    · next hentitled =>
        rcases List.mem_cons.1 hk with rfl | hk
        · refine (hfound hentitled).resolve_left fun hsome => ?_
          obtain ⟨row, hrow⟩ := Option.isSome_iff_exists.1 hsome
          obtain ⟨hnone, hother⟩ := hmismatch row hrow
          exact (h.owner_of_entitled hentitled hrow).elim hnone hother
        · exact h.asked k hk
    · exact h.asked k hk
  · rw [heq]
    have hrows : t'.records = s.world.tables.records := by rw [hrest]
    have hrow : ∀ k, bindingRow k t' = bindingRow k s.world.tables := fun k => by
      unfold bindingRow
      rw [hrows]
    constructor
    · show (t'.records.map Record.key).Nodup
      rw [hrows]
      exact h.keys
    · show t'.countOf bindingKind ≤ _
      unfold Tables.countOf
      rw [hrows]
      exact h.bounded
    · intro k p hp row hk
      have hk' := (hlease k).symm.trans hk
      split at hk'
      · cases hk'
      · exact h.owner k p hp row hk'
    · exact fun k row hk => h.bound k row ((hrow k).symm.trans hk)
    · intro k hk
      refine (hrevoked k).trans ?_
      split at hk
      · rcases List.mem_cons.1 hk with rfl | hk
        · simp
        · simp [h.asked k hk]
      · simp [h.asked k hk]
    · intro k hk
      have hk' := (hrevoked k).symm.trans hk
      rw [if_pos rfl, mem_cons]
      rw [Bool.or_eq_true, decide_eq_true_eq] at hk'
      exact hk'.imp_right (h.revoked k)
    · rintro k a ⟨haccepted, hunrevoked, hexpires⟩
      rw [if_pos rfl, mem_cons, not_or] at hunrevoked
      have hliving := h.alive k a ⟨haccepted, hunrevoked.2, hclock.trans hexpires⟩
      refine hliving.of_same rfl (fun _ hc => hc) (bindingOf_congr rfl (hrow k)) ?_ ?_
      · exact (hlease k).trans (if_neg hunrevoked.1)
      · exact (hrevoked k).trans (by rw [decide_eq_false hunrevoked.1, Bool.false_or])

/-- The invariant looks at the records, the leases and the tombstones. -/
theorem Kept.of_world {w : World} (hrecords : w.tables.records = s.world.tables.records)
    (hleases : w.tables.leases = s.world.tables.leases)
    (htombstones : w.tables.tombstones = s.world.tables.tombstones)
    (hpresences : w.presences = s.world.presences) (hcells : ∀ c ∈ s.world.cells, c ∈ w.cells) :
    Kept host { s with world := w } := by
  have hrow : ∀ k, bindingRow k w.tables = bindingRow k s.world.tables := fun k => by
    unfold bindingRow
    rw [hrecords]
  have hlease : ∀ k, w.tables.lease k = s.world.tables.lease k := fun k => by
    unfold Tables.lease
    rw [hleases]
  have hrevoked : ∀ k, w.tables.revoked k = s.world.tables.revoked k := fun k => by
    unfold Tables.revoked
    rw [htombstones]
  constructor
  · show (w.tables.records.map Record.key).Nodup
    rw [hrecords]
    exact h.keys
  · show w.tables.countOf bindingKind ≤ _
    unfold Tables.countOf
    rw [hrecords]
    exact h.bounded
  · exact fun k p hp row hk => h.owner k p (hpresences ▸ hp) row ((hlease k).symm.trans hk)
  · exact fun k row hk => h.bound k row ((hrow k).symm.trans hk)
  · exact fun k hk => (hrevoked k).trans (h.asked k hk)
  · exact fun k hk => h.revoked k ((hrevoked k).symm.trans hk)
  · exact fun k a ha => (h.alive k a ha).of_same hpresences hcells
      (bindingOf_congr hpresences (hrow k)) (hlease k) (hrevoked k)

/-- One presence of the graph is taken over. -/
theorem Kept.migrateOne (now : ℚ) {e : String × Composed} (he : e ∈ s.world.presences.entries) :
    Kept host { s with world := { s.world with tables := migrateOne now s.world.tables e } } := by
  unfold Lease.migrateOne
  split
  · exact h
  · next hfree =>
      split
      · rw [Bool.or_eq_true, not_or, Bool.not_eq_true, isSome_eq_false_iff,
          isNone_iff_eq_none] at hfree
        let row : LeaseRow := ⟨e.1, e.2.binding.identity.session, e.2.refreshedAt, e.2.expiresAt, 1⟩
        have hlease : ∀ k, Rows.select LeaseRow.presenceRoot k (s.world.tables.leases ++ [row]) =
            if k = e.1 then some row else s.world.tables.lease k := Rows.select_append row hfree.1
        constructor
        · exact h.keys
        · exact h.bounded
        · intro k p hp row' hk
          have hk' := (hlease k).symm.trans hk
          split at hk'
          · next hroot =>
              subst hroot
              cases hk'
              have hget : s.world.presences.get? e.1 = some e.2 := Dict.mem_entries_iff.1 he
              cases hget.symm.trans hp
              rfl
          · exact h.owner k p hp row' hk'
        · exact h.bound
        · exact h.asked
        · exact h.revoked
        · intro k a ha
          have hliving := h.alive k a ha
          have hk : k ≠ e.1 := by
            rintro rfl
            obtain ⟨_, hsome⟩ := hliving.lease
            cases hfree.1.symm.trans hsome
          exact hliving.of_same rfl (fun _ hc => hc) rfl ((hlease k).trans (if_neg hk)) rfl
      · exact h

/-- The migration. -/
theorem Kept.migrate (now : ℚ) (hr : Admitted host s (.migrate now)) :
    Kept host ((presence host).step s (.migrate now)) := by
  have hclock : s.clock < now := hr
  show Kept host { s with world := Lease.migrate now s.world, clock := now }
  unfold Lease.migrate
  split
  · exact h.later hclock.le
  · let Inv (t : Tables) : Prop := Kept host { s with world := { s.world with tables := t } }
    have hstep : ∀ e ∈ s.world.presences.entries, ∀ t, Inv t → Inv (Lease.migrateOne now t e) :=
      fun e he t ht => Kept.migrateOne ht now he
    have hall : Inv (s.world.presences.entries.foldl (Lease.migrateOne now) s.world.tables) :=
      foldl_keeps hstep h
    have hmigrated : Kept host { s with world := { s.world with
        migrated := true
        tables := s.world.presences.entries.foldl (Lease.migrateOne now) s.world.tables } } :=
      hall.of_world rfl rfl rfl rfl fun _ hc => hc
    exact hmigrated.later hclock.le

/-- The graph grows. -/
theorem Kept.compose (cells : List String) : Kept host ((presence host).step s (.compose cells)) :=
  h.of_world rfl rfl rfl rfl fun _ hc => mem_append_left cells hc

end

/-- Every admitted step keeps the invariant. -/
theorem Kept.step (h : Kept host s) (hcodec : host.codec.RoundTrips) (a : Action)
    (ha : Admitted host s a) : Kept host ((presence host).step s a) := by
  cases a with
  | renew r => exact h.renew hcodec r ha
  | revoke root owner now => exact h.revoke root owner now ha
  | migrate now => exact h.migrate now ha
  | compose cells => exact h.compose cells

end ArchHub.Lease

import Mathlib
import ArchHub.Lease.Promises

/-!
# What the invariant promises

Read off `Kept`:

* `read_identity`, `identityOf_step`: what is reported of a presence is what was first bound.
* `Living.listed`, `Living.renew_ok`: a living presence is listed and renews.
* `Kept.not_listed`: a presence whose owner asked to revoke it is not listed.

`presence_promises` states them over whole runs.
-/

namespace ArchHub.Lease

open Lib List Check

variable {host : Host} {s : Watched} {w : World} {root : String} {a : Acceptance} {p : Projection}
  {r : Heartbeat} {i : Identity} {b : Binding} {t : Tables} {s' : Watched}
  {refreshedAt expiresAt : ℚ}

/-! ## What is reported -/

/-- What is reported of a presence is its binding, under its root, with a lease that is there. -/
theorem of_readPresence (h : readPresence host root w = .ok p) :
    ∃ b lease, bindingOf host root w = some b ∧ w.tables.getLease root = some lease ∧
      p = ⟨root, b, lease.refreshedAt, lease.expiresAt, lease.generation⟩ := by
  unfold readPresence at h
  cases hp : w.presences.get? root with
  | some presence =>
      rw [hp] at h
      obtain ⟨_, -, h⟩ := Check.bind_ok_iff.1 h
      obtain ⟨lease, hlease, -, -, heq⟩ := of_presenceProjection h
      refine ⟨presence.binding, lease, ?_, hlease, heq⟩
      unfold bindingOf
      rw [hp]
  | none =>
      rw [hp] at h
      obtain ⟨b, hb, h⟩ := Check.bind_ok_iff.1 h
      obtain ⟨-, hrow⟩ := readBinding_ok hb
      cases b with
      | none => cases h
      | some b =>
          obtain ⟨lease, hlease, -, -, heq⟩ := of_presenceProjection h
          refine ⟨b, lease, ?_, hlease, heq⟩
          unfold bindingOf
          rw [hp]
          exact hrow.symm

/-- The identity under a root: in the graph, or first bound. -/
def identityOf (root : String) (s : Watched) : Option Identity :=
  match s.world.presences.get? root with
  | some p => some p.binding.identity
  | none => s.bound.get? root

/-- What is reported is the identity under the root. -/
theorem Kept.read_identity (h : Kept host s) (hread : readPresence host root s.world = .ok p) :
    identityOf root s = some p.binding.identity := by
  obtain ⟨b, lease, hb, -, rfl⟩ := of_readPresence hread
  unfold bindingOf at hb
  unfold identityOf
  cases hp : s.world.presences.get? root with
  | some presence =>
      rw [hp] at hb
      cases hb
      rfl
  | none =>
      rw [hp] at hb
      obtain ⟨row, hrow, rfl⟩ := Option.map_eq_some_iff.1 hb
      exact h.bound root row hrow

theorem presences_renew (r : Heartbeat) (w : World) : (renew host r w).1.presences = w.presences := by
  rcases renew_cases host r w with ⟨e, heq⟩ | ⟨x, -, -, heq⟩
  · rw [heq]
  · rw [heq]

/-- An identity that was bound stays. -/
theorem get?_noteBound_of_some {bound : Dict String Identity} {k : String}
    (h : bound.get? k = some i) : (noteBound root r t bound).get? k = some i := by
  unfold noteBound
  split
  · next hnew =>
      rw [Bool.and_eq_true, Option.isNone_iff_eq_none] at hnew
      have hk : k ≠ root := by
        rintro rfl
        cases hnew.1.symm.trans h
      exact (Dict.get?_set_of_ne _ _ hk).trans h
  · exact h

theorem presences_migrate (now : ℚ) (w : World) : (migrate now w).presences = w.presences := by
  unfold migrate
  split <;> rfl

/-- An identity stays where the registry does and what was bound is not forgotten. -/
theorem identityOf_mono (hpresences : s'.world.presences = s.world.presences)
    (hbound : ∀ i, s.bound.get? root = some i → s'.bound.get? root = some i)
    (h : identityOf root s = some i) : identityOf root s' = some i := by
  unfold identityOf at h ⊢
  rw [hpresences]
  cases hp : s.world.presences.get? root with
  | some p =>
      rw [hp] at h
      exact h
  | none =>
      rw [hp] at h
      exact hbound i h

/-- No step changes the identity under a root. -/
theorem identityOf_step (s : Watched) (act : Action) (h : identityOf root s = some i) :
    identityOf root ((presence host).step s act) = some i := by
  cases act with
  | renew r => exact identityOf_mono (presences_renew r s.world) (fun _ => get?_noteBound_of_some) h
  | revoke k owner now => exact identityOf_mono rfl (fun _ hi => hi) h
  | migrate now =>
      have hpresences : ((presence host).step s (.migrate now)).world.presences =
          s.world.presences := presences_migrate now s.world
      exact identityOf_mono hpresences (fun _ hi => hi) h
  | compose cells => exact identityOf_mono rfl (fun _ hi => hi) h

/-! ## What is listed -/

/-- The binding of a presence that is not in the graph is read from its record. -/
theorem readBinding_of_bindingOf (hp : w.presences.get? root = none)
    (htext : recordText root "root" = .ok ()) (hb : bindingOf host root w = some b)
    (hvalid : b.identity.validate = .ok ()) : readBinding host root w.tables = .ok (some b) := by
  unfold bindingOf bindingRow at hb
  rw [hp] at hb
  obtain ⟨row, hrow, rfl⟩ := Option.map_eq_some_iff.1 hb
  unfold readBinding Tables.getRecord
  rw [recordKind_bindingKind, htext, hrow]
  simp only [ok_bind, Option.map_some, Record.decoded, hvalid]

/-- A living presence is reported. -/
theorem Living.read (h : Living host w root a) :
    ∃ p, readPresence host root w = .ok p ∧ p.rootId = root ∧ p.binding.identity = a.identity ∧
      p.expiresAt = a.expiresAt := by
  obtain ⟨b, hb, hidentity, hissued⟩ := h.binding
  obtain ⟨generation, hlease⟩ := h.lease
  rw [← hidentity] at hlease
  have hprojection := presenceProjection_ok h.unrevoked hlease hissued h.times
  refine ⟨⟨root, b, a.refreshedAt, a.expiresAt, generation⟩, ?_, rfl, hidentity, rfl⟩
  have hvalid := h.valid
  rw [← hidentity] at hvalid
  unfold readPresence
  cases hp : w.presences.get? root with
  | some presence =>
      unfold bindingOf at hb
      rw [hp] at hb
      cases hb
      dsimp only
      rw [hvalid]
      exact hprojection
  | none =>
      simp only [readBinding_of_bindingOf hp (h.rootText hp) hb hvalid, ok_bind]
      exact hprojection

/-- Every binding is among the roots. -/
theorem mem_presenceRoots (hbounded : w.tables.countOf bindingKind ≤ operationalRecordLimit)
    (hb : bindingOf host root w = some b) :
    ∃ roots, presenceRoots host w = .ok roots ∧ root ∈ roots := by
  let rows := w.tables.records.filter fun row => row.wanted bindingKind none none
  let sorted := Rows.orderBy Record.recordRoot rows
  have hlist : w.tables.listRecords host.codec bindingKind none none 10000 =
      .ok ((sorted.take 10000).map fun row => row.decoded host.codec) := rfl
  have hall : sorted.take 10000 = sorted := by
    refine take_of_length_le ?_
    rw [(Rows.perm_orderBy _ _).length_eq]
    refine le_trans (le_of_eq ?_) hbounded
    unfold Tables.countOf
    rw [countP_eq_length_filter]
    refine congrArg List.length (filter_congr fun row _ => ?_)
    simp [Record.wanted]
  unfold presenceRoots
  rw [hlist, ok_bind, hall]
  refine ⟨_, rfl, ?_⟩
  unfold bindingOf at hb
  cases hp : w.presences.get? root with
  | some p => exact mem_append_left _ (Dict.mem_keys_of_get? hp)
  | none =>
      rw [hp] at hb
      obtain ⟨row, hrow, -⟩ := Option.map_eq_some_iff.1 hb
      have hkey := Rows.key_of_select hrow
      have hmem : row ∈ sorted := (Rows.perm_orderBy _ _).mem_iff.2 (List.mem_filter.2
        ⟨Rows.mem_of_select hrow, by simp [Record.wanted, (Prod.mk.inj hkey).1]⟩)
      refine mem_append_right _ (List.mem_filter.2 ⟨?_, ?_⟩)
      · rw [map_map]
        exact List.mem_map.2 ⟨row, hmem, (Prod.mk.inj hkey).2⟩
      · exact decide_eq_true (Dict.get?_eq_none_iff.1 hp)

/-- **A living presence is listed.** -/
theorem Living.listed (h : Living host w root a)
    (hbounded : w.tables.countOf bindingKind ≤ operationalRecordLimit) {now : ℚ}
    (hnow : now < a.expiresAt) :
    ∃ presences, listActive host (.ofRat now) w = .ok presences ∧
      ∃ p ∈ presences, p.rootId = root ∧ p.binding.identity = a.identity := by
  obtain ⟨b, hb, -⟩ := h.binding
  obtain ⟨roots, hroots, hmem⟩ := mem_presenceRoots hbounded hb
  obtain ⟨p, hread, hroot, hidentity, hexpires⟩ := h.read
  refine ⟨(roots.filterMap fun root => (readPresence host root w).toOption).filter
    fun p => decide (now < p.expiresAt), ?_, p, ?_, hroot, hidentity⟩
  · unfold listActive listPresences
    rw [hroots]
    rfl
  · refine List.mem_filter.2 ⟨List.mem_filterMap.2 ⟨root, hmem, by rw [hread]; rfl⟩, ?_⟩
    rw [hexpires]
    exact decide_eq_true hnow

/-- What is listed has a lease, so it is not revoked. -/
theorem not_revoked_of_listed {now : Float64} {presences : List Projection}
    (h : listActive host now w = .ok presences) (hp : p ∈ presences) :
    w.tables.revoked p.rootId = false := by
  obtain ⟨_, -, h⟩ := Check.bind_ok_iff.1 h
  obtain ⟨all, hall, h⟩ := Check.bind_ok_iff.1 h
  cases h
  obtain ⟨roots, -, hall⟩ := Check.bind_ok_iff.1 hall
  cases hall
  obtain ⟨root, -, hread⟩ := List.mem_filterMap.1 (List.mem_filter.1 hp).1
  cases hresult : readPresence host root w with
  | error e =>
      rw [hresult] at hread
      cases hread
  | ok p' =>
      rw [hresult] at hread
      cases hread
      obtain ⟨b, lease, -, hlease, rfl⟩ := of_readPresence hresult
      unfold Tables.getLease at hlease
      split at hlease
      · cases hlease
      · next hrevoked => exact Bool.eq_false_iff.2 hrevoked

/-! ## What renews -/

theorem sub_le_round6 (q : ℚ) : q - 1 / 1000000 ≤ round6 q := by
  have hfloor : q * 1000000 < (⌊q * 1000000⌋ : ℚ) + 1 := Int.lt_floor_add_one _
  unfold round6
  dsimp only
  rw [le_div_iff₀ (by norm_num)]
  split_ifs <;> push_cast <;> linarith

/-- The renewal that follows an accepted one: of the same identity, later by a microsecond at
least, with a lease within policy, and expecting the generation that is there if any. -/
structure Follows (w : World) (root : String) (a : Acceptance) (r : Heartbeat) : Prop where
  identity : r.identity = a.identity
  now : ∃ now, r.now.finite = some now ∧ a.refreshedAt < round6 now
  leaseSeconds : ∃ seconds, r.leaseSeconds.finite = some seconds ∧ 15 ≤ seconds ∧ seconds ≤ 900
  expected : ∀ expected, r.expectedGeneration = some expected →
    ∀ row, w.tables.lease root = some row → (row.entry.generation : ℤ) = expected

/-- A valid session has a name. -/
theorem session_ne_of_validate (h : i.validate = .ok ()) : i.session ≠ "" := by
  obtain ⟨_, hsession, -⟩ := Check.bind_ok_iff.1 h
  have hboth := Check.require_ok_iff.1 hsession
  rw [Bool.and_eq_true] at hboth
  exact (of_decide_eq_true hboth.1).1

/-- A lease is renewed by its owner, later, and with the generation it has. -/
theorem renewLease_ok {row : LeaseRow} {expected : Option ℤ} (hroot : root ≠ "")
    (howner : row.entry.ownerToken ≠ "") (htimes : refreshedAt < expiresAt)
    (hrevoked : t.revoked root = false) (hrow : t.lease root = some row)
    (hlater : row.entry.refreshedAt < refreshedAt)
    (hexpected : ∀ g, expected = some g → (row.entry.generation : ℤ) = g) :
    ∃ t' n, t.renewLease root row.entry.ownerToken (.ofRat refreshedAt) (.ofRat expiresAt) expected =
      (t', .ok n) := by
  have hchecked : leaseTimes root row.entry.ownerToken (.ofRat refreshedAt) (.ofRat expiresAt) =
      .ok (refreshedAt, expiresAt) := by
    unfold leaseTimes
    rw [decide_eq_true hroot, decide_eq_true howner, finite_ofRat, finite_ofRat]
    dsimp only
    rw [decide_eq_true htimes]
    rfl
  have hrenewable : row.entry.renewable row.entry.ownerToken refreshedAt expected = .ok () := by
    unfold LeaseEntry.renewable
    rw [decide_eq_true rfl, decide_eq_true hlater]
    cases expected with
    | none => rfl
    | some g =>
        dsimp only
        rw [decide_eq_true (hexpected g rfl)]
        rfl
  unfold Tables.renewLease transaction
  rw [hchecked]
  simp only [hrevoked, hrow, hrenewable, Bool.not_false, require_true, ok_bind]
  exact ⟨_, _, rfl⟩

/-- The times of a heartbeat that follows. -/
theorem checked_of_follows (hvalid : r.identity.validate = .ok ()) {now seconds : ℚ}
    (hnow : r.now.finite = some now) (hseconds : r.leaseSeconds.finite = some seconds)
    (hpolicy : 15 ≤ seconds ∧ seconds ≤ 900) :
    r.checked = .ok (round6 now, round6 (round6 now + seconds)) := by
  unfold Heartbeat.checked validateLeaseSeconds validateNow
  rw [hvalid, hnow, hseconds]
  simp only [ok_bind, decide_eq_true hpolicy, require_true]

/-- A bound presence with a lease is refreshed. -/
theorem Living.refresh_ok (h : Living host w root a) (hr : Follows w root a r)
    (hb : bindingOf host root w = some b) (hlater : a.refreshedAt < refreshedAt)
    (htimes : refreshedAt < expiresAt) :
    ∃ t p, refresh root b r refreshedAt expiresAt w.tables = (t, .ok p) := by
  obtain ⟨b', hb', hidentity, hissued⟩ := h.binding
  cases hb.symm.trans hb'
  obtain ⟨generation, hlease⟩ := h.lease
  have hroot : root ≠ "" := by
    rw [h.root_eq]
    unfold Host.presenceRoot
    intro heq
    have hsize := congrArg String.utf8ByteSize heq
    rw [String.utf8ByteSize_append] at hsize
    have hpositive : 0 < "runtime-presence:sha256:".utf8ByteSize := by decide
    have hzero : "".utf8ByteSize = 0 := rfl
    omega
  obtain ⟨t', n, hok⟩ := renewLease_ok hroot (session_ne_of_validate h.valid) htimes h.unrevoked
    hlease hlater fun g hg => hr.expected g hg _ hlease
  have hget : w.tables.getLease root =
      some ⟨a.identity.session, a.refreshedAt, a.expiresAt, generation⟩ := by
    unfold Tables.getLease
    rw [h.unrevoked, hlease]
    rfl
  have hrefresh : refreshLease root r refreshedAt expiresAt w.tables = (t', .ok n) := by
    unfold refreshLease
    rw [hget, hr.identity]
    exact hok
  rcases refreshLease_cases root r refreshedAt expiresAt w.tables with
    ⟨e, heq⟩ | ⟨t'', n', heq, hrefreshed⟩
  · cases hrefresh.symm.trans heq
  · cases hrefresh.symm.trans heq
    obtain ⟨generation', hhere⟩ := hrefreshed.here
    rw [hr.identity, ← hidentity] at hhere
    have hprojection := presenceProjection_ok
      ((hrefreshed.revoked_eq root).trans hrefreshed.unrevoked) hhere
      (hissued.trans hlater.le) hrefreshed.times
    refine ⟨t', ⟨root, b, refreshedAt, expiresAt, generation'⟩, ?_⟩
    unfold refresh
    rw [if_neg (not_not.2 (hidentity.trans hr.identity.symm)), hrefresh]
    dsimp only
    rw [hprojection]

/-- **A living presence renews.** -/
theorem Living.renew_ok (h : Living host w root a) (hr : Follows w root a r) :
    ∃ p, (renew host r w).2 = .ok p := by
  obtain ⟨now, hnow, hlater⟩ := hr.now
  obtain ⟨seconds, hseconds, hpolicy⟩ := hr.leaseSeconds
  have hvalid : r.identity.validate = .ok () := by
    rw [hr.identity]
    exact h.valid
  have htimes : round6 now < round6 (round6 now + seconds) := by
    have hround := sub_le_round6 (round6 now + seconds)
    linarith [hpolicy.1]
  have hroot : host.presenceRoot r.identity.session = root := by rw [hr.identity, ← h.root_eq]
  obtain ⟨b, hb, hidentity, -⟩ := h.binding
  obtain ⟨t, p, hrefresh⟩ := h.refresh_ok hr hb hlater htimes
  have htables : renewTables host root r (round6 now) (round6 (round6 now + seconds)) w =
      (t, .ok p) := by
    unfold renewTables
    have hbvalid := h.valid
    rw [← hidentity] at hbvalid
    cases hp : w.presences.get? root with
    | some presence =>
        unfold bindingOf at hb
        rw [hp] at hb
        cases hb
        obtain ⟨_, -, hrest⟩ := Check.bind_ok_iff.1 hbvalid
        obtain ⟨_, -, hruntime⟩ := Check.bind_ok_iff.1 hrest
        dsimp only
        rw [hruntime]
        exact hrefresh
    | none =>
        dsimp only
        rw [readBinding_of_bindingOf hp (h.rootText hp) hb hbvalid]
        exact hrefresh
  refine ⟨p, ?_⟩
  have hcells : ¬(r.identity.session ∉ w.cells ∨ r.identity.custody ∉ w.cells) := by
    rw [hr.identity, not_or, not_not, not_not]
    exact h.cells
  unfold renew
  rw [checked_of_follows hvalid hnow hseconds hpolicy]
  dsimp only
  rw [if_neg hcells, hroot, htables]

/-! ## Runs -/

/-- What is reported of a presence never changes along a run. -/
theorem identityOf_run {ok : Watched → Action → Prop} (hrun : (presence host).Run ok s s')
    (h : identityOf root s = some i) : identityOf root s' = some i := by
  let Same (s : Watched) : Prop := identityOf root s = some i
  have hkeeps : ∀ s act, ok s act → Same s → Same ((presence host).step s act) :=
    fun s act _ hi => identityOf_step s act hi
  have hend : Same s' := hrun.invariant hkeeps h
  exact hend

/-- **The promises of runtime presence.**  In every run of admitted steps, at increasing times:
what is reported of a presence stays what it was; a presence whose latest accepted renewal has
neither expired nor been revoked is listed as active and its next renewal is accepted; and a
presence that its owner asked to revoke is not listed any more. -/
theorem presence_promises (hcodec : host.codec.RoundTrips) (head : ℕ)
    (presences : Dict String Composed) (clock : ℚ)
    (hrun : (presence host).Run (Admitted host) (.new head presences clock) s) :
    (∀ s', (presence host).Run (Admitted host) s s' → ∀ root p p',
      readPresence host root s.world = .ok p → readPresence host root s'.world = .ok p' →
        p'.binding.identity = p.binding.identity) ∧
    (∀ root a, Alive s root a →
      (∀ now, now < a.expiresAt → ∃ active, listActive host (.ofRat now) s.world = .ok active ∧
        ∃ p ∈ active, p.rootId = root ∧ p.binding.identity = a.identity) ∧
      ∀ r, Follows s.world root a r → ∃ p, (renew host r s.world).2 = .ok p) ∧
    ∀ root ∈ s.asked, ∀ now active, listActive host now s.world = .ok active →
      ∀ p ∈ active, p.rootId ≠ root := by
  have hkept : Kept host s :=
    hrun.invariant (fun s act hact hs => hs.step hcodec act hact) (kept_new host head presences clock)
  refine ⟨fun s' hrun' root p p' hp hp' => ?_, fun root a ha => ?_, fun root hroot now active h p hp => ?_⟩
  · have hkept' : Kept host s' :=
      hrun'.invariant (fun s act hact hs => hs.step hcodec act hact) hkept
    have hbefore := identityOf_run hrun' (hkept.read_identity hp)
    exact Option.some.inj ((hkept'.read_identity hp').symm.trans hbefore)
  · have hliving := hkept.alive root a ha
    exact ⟨fun now hnow => hliving.listed hkept.bounded hnow, fun r hr => hliving.renew_ok hr⟩
  · rintro rfl
    have hrevoked := not_revoked_of_listed h hp
    rw [hkept.asked _ hroot] at hrevoked
    cases hrevoked

/-- An identity, its binding at a time, and the text of that. -/
def someone : Identity :=
  ⟨"app:agent-session:runtime:one", "device-custody:sha256:one", "baboom"⟩

/-- A host that writes one binding. -/
def oneHost : Host where
  codec :=
    { dumps := fun b => if b = ⟨someone, 100⟩ then
        some "\x7b\"custody\":\"device-custody:sha256:one\",\"issued_at\":100.0,\"runtime\":\"baboom\",\"session\":\"app:agent-session:runtime:one\"\x7d"
        else none
      loads := fun _ => ⟨someone, 100⟩ }
  sha256 _ := "5b573f07ac047a67f6ef5cedc64e41126bd379250ca740bb51af11bffae2e24f"

theorem oneHost_roundTrips : oneHost.codec.RoundTrips := by
  intro b text h
  unfold oneHost at h
  dsimp only at h
  split at h
  · next hb => exact hb.symm
  · cases h

/-- Its root. -/
def someoneRoot : String := oneHost.presenceRoot someone.session

/-- Its first heartbeat, for a minute. -/
def firstHeartbeat : Heartbeat := ⟨someone, .ofRat 100, .ofRat 60, none⟩

/-- The graph has its session and its custody. -/
def composed : Watched :=
  (presence oneHost).step (.new 1 .empty 0) (.compose [someone.session, someone.custody])

theorem presence_promises_listed :
    ∃ active, listActive oneHost (.ofRat 159)
        ((presence oneHost).step composed (.renew firstHeartbeat)).world = .ok active ∧
      ∃ p ∈ active, p.rootId = someoneRoot ∧ p.binding.identity = someone := by
  have hcomposed : (presence oneHost).Run (Admitted oneHost) (.new 1 .empty 0) composed :=
    .step (Action.compose [someone.session, someone.custody]) trivial
  have hadmitted : Admitted oneHost composed (.renew firstHeartbeat) := by
    refine ⟨fun now hnow => ?_, fun x _ => ⟨?_, ?_⟩⟩
    · cases hnow
      decide +kernel
    · intro i hi
      cases hi
    · intro row hrow
      cases hrow
  have halive : Alive ((presence oneHost).step composed (.renew firstHeartbeat)) someoneRoot
      ⟨someone, 100, 160⟩ := by
    unfold Alive
    decide +kernel
  exact ((presence_promises oneHost_roundTrips 1 .empty 0 (hcomposed.snoc _ hadmitted)).2.1
    someoneRoot ⟨someone, 100, 160⟩ halive).1 159 (by decide +kernel)

/-- A presence that an earlier release composed, whose lease has not been taken over. -/
def legacy : Composed := ⟨⟨someone, 100⟩, 100, 160⟩

/-- Its session asks to revoke it, then the migration takes its lease over from the graph. -/
def revokedTooSoon : Watched :=
  [Action.revoke someoneRoot (some someone.session) 110, .migrate 120].foldl (presence oneHost).step
    (.new 1 (Dict.empty.set someoneRoot legacy) 100)

/-- The owner's revocation finds no lease, leaves no tombstone, and is forgotten. -/
theorem revoked_before_migration_is_listed :
    someoneRoot ∈ revokedTooSoon.asked ∧
      listActive oneHost (.ofRat 130) revokedTooSoon.world =
        .ok [⟨someoneRoot, ⟨someone, 100⟩, 100, 160, 1⟩] := by
  decide +kernel

end ArchHub.Lease

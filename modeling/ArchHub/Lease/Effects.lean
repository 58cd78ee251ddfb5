import Mathlib
import ArchHub.Lease.Presence

/-!
# What a heartbeat does

A heartbeat touches the lease of its own presence and, when it is the first one, the records.
The lemmas say once what each table operation can have done (`Refreshed`, `Recorded`,
`deleteLease_cases`), and from them what a whole heartbeat can have done (`renewTables_cases`);
the promises are proved from these and never look at the methods again.
-/

namespace ArchHub.Lease

open Lib Option Check

variable {t t' : Tables} {w : World} {host : Host} {root : String}

/-! ## Leases -/

/-- The lease of a presence was created or renewed. -/
structure Refreshed (root session : String) (refreshedAt expiresAt : ℚ) (t t' : Tables) : Prop where
  unrevoked : t.revoked root = false
  times : refreshedAt < expiresAt
  /-- Only leases changed. -/
  rest : ∃ rows, t' = { t with leases := rows }
  elsewhere : ∀ k, k ≠ root → t'.lease k = t.lease k
  here : ∃ generation, t'.lease root = some ⟨root, session, refreshedAt, expiresAt, generation⟩
  later : ∀ row, t.lease root = some row → row.entry.refreshedAt < refreshedAt

theorem finite_ofRat (q : ℚ) : (Float64.ofRat q).finite = some q := rfl

/-- The times that pass the checks. -/
theorem of_leaseTimes {owner : String} {refreshedAt expiresAt refreshed expires : ℚ}
    (h : leaseTimes root owner (.ofRat refreshedAt) (.ofRat expiresAt) = .ok (refreshed, expires)) :
    refreshed = refreshedAt ∧ expires = expiresAt ∧ refreshedAt < expiresAt := by
  unfold leaseTimes at h
  obtain ⟨_, -, h⟩ := Check.bind_ok_iff.1 h
  obtain ⟨_, -, h⟩ := Check.bind_ok_iff.1 h
  rw [finite_ofRat, finite_ofRat] at h
  obtain ⟨_, hlt, h⟩ := Check.bind_ok_iff.1 h
  cases h
  exact ⟨rfl, rfl, of_decide_eq_true (Check.require_ok_iff.1 hlt)⟩

theorem createInitialLease_cases (root owner : String) (refreshedAt expiresAt : ℚ) (t : Tables) :
    (∃ e, t.createInitialLease root owner (.ofRat refreshedAt) (.ofRat expiresAt) = (t, .error e)) ∨
      ∃ t' n, t.createInitialLease root owner (.ofRat refreshedAt) (.ofRat expiresAt) = (t', .ok n) ∧
        t.lease root = none ∧ Refreshed root owner refreshedAt expiresAt t t' := by
  unfold Tables.createInitialLease
  cases htimes : leaseTimes root owner (.ofRat refreshedAt) (.ofRat expiresAt) with
  | error e => exact .inl ⟨e, rfl⟩
  | ok times =>
      obtain ⟨refreshed, expires⟩ := times
      obtain ⟨rfl, rfl, hlt⟩ := of_leaseTimes htimes
      unfold transaction
      dsimp only
      cases hrevoked : t.revoked root with
      | true => exact .inl ⟨_, rfl⟩
      | false =>
          cases hlease : t.lease root with
          | some row => exact .inl ⟨_, rfl⟩
          | none =>
              let row : LeaseRow := ⟨root, owner, refreshed, expires, 1⟩
              have hselect : ∀ k, Rows.select LeaseRow.presenceRoot k (t.leases ++ [row]) =
                  if k = root then some row else t.lease k := Rows.select_append row hlease
              exact .inr ⟨_, 1, rfl, rfl, hrevoked, hlt, ⟨_, rfl⟩,
                fun k hk => (hselect k).trans (if_neg hk), ⟨1, (hselect root).trans (if_pos rfl)⟩,
                fun row hrow => absurd (hlease.symm.trans hrow) (some_ne_none row).symm⟩

theorem renewLease_cases (root owner : String) (refreshedAt expiresAt : ℚ) (expected : Option ℤ)
    (t : Tables) :
    (∃ e, t.renewLease root owner (.ofRat refreshedAt) (.ofRat expiresAt) expected = (t, .error e)) ∨
      ∃ t' n, t.renewLease root owner (.ofRat refreshedAt) (.ofRat expiresAt) expected = (t', .ok n) ∧
        (∃ row, t.lease root = some row ∧ row.entry.ownerToken = owner) ∧
        Refreshed root owner refreshedAt expiresAt t t' := by
  unfold Tables.renewLease
  cases htimes : leaseTimes root owner (.ofRat refreshedAt) (.ofRat expiresAt) with
  | error e => exact .inl ⟨e, rfl⟩
  | ok times =>
      obtain ⟨refreshed, expires⟩ := times
      obtain ⟨rfl, rfl, hlt⟩ := of_leaseTimes htimes
      unfold transaction
      dsimp only
      cases hrevoked : t.revoked root with
      | true => exact .inl ⟨_, rfl⟩
      | false =>
          simp only [Bool.not_false, require_true, ok_bind]
          cases hlease : t.lease root with
          | none => exact .inl ⟨_, rfl⟩
          | some row =>
              dsimp only
              cases hcheck : row.entry.renewable owner refreshed expected with
              | error e => exact .inl ⟨e, rfl⟩
              | ok =>
                  obtain ⟨_, howner, hrest⟩ := Check.bind_ok_iff.1 hcheck
                  obtain ⟨_, hlater, -⟩ := Check.bind_ok_iff.1 hrest
                  replace howner := of_decide_eq_true (Check.require_ok_iff.1 howner)
                  replace hlater := of_decide_eq_true (Check.require_ok_iff.1 hlater)
                  let renew (row : LeaseRow) : LeaseRow :=
                    { row with entry := row.entry.renewed refreshed expires }
                  have hselect : ∀ k, Rows.select LeaseRow.presenceRoot k
                      (Rows.update LeaseRow.presenceRoot root renew t.leases) =
                        if k = root then (t.lease root).map renew else t.lease k :=
                    Rows.select_update fun _ hr => hr
                  refine .inr ⟨_, _, rfl, ⟨row, rfl, howner⟩, hrevoked, hlt, ⟨_, rfl⟩,
                    fun k hk => (hselect k).trans (if_neg hk), ⟨row.entry.generation + 1, ?_⟩,
                    fun row' hrow => Option.some.inj (hlease.symm.trans hrow) ▸ hlater⟩
                  have hroot : row.presenceRoot = root := Rows.key_of_select hlease
                  refine (hselect root).trans ((if_pos rfl).trans ?_)
                  rw [hlease, map_some]
                  unfold renew LeaseEntry.renewed
                  rw [hroot, howner]

/-- A lease is refreshed, or the tables are as before. -/
theorem refreshLease_cases (root : String) (r : Heartbeat) (refreshedAt expiresAt : ℚ) (t : Tables) :
    (∃ e, refreshLease root r refreshedAt expiresAt t = (t, .error e)) ∨
      ∃ t' n, refreshLease root r refreshedAt expiresAt t = (t', .ok n) ∧
        Refreshed root r.identity.session refreshedAt expiresAt t t' := by
  unfold refreshLease
  cases t.getLease root with
  | none =>
      cases r.expectedGeneration with
      | some expected => exact .inl ⟨_, rfl⟩
      | none =>
          exact (createInitialLease_cases root _ refreshedAt expiresAt t).imp_right
            fun ⟨t', n, heq, _, hrefreshed⟩ => ⟨t', n, heq, hrefreshed⟩
  | some _ =>
      exact (renewLease_cases root _ refreshedAt expiresAt _ t).imp_right
        fun ⟨t', n, heq, _, hrefreshed⟩ => ⟨t', n, heq, hrefreshed⟩

/-- A deletion of a lease: nothing, or the lease is gone and the presence revoked. -/
theorem deleteLease_cases (root : String) (owner : Option String) (now : ℚ) (t : Tables) :
    (t.deleteLease root owner (some (.ofRat now)) = (t, .ok false) ∧
      ∀ row, t.lease root = some row → owner ≠ none ∧ owner ≠ some row.entry.ownerToken) ∨
      ∃ t', t.deleteLease root owner (some (.ofRat now)) = (t', .ok true) ∧
        (∃ leases tombstones, t' = { t with leases := leases, tombstones := tombstones }) ∧
        (∀ k, t'.lease k = if k = root then none else t.lease k) ∧
        ∀ k, t'.revoked k = (decide (k = root) || t.revoked k) := by
  unfold Tables.deleteLease transaction
  dsimp only
  cases hlease : t.lease root with
  | none => exact .inl ⟨rfl, fun row hrow => by cases hrow⟩
  | some row =>
      dsimp only
      by_cases howner : owner ≠ none ∧ some row.entry.ownerToken ≠ owner
      · rw [if_pos howner]
        refine .inl ⟨rfl, fun row' hrow => ?_⟩
        cases hrow
        exact ⟨howner.1, howner.2.symm⟩
      · rw [if_neg howner]
        refine .inr ⟨_, rfl, ⟨_, _, rfl⟩, fun k => Rows.select_delete root k, fun k => ?_⟩
        have hgone : Rows.select Prod.fst root (Rows.delete Prod.fst root t.tombstones) = none := by
          rw [Rows.select_delete, if_pos rfl]
        unfold Tables.revoked
        dsimp only
        rw [Rows.select_append _ hgone, Rows.select_delete]
        by_cases hk : k = root <;> simp [hk]

/-! ## Bindings -/

/-- The record of a binding. -/
def bindingRow (root : String) (t : Tables) : Option (Record String) :=
  Rows.select Record.key (bindingKind, root) t.records

/-- The binding of a presence: of the graph, or of its record. -/
def bindingOf (host : Host) (root : String) (w : World) : Option Binding :=
  match w.presences.get? root with
  | some p => some p.binding
  | none => (bindingRow root w.tables).map fun row => host.codec.loads row.payload

/-- The binding of a session was recorded. -/
structure Recorded (host : Host) (root : String) (r : Heartbeat) (refreshedAt : ℚ)
    (t t' : Tables) : Prop where
  rootText : recordText root "root" = .ok ()
  room : (t.retired (bindingPut root r refreshedAt t.head)).countOf bindingKind <
    operationalRecordLimit
  /-- Only records changed. -/
  rest : ∃ text, host.codec.dumps ⟨r.identity, refreshedAt⟩ = some text ∧
    t' = { t with records := (t.retired (bindingPut root r refreshedAt t.head)).records ++
      [(bindingPut root r refreshedAt t.head).record text refreshedAt 1] }

/-- The root and the text of a binding that passes the checks. -/
theorem of_checked {codec : Codec Binding} {p : Put Binding} {text : String} {q : ℚ}
    (h : p.checked codec = .ok (text, q)) :
    recordText p.recordRoot "root" = .ok () ∧ codec.dumps p.payload = some text := by
  obtain ⟨hroot, hpayload, -⟩ := Put.of_checked h
  refine ⟨hroot, ?_⟩
  unfold recordPayload at hpayload
  cases hdumps : codec.dumps p.payload with
  | none =>
      rw [hdumps] at hpayload
      cases hpayload
  | some text' =>
      rw [hdumps] at hpayload
      obtain ⟨_, -, hok⟩ := Check.bind_ok_iff.1 hpayload
      cases hok
      rfl

/-- A retirement changes records only. -/
theorem retired_with_records {Payload : Type} (p : Put Payload) (t : Tables)
    (rows : List (Record String)) :
    { t.retired p with records := rows } = { t with records := rows } := by
  unfold Tables.retired
  split <;> rfl

/-- A binding is recorded where there is none, or the tables are as before. -/
theorem bindingPut_cases (host : Host) (root : String) (r : Heartbeat) (refreshedAt : ℚ) (t : Tables)
    (habsent : bindingRow root t = none) :
    (∃ e, t.putRecord host.codec (bindingPut root r refreshedAt t.head) = (t, .error e)) ∨
      ∃ t' record, t.putRecord host.codec (bindingPut root r refreshedAt t.head) = (t', .ok record) ∧
        Recorded host root r refreshedAt t t' := by
  unfold Tables.putRecord
  cases hchecked : (bindingPut root r refreshedAt t.head).checked host.codec with
  | error e => exact .inl ⟨e, rfl⟩
  | ok x =>
      obtain ⟨text, updatedAt⟩ := x
      obtain ⟨hroot, hdumps⟩ := of_checked hchecked
      have htime : refreshedAt = updatedAt := by
        have htime := Put.updatedAt_of_checked hchecked
        exact WithTop.coe_injective (WithBot.coe_injective (Option.some.inj htime))
      subst htime
      have hhead : decide ((t.head : ℤ) = (bindingPut root r refreshedAt t.head).authorityRevision) =
          true := decide_eq_true rfl
      unfold transaction Tables.writeRecord
      simp only [hhead, require_true, ok_bind]
      have hselect : Rows.select Record.key ((bindingPut root r refreshedAt t.head).kind,
          (bindingPut root r refreshedAt t.head).recordRoot) t.records = none := habsent
      rw [hselect]
      dsimp only
      by_cases hroom : (t.retired (bindingPut root r refreshedAt t.head)).countOf bindingKind <
          operationalRecordLimit
      · have hkind : decide ((t.retired (bindingPut root r refreshedAt t.head)).countOf
            (bindingPut root r refreshedAt t.head).kind < operationalRecordLimit) = true :=
          decide_eq_true hroom
        rw [hkind]
        exact .inr ⟨_, _, rfl, hroot, hroom, text, hdumps, retired_with_records _ t _⟩
      · have hkind : decide ((t.retired (bindingPut root r refreshedAt t.head)).countOf
            (bindingPut root r refreshedAt t.head).kind < operationalRecordLimit) = false :=
          decide_eq_false hroom
        rw [hkind]
        exact .inl ⟨_, rfl⟩

/-! ## A heartbeat -/

theorem recordKind_bindingKind : recordKind bindingKind = .ok () := by decide

/-- A binding is read as its record. -/
theorem readBinding_ok {b : Option Binding} (h : readBinding host root t = .ok b) :
    recordText root "root" = .ok () ∧
      b = (bindingRow root t).map fun row => host.codec.loads row.payload := by
  unfold readBinding Tables.getRecord at h
  rw [recordKind_bindingKind, ok_bind] at h
  obtain ⟨row, hrow, h⟩ := Check.bind_ok_iff.1 h
  obtain ⟨_, hroot, hrow⟩ := Check.bind_ok_iff.1 hrow
  cases hrow
  refine ⟨hroot, ?_⟩
  unfold bindingRow
  cases hselect : Rows.select Record.key (bindingKind, root) t.records with
  | none =>
      rw [hselect] at h
      cases h
      rfl
  | some row =>
      rw [hselect] at h
      obtain ⟨_, -, h⟩ := Check.bind_ok_iff.1 h
      cases h
      rfl

/-- What `refresh` can have done. -/
theorem refresh_cases (root : String) (b : Binding) (r : Heartbeat) (refreshedAt expiresAt : ℚ)
    (t : Tables) :
    (∃ e, refresh root b r refreshedAt expiresAt t = (t, .error e)) ∨
      ∃ t', b.identity = r.identity ∧ Refreshed root r.identity.session refreshedAt expiresAt t t' ∧
        refresh root b r refreshedAt expiresAt t = (t', presenceProjection root b t') := by
  unfold refresh
  by_cases hidentity : b.identity ≠ r.identity
  · rw [if_pos hidentity]
    exact .inl ⟨_, rfl⟩
  · rw [if_neg hidentity]
    rcases refreshLease_cases root r refreshedAt expiresAt t with ⟨e, heq⟩ | ⟨t', n, heq, hrefreshed⟩
    · rw [heq]
      exact .inl ⟨e, rfl⟩
    · rw [heq]
      exact .inr ⟨t', not_not.1 hidentity, hrefreshed, rfl⟩

/-- What a heartbeat that passes its checks can have done: nothing, a refreshed lease of a bound
presence, or a binding recorded for the first time, with a lease or without. -/
theorem renewTables_cases (host : Host) (root : String) (r : Heartbeat) (refreshedAt expiresAt : ℚ)
    (w : World) :
    (∃ e, renewTables host root r refreshedAt expiresAt w = (w.tables, .error e)) ∨
    (∃ b t', bindingOf host root w = some b ∧ b.identity = r.identity ∧
      (w.presences.get? root = none → recordText root "root" = .ok ()) ∧
      Refreshed root r.identity.session refreshedAt expiresAt w.tables t' ∧
      renewTables host root r refreshedAt expiresAt w = (t', presenceProjection root b t')) ∨
    (∃ t₁, w.presences.get? root = none ∧ bindingRow root w.tables = none ∧
      r.expectedGeneration = none ∧ Recorded host root r refreshedAt w.tables t₁ ∧
      ((∃ e, renewTables host root r refreshedAt expiresAt w = (t₁, .error e)) ∨
        ∃ t', Refreshed root r.identity.session refreshedAt expiresAt t₁ t' ∧
          renewTables host root r refreshedAt expiresAt w =
            (t', presenceProjection root ⟨r.identity, refreshedAt⟩ t'))) := by
  unfold renewTables bindingOf
  cases hpresence : w.presences.get? root with
  | some p =>
      dsimp only
      cases validateRuntime p.binding.identity.runtime with
      | error e => exact .inl ⟨e, rfl⟩
      | ok =>
          rcases refresh_cases root p.binding r refreshedAt expiresAt w.tables with
            ⟨e, heq⟩ | ⟨t', hidentity, hrefreshed, heq⟩
          · exact .inl ⟨e, heq⟩
          · exact .inr (.inl ⟨p.binding, t', rfl, hidentity,
              fun h => absurd h (some_ne_none p), hrefreshed, heq⟩)
  | none =>
      dsimp only
      cases hread : readBinding host root w.tables with
      | error e => exact .inl ⟨e, rfl⟩
      | ok b =>
          obtain ⟨hroot, hb⟩ := readBinding_ok hread
          cases hrow : bindingRow root w.tables with
          | some row =>
              rw [hrow, map_some] at hb
              subst hb
              rcases refresh_cases root (host.codec.loads row.payload) r refreshedAt expiresAt
                w.tables with ⟨e, heq⟩ | ⟨t', hidentity, hrefreshed, heq⟩
              · exact .inl ⟨e, heq⟩
              · exact .inr (.inl ⟨_, t', rfl, hidentity, fun _ => hroot, hrefreshed, heq⟩)
          | none =>
              rw [hrow, map_none] at hb
              subst hb
              dsimp only
              unfold bind
              cases hexpected : r.expectedGeneration with
              | some expected => exact .inl ⟨_, rfl⟩
              | none =>
                  dsimp only
                  rcases bindingPut_cases host root r refreshedAt w.tables hrow with
                    ⟨e, heq⟩ | ⟨t₁, record, heq, hrecorded⟩
                  · rw [heq]
                    exact .inl ⟨e, rfl⟩
                  · rw [heq]
                    refine .inr (.inr ⟨t₁, rfl, rfl, rfl, hrecorded, ?_⟩)
                    dsimp only
                    rcases createInitialLease_cases root r.identity.session refreshedAt expiresAt t₁
                      with ⟨e, heq⟩ | ⟨t', n, heq, -, hrefreshed⟩
                    · rw [heq]
                      exact .inl ⟨e, rfl⟩
                    · rw [heq]
                      exact .inr ⟨t', hrefreshed, rfl⟩

end ArchHub.Lease

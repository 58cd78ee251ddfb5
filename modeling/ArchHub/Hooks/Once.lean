import Mathlib
import ArchHub.Lib.Rely
import ArchHub.Hooks.Approval

/-!
# At most once

A ticket is in one place at a time: its row is pending, a worker has claimed it, its
row has an open permit, or it has run.  Every section moves tickets from one place to
another, and closing a row takes its ticket away.  So a ticket runs at most once, and
not if it was denied, expired or withdrawn.

* `Sane`: what the shared state keeps, and `Carries`: how a step moves tickets.
* `released_once`: at most once, in every run in which a section writes only under
  the lock file it made, and no write drops the row of a permit that is being given.

Both conditions are the code's to break.  A lock file that is five seconds old is
removed while its section goes on; and the two hundred closed rows that are kept are
the ones asked last, so a row that is being released may be dropped, and its id then
names another.
-/

namespace ArchHub.Hooks

open Lib List Function Nat

variable {W : Type} [DecidableEq W] {noted : List Entry} {root : String} {row old : Hold}
  {x : Write} {seen : Seen} {i : ℕ} {k : String} {w' : W} {c : Claim} {l : Label}

/-! ## Where a ticket is -/

/-- The places a ticket can be in. -/
inductive Spot (W : Type)
  | pending (root : String)
  | hand (w : W)
  | permit (root : String)
  | ran
deriving DecidableEq

/-- A ticket is in a place. -/
def Shared.Token (s : Shared W) (i : ℕ) : Spot W → Prop
  | .pending root => ∃ row, s.held.row? root = some row ∧ row.ticket = i ∧ row.status = .pending
  | .hand w => ∃ c, s.hands w = some c ∧ c.ticket = i
  | .permit root => ∃ row, s.held.row? root = some row ∧ row.ticket = i ∧
      row.permitOpen = true ∧ row.status = .approved
  | .ran => .ran i ∈ s.log

/-- The ticket of a run. -/
def Entry.ran? : Entry → Option ℕ
  | .ran i => some i
  | _ => none

/-- What has run, in order. -/
def runsOf (log : List Entry) : List ℕ := log.filterMap Entry.ran?

omit [DecidableEq W] in
theorem mem_runsOf {log : List Entry} : i ∈ runsOf log ↔ .ran i ∈ log := by
  unfold runsOf
  rw [mem_filterMap]
  constructor
  · rintro ⟨e, he, hi⟩
    cases e with
    | ran j =>
        obtain rfl : j = i := Option.some.inj hi
        exact he
    | approved j => cases hi
    | closed j => cases hi
  · exact fun h => ⟨_, h, rfl⟩

/-- The row of a permit that is being given is in the file. -/
def KeepsPermits (s : Shared W) : Prop :=
  ∀ w c, s.hands w = some c → c.permit = true →
    ∃ row, s.held.row? c.root = some row ∧ row.ticket = c.ticket

/-- What the shared state keeps. -/
structure Sane (s : Shared W) : Prop where
  single : ∀ i p q, s.Token i p → s.Token i q → p = q
  closed : ∀ i p, .closed i ∈ s.log → ¬ s.Token i p
  approved : ∀ i p, s.Token i p → (∃ root, p = .pending root) ∨ .approved i ∈ s.log
  runs : (runsOf s.log).Nodup
  rows : ∀ root row, s.held.row? root = some row → row.ticket < s.nextTicket
  below : ∀ i p, s.Token i p → i < s.nextTicket
  closedBelow : ∀ i, .closed i ∈ s.log → i < s.nextTicket
  hands : KeepsPermits s

/-- A step moves tickets: each one that is somewhere after it was where `back` says
before it, or is the ticket of a new row. -/
structure Carries (s t : Shared W) (back : ℕ → Spot W → Spot W) (new : Option String)
    (noted : List Entry) : Prop where
  ticket : s.nextTicket ≤ t.nextTicket
  log : t.log = s.log ++ noted
  ran : (runsOf noted).Nodup ∧ ∀ i, .ran i ∈ noted → ∃ p, p ≠ .ran ∧ s.Token i p
  closed : ∀ i, .closed i ∈ noted → i < t.nextTicket ∧ ∀ p, ¬ t.Token i p
  source : ∀ i p, t.Token i p → s.Token i (back i p) ∨
    (s.nextTicket ≤ i ∧ ∃ root, new = some root ∧ p = .pending root)
  apart : ∀ i p q, t.Token i p → t.Token i q → back i p = back i q → p = q
  approved : ∀ i p root, t.Token i p → back i p = .pending root →
    (∃ root', p = .pending root') ∨ .approved i ∈ noted
  rows : ∀ root row, t.held.row? root = some row → row.ticket < t.nextTicket
  hands : KeepsPermits t

omit [DecidableEq W] in
/-- **A step that moves tickets keeps the state sane.** -/
theorem Sane.carries {s t : Shared W} {back : ℕ → Spot W → Spot W} {new : Option String}
    (hs : Sane s) (h : Carries s t back new noted) : Sane t where
  single i p q hp hq := by
    rcases h.source i p hp with hp' | ⟨hi, root, hroot, rfl⟩ <;>
      rcases h.source i q hq with hq' | ⟨hj, root', hroot', rfl⟩
    · exact h.apart i p q hp hq (hs.single i _ _ hp' hq')
    · exact absurd (hs.below i _ hp') (by omega)
    · exact absurd (hs.below i _ hq') (by omega)
    · obtain rfl : root = root' := Option.some.inj (hroot.symm.trans hroot')
      rfl
  closed i p hclosed hp := by
    rw [h.log, mem_append] at hclosed
    rcases hclosed with hold | hnew
    · rcases h.source i p hp with hp' | ⟨hi, -⟩
      · exact hs.closed i _ hold hp'
      · exact absurd (hs.closedBelow i hold) (by omega)
    · exact (h.closed i hnew).2 p hp
  approved i p hp := by
    rw [h.log, mem_append]
    rcases h.source i p hp with hp' | ⟨-, root, -, rfl⟩
    · rcases hs.approved i _ hp' with ⟨root, hroot⟩ | hold
      · rcases h.approved i p root hp hroot with hpending | hnew
        · exact Or.inl hpending
        · exact Or.inr (Or.inr hnew)
      · exact Or.inr (Or.inl hold)
    · exact Or.inl ⟨root, rfl⟩
  runs := by
    rw [h.log, runsOf, filterMap_append, nodup_append]
    refine ⟨hs.runs, h.ran.1, ?_⟩
    rintro i hold j hnew rfl
    obtain ⟨p, hp, htoken⟩ := h.ran.2 i (mem_runsOf.1 hnew)
    have hran : s.Token i .ran := mem_runsOf.1 hold
    exact hp (hs.single i _ _ htoken hran)
  rows := h.rows
  below i p hp := by
    rcases h.source i p hp with hp' | ⟨-, root, -, rfl⟩
    · exact (hs.below i _ hp').trans_le h.ticket
    · obtain ⟨row, hrow, rfl, -⟩ := hp
      exact h.rows root row hrow
  closedBelow i hclosed := by
    rw [h.log, mem_append] at hclosed
    rcases hclosed with hold | hnew
    · exact (hs.closedBelow i hold).trans_le h.ticket
    · exact (h.closed i hnew).1
  hands := h.hands

omit [DecidableEq W] in
theorem row?_start (root : String) : (Shared.start : Shared W).held.row? root = none := rfl

omit [DecidableEq W] in
/-- Before anything is asked there is no ticket. -/
theorem token_start (i : ℕ) (p : Spot W) : ¬ (Shared.start : Shared W).Token i p := by
  rintro h
  cases p with
  | pending root =>
      obtain ⟨row, hrow, -⟩ := h
      rw [row?_start] at hrow
      cases hrow
  | hand w =>
      obtain ⟨c, hc, -⟩ := h
      cases hc
  | permit root =>
      obtain ⟨row, hrow, -⟩ := h
      rw [row?_start] at hrow
      cases hrow
  | ran => cases h

omit [DecidableEq W] in
theorem Sane.start : Sane (Shared.start : Shared W) where
  single i p _ h _ := absurd h (token_start i p)
  closed _ _ h _ := nomatch h
  approved i p h := absurd h (token_start i p)
  runs := nodup_nil
  rows root row h := by
    rw [row?_start] at h
    cases h
  below i p h := absurd h (token_start i p)
  closedBelow _ h := nomatch h
  hands _ _ h _ := nomatch h

/-! ## What the sections do to tickets -/

/-- What a section has seen of a state: its rows, or none where the file could not be
read, and the next ticket. -/
def Sees (s : Shared W) (seen : Seen) : Prop :=
  (∀ root row, seen.file.row? root = some row → s.held.row? root = some row) ∧
    seen.ticket = s.nextTicket

theorem row?_setRow (file : HoldsFile) (root k : String) (row : Hold) :
    (file.setRow root row).row? k = if k = root then some row else file.row? k := by
  unfold HoldsFile.setRow HoldsFile.row?
  exact Dict.get?_set _ _ _ _

/-- No row of a file that is written was not in it. -/
theorem row?_written {file : HoldsFile} (h : file.written.row? root = some row) :
    file.row? root = some row := by
  unfold HoldsFile.written HoldsFile.row? at h
  exact Dict.mem_entries_iff.1 (mem_of_mem_filter (Dict.mem_entries_iff.2 h))

theorem held_write (w : W) (x : Write) (s : Shared W) : (s.write w x).held = x.next.written := rfl

/-- A row after a write was seen, or is the one the section has written. -/
theorem row?_write_setRow {w : W} {s : Shared W} {file : HoldsFile} {row' : Hold}
    {hand : Option Claim}
    (h : (s.write w ⟨file.setRow root row, noted, hand⟩).held.row? k = some row') :
    (k = root ∧ row' = row) ∨ (k ≠ root ∧ file.row? k = some row') := by
  rw [held_write] at h
  have h := row?_written h
  rw [row?_setRow] at h
  split at h
  · next hk => exact Or.inl ⟨hk, (Option.some.inj h).symm⟩
  · next hk => exact Or.inr ⟨hk, h⟩

/-- The claims after a write. -/
theorem hand_write {w : W} {s : Shared W} (h : (s.write w x).hands w' = some c) :
    (w' = w ∧ x.hand = some c) ∨ (w' ≠ w ∧ s.hands w' = some c) := by
  change Function.update s.hands w x.hand w' = some c at h
  rw [update_apply] at h
  split at h
  · next hw => exact Or.inl ⟨hw, h⟩
  · next hw => exact Or.inr ⟨hw, h⟩

theorem mem_log_write {w : W} {s : Shared W} {e : Entry} :
    e ∈ (s.write w x).log ↔ e ∈ s.log ∨ e ∈ x.noted := mem_append

/-- The tickets of the rows, where the one that is written has a ticket that was given. -/
theorem ticket_write_setRow {w : W} {s : Shared W} {r : Hold} {hand : Option Claim} (hs : Sane s)
    (hseen : Sees s seen) (hticket : row.ticket < s.nextTicket + 1)
    (hr : (s.write w ⟨seen.file.setRow root row, noted, hand⟩).held.row? k = some r) :
    r.ticket < s.nextTicket + 1 := by
  rcases row?_write_setRow hr with ⟨-, rfl⟩ | ⟨-, hr⟩
  · exact hticket
  · exact (hs.rows k r (hseen.1 k r hr)).trans (lt_succ_self _)

omit [DecidableEq W] in
/-- Tickets stay apart when they move from a spot where none is left. -/
theorem moved_inj {t : Shared W} {a b p q : Spot W} {c : Spot W → Prop} [DecidablePred c]
    (hc : ∀ p, c p → p = a) (hleft : ¬ t.Token i b) (hp : t.Token i p) (hq : t.Token i q)
    (h : (if c p then b else p) = if c q then b else q) : p = q := by
  split at h <;> split at h
  · next hcp hcq => exact (hc p hcp).trans (hc q hcq).symm
  · exact absurd (h ▸ hq) hleft
  · exact absurd (h ▸ hp) hleft
  · exact h

/-- **One row is written over**, by a row that is neither pending nor has an open
permit, and nothing is claimed: the other tickets stay where they are. -/
theorem carries_setRow {w : W} {s : Shared W} (hs : Sane s) (hseen : Sees s seen)
    (hold : seen.file.row? root = some old) (hticket : row.ticket = old.ticket)
    (hpending : row.status ≠ .pending) (hpermit : row.permitOpen = true → row.status ≠ .approved)
    (hran : (runsOf noted).Nodup ∧ ∀ i, .ran i ∈ noted → i = old.ticket ∧ s.Token i (.permit root))
    (hclosed : ∀ i, .closed i ∈ noted → i = old.ticket ∧ s.Token i (.pending root) ∧
      ∀ j, .ran j ∉ noted)
    (hkeeps : KeepsPermits (s.write w ⟨seen.file.setRow root row, noted, none⟩)) :
    Carries s (s.write w ⟨seen.file.setRow root row, noted, none⟩)
      (fun i p => if p = .ran ∧ .ran i ∈ noted then .permit root else p) none noted := by
  have hpendingTo : ∀ i k, (s.write w ⟨seen.file.setRow root row, noted, none⟩).Token i (.pending k) →
      k ≠ root ∧ s.Token i (.pending k) := by
    rintro i k ⟨r, hr, hi, hstatus⟩
    rcases row?_write_setRow hr with ⟨rfl, rfl⟩ | ⟨hk, hr⟩
    · exact absurd hstatus hpending
    · exact ⟨hk, r, hseen.1 k r hr, hi, hstatus⟩
  have hpermitTo : ∀ i k, (s.write w ⟨seen.file.setRow root row, noted, none⟩).Token i (.permit k) →
      k ≠ root ∧ s.Token i (.permit k) := by
    rintro i k ⟨r, hr, hi, hopen, hstatus⟩
    rcases row?_write_setRow hr with ⟨rfl, rfl⟩ | ⟨hk, hr⟩
    · exact absurd hstatus (hpermit hopen)
    · exact ⟨hk, r, hseen.1 k r hr, hi, hopen, hstatus⟩
  have hsource : ∀ i p, (s.write w ⟨seen.file.setRow root row, noted, none⟩).Token i p →
      s.Token i (if p = .ran ∧ .ran i ∈ noted then .permit root else p) := by
    intro i p hp
    cases p with
    | pending k =>
        rw [if_neg (by simp)]
        exact (hpendingTo i k hp).2
    | hand w' =>
        obtain ⟨c, hc, hi⟩ := hp
        rw [if_neg (by simp)]
        rcases hand_write hc with ⟨-, hnone⟩ | ⟨-, hc⟩
        · cases hnone
        · exact ⟨c, hc, hi⟩
    | permit k =>
        rw [if_neg (by simp)]
        exact (hpermitTo i k hp).2
    | ran =>
        by_cases hnew : .ran i ∈ noted
        · rw [if_pos ⟨rfl, hnew⟩]
          exact (hran.2 i hnew).2
        · rw [if_neg (by simp [hnew])]
          rcases mem_log_write.1 (show Entry.ran i ∈ (s.write w
            ⟨seen.file.setRow root row, noted, none⟩).log from hp) with h | h
          · exact h
          · exact absurd h hnew
  refine ⟨le_succ _, rfl, ⟨hran.1, fun i hi => ⟨.permit root, by simp, (hran.2 i hi).2⟩⟩, ?_,
    fun i p hp => Or.inl (hsource i p hp), ?_, ?_, ?_, hkeeps⟩
  · intro i hi
    obtain ⟨-, htoken, hnone⟩ := hclosed i hi
    refine ⟨(hs.below i _ htoken).trans (lt_succ_self _), fun p hp => ?_⟩
    have hp' := hsource i p hp
    rw [if_neg (fun h => hnone i h.2)] at hp'
    obtain rfl := hs.single i _ _ hp' htoken
    exact (hpendingTo i root hp).1 rfl
  · intro i p q hp hq hpq
    exact moved_inj (c := fun p => p = .ran ∧ .ran i ∈ noted) (fun _ h => h.1)
      (fun h => (hpermitTo i root h).1 rfl) hp hq hpq
  · intro i p k hp hpk
    split at hpk
    · cases hpk
    · exact Or.inl ⟨k, hpk⟩
  · intro k r hr
    exact ticket_write_setRow hs hseen
      (hticket ▸ (hs.rows root old (hseen.1 root old hold)).trans (lt_succ_self _)) hr

/-- **A row is claimed**: its ticket goes from the row to the worker. -/
theorem carries_claim {w : W} {s : Shared W} (hs : Sane s) (hseen : Sees s seen)
    (hold : seen.file.row? root = some old) (hticket : row.ticket = old.ticket)
    (hpending : old.status = .pending) (hstatus : row.status = .releasing) {permit : Bool}
    (hkeeps : KeepsPermits (s.write w ⟨seen.file.setRow root row, [.approved row.ticket],
      some ⟨row.ticket, root, permit⟩⟩)) :
    Carries s (s.write w ⟨seen.file.setRow root row, [.approved row.ticket],
        some ⟨row.ticket, root, permit⟩⟩)
      (fun _ p => if p = .hand w then .pending root else p) none [.approved row.ticket] := by
  let t := s.write w ⟨seen.file.setRow root row, [.approved row.ticket],
    some ⟨row.ticket, root, permit⟩⟩
  have hnotPending : ∀ i, ¬ t.Token i (.pending root) := by
    rintro i ⟨r, hr, -, hpend⟩
    rcases row?_write_setRow hr with ⟨-, rfl⟩ | ⟨hk, -⟩
    · rw [hstatus] at hpend
      cases hpend
    · exact hk rfl
  have hother : ∀ k r, t.held.row? k = some r → r.status ≠ .releasing → s.held.row? k = some r := by
    intro k r hr hne
    rcases row?_write_setRow hr with ⟨-, rfl⟩ | ⟨-, hr⟩
    · exact absurd hstatus hne
    · exact hseen.1 k r hr
  have hsource : ∀ i p, t.Token i p → s.Token i (if p = .hand w then .pending root else p) := by
    intro i p hp
    cases p with
    | pending k =>
        obtain ⟨r, hr, hi, hpend⟩ := hp
        rw [if_neg (by simp)]
        exact ⟨r, hother k r hr (by simp [hpend]), hi, hpend⟩
    | hand w' =>
        obtain ⟨c, hc, hi⟩ := hp
        rcases hand_write hc with ⟨rfl, hclaim⟩ | ⟨hw, hc⟩
        · rw [if_pos rfl]
          obtain rfl := Option.some.inj hclaim
          exact ⟨old, hseen.1 root old hold, hticket.symm.trans hi, hpending⟩
        · rw [if_neg (by simpa using hw)]
          exact ⟨c, hc, hi⟩
    | permit k =>
        obtain ⟨r, hr, hi, hopen, happroved⟩ := hp
        rw [if_neg (by simp)]
        exact ⟨r, hother k r hr (by simp [happroved]), hi, hopen, happroved⟩
    | ran =>
        rw [if_neg (by simp)]
        rcases mem_log_write.1 (show Entry.ran i ∈ t.log from hp) with h | h
        · exact h
        · simp at h
  refine ⟨le_succ _, rfl, ⟨nodup_nil, fun i hi => by simp at hi⟩, fun i hi => by simp at hi,
    fun i p hp => Or.inl (hsource i p hp), ?_, ?_, ?_, hkeeps⟩
  · intro i p q hp hq hpq
    exact moved_inj (fun _ h => h) (hnotPending i) hp hq hpq
  · intro i p k hp hpk
    split at hpk
    · next h =>
      subst h
      obtain ⟨c, hc, hi⟩ := hp
      rcases hand_write hc with ⟨-, hclaim⟩ | ⟨hw, -⟩
      · obtain rfl := Option.some.inj hclaim
        exact Or.inr (by simp [← hi])
      · exact absurd rfl hw
    · exact Or.inl ⟨k, hpk⟩
  · intro k r hr
    exact ticket_write_setRow hs hseen
      (hticket ▸ (hs.rows root old (hseen.1 root old hold)).trans (lt_succ_self _)) hr

/-- **A permit is given**: the ticket goes from the worker to the row. -/
theorem carries_permit {w : W} {s : Shared W} {ticket : ℕ} (hs : Sane s) (hseen : Sees s seen)
    (hold : seen.file.row? root = some old) (hhand : s.hands w = some ⟨ticket, root, true⟩)
    (hticket : row.ticket = old.ticket) (hstatus : row.status = .approved)
    (hkeeps : KeepsPermits (s.write w ⟨seen.file.setRow root row, [], none⟩)) :
    Carries s (s.write w ⟨seen.file.setRow root row, [], none⟩)
      (fun _ p => if p = .permit root then .hand w else p) none [] := by
  let t := s.write w ⟨seen.file.setRow root row, [], none⟩
  have hrow : old.ticket = ticket := by
    obtain ⟨r, hr, hi⟩ := hs.hands w _ hhand rfl
    obtain rfl : old = r := Option.some.inj ((hseen.1 root old hold).symm.trans hr)
    exact hi
  have hnotHand : ∀ i, ¬ t.Token i (.hand w) := by
    rintro i ⟨c, hc, -⟩
    rcases hand_write hc with ⟨-, hc⟩ | ⟨hw, -⟩
    · cases hc
    · exact hw rfl
  have hsource : ∀ i p, t.Token i p → s.Token i (if p = .permit root then .hand w else p) := by
    intro i p hp
    cases p with
    | pending k =>
        obtain ⟨r, hr, hi, hpend⟩ := hp
        rw [if_neg (by simp)]
        rcases row?_write_setRow hr with ⟨-, rfl⟩ | ⟨-, hr⟩
        · rw [hstatus] at hpend
          cases hpend
        · exact ⟨r, hseen.1 k r hr, hi, hpend⟩
    | hand w' =>
        obtain ⟨c, hc, hi⟩ := hp
        rw [if_neg (by simp)]
        rcases hand_write hc with ⟨-, hnone⟩ | ⟨-, hc⟩
        · cases hnone
        · exact ⟨c, hc, hi⟩
    | permit k =>
        obtain ⟨r, hr, hi, hopen, happroved⟩ := hp
        rcases row?_write_setRow hr with ⟨rfl, rfl⟩ | ⟨hk, hr⟩
        · rw [if_pos rfl]
          exact ⟨_, hhand, by rw [← hi, hticket, hrow]⟩
        · rw [if_neg (by simpa using hk)]
          exact ⟨r, hseen.1 k r hr, hi, hopen, happroved⟩
    | ran =>
        rw [if_neg (by simp)]
        rcases mem_log_write.1 (show Entry.ran i ∈ t.log from hp) with h | h
        · exact h
        · cases h
  refine ⟨le_succ _, rfl, ⟨nodup_nil, fun i hi => nomatch hi⟩, (fun i hi => nomatch hi),
    fun i p hp => Or.inl (hsource i p hp), ?_, ?_, ?_, hkeeps⟩
  · intro i p q hp hq hpq
    exact moved_inj (fun _ h => h) (hnotHand i) hp hq hpq
  · intro i p k hp hpk
    split at hpk
    · cases hpk
    · exact Or.inl ⟨k, hpk⟩
  · intro k r hr
    exact ticket_write_setRow hs hseen
      (hticket ▸ (hs.rows root old (hseen.1 root old hold)).trans (lt_succ_self _)) hr

/-- **A call is asked for**: a new ticket. -/
theorem carries_new {w : W} {s : Shared W} (hs : Sane s) (hseen : Sees s seen)
    (hticket : row.ticket = seen.ticket) (hpending : row.status = .pending)
    (hpermit : row.permitOpen = false)
    (hkeeps : KeepsPermits (s.write w ⟨seen.file.setRow root row, [], none⟩)) :
    Carries s (s.write w ⟨seen.file.setRow root row, [], none⟩) (fun _ p => p) (some root) [] := by
  refine ⟨le_succ _, rfl, ⟨nodup_nil, fun i hi => nomatch hi⟩, (fun i hi => nomatch hi), ?_,
    fun i p q _ _ hpq => hpq, fun i p k _ hpk => Or.inl ⟨k, hpk⟩, ?_, hkeeps⟩
  · intro i p hp
    cases p with
    | pending k =>
        obtain ⟨r, hr, hi, hpend⟩ := hp
        rcases row?_write_setRow hr with ⟨rfl, rfl⟩ | ⟨-, hr⟩
        · refine Or.inr ⟨?_, k, rfl, rfl⟩
          rw [← hi, hticket, hseen.2]
        · exact Or.inl ⟨r, hseen.1 k r hr, hi, hpend⟩
    | hand w' =>
        obtain ⟨c, hc, hi⟩ := hp
        rcases hand_write hc with ⟨-, hnone⟩ | ⟨-, hc⟩
        · cases hnone
        · exact Or.inl ⟨c, hc, hi⟩
    | permit k =>
        obtain ⟨r, hr, hi, hopen, happroved⟩ := hp
        rcases row?_write_setRow hr with ⟨-, rfl⟩ | ⟨-, hr⟩
        · rw [hpermit] at hopen
          cases hopen
        · exact Or.inl ⟨r, hseen.1 k r hr, hi, hopen, happroved⟩
    | ran =>
        rcases mem_log_write.1 (show Entry.ran i ∈ (s.write w ⟨seen.file.setRow root row, [],
          none⟩).log from hp) with h | h
        · exact Or.inl h
        · cases h
  · intro k r hr
    exact ticket_write_setRow hs hseen ((hticket.trans hseen.2).trans_lt (lt_succ_self _)) hr

/-- **Rows expire**: their tickets are gone. -/
theorem carries_settle {host : Host} {w : W} {s : Shared W} (hs : Sane s) (hseen : Sees s seen)
    {next : HoldsFile} (hnext : (settle host seen.now seen.file).next = some next)
    (hnoted : noted = (settle host seen.now seen.file).answer.map (fun row => .closed row.ticket))
    (hkeeps : KeepsPermits (s.write w ⟨next, noted, none⟩)) :
    Carries s (s.write w ⟨next, noted, none⟩) (fun _ p => p) none noted := by
  let t := s.write w ⟨next, noted, none⟩
  -- a row that is written was seen, and is the same but for the rows that have lapsed
  have hrow : ∀ k r, t.held.row? k = some r → ∃ r₀, seen.file.row? k = some r₀ ∧
      r.ticket = r₀.ticket ∧ ((r₀.lapsed seen.now = false ∧ r = r₀) ∨ r.status = .expired) := by
    intro k r hr
    have hr := row?_written ((held_write w _ s) ▸ hr)
    unfold settle at hnext
    dsimp only at hnext
    split at hnext
    · cases hnext
    · cases hnext
      unfold HoldsFile.row? at hr
      rw [Dict.get?_map] at hr
      obtain ⟨r₀, hr₀, rfl⟩ := Option.map_eq_some_iff.1 hr
      refine ⟨r₀, hr₀, ?_⟩
      cases hlapsed : r₀.lapsed seen.now with
      | true => exact ⟨rfl, Or.inr rfl⟩
      | false => exact ⟨rfl, Or.inl ⟨rfl, rfl⟩⟩
  have hclosed : ∀ i, Entry.closed i ∈ noted → ∃ k r₀, seen.file.row? k = some r₀ ∧
      r₀.ticket = i ∧ r₀.lapsed seen.now = true := by
    intro i hi
    rw [hnoted] at hi
    obtain ⟨r₀, hmem, hi⟩ := List.mem_map.1 hi
    obtain ⟨hvalue, hlapsed⟩ := List.mem_filter.1 hmem
    obtain ⟨k, hk⟩ := Dict.mem_values.1 hvalue
    exact ⟨k, r₀, hk, Entry.closed.inj hi, hlapsed⟩
  have hnotRan : ∀ i, Entry.ran i ∉ noted := by
    intro i hi
    rw [hnoted] at hi
    obtain ⟨r₀, -, hi⟩ := List.mem_map.1 hi
    cases hi
  have hsource : ∀ i p, t.Token i p → s.Token i p := by
    intro i p hp
    cases p with
    | pending k =>
        obtain ⟨r, hr, hi, hpend⟩ := hp
        obtain ⟨r₀, hr₀, -, ⟨-, rfl⟩ | hexpired⟩ := hrow k r hr
        · exact ⟨r, hseen.1 k r hr₀, hi, hpend⟩
        · rw [hexpired] at hpend
          cases hpend
    | hand w' =>
        obtain ⟨c, hc, hi⟩ := hp
        rcases hand_write hc with ⟨-, hnone⟩ | ⟨-, hc⟩
        · cases hnone
        · exact ⟨c, hc, hi⟩
    | permit k =>
        obtain ⟨r, hr, hi, hopen, happroved⟩ := hp
        obtain ⟨r₀, hr₀, -, ⟨-, rfl⟩ | hexpired⟩ := hrow k r hr
        · exact ⟨r, hseen.1 k r hr₀, hi, hopen, happroved⟩
        · rw [hexpired] at happroved
          cases happroved
    | ran =>
        rcases mem_log_write.1 (show Entry.ran i ∈ t.log from hp) with h | h
        · exact h
        · exact absurd h (hnotRan i)
  have hruns : runsOf noted = [] := by
    refine List.eq_nil_iff_forall_not_mem.2 fun i hi => ?_
    exact hnotRan i (mem_runsOf.1 hi)
  refine ⟨le_succ _, rfl, ⟨by rw [hruns]; exact nodup_nil, fun i hi =>
    absurd hi (hnotRan i)⟩, ?_, fun i p hp => Or.inl (hsource i p hp), fun i p q _ _ hpq => hpq,
    fun i p k _ hpk => Or.inl ⟨k, hpk⟩, ?_, hkeeps⟩
  · intro i hi
    obtain ⟨k, r₀, hr₀, hticket, hlapsed⟩ := hclosed i hi
    have hpending : r₀.status = .pending := by
      unfold Hold.lapsed at hlapsed
      simp only [Bool.and_eq_true, decide_eq_true_eq] at hlapsed
      exact hlapsed.1
    have htoken : s.Token i (.pending k) := ⟨r₀, hseen.1 k r₀ hr₀, hticket, hpending⟩
    refine ⟨(hs.below i _ htoken).trans (lt_succ_self _), fun p hp => ?_⟩
    obtain rfl := hs.single i _ _ (hsource i p hp) htoken
    obtain ⟨r, hr, -, hpend⟩ := hp
    obtain ⟨r₁, hr₁, -, ⟨hnot, -⟩ | hexpired⟩ := hrow k r hr
    · obtain rfl : r₀ = r₁ := Option.some.inj (hr₀.symm.trans hr₁)
      rw [hlapsed] at hnot
      cases hnot
    · rw [hexpired] at hpend
      cases hpend
  · intro k r hr
    obtain ⟨r₀, hr₀, hticket, -⟩ := hrow k r hr
    rw [hticket]
    exact (hs.rows k r₀ (hseen.1 k r₀ hr₀)).trans (lt_succ_self _)

/-- **A held call is run**: the ticket the worker has claimed is spent. -/
theorem carries_run {w : W} {s : Shared W} (hs : Sane s) (hhand : s.hands w = some c) :
    Carries s (s.run w c.ticket)
      (fun i p => if p = .ran ∧ i = c.ticket then .hand w else p) none [.ran c.ticket] := by
  let t := s.run w c.ticket
  have hhands : ∀ w' d, t.hands w' = some d → w' ≠ w ∧ s.hands w' = some d := by
    intro w' d hd
    change Function.update s.hands w none w' = some d at hd
    rw [update_apply] at hd
    split at hd
    · cases hd
    · next hw => exact ⟨hw, hd⟩
  have htoken : s.Token c.ticket (.hand w) := ⟨c, hhand, rfl⟩
  refine ⟨le_rfl, rfl, ⟨nodup_singleton _, ?_⟩, ?_, ?_, ?_, ?_, hs.rows, ?_⟩
  · intro i hi
    obtain rfl : i = c.ticket := by simpa using hi
    exact ⟨.hand w, by simp, htoken⟩
  · intro i hi
    simp at hi
  · intro i p hp
    refine Or.inl ?_
    cases p with
    | pending k =>
        rw [if_neg (by simp)]
        exact hp
    | hand w' =>
        obtain ⟨d, hd, hi⟩ := hp
        rw [if_neg (by simp)]
        exact ⟨d, (hhands w' d hd).2, hi⟩
    | permit k =>
        rw [if_neg (by simp)]
        exact hp
    | ran =>
        by_cases hi : i = c.ticket
        · rw [if_pos ⟨rfl, hi⟩, hi]
          exact htoken
        · rw [if_neg (by simp [hi])]
          rcases List.mem_append.1 (show Entry.ran i ∈ t.log from hp) with h | h
          · exact h
          · simp [hi] at h
  · intro i p q hp hq hpq
    have hnotHand : ∀ i, ¬ t.Token i (.hand w) := fun i ⟨d, hd, _⟩ => (hhands w d hd).1 rfl
    exact moved_inj (c := fun p => p = .ran ∧ i = c.ticket) (fun _ h => h.1) (hnotHand i) hp hq hpq
  · intro i p k hp hpk
    split at hpk
    · cases hpk
    · exact Or.inl ⟨k, hpk⟩
  · intro w' d hd hpermit
    exact hs.hands w' d (hhands w' d hd).2 hpermit

/-! ## What a worker relies on, and guarantees -/

/-- The lock file is one that this worker has made. -/
def Shared.Holds (s : Shared W) (w : W) : Prop := ∃ lock, s.lock = some lock ∧ lock.owner = w

/-- What the others leave a worker: a lock file it has lost it does not get back, the
file is as it was while the lock file is there, and its claim stays its own. -/
structure Others (w : W) (s t : Shared W) : Prop where
  lock : t.Holds w → s.Holds w
  file : t.Holds w → t.file = s.file ∧ t.nextTicket = s.nextTicket
  hand : t.hands w = s.hands w

omit [DecidableEq W] in
theorem others_preorder (w : W) : IsPreorder (Shared W) (Others w) where
  refl _ := ⟨id, fun _ => ⟨rfl, rfl⟩, rfl⟩
  trans _ _ _ h h' := ⟨fun ht => h.lock (h'.lock ht), fun ht =>
    ⟨(h'.file ht).1.trans (h.file (h'.lock ht)).1, (h'.file ht).2.trans (h.file (h'.lock ht)).2⟩,
    h'.hand.trans h.hand⟩

/-- The condition on the steps of a worker: a section writes under the lock file it
made, and drops no row of a permit that is being given. -/
def Orderly (w : W) (l : Label) (s : Shared W) : Prop :=
  match l with
  | .write x => s.Holds w ∧ KeepsPermits (s.write w x)
  | _ => True

/-- What the steps of a worker do. -/
def Guarantees (w : W) (l : Label) (s t : Shared W) : Prop :=
  match l with
  | .create => t = s ∨ (s.lock = none ∧ t = { s with lock := some ⟨w, s.now⟩ })
  | .look => t = s
  | .read => t = s
  | .break => t = { s with lock := none }
  | .unlock => t = { s with lock := none }
  | .write x => t = s ∨ (t = s.write w x ∧ s.Holds w ∧ Sane t)
  | .run ticket => t = s.run w ticket ∧ Sane t

omit [DecidableEq W] in
theorem not_holds_none {w : W} {s : Shared W} (h : s.lock = none) : ¬ s.Holds w := by
  rintro ⟨lock, hlock, -⟩
  rw [h] at hlock
  cases hlock

omit [DecidableEq W] in
theorem others_refl (w : W) (s : Shared W) : Others w s s := by
  have := others_preorder w
  exact refl_of (Others w) s

/-- **What one worker guarantees, the others rely on.** -/
theorem others_of_guarantees {w : W} {s t : Shared W} (hw : w' ≠ w) (h : Guarantees w l s t) :
    Others w' s t := by
  have hfree : ∀ t' : Shared W, t'.lock = none → t'.hands = s.hands → Others w' s t' := by
    intro t' hlock hhands
    exact ⟨fun ht => absurd ht (not_holds_none hlock), fun ht => absurd ht (not_holds_none hlock),
      by rw [hhands]⟩
  have hown : ∀ x, s.Holds w → Others w' s (s.write w x) := by
    rintro x ⟨lock, hlock, rfl⟩
    have hnot : ¬ s.Holds w' := by
      rintro ⟨lock', hlock', howner⟩
      rw [hlock] at hlock'
      cases hlock'
      exact hw howner.symm
    refine ⟨id, fun ht => absurd ht hnot, ?_⟩
    exact update_of_ne hw _ _
  cases l with
  | create =>
      rcases h with rfl | ⟨-, rfl⟩
      · exact others_refl w' t
      · have hnot : ¬ ({ s with lock := some ⟨w, s.now⟩ } : Shared W).Holds w' := by
          rintro ⟨lock, hlock, howner⟩
          cases hlock
          exact hw howner.symm
        exact ⟨fun ht => absurd ht hnot, fun ht => absurd ht hnot, rfl⟩
  | look =>
      cases h
      exact others_refl w' s
  | read =>
      cases h
      exact others_refl w' s
  | «break» =>
      cases h
      exact hfree _ rfl rfl
  | unlock =>
      cases h
      exact hfree _ rfl rfl
  | write x =>
      rcases h with rfl | ⟨rfl, hholds, -⟩
      · exact others_refl w' t
      · exact hown x hholds
  | run ticket =>
      obtain ⟨rfl, -⟩ := h
      exact ⟨id, fun _ => ⟨rfl, rfl⟩, update_of_ne hw _ _⟩

omit [DecidableEq W] in
/-- The lock file, the time and the file's state are no part of what is kept. -/
theorem Sane.frame {s t : Shared W} (hs : Sane s) (hfile : t.file = s.file)
    (hticket : t.nextTicket = s.nextTicket) (hhands : t.hands = s.hands) (hlog : t.log = s.log) :
    Sane t := by
  have hheld : t.held = s.held := by
    unfold Shared.held
    rw [hfile]
  have htoken : ∀ i p, t.Token i p ↔ s.Token i p := by
    intro i p
    cases p <;> simp only [Shared.Token, hheld, hhands, hlog]
  have hcarries : Carries s t (fun _ p => p) none [] := by
    refine ⟨hticket.ge, by rw [hlog, append_nil], ⟨nodup_nil, fun i hi => nomatch hi⟩,
      (fun i hi => nomatch hi), fun i p hp => Or.inl ((htoken i p).1 hp), fun i p q _ _ h => h,
      fun i p k _ h => Or.inl ⟨k, h⟩, ?_, ?_⟩
    · rw [hheld, hticket]
      exact hs.rows
    · unfold KeepsPermits
      rw [hheld, hhands]
      exact hs.hands
  exact hs.carries hcarries

/-- Steps that are as guaranteed keep the state sane. -/
theorem sane_of_guarantees {w : W} {s t : Shared W} (hs : Sane s) (h : Guarantees w l s t) :
    Sane t := by
  cases l with
  | create =>
      rcases h with rfl | ⟨-, rfl⟩
      · exact hs
      · exact hs.frame rfl rfl rfl rfl
  | look =>
      cases h
      exact hs
  | read =>
      cases h
      exact hs
  | «break» =>
      cases h
      exact hs.frame rfl rfl rfl rfl
  | unlock =>
      cases h
      exact hs.frame rfl rfl rfl rfl
  | write x =>
      rcases h with rfl | ⟨-, -, ht⟩
      · exact hs
      · exact ht
  | run ticket => exact h.2

/-! ## The calls keep their guarantee -/

/-- A call keeps its guarantee, and `post` holds of what it returns and of the claim
it leaves. -/
def Kept {α : Type} (w : W) (post : α → Option Claim → Prop) (s : Shared W) (p : Calling W α) :
    Prop :=
  p.Relies (Others w) (fun l t => Sane t ∧ Orderly w l t) (Guarantees w)
    (fun a t => post a (t.hands w)) s

variable {w : W} {h : Option Claim} {s : Shared W} {α : Type}
  {change : Seen → Except String (Change α)}

theorem tryLock_kept (hs : s.hands w = h) : Kept w (fun _ h' => h' = h) s (tryLock w) := by
  intro t hst _ r hr
  obtain rfl := Except.ok.inj hr
  have ht : t.hands w = h := hst.hand.trans hs
  by_cases hlock : t.lock = none
  · have hnone : t.lock.isNone = true := by rw [hlock]; rfl
    rw [if_pos hnone]
    exact ⟨Or.inr ⟨hlock, rfl⟩, ht⟩
  · have hsome : t.lock.isNone = false := by
      cases hl : t.lock with
      | none => exact absurd hl hlock
      | some lock => rfl
    rw [hsome]
    exact ⟨Or.inl rfl, ht⟩

theorem breakLock_kept (hs : s.hands w = h) :
    Kept w (fun _ h' => h' = h) s (removeLock (Label.break)) := by
  intro t hst _ r hr
  obtain rfl := Except.ok.inj hr
  exact ⟨rfl, hst.hand.trans hs⟩

/-- The lock file is removed at the end of a section. -/
theorem unlock_kept (hs : s.hands w = h) :
    Kept w (fun _ h' => h' = h) s (removeLock Label.unlock) := by
  intro t hst _ r hr
  obtain rfl := Except.ok.inj hr
  exact ⟨rfl, hst.hand.trans hs⟩

theorem acquire_kept (n : ℕ) (hs : s.hands w = h) :
    Kept w (fun _ h' => h' = h) s (acquire w n) := by
  induction n generalizing s with
  | zero => exact hs
  | succ n ih =>
      unfold acquire
      refine Prog.Relies.bind (tryLock_kept hs) fun made t ht => ?_
      cases made with
      | true => exact ht
      | false =>
          let Same : Bool → Shared W → Prop := fun _ t' => t'.hands w = h
          have hlook : (Prog.observe .look
              (fun s => s.lock.any (fun lock => 5 < s.now - lock.made)) : Calling W Bool).Relies
              (Others w) (fun l t => Sane t ∧ Orderly w l t) (Guarantees w) Same t :=
            Prog.Relies.observe (fun _ _ => rfl) fun t' ht' _ => ht'.hand.trans ht
          refine Prog.Relies.bind hlook fun stale t' ht' => ?_
          cases stale with
          | true => exact Prog.Relies.bind (breakLock_kept ht') fun _ t'' ht'' => ih ht''
          | false => exact ih ht'

/-- **A section keeps its guarantee** where its write keeps the state sane, from any
state it may be made in. -/
theorem withAskFile_kept {post : Option α → Option Claim → Prop} (hs : s.hands w = h)
    (hnone : post none h) (hread : ∀ seen a, change seen = .ok ⟨a, none⟩ → post (some a) h)
    (hwrite : ∀ seen a x t, change seen = .ok ⟨a, some x⟩ → Sees t seen → t.hands w = h → Sane t →
      KeepsPermits (t.write w x) → Sane (t.write w x) ∧ post (some a) x.hand) :
    Kept w post s (withAskFile w change) := by
  unfold withAskFile
  refine Prog.Relies.bind (acquire_kept 40 hs) fun held t ht => ?_
  cases held with
  | false =>
      show post none (t.hands w)
      rw [ht]
      exact hnone
  | true =>
      let Reads : Seen → Shared W → Prop := fun seen t' => t'.hands w = h ∧
        ∀ u, Others w t' u → u.Holds w → Sees u seen
      have hreads : (Prog.observe .read (fun s => (⟨s.seen, s.now, s.nextTicket⟩ : Seen)) :
          Calling W Seen).Relies (Others w) (fun l t => Sane t ∧ Orderly w l t) (Guarantees w)
          Reads t := by
        refine Prog.Relies.observe (fun _ _ => rfl) fun t' ht' _ => ⟨ht'.hand.trans ht, ?_⟩
        intro u hu hholds
        obtain ⟨hfile, hticket⟩ := hu.file hholds
        refine ⟨fun root row hrow => ?_, hticket.symm⟩
        have hheld : u.held = t'.held := by
          unfold Shared.held
          rw [hfile]
        rw [hheld]
        dsimp only at hrow
        unfold Shared.seen at hrow
        split at hrow
        · exact hrow
        · cases hrow
      refine Prog.Relies.bind hreads fun seen t' ⟨ht', hsees⟩ => ?_
      cases hchange : change seen with
      | error text => exact Prog.Relies.bind (unlock_kept ht') fun _ _ _ => trivial
      | ok x =>
          obtain ⟨a, x | x⟩ := x
          · refine Prog.Relies.bind (unlock_kept ht') fun _ u hu => ?_
            show post (some a) (u.hands w)
            rw [hu]
            exact hread seen a hchange
          · refine Prog.Relies.bind (Q := fun saved u =>
              if saved = true then post (some a) (u.hands w) else post none (u.hands w)) ?_ ?_
            · intro u hu ⟨hsane, hholds, hkeeps⟩ r hr
              obtain rfl := Except.ok.inj hr
              have huh : u.hands w = h := hu.hand.trans ht'
              show Guarantees w (.write x) u (if u.writable = true then u.write w x else u) ∧
                if u.writable = true
                  then post (some a) ((if u.writable = true then u.write w x else u).hands w)
                else post none ((if u.writable = true then u.write w x else u).hands w)
              cases u.writable with
              | false =>
                  refine ⟨Or.inl rfl, ?_⟩
                  show post none (u.hands w)
                  rw [huh]
                  exact hnone
              | true =>
                  obtain ⟨hsane', hpost⟩ := hwrite seen a x u hchange (hsees u hu hholds) huh hsane
                    hkeeps
                  refine ⟨Or.inr ⟨rfl, hholds, hsane'⟩, ?_⟩
                  show post (some a) (Function.update u.hands w x.hand w)
                  rw [update_self]
                  exact hpost
            · intro saved u hu
              refine Prog.Relies.bind (unlock_kept rfl) fun _ v hv => ?_
              cases saved with
              | true =>
                  show post (some a) (v.hands w)
                  rw [hv]
                  simpa using hu
              | false =>
                  show post none (v.hands w)
                  rw [hv]
                  simpa using hu

/-- A section whose writes keep the state sane, whatever it returns. -/
theorem withAskFile_sane
    (hwrite : ∀ seen a x t, change seen = .ok ⟨a, some x⟩ → Sees t seen → Sane t →
      KeepsPermits (t.write w x) → Sane (t.write w x)) :
    Kept w (fun _ _ => True) s (withAskFile w change) := by
  refine withAskFile_kept rfl trivial (fun _ _ _ => trivial) ?_
  intro seen a x t hchange hsees _ hsane hkeeps
  exact ⟨hwrite seen a x t hchange hsees hsane hkeeps, trivial⟩

/-! ## The sections keep the state sane -/

omit [DecidableEq W] in
theorem Section.change_eq {β : Type} {x : Section α} {answer a : β} {hand : Option Claim}
    {write : Write} (h : x.change answer noted hand = ⟨a, some write⟩) :
    a = answer ∧ ∃ next, x.next = some next ∧ write = ⟨next, noted, hand⟩ := by
  unfold Section.change at h
  obtain ⟨ha, hwrite⟩ := Change.mk.inj h
  obtain ⟨next, hnext, hw⟩ := Option.map_eq_some_iff.1 hwrite
  exact ⟨ha.symm, next, hnext, hw.symm⟩

variable {host : Host} {digest who : String} {decision : Decision}

theorem remember_sane {event : Event} {action : Action} {summary a : String}
    (hchange : rememberChange host event action digest summary seen = ⟨a, some x⟩)
    (hsees : Sees s seen) (hs : Sane s) (hkeeps : KeepsPermits (s.write w x)) :
    Sane (s.write w x) := by
  obtain ⟨-, next, hnext, rfl⟩ := Section.change_eq hchange
  unfold remember at hnext
  split at hnext
  · cases hnext
  · split at hnext
    · cases hnext
    · obtain rfl := Option.some.inj hnext
      exact hs.carries (carries_new hs hsees rfl rfl rfl hkeeps)

theorem takePermit_sane {a : Bool} (hchange : takePermitChange digest seen = ⟨a, some x⟩)
    (hsees : Sees s seen) (hs : Sane s) (hkeeps : KeepsPermits (s.write w x)) :
    Sane (s.write w x) := by
  obtain ⟨-, next, hnext, rfl⟩ := Section.change_eq hchange
  unfold takePermit at hnext hkeeps ⊢
  cases hpermit : openPermit digest seen.file with
  | none => simp [hpermit] at hnext
  | some found =>
      obtain ⟨root, row⟩ := found
      simp only [hpermit, Option.some.injEq] at hnext hkeeps ⊢
      subst hnext
      have hrow : seen.file.row? root = some row :=
        Dict.mem_entries_iff.1 (List.mem_of_find?_eq_some hpermit)
      have hopen := List.find?_some hpermit
      simp only [Bool.and_eq_true, decide_eq_true_eq] at hopen
      have htoken : s.Token row.ticket (.permit root) :=
        ⟨row, hsees.1 root row hrow, rfl, hopen.1.1, hopen.2⟩
      refine hs.carries (carries_setRow hs hsees hrow rfl ?_ ?_ ?_ ?_ hkeeps)
      · simp [hopen.2]
      · simp
      · refine ⟨nodup_singleton _, fun i hi => ?_⟩
        obtain rfl : i = row.ticket := by simpa using hi
        exact ⟨rfl, htoken⟩
      · intro i hi
        simp at hi

/-- A pending row is closed. -/
theorem close_sane (hold : seen.file.row? root = some old) (hpending : old.status = .pending)
    (hticket : row.ticket = old.ticket) (hstatus : row.status ≠ .pending)
    (happroved : row.status ≠ .approved) (hsees : Sees s seen) (hs : Sane s)
    (hkeeps : KeepsPermits (s.write w ⟨seen.file.setRow root row, [.closed row.ticket], none⟩)) :
    Sane (s.write w ⟨seen.file.setRow root row, [.closed row.ticket], none⟩) := by
  have htoken : s.Token old.ticket (.pending root) :=
    ⟨old, hsees.1 root old hold, rfl, hpending⟩
  refine hs.carries (carries_setRow hs hsees hold hticket hstatus (fun _ => happroved)
    ⟨nodup_nil, fun i hi => by simp at hi⟩ ?_ hkeeps)
  intro i hi
  obtain rfl : i = row.ticket := by simpa using hi
  rw [hticket]
  exact ⟨rfl, htoken, fun j hj => by simp at hj⟩

theorem closeChange_sane {closing : Closing} {a : Hold}
    (hchange : closeChange host root who closing seen = .ok ⟨a, some x⟩) (hsees : Sees s seen)
    (hs : Sane s) (hkeeps : KeepsPermits (s.write w x)) : Sane (s.write w x) := by
  unfold closeChange closeApproval at hchange
  cases hrow : seen.file.row? root with
  | none => simp [hrow, Except.map] at hchange
  | some row =>
      simp only [hrow] at hchange
      by_cases hpending : row.status = .pending
      · rw [if_neg (by simp [hpending])] at hchange
        obtain ⟨-, next, hnext, rfl⟩ := Section.change_eq (Except.ok.inj hchange)
        obtain rfl := Option.some.inj hnext
        refine close_sane hrow hpending rfl ?_ ?_ hsees hs hkeeps <;> cases closing <;>
          simp [Closing.status]
      · rw [if_pos hpending] at hchange
        cases hchange

/-- What a claim leaves the worker with. -/
def ClaimLeaves (root : String) (a : Option Claimed) (h : Option Claim) : Prop :=
  ∀ row, a = some (.release row) → h = some ⟨row.ticket, root, row.replay.isPermit⟩

/-- **What a claim can come to**: the card as it stands, a denial, or a release. -/
theorem claimChange_cases {c : Change Claimed}
    (hchange : claimChange host root digest decision who seen = .ok c) :
    (∃ row, c = ⟨.card row, none⟩) ∨
    (∃ old row, seen.file.row? root = some old ∧ old.status = .pending ∧
      row.ticket = old.ticket ∧ row.status = .declined ∧
      c = ⟨.denied row, some ⟨seen.file.setRow root row, [.closed row.ticket], none⟩⟩) ∨
    ∃ old row, seen.file.row? root = some old ∧ old.status = .pending ∧
      row.ticket = old.ticket ∧ row.status = .releasing ∧
      c = ⟨.release row, some ⟨seen.file.setRow root row, [.approved row.ticket],
        some ⟨row.ticket, root, row.replay.isPermit⟩⟩⟩ := by
  unfold claimChange claim at hchange
  cases hrow : seen.file.row? root with
  | none => simp [hrow, Except.map] at hchange
  | some row =>
      simp only [hrow] at hchange
      split at hchange
      · cases hchange
      · split at hchange
        · exact Or.inl ⟨row, (Except.ok.inj hchange).symm⟩
        · split at hchange
          · cases hchange
          · next hpending =>
            have hpending : row.status = .pending := by simpa using hpending
            cases decision with
            | deny =>
                let denied : Hold := { row.stamped host who seen.now .denied with status := .declined }
                refine Or.inr (Or.inl ⟨row, denied, rfl, hpending, rfl, rfl, ?_⟩)
                exact (Except.ok.inj hchange).symm
            | approve =>
                let claimed : Hold :=
                  { row.stamped host who seen.now .approved with status := .releasing }
                refine Or.inr (Or.inr ⟨row, claimed, rfl, hpending, rfl, rfl, ?_⟩)
                exact (Except.ok.inj hchange).symm

theorem claim_kept :
    Kept w (ClaimLeaves root) s (withAskFile w (claimChange host root digest decision who)) := by
  refine withAskFile_kept rfl (fun row hrow => by cases hrow) ?_ ?_
  · intro seen a hchange row hrow
    rcases claimChange_cases hchange with ⟨r, hc⟩ | ⟨old, r, -, -, -, -, hc⟩ |
      ⟨old, r, -, -, -, -, hc⟩
    · obtain ⟨rfl, -⟩ := Change.mk.inj hc
      cases hrow
    · cases (Change.mk.inj hc).2
    · cases (Change.mk.inj hc).2
  · intro seen a x t hchange hsees _ hsane hkeeps
    rcases claimChange_cases hchange with ⟨r, hc⟩ | ⟨old, r, hold, hpending, hticket, hstatus, hc⟩ |
      ⟨old, r, hold, hpending, hticket, hstatus, hc⟩
    · cases (Change.mk.inj hc).2
    · obtain ⟨rfl, hx⟩ := Change.mk.inj hc
      obtain rfl := Option.some.inj hx
      refine ⟨close_sane hold hpending hticket ?_ ?_ hsees hsane hkeeps, fun row hrow => ?_⟩
      · simp [hstatus]
      · simp [hstatus]
      · cases hrow
    · obtain ⟨rfl, hx⟩ := Change.mk.inj hc
      obtain rfl := Option.some.inj hx
      refine ⟨hsane.carries (carries_claim hsane hsees hold hticket hpending hstatus hkeeps), ?_⟩
      intro row hrow
      cases hrow
      rfl

/-- A release that leaves no permit is closed, or a permit is given for the ticket the
worker has claimed. -/
theorem finish_kept {released : Released}
    (h : released = .permit → ∃ ticket, s.hands w = some ⟨ticket, root, true⟩) :
    Kept w (fun _ _ => True) s (withAskFile w (finishChange root released)) := by
  refine withAskFile_kept rfl trivial (fun _ _ _ => trivial) ?_
  intro seen a x t hchange hsees hhands hsane hkeeps
  refine ⟨?_, trivial⟩
  unfold finishChange finish at hchange
  cases hrow : seen.file.row? root with
  | none => simp [hrow, Except.map] at hchange
  | some row =>
      simp only [hrow] at hchange
      obtain ⟨-, next, hnext, rfl⟩ := Section.change_eq (Except.ok.inj hchange)
      obtain rfl := Option.some.inj hnext
      have hnoRun : (runsOf []).Nodup ∧ ∀ i, Entry.ran i ∈ [] → i = row.ticket ∧
          t.Token i (.permit root) := ⟨nodup_nil, fun i hi => nomatch hi⟩
      have hnoClosed : ∀ i, Entry.closed i ∈ ([] : List Entry) → i = row.ticket ∧
          t.Token i (.pending root) ∧ ∀ j, Entry.ran j ∉ [] := fun i hi => nomatch hi
      cases released with
      | permit =>
          obtain ⟨ticket, hticket⟩ := h rfl
          exact hsane.carries
            (carries_permit hsane hsees hrow (hhands.trans hticket) rfl rfl hkeeps)
      | done result =>
          cases result with
          | none =>
              exact hsane.carries
                (carries_setRow hsane hsees hrow rfl (by simp) (by simp) hnoRun hnoClosed hkeeps)
          | some text =>
              exact hsane.carries
                (carries_setRow hsane hsees hrow rfl (by simp) (by simp) hnoRun hnoClosed hkeeps)
      | failed error =>
          exact hsane.carries
            (carries_setRow hsane hsees hrow rfl (by simp) (by simp) hnoRun hnoClosed hkeeps)

/-- A release spends the ticket, or leaves a permit for it to be given. -/
theorem releaseAsk_kept {outcome : Except String (Option String)}
    (hs : s.hands w = some ⟨row.ticket, root, row.replay.isPermit⟩) :
    Kept w (fun released h => released = .permit → ∃ ticket, h = some ⟨ticket, root, true⟩) s
      (releaseAsk w row outcome) := by
  unfold releaseAsk
  cases hpermit : row.replay.isPermit with
  | true =>
      rw [hpermit] at hs
      exact fun _ => ⟨row.ticket, hs⟩
  | false =>
      intro t hst ⟨hsane, _⟩ r hr
      obtain rfl := Except.ok.inj hr
      refine ⟨⟨rfl, hsane.carries (carries_run hsane (hst.hand.trans hs))⟩, fun hreleased => ?_⟩
      cases outcome with
      | ok result => cases hreleased
      | error text => cases hreleased

/-- **Every call keeps its guarantee.** -/
theorem program_kept (call : Call) (s : Shared W) :
    Kept w (fun _ _ => True) s (program host (w, call)) := by
  have hlook : ∀ t, (Prog.observe .look (fun s => s.file.isSome) : Calling W Bool).Relies
      (Others w) (fun l t => Sane t ∧ Orderly w l t) (Guarantees w) (fun _ _ => True) t :=
    fun t => Prog.Relies.observe (fun _ _ => rfl) fun _ _ _ => trivial
  cases call with
  | hold event action rule summary =>
      show Kept w _ s (holdCall w host event action rule summary)
      unfold holdCall
      have htake : Kept w (fun (_ : Bool) _ => True) s
          (takePermitCall w (callDigest host event action rule)) := by
        unfold takePermitCall
        refine Prog.Relies.bind (hlook s) fun there t _ => ?_
        split
        · refine Prog.Relies.bind (withAskFile_sane fun seen a x u hchange hsees hsane hkeeps => ?_)
            fun _ _ _ => trivial
          exact takePermit_sane (Except.ok.inj hchange) hsees hsane hkeeps
        · trivial
      refine Prog.Relies.bind htake fun taken u _ => ?_
      split
      · trivial
      · refine Prog.Relies.bind (withAskFile_sane fun seen a x v hchange hsees hsane hkeeps => ?_)
          fun _ _ _ => trivial
        exact remember_sane (Except.ok.inj hchange) hsees hsane hkeeps
  | apply root digest decision outcome =>
      show Kept w _ s (askApply w host root digest decision outcome)
      unfold askApply
      refine Prog.Relies.bind claim_kept fun claimed t ht => ?_
      match claimed with
      | none => trivial
      | some (.card row) => trivial
      | some (.denied row) => trivial
      | some (.release row) =>
          refine Prog.Relies.bind (releaseAsk_kept (ht row rfl)) fun released u hu => ?_
          refine Prog.Relies.bind (finish_kept hu) fun closed v _ => ?_
          match closed, released with
          | none, _ => trivial
          | some row, .permit => trivial
          | some row, .done _ => trivial
          | some row, .failed _ => trivial
  | settle =>
      show Kept w _ s (settleApprovals w host)
      unfold settleApprovals
      refine Prog.Relies.bind (hlook s) fun there t _ => ?_
      split
      · refine Prog.Relies.bind (withAskFile_sane fun seen a x v hchange hsees hsane hkeeps => ?_)
          fun ids u _ => ?_
        · obtain ⟨-, next, hnext, rfl⟩ := Section.change_eq (Except.ok.inj hchange)
          exact hsane.carries (carries_settle hsane hsees hnext rfl hkeeps)
        · cases ids <;> trivial
      · trivial
  | close root who closing =>
      show Kept w _ s (closeCall w host root who closing)
      unfold closeCall
      refine Prog.Relies.bind (withAskFile_sane fun seen a x v hchange hsees hsane hkeeps => ?_)
        fun row t _ => ?_
      · exact closeChange_sane hchange hsees hsane hkeeps
      · cases row <;> trivial

/-- A step that starts a call of the worker, or meets the condition. -/
def Ordered (s : System.State (Shared W) Label String Reply (W × Call) W)
    (a : System.Action (W × Call) Weather W) : Prop :=
  (∀ w op, a = .start w op → op.1 = w) ∧ System.Meets Orderly s a

variable (host) in
theorem approvals_relyGuarantee : System.RelyGuarantee (approvals host : System (Shared W) _ _ _ _ _)
    (fun w op => op.1 = w) Sane Others Orderly Guarantees where
  preorder := others_preorder
  program w op s hop := by
    obtain ⟨w', call⟩ := op
    obtain rfl : w' = w := hop
    exact program_kept call s
  others w w' l s t hw h := others_of_guarantees hw h
  keeps w l s t hs _ h := sane_of_guarantees hs h
  env e s hs := ⟨hs.frame rfl rfl rfl rfl, fun w => ⟨id, fun _ => ⟨rfl, rfl⟩, rfl⟩⟩

/-- **Approvals release at most once.**  In every run in which a section writes the
file only under the lock file it made, and drops no row of a permit that is being
given, a ticket runs at most once: when it is released, or when a permit lets a call
through.  What ran was approved, and was not denied, expired or withdrawn. -/
theorem released_once {s : System.State (Shared W) Label String Reply (W × Call) W}
    (hrun : (approvals host).machine.Run Ordered (System.idle Shared.start) s) :
    (runsOf s.shared.log).Nodup ∧
      ∀ i ∈ runsOf s.shared.log, .approved i ∈ s.shared.log ∧ .closed i ∉ s.shared.log := by
  have hsane : Sane s.shared := (approvals_relyGuarantee host).invariant_of_run
    (fun _ w op h => h.1 w op rfl) (fun _ _ h => h.2) hrun Sane.start
  refine ⟨hsane.runs, fun i hi => ?_⟩
  have htoken : s.shared.Token i .ran := mem_runsOf.1 hi
  refine ⟨?_, fun hclosed => hsane.closed i _ hclosed htoken⟩
  rcases hsane.approved i _ htoken with ⟨root, hroot⟩ | h
  · cases hroot
  · exact h

/-! ## A permit -/

/-- A call of a tool. -/
def callOf (tool : String) : Event := ⟨"codex", "session", tool, .dict [], "/"⟩

/-- `decide` holds a call of a tool. -/
def hold (tool : String) : Call := .hold (callOf tool) .send "ask-first" "Ask first is on"

/-- The founder decides on a held call; when it runs, it returns nothing. -/
def decided (tool : String) (decision : Decision) : Call :=
  .apply ("app:ask:" ++ tool) tool decision (.ok none)

/-- A worker starts a call, and makes some steps of it. -/
def making {W : Type} (w : W) (call : Call) (steps : ℕ) :
    List (System.Action (W × Call) Weather W) :=
  .start w (w, call) :: List.replicate steps (.advance w)

/-- The state after some actions. -/
def after {W : Type} [DecidableEq W] (actions : List (System.Action (W × Call) Weather W)) :
    System.State (Shared W) Label String Reply (W × Call) W :=
  actions.foldl (approvals Host.plain).machine.step (System.idle Shared.start)

/-- Whether an action of one of two workers meets the condition. -/
def meetsOrder (s : System.State (Shared Bool) Label String Reply (Bool × Call) Bool) :
    System.Action (Bool × Call) Weather Bool → Bool
  | .start w op => op.1 = w
  | .env _ => true
  | .advance w => match s.calls w with
    | some (_, .step (.write x) _ _) =>
        let t := s.shared.write w x
        let there := fun (c : Claim) => match t.held.row? c.root with
          | some row => row.ticket = c.ticket
          | none => false
        s.shared.lock.any (·.owner = w) &&
          [false, true].all (fun w => (t.hands w).all (fun c => !c.permit || there c))
    | _ => true

theorem ordered_of_meetsOrder {s : System.State (Shared Bool) Label String Reply (Bool × Call) Bool}
    {a : System.Action (Bool × Call) Weather Bool} (h : meetsOrder s a = true) : Ordered s a := by
  cases a with
  | start w op =>
      refine ⟨fun w' op' hop => ?_, trivial⟩
      cases hop
      simpa [meetsOrder] using h
  | env e => exact ⟨(fun _ _ hop => nomatch hop), trivial⟩
  | advance w =>
      refine ⟨(fun _ _ hop => nomatch hop), fun op l f k hcall => ?_⟩
      unfold meetsOrder at h
      cases l with
      | write x =>
          simp only [hcall, Bool.and_eq_true] at h
          refine ⟨?_, fun w' c hc hpermit => ?_⟩
          · obtain ⟨lock, hlock, howner⟩ := (Option.any_eq_true _ _).1 h.1
            exact ⟨lock, hlock, by simpa using howner⟩
          · have hmem : w' ∈ [false, true] := by cases w' <;> simp
            have hthere := List.all_eq_true.1 h.2 w' hmem
            simp only [hc, Option.all_some, hpermit, Bool.not_true, Bool.false_or] at hthere
            cases hrow : (s.shared.write w x).held.row? c.root with
            | none => simp [hrow] at hthere
            | some row => exact ⟨row, rfl, by simpa [hrow] using hthere⟩
      | create => trivial
      | look => trivial
      | «break» => trivial
      | read => trivial
      | unlock => trivial
      | run ticket => trivial

/-- A call is held, approved, and let through on its permit. -/
def permitTaken : List (System.Action (Bool × Call) Weather Bool) :=
  making true (hold "post") 8 ++ making false (decided "post" .approve) 8 ++
    making true (hold "post") 8

/-- The permit lets the call through once. -/
theorem released_permit : (runsOf (after permitTaken).shared.log).Nodup ∧
    ∀ i ∈ runsOf (after permitTaken).shared.log,
      .approved i ∈ (after permitTaken).shared.log ∧ .closed i ∉ (after permitTaken).shared.log :=
  have hwalk : (approvals Host.plain).machine.walk meetsOrder (System.idle Shared.start)
      permitTaken = true := by decide +kernel
  released_once (Machine.Run.ofWalk (fun _ _ => ordered_of_meetsOrder) hwalk)

/-! ## Two approvers -/

/-- The second approver finds the lock file of the first too old. -/
def lockBroken : List (System.Action (ℕ × Call) Weather ℕ) :=
  making 0 (hold "canvas.run") 5 ++ making 1 (decided "canvas.run" .approve) 2 ++
    .env ⟨6, true, true⟩ :: making 2 (decided "canvas.run" .approve) 8 ++
      List.replicate 3 (.advance 1)

/-- While a permit is being given, the file cannot be read for a while, its row is
lost, and the id goes to a row that is denied. -/
def rowLost : List (System.Action (ℕ × Call) Weather ℕ) :=
  making 0 (hold "post") 5 ++ making 1 (decided "post" .approve) 4 ++
    .env ⟨1, false, true⟩ :: making 2 (hold "other") 8 ++
    .env ⟨2, true, true⟩ :: making 3 (hold "post") 8 ++ making 4 (decided "post" .deny) 4 ++
      List.replicate 4 (.advance 1) ++ making 5 (hold "post") 5

/-- A held call runs twice; and a call that was denied is let through. -/
theorem released_twice : runsOf (after lockBroken).shared.log = [0, 0] ∧
    (after rowLost).shared.log = [.approved 0, .closed 3, .ran 3] := by
  decide +kernel

end ArchHub.Hooks

import Mathlib
import ArchHub.Witness.Protocol

/-!
# A rollback is detected

Whatever is done to the journal from outside, a load succeeds only with a journal that holds
every append that returned.

* `Hashing.chain_inj`: two journals of one length and one digest are one.
* `Move`, `proceed_move`: what the next step of a process can do.
* `Certified`: the confirmed head is that of a history that holds all that returned.
-/

namespace ArchHub.Witness

open Lib List

variable {Digest Content : Type} {h : Hashing Digest Content}

/-! ## Chains -/

namespace Hashing

theorem chainFrom_append (d : Digest) (r : ℕ) (vs : List Content) (v : Content) :
    h.chainFrom d r (vs ++ [v]) = h.step (h.chainFrom d r vs) (r + vs.length) v := by
  induction vs generalizing d r with
  | nil => rfl
  | cons u vs ih =>
      rw [cons_append, chainFrom, ih, chainFrom, length_cons]
      congr 1
      omega

theorem chain_append (vs : List Content) (v : Content) :
    h.chain (vs ++ [v]) = h.step (h.chain vs) vs.length v := by
  unfold chain
  rw [chainFrom_append, Nat.zero_add]

/-- **Two journals of one length and one digest are one.** -/
theorem chain_inj (hfree : h.CollisionFree) {xs ys : List Content} (hlength : xs.length = ys.length)
    (hchain : h.chain xs = h.chain ys) : xs = ys := by
  induction xs using List.reverseRecOn generalizing ys with
  | nil => exact (List.length_eq_zero_iff.1 hlength.symm).symm
  | append_singleton xs x ih =>
      rcases eq_nil_or_concat ys with rfl | ⟨ys, y, rfl⟩
      · simp at hlength
      · rw [concat_eq_append] at hlength hchain ⊢
        rw [length_append, length_append, length_singleton, length_singleton] at hlength
        rw [chain_append, chain_append] at hchain
        obtain ⟨hd, rfl⟩ := hfree.step _ _ _ _ _ _ hchain
        rw [ih (Nat.succ.inj hlength) hd]

end Hashing

/-! ## What a step can do -/

/-- **What the next step of a process can do** to what is shared, and where it leaves the
process. -/
inductive Move (h : Hashing Digest Content) (sh : Shared Digest Content)
    (p : Process Digest Content) (o : Outcome) : Shared Digest Content → Process Digest Content → Prop
  /-- The call ends. -/
  | stop {p'} (hrest : p'.phase = .idle) : Move h sh p o sh p'
  /-- The intent is pending; its process may not know. -/
  | prepared {p'} (i : Intent Digest Content) (w : State Digest) (hphase : p.phase = .prepare i)
      (hw : sh.witness = some w) (hhead : w.confirmed = i.head) (hfree : w.pending = none)
      (hrest : p'.phase = .write i ∨ p'.phase = .idle) :
      Move h sh p o { sh with witness := some { w with pending := some (i.pending h) } } p'
  /-- The append of the journal fails. -/
  | unwritten {p'} (i : Intent Digest Content) (hphase : p.phase = .write i)
      (hrest : p'.phase = .recover i) : Move h sh p o sh p'
  /-- The journal has the revision; its process may not know. -/
  | written {p'} (i : Intent Digest Content) (hphase : p.phase = .write i)
      (hlength : sh.journal.length = i.head.1 + 1)
      (hrest : p'.phase = .settle ⟨true, i.token, none, .append i⟩ ∨ p'.phase = .recover i) :
      Move h sh p o { sh with journal := sh.journal ++ [i.changed] } p'
  /-- After a failed append, the journal is read. -/
  | recovered {p'} (i : Intent Digest Content) (commit : Bool) (hphase : p.phase = .recover i)
      (hhead : commit = true → sh.journal ≠ [] ∧ h.head sh.journal = i.next h)
      (hrest : p'.phase = .settle ⟨commit, i.token, none, .recovery i⟩) : Move h sh p o sh p'
  /-- The first reading of a `confirm` or an `abort`. -/
  | seen {p'} (c : Settling Digest Content) (w : State Digest) (hphase : p.phase = .settle c)
      (hw : sh.witness = some w) (htoken : w.pending.map Pending.token = some c.token)
      (hrest : p'.phase = .settle { c with seen := some w }) : Move h sh p o sh p'
  /-- A `confirm` or an `abort` takes effect; its process may not know. -/
  | settled {p'} (c : Settling Digest Content) (w : State Digest) (pending : Pending Digest)
      (confirmed : ℕ × Digest) (returned : List (ℕ × Content)) (loads : List (Loaded Content))
      (hphase : p.phase = .settle c) (hseen : c.seen.isSome) (heffect : o ≠ .before)
      (hw : sh.witness = some w) (hpending : w.pending = some pending)
      (htoken : pending.token = c.token)
      (hconfirmed : confirmed = if c.commit then (pending.revision, pending.digest) else w.confirmed)
      (hreturned : returned = [] ∨ ∃ i, c.purpose = .append i ∧ confirmed = i.next h ∧
        returned = [((i.next h).1, i.changed)])
      (hloads : loads = [] ∨ ∃ history, c.purpose = .load history ∧ h.head history = confirmed ∧
        loads = [⟨history, sh.returned⟩])
      (hrest : p'.phase = .idle) :
      Move h sh p o { sh with
        witness := some ⟨confirmed, none⟩
        returned := sh.returned ++ returned
        loads := sh.loads ++ loads } p'
  /-- A load finds an intent pending. -/
  | pending {p'} (history : List Content) (w : State Digest) (pending : Pending Digest)
      (commit : Bool) (hphase : p.phase = .witness history) (hw : sh.witness = some w)
      (hpending : w.pending = some pending)
      (hhead : commit = true → h.head history = (pending.revision, pending.digest))
      (hrest : p'.phase = .settle ⟨commit, pending.token, none, .load history⟩) :
      Move h sh p o sh p'
  /-- A load finds nothing pending. -/
  | loaded {p'} (history : List Content) (w : State Digest) (hphase : p.phase = .witness history)
      (hw : sh.witness = some w) (hhead : h.head history = w.confirmed)
      (hrest : p'.phase = .idle) :
      Move h sh p o { sh with loads := sh.loads ++ [⟨history, sh.returned⟩] } p'
  /-- A load finds no witness. -/
  | absent {p'} (history : List Content) (hphase : p.phase = .witness history)
      (hw : sh.witness = none) (hgenesis : history.length = 1)
      (hrest : p'.phase = .genesis history) : Move h sh p o sh p'
  /-- The witness is provisioned; its process may not know. -/
  | provisioned {p'} (history : List Content) (hphase : p.phase = .genesis history)
      (hw : sh.witness = none) (hgenesis : (h.head history).1 = 0) (loads : List (Loaded Content))
      (hloads : loads = [] ∨ loads = [⟨history, sh.returned⟩]) (hrest : p'.phase = .idle) :
      Move h sh p o { sh with
        witness := some ⟨h.head history, none⟩
        loads := sh.loads ++ loads } p'

theorem Process.unsettled_phase (p : Process Digest Content) (purpose : Purpose Digest Content) :
    (p.unsettled purpose).phase = .idle := by
  cases purpose <;> rfl

section

variable [DecidableEq Digest]

/-- The end of a load. -/
theorem finishLoad_cases (sh : Shared Digest Content) (p : Process Digest Content)
    (history : List Content) (w : State Digest) :
    (finishLoad h sh p history w).2.phase = .idle ∧
      ((finishLoad h sh p history w).1 = sh ∨ h.head history = w.confirmed ∧
        (finishLoad h sh p history w).1 = { sh with
          loads := sh.loads ++ [⟨history, sh.returned⟩] }) := by
  unfold finishLoad
  split
  · next hhead => exact ⟨rfl, .inr ⟨hhead, rfl⟩⟩
  · exact ⟨rfl, .inl rfl⟩

/-- What an update that settles leaves. -/
theorem Settling.update_ok {c : Settling Digest Content} {item : Option (State Digest)}
    {seen w' : State Digest} (hupdate : c.update item seen = .ok w') :
    ∃ w pending, item = some w ∧ w.pending = some pending ∧ pending.token = c.token ∧
      w' = ⟨if c.commit then (pending.revision, pending.digest) else w.confirmed, none⟩ := by
  unfold Settling.update at hupdate
  cases item with
  | none =>
      split at hupdate
      · cases hupdate
      · cases hupdate
  | some w =>
      split at hupdate
      · next hcommit =>
        unfold Provider.confirm at hupdate
        cases hseen : seen.pending with
        | none =>
            rw [hseen] at hupdate
            cases hupdate
        | some p =>
            rw [hseen] at hupdate
            dsimp only at hupdate
            split at hupdate
            · next hpending =>
              cases hupdate
              exact ⟨w, _, rfl, hpending, rfl, by rw [if_pos hcommit]⟩
            · cases hupdate
      · next hcommit =>
        unfold Provider.abort at hupdate
        dsimp only at hupdate
        split at hupdate
        · next htoken =>
          cases hupdate
          obtain ⟨pending, hpending, htoken⟩ := Option.map_eq_some_iff.1 htoken.1
          exact ⟨w, pending, rfl, hpending, htoken, by rw [if_neg hcommit]⟩
        · cases hupdate

/-- The end of a call whose `confirm` or `abort` is answered. -/
theorem settled_move {sh : Shared Digest Content} {p : Process Digest Content} {o : Outcome}
    {c : Settling Digest Content} {seen w' : State Digest} (hphase : p.phase = .settle c)
    (hseen : c.seen.isSome) (heffect : o ≠ .before) (hupdate : c.update sh.witness seen = .ok w') :
    Move h sh p o (settled h { sh with witness := some w' } p c w').1
      (settled h { sh with witness := some w' } p c w').2 := by
  obtain ⟨w, pending, hw, hpending, htoken, rfl⟩ := c.update_ok hupdate
  generalize hconfirmed :
    (if c.commit then (pending.revision, pending.digest) else w.confirmed) = confirmed
  -- Nothing is returned and nothing is loaded.
  have hquiet : ∀ p' : Process Digest Content, p'.phase = .idle →
      Move h sh p o { sh with witness := some ⟨confirmed, none⟩ } p' := by
    intro p' hrest
    have hend := Move.settled (h := h) c w pending confirmed [] [] hphase hseen heffect hw hpending htoken
      hconfirmed.symm (.inl rfl) (.inl rfl) hrest
    rw [append_nil, append_nil] at hend
    exact hend
  unfold settled
  split
  · next i hpurpose =>
    dsimp only
    split
    · next hanswer =>
      have hidle : ({ p with phase := .idle, head := some (i.next h) } :
          Process Digest Content).phase = .idle := rfl
      have hend := Move.settled (h := h) c w pending confirmed [((i.next h).1, i.changed)] [] hphase
        hseen heffect hw hpending htoken hconfirmed.symm (.inr ⟨i, hpurpose, hanswer.2, rfl⟩)
        (.inl rfl) hidle
      rw [append_nil] at hend
      exact hend
    · exact hquiet _ rfl
  · split
    · exact hquiet _ rfl
    · exact hquiet _ rfl
  · next history hpurpose =>
    obtain ⟨hrest, hsame | ⟨hhead, hload⟩⟩ := finishLoad_cases (h := h)
      { sh with witness := some ⟨confirmed, none⟩ } p history ⟨confirmed, none⟩
    · rw [hsame]
      exact hquiet _ hrest
    · rw [hload]
      have hend := Move.settled (h := h) c w pending confirmed [] [⟨history, sh.returned⟩] hphase hseen
        heffect hw hpending htoken hconfirmed.symm (.inl rfl) (.inr ⟨history, hpurpose, hhead, rfl⟩) hrest
      rw [append_nil] at hend
      exact hend

/-- **The step of a process, inverted.** -/
theorem proceed_move (sh : Shared Digest Content) (p : Process Digest Content) (o : Outcome) :
    Move h sh p o (proceed h sh p o).1 (proceed h sh p o).2 := by
  unfold proceed
  cases hphase : p.phase with
  | idle => exact .stop hphase
  | prepare i =>
      dsimp only
      have hprepare : ∀ w, Provider.prepare sh.witness i.head (i.pending h) = .ok w →
          ∃ w₀, sh.witness = some w₀ ∧ w₀.confirmed = i.head ∧ w₀.pending = none ∧
            w = { w₀ with pending := some (i.pending h) } := by
        intro w hw
        unfold Provider.prepare at hw
        split at hw
        · cases hw
        · next w₀ hw₀ =>
          split at hw
          · next hfree =>
            cases hw
            exact ⟨w₀, hw₀, hfree.1, hfree.2, rfl⟩
          · cases hw
      split
      · exact .stop rfl
      · exact .stop rfl
      · next w hw =>
        obtain ⟨w₀, hw₀, hhead, hfree, rfl⟩ := hprepare w hw
        exact .prepared i w₀ hphase hw₀ hhead hfree (.inl rfl)
      · next w hw =>
        obtain ⟨w₀, hw₀, hhead, hfree, rfl⟩ := hprepare w hw
        exact .prepared i w₀ hphase hw₀ hhead hfree (.inr rfl)
  | write i =>
      dsimp only
      split
      · exact .unwritten i hphase rfl
      · next hfree =>
        have hlength : sh.journal.length = i.head.1 + 1 :=
          not_not.1 fun hother => hfree (.inr hother)
        split
        · exact .written i hphase hlength (.inl rfl)
        · exact .written i hphase hlength (.inr rfl)
  | recover i =>
      dsimp only
      split
      · exact .stop rfl
      · next hfree =>
        split
        · exact .recovered i false hphase (fun hfalse => absurd hfalse Bool.false_ne_true) rfl
        · split
          · next hhead =>
            exact .recovered i true hphase (fun _ => ⟨fun hnil => hfree (.inr hnil), hhead⟩) rfl
          · exact .stop rfl
  | settle c =>
      dsimp only
      split
      · next hseen =>
        split
        · next w hw =>
          unfold Provider.pendingWith at hw
          obtain ⟨hw, htoken⟩ := Option.filter_eq_some_iff.1 hw
          exact .seen c w hphase hw (of_decide_eq_true htoken) rfl
        · exact .stop (p.unsettled_phase c.purpose)
      · next seen hseen =>
        split
        · exact .stop (p.unsettled_phase c.purpose)
        · exact .stop (p.unsettled_phase c.purpose)
        · next w hw => exact settled_move hphase (by rw [hseen]; rfl) (by decide) hw
        · next w' hw =>
          obtain ⟨w, pending, hitem, hpending, htoken, rfl⟩ := c.update_ok hw
          have hend := Move.settled (h := h) (o := .after) c w pending _ [] [] hphase
            (by rw [hseen]; rfl) (by decide) hitem hpending htoken rfl
            (.inl rfl) (.inl rfl) (p.unsettled_phase c.purpose)
          rw [append_nil, append_nil] at hend
          exact hend
  | witness history =>
      dsimp only
      split
      · exact .stop rfl
      · split
        · next w hw =>
          unfold reconcile
          split
          · next pending hpending =>
            split
            · exact .pending history w pending false hphase hw hpending
                (fun hfalse => absurd hfalse Bool.false_ne_true) rfl
            · split
              · next hhead => exact .pending history w pending true hphase hw hpending (fun _ => hhead) rfl
              · exact .stop rfl
          · obtain ⟨hrest, hsame | ⟨hhead, hload⟩⟩ := finishLoad_cases (h := h) sh p history w
            · rw [hsame]
              exact .stop hrest
            · rw [hload]
              exact .loaded history w hphase hw hhead hrest
        · next hw =>
          split
          · next hgenesis => exact .absent history hphase hw hgenesis.2 rfl
          · exact .stop rfl
  | genesis history =>
      dsimp only
      have hprovision : ∀ w, Provider.provision sh.witness (h.head history) = .ok w →
          sh.witness = none ∧ (h.head history).1 = 0 ∧ w = ⟨h.head history, none⟩ := by
        intro w hw
        unfold Provider.provision at hw
        split at hw
        · cases hw
        · next hnone =>
          split at hw
          · cases hw
          · next hzero =>
            cases hw
            exact ⟨hnone, not_not.1 hzero, rfl⟩
      split
      · exact .stop rfl
      · exact .stop rfl
      · next w hw =>
        obtain ⟨hnone, hzero, rfl⟩ := hprovision w hw
        unfold reconcile
        dsimp only
        unfold finishLoad
        rw [if_pos rfl]
        exact .provisioned history hphase hnone hzero [_] (.inr rfl) rfl
      · next w hw =>
        obtain ⟨hnone, hzero, rfl⟩ := hprovision w hw
        have hloads : ({ sh with witness := some ⟨h.head history, none⟩ } : Shared Digest Content) =
            { sh with witness := some ⟨h.head history, none⟩, loads := sh.loads ++ [] } := by
          rw [append_nil]
        rw [hloads]
        exact .provisioned history hphase hnone hzero [] (.inl rfl) rfl

end

/-! ## Calls under way -/

/-- The append that a process has under way. -/
def Phase.intent : Phase Digest Content → Option (Intent Digest Content)
  | .idle => none
  | .prepare i => some i
  | .write i => some i
  | .recover i => some i
  | .settle ⟨_, _, _, .append i⟩ => some i
  | .settle ⟨_, _, _, .recovery i⟩ => some i
  | .settle ⟨_, _, _, .load _⟩ => none
  | .witness _ => none
  | .genesis _ => none

/-- The journal that a load has read. -/
def Phase.history : Phase Digest Content → Option (List Content)
  | .settle ⟨_, _, _, .load history⟩ => some history
  | .witness history => some history
  | .genesis history => some history
  | _ => none

/-- A step starts no append and reads no journal for a load. -/
theorem Move.keeps {sh sh' : Shared Digest Content} {p p' : Process Digest Content}
    {o : Outcome} (hmove : Move h sh p o sh' p') :
    (p'.phase.intent = none ∨ p'.phase.intent = p.phase.intent) ∧
      (p'.phase.history = none ∨ p'.phase.history = p.phase.history) := by
  have hidle : p'.phase = .idle → (p'.phase.intent = none ∨ p'.phase.intent = p.phase.intent) ∧
      (p'.phase.history = none ∨ p'.phase.history = p.phase.history) := by
    intro hrest
    rw [hrest]
    exact ⟨.inl rfl, .inl rfl⟩
  cases hmove with
  | stop hrest => exact hidle hrest
  | prepared i w hphase hw hhead hfree hrest =>
      rcases hrest with hrest | hrest
      · rw [hrest, hphase]
        exact ⟨.inr rfl, .inl rfl⟩
      · exact hidle hrest
  | unwritten i hphase hrest =>
      rw [hrest, hphase]
      exact ⟨.inr rfl, .inl rfl⟩
  | written i hphase hlength hrest =>
      rcases hrest with hrest | hrest <;> rw [hrest, hphase] <;> exact ⟨.inr rfl, .inl rfl⟩
  | recovered i commit hphase hhead hrest =>
      rw [hrest, hphase]
      exact ⟨.inr rfl, .inl rfl⟩
  | seen c w hphase hw htoken hrest =>
      rw [hrest, hphase]
      obtain ⟨commit, token, seen, purpose⟩ := c
      cases purpose <;> exact ⟨.inr rfl, .inr rfl⟩
  | settled c w pending confirmed returned loads hphase hseen heffect hw hpending htoken hconfirmed hreturned
      hloads hrest => exact hidle hrest
  | pending history w pending commit hphase hw hpending hhead hrest =>
      rw [hrest, hphase]
      exact ⟨.inl rfl, .inr rfl⟩
  | loaded history w hphase hw hhead hrest => exact hidle hrest
  | absent history hphase hw hgenesis hrest =>
      rw [hrest, hphase]
      exact ⟨.inl rfl, .inr rfl⟩
  | provisioned history hphase hw hgenesis loads hloads hrest => exact hidle hrest

namespace System

theorem set_same (s : System Digest Content) (sh : Shared Digest Content) (p : ℕ)
    (process : Process Digest Content) : (s.set sh p process).processes p = process :=
  Function.update_self _ _ _

theorem set_other {p q : ℕ} (hq : q ≠ p) (s : System Digest Content)
    (sh : Shared Digest Content) (process : Process Digest Content) :
    (s.set sh p process).processes q = s.processes q :=
  Function.update_of_ne hq _ _

end System

/-! ## What is certified -/

/-- **The confirmed head is that of a history that holds every append that returned**, and so
does every journal that a load returned. -/
structure Certified (h : Hashing Digest Content) (sh : Shared Digest Content) : Prop where
  kept : ∀ w, sh.witness = some w → ∃ history, history ≠ [] ∧ h.head history = w.confirmed ∧
    ∀ x ∈ sh.returned, history[x.1]? = some x.2
  empty : sh.witness = none → sh.returned = []
  pending : ∀ w pending, sh.witness = some w → w.pending = some pending →
    pending.revision = w.confirmed.1 + 1 ∧
      ∃ v, pending.digest = h.step w.confirmed.2 (w.confirmed.1 + 1) v
  loads : ∀ l ∈ sh.loads, ∀ x ∈ l.returned, l.history[x.1]? = some x.2

/-- Two histories of one head. -/
theorem Hashing.head_inj (hfree : h.CollisionFree) {xs ys : List Content} (hxs : xs ≠ [])
    (hys : ys ≠ []) (hhead : h.head xs = h.head ys) : xs = ys := by
  have hlength : xs.length - 1 = ys.length - 1 := congrArg Prod.fst hhead
  have hx := length_pos_of_ne_nil hxs
  have hy := length_pos_of_ne_nil hys
  exact chain_inj hfree (by omega) (congrArg Prod.snd hhead)

/-- One revision more. -/
theorem Hashing.head_append {history : List Content} (hne : history ≠ []) (v : Content) :
    h.head (history ++ [v]) = ((h.head history).1 + 1,
      h.step (h.head history).2 ((h.head history).1 + 1) v) := by
  have hlength := length_pos_of_ne_nil hne
  unfold Hashing.head
  rw [Hashing.chain_append, length_append, length_singleton]
  dsimp only
  rw [Nat.sub_add_cancel hlength, Nat.add_sub_cancel]

/-- The last revision of a history is the one its digest was made with. -/
theorem Hashing.last_of_head (hfree : h.CollisionFree) {history : List Content}
    (hne : history ≠ []) {r : ℕ} {d : Digest} {v : Content}
    (hhead : h.head history = (r + 1, h.step d (r + 1) v)) : history[r + 1]? = some v := by
  rcases eq_nil_or_concat history with rfl | ⟨vs, u, rfl⟩
  · exact absurd rfl hne
  · rw [concat_eq_append] at hhead ⊢
    have hlength : (vs ++ [u]).length - 1 = r + 1 := congrArg Prod.fst hhead
    have hdigest : h.chain (vs ++ [u]) = h.step d (r + 1) v := congrArg Prod.snd hhead
    rw [length_append, length_singleton, Nat.add_sub_cancel] at hlength
    rw [Hashing.chain_append] at hdigest
    rw [← hlength, List.getElem?_concat_length, (hfree.step _ _ _ _ _ _ hdigest).2]

/-- **A step keeps what is certified.** -/
theorem Move.certified (hfree : h.CollisionFree) {sh sh' : Shared Digest Content}
    {p p' : Process Digest Content} (hmove : Move h sh p o sh' p') (hc : Certified h sh)
    (hread : ∀ history, p.phase.history = some history → history ≠ []) : Certified h sh' := by
  -- A load at the confirmed head has read the certified history.
  have hload : ∀ history w, history ≠ [] → (∃ history, history ≠ [] ∧ h.head history = w ∧
      ∀ x ∈ sh.returned, history[x.1]? = some x.2) → h.head history = w →
      ∀ x ∈ sh.returned, history[x.1]? = some x.2 := by
    rintro history w hne ⟨kept, hkept, hhead, hreturned⟩ hsame
    rw [Hashing.head_inj hfree hne hkept (hsame.trans hhead.symm)]
    exact hreturned
  cases hmove with
  | stop | unwritten | recovered | seen | pending | absent => exact hc
  | prepared i w hphase hw hhead hfree' hrest =>
      refine ⟨fun w' hw' => ?_, fun hnone => ?_, fun w' pending hw' hpending => ?_, hc.loads⟩
      · cases hw'
        exact hc.kept w hw
      · cases hnone
      · cases hw'
        cases hpending
        have hrevision : (i.head.1 + 1 : ℕ) = w.confirmed.1 + 1 := by rw [hhead]
        refine ⟨hrevision, i.changed, ?_⟩
        show h.step i.head.2 (i.head.1 + 1) i.changed = _
        rw [hhead]
  | written i hphase hlength hrest => exact ⟨hc.kept, hc.empty, hc.pending, hc.loads⟩
  | loaded history w hphase hw hhead hrest =>
      refine ⟨hc.kept, hc.empty, hc.pending, fun l hl => ?_⟩
      rcases List.mem_append.1 hl with hl | hl
      · exact hc.loads l hl
      · rw [List.mem_singleton.1 hl]
        exact hload history w.confirmed (hread history (by rw [hphase]; rfl)) (hc.kept w hw) hhead
  | provisioned history hphase hw hgenesis loads hloads hrest =>
      have hne := hread history (by rw [hphase]; rfl)
      refine ⟨fun w' hw' => ?_, fun hnone => ?_, fun w' pending hw' hpending => ?_, fun l hl => ?_⟩
      · cases hw'
        refine ⟨history, hne, rfl, fun x hx => ?_⟩
        have hx : x ∈ sh.returned := hx
        rw [hc.empty hw] at hx
        cases hx
      · cases hnone
      · cases hw'
        cases hpending
      · rcases List.mem_append.1 hl with hl | hl
        · exact hc.loads l hl
        · rcases hloads with rfl | rfl
          · cases hl
          · rw [List.mem_singleton.1 hl]
            intro x hx
            have hx : x ∈ sh.returned := hx
            rw [hc.empty hw] at hx
            cases hx
  | settled c w pending confirmed returned loads hphase hseen heffect hw hpending htoken hconfirmed hreturned
      hloads hrest =>
      obtain ⟨kept, hkept, hhead, hold⟩ := hc.kept w hw
      obtain ⟨hrevision, v, hdigest⟩ := hc.pending w pending hw hpending
      -- The history that is certified from now on, before this call returns anything.
      have hnow : ∃ history, history ≠ [] ∧ h.head history = confirmed ∧
          (∀ x ∈ sh.returned, history[x.1]? = some x.2) := by
        split at hconfirmed
        · refine ⟨kept ++ [v], by simp, ?_, fun x hx => ?_⟩
          · rw [Hashing.head_append hkept, hhead, hconfirmed, hrevision, hdigest]
          · exact List.getElem?_append_left (List.getElem?_eq_some_iff.1 (hold x hx)).1 ▸ hold x hx
        · exact ⟨kept, hkept, hhead.trans hconfirmed.symm, hold⟩
      refine ⟨fun w' hw' => ?_, fun hnone => ?_, fun w' pending' hw' hpending' => ?_,
        fun l hl => ?_⟩
      · cases hw'
        rcases hreturned with rfl | ⟨i, hpurpose, hanswer, rfl⟩
        · rw [append_nil]
          exact hnow
        · obtain ⟨history, hne, hnext, hreturned⟩ := hnow
          refine ⟨history, hne, hnext, fun x hx => ?_⟩
          rcases List.mem_append.1 hx with hx | hx
          · exact hreturned x hx
          · rw [List.mem_singleton.1 hx]
            exact Hashing.last_of_head hfree hne (hnext.trans hanswer)
      · cases hnone
      · cases hw'
        cases hpending'
      · rcases List.mem_append.1 hl with hl | hl
        · exact hc.loads l hl
        · rcases hloads with rfl | ⟨history, hpurpose, hsame, rfl⟩
          · cases hl
          · rw [List.mem_singleton.1 hl]
            refine hload history confirmed (hread history ?_) hnow hsame
            obtain ⟨commit, token, seen, purpose⟩ := c
            cases hpurpose
            rw [hphase]
            rfl

/-! ## Runs -/

/-- The revision that is confirmed. -/
def System.confirmed (s : System Digest Content) : ℕ :=
  (s.shared.witness.map fun w => w.confirmed.1).getD 0

/-- An append that is begun draws a token and no more. -/
theorem beginAppend_cases (sh : Shared Digest Content) (p : Process Digest Content)
    (expected next : ℕ) (changed : Content) :
    beginAppend sh p expected next changed = (sh, p) ∨ ∃ head, p.phase = .idle ∧
      beginAppend sh p expected next changed = ({ sh with tokens := sh.tokens + 1 },
        p.to (.prepare ⟨sh.tokens, head, changed⟩)) := by
  unfold beginAppend
  split
  · next head hphase hhead =>
    split
    · exact .inl rfl
    · exact .inr ⟨head, hphase, rfl⟩
  · exact .inl rfl

/-- A load that is begun has read a journal. -/
theorem beginLoad_cases (sh : Shared Digest Content) (p : Process Digest Content) (o : Outcome) :
    beginLoad sh p o = p ∨ sh.journal ≠ [] ∧ p.phase = .idle ∧
      beginLoad sh p o = p.to (.witness sh.journal) := by
  unfold beginLoad
  split
  · next hphase =>
    split
    · exact .inl rfl
    · next hfree => exact .inr ⟨fun hnil => hfree (.inr (.inr hnil)), hphase, rfl⟩
  · exact .inl rfl

/-- What is certified, and no load has read an empty journal. -/
structure Sound (h : Hashing Digest Content) (s : System Digest Content) : Prop where
  certified : Certified h s.shared
  read : ∀ p history, (s.processes p).phase.history = some history → history ≠ []

/-- A process that has read what it had read, or nothing, or a journal. -/
theorem Sound.set {s : System Digest Content} (hs : Sound h s) {sh : Shared Digest Content}
    {p : ℕ} {process : Process Digest Content} (hc : Certified h sh)
    (hread : ∀ history, process.phase.history = some history → history ≠ []) :
    Sound h (s.set sh p process) := by
  refine ⟨hc, fun q history hq => ?_⟩
  by_cases hsame : q = p
  · subst hsame
    rw [s.set_same] at hq
    exact hread history hq
  · rw [s.set_other hsame] at hq
    exact hs.read q history hq

/-- **Every action keeps what is certified, and the confirmed revision never decreases.** -/
theorem Sound.step [DecidableEq Digest] (hfree : h.CollisionFree) {s : System Digest Content} (hs : Sound h s)
    (a : Action Content) :
    Sound h ((witnessed h).step s a) ∧ s.confirmed ≤ ((witnessed h).step s a).confirmed := by
  cases a with
  | load p o =>
      show Sound h (s.set s.shared p (beginLoad s.shared (s.processes p) o)) ∧ _
      refine ⟨hs.set hs.certified fun history hhistory => ?_, le_rfl⟩
      rcases beginLoad_cases s.shared (s.processes p) o with hsame | ⟨hne, -, hread⟩
      · rw [hsame] at hhistory
        exact hs.read p history hhistory
      · rw [hread] at hhistory
        cases hhistory
        exact hne
  | append p expected next changed =>
      show Sound h (s.set (beginAppend s.shared (s.processes p) expected next changed).1 p
        (beginAppend s.shared (s.processes p) expected next changed).2) ∧ _ ≤ System.confirmed
          (s.set (beginAppend s.shared (s.processes p) expected next changed).1 p
            (beginAppend s.shared (s.processes p) expected next changed).2)
      have hc := hs.certified
      rcases beginAppend_cases s.shared (s.processes p) expected next changed with hsame |
        ⟨head, -, hdrawn⟩
      · rw [hsame]
        exact ⟨hs.set hc (hs.read p), le_rfl⟩
      · rw [hdrawn]
        refine ⟨hs.set ⟨hc.kept, hc.empty, hc.pending, hc.loads⟩ fun history hhistory => ?_, le_rfl⟩
        cases hhistory
  | proceed p o =>
      show Sound h (s.set (proceed h s.shared (s.processes p) o).1 p
        (proceed h s.shared (s.processes p) o).2) ∧ _ ≤ System.confirmed
          (s.set (proceed h s.shared (s.processes p) o).1 p
            (proceed h s.shared (s.processes p) o).2)
      have hmove := proceed_move (h := h) s.shared (s.processes p) o
      revert hmove
      generalize (proceed h s.shared (s.processes p) o).1 = sh'
      generalize (proceed h s.shared (s.processes p) o).2 = p'
      intro hmove
      refine ⟨hs.set (hmove.certified hfree hs.certified (hs.read p)) fun history hhistory => ?_, ?_⟩
      · rcases hmove.keeps.2 with hnone | hsame
        · cases hnone.symm.trans hhistory
        · exact hs.read p history (hsame.symm.trans hhistory)
      · show (s.shared.witness.map fun w => w.confirmed.1).getD 0 ≤
          (sh'.witness.map fun w => w.confirmed.1).getD 0
        cases hmove with
        | stop | unwritten | written | recovered | seen | pending | loaded | absent => exact le_rfl
        | prepared i w hphase hw =>
            rw [hw]
            exact le_rfl
        | settled c w pending confirmed returned loads hphase hseen heffect hw hpending htoken hconfirmed =>
            rw [hw]
            show w.confirmed.1 ≤ confirmed.1
            rw [hconfirmed]
            split
            · have := (hs.certified.pending w pending hw hpending).1
              show w.confirmed.1 ≤ pending.revision
              omega
            · exact le_rfl
        | provisioned history hphase hw =>
            rw [hw]
            exact Nat.zero_le _
  | restart p provisionGenesis =>
      show Sound h (s.set s.shared p (.fresh provisionGenesis)) ∧ _
      refine ⟨hs.set hs.certified fun history hhistory => ?_, le_rfl⟩
      cases hhistory
  | tamper journal =>
      have hc := hs.certified
      exact ⟨⟨⟨hc.kept, hc.empty, hc.pending, hc.loads⟩, hs.read⟩, le_rfl⟩

theorem sound_new (genesis : Content) : Sound h (.new genesis) := by
  refine ⟨⟨fun w hw => ?_, fun _ => rfl, fun w pending hw => ?_, fun l hl => ?_⟩,
    fun p history hhistory => ?_⟩
  · cases hw
  · cases hw
  · cases hl
  · cases hhistory

end ArchHub.Witness

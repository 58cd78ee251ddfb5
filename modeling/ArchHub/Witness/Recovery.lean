import Mathlib
import ArchHub.Witness.Rollback

/-!
# An honest journal is not locked out

A loader that finds an intent pending takes it for that of a process which is gone.  Where it
is not, and its process writes the revision after the intent was aborted, the journal is ahead
of its witness for good.  Where every abort that takes effect finds the journal at the confirmed
head and nobody about to write, the head of the journal is always the confirmed or the pending
one, and a load by a fresh process brings the two together.

* `Linked`: what is pending under the token of a process is what it is about to write.
* `Steady`: the invariant of the runs in which nothing is aborted under a writer.
* `witness_sound`: both halves.
-/

namespace ArchHub.Witness

open Lib List Option

variable {Digest Content : Type} {h : Hashing Digest Content} {s : System Digest Content}
  {sh : Shared Digest Content} {process : Process Digest Content} {p : ℕ} {changed : Content}

/-! ## Tokens -/

/-- No two appends under way have one token, and every token was drawn. -/
structure Tokens (s : System Digest Content) : Prop where
  drawn : ∀ p i, (s.processes p).phase.intent = some i → i.token < s.shared.tokens
  own : ∀ p q i j, (s.processes p).phase.intent = some i → (s.processes q).phase.intent = some j →
    i.token = j.token → p = q

/-- A process may go on with the append it has, or with none. -/
theorem Tokens.set (ht : Tokens s) (htokens : s.shared.tokens ≤ sh.tokens)
    (hintent : process.phase.intent = none ∨
      process.phase.intent = (s.processes p).phase.intent) : Tokens (s.set sh p process) := by
  -- Every append under way was under way before, in the same process.
  have hwas : ∀ q i, ((s.set sh p process).processes q).phase.intent = some i →
      (s.processes q).phase.intent = some i := by
    intro q i hi
    by_cases hq : q = p
    · subst hq
      rw [s.set_same] at hi
      rcases hintent with hnone | hsame
      · cases hnone.symm.trans hi
      · exact hsame.symm.trans hi
    · rwa [s.set_other hq] at hi
  exact ⟨fun q i hi => (ht.drawn q i (hwas q i hi)).trans_le htokens,
    fun q r i j hi hj => ht.own q r i j (hwas q i hi) (hwas r j hj)⟩

/-- A process that draws a token. -/
theorem Tokens.draw (ht : Tokens s) {head : ℕ × Digest} :
    Tokens (s.set { s.shared with tokens := s.shared.tokens + 1 } p
      ((s.processes p).to (.prepare ⟨s.shared.tokens, head, changed⟩))) := by
  have hcases : ∀ q i, ((s.set { s.shared with tokens := s.shared.tokens + 1 } p
      ((s.processes p).to (.prepare ⟨s.shared.tokens, head, changed⟩))).processes q).phase.intent =
        some i → q = p ∧ i.token = s.shared.tokens ∨
          q ≠ p ∧ (s.processes q).phase.intent = some i := by
    intro q i hi
    by_cases hq : q = p
    · subst hq
      rw [s.set_same] at hi
      cases hi
      exact .inl ⟨rfl, rfl⟩
    · rw [s.set_other hq] at hi
      exact .inr ⟨hq, hi⟩
  refine ⟨fun q i hi => ?_, fun q r i j hi hj htoken => ?_⟩
  · show i.token < s.shared.tokens + 1
    rcases hcases q i hi with ⟨-, htoken⟩ | ⟨-, hi⟩
    · omega
    · exact (ht.drawn q i hi).trans (Nat.lt_succ_self _)
  · rcases hcases q i hi with ⟨rfl, hfresh⟩ | ⟨-, hi⟩
    · rcases hcases r j hj with ⟨rfl, -⟩ | ⟨-, hj⟩
      · rfl
      · have := ht.drawn r j hj
        omega
    · rcases hcases r j hj with ⟨-, hfresh⟩ | ⟨-, hj⟩
      · have := ht.drawn q i hi
        omega
      · exact ht.own q r i j hi hj htoken

/-! ## What is pending -/

/-- What is pending under the token of an append is what that append is about to write, at the
head it was started at. -/
def Linked (h : Hashing Digest Content) (sh : Shared Digest Content) (i : Intent Digest Content) :
    Prop :=
  ∀ w pending, sh.witness = some w → w.pending = some pending → pending.token = i.token →
    pending = i.pending h ∧ w.confirmed = i.head

/-- A step keeps what is pending linked. -/
theorem Move.linked {sh' : Shared Digest Content} {p p' : Process Digest Content} {o : Outcome}
    (hmove : Move h sh p o sh' p') {j : Intent Digest Content} (hj : Linked h sh j)
    (hown : ∀ i, p.phase.intent = some i → i.token = j.token → i = j) : Linked h sh' j := by
  cases hmove with
  | stop | unwritten | written | recovered | seen | pending | loaded | absent => exact hj
  | prepared i w hphase hw hhead hfree hrest =>
      intro w' pending hw' hpending htoken
      cases hw'
      cases hpending
      have hij : i = j := hown i (by rw [hphase]; rfl) htoken
      subst hij
      exact ⟨rfl, hhead⟩
  | settled | provisioned =>
      intro w' pending hw' hpending
      cases hw'
      cases hpending

/-! ## Where the processes stand -/

/-- The journal is at the confirmed head, or at the pending one. -/
structure Honest (h : Hashing Digest Content) (sh : Shared Digest Content) : Prop where
  journal : sh.journal ≠ []
  genesis : sh.witness = none → sh.journal.length = 1
  head : ∀ w, sh.witness = some w → h.head sh.journal = w.confirmed ∨
    ∃ pending, w.pending = some pending ∧ h.head sh.journal = (pending.revision, pending.digest)
  pending : ∀ w pending, sh.witness = some w → w.pending = some pending →
    pending.token < sh.tokens

/-- What a process can count on where it stands. -/
def Stands (h : Hashing Digest Content) (sh : Shared Digest Content) :
    Phase Digest Content → Prop
  | .idle => True
  | .prepare i => ∀ w pending, sh.witness = some w → w.pending = some pending →
      pending.token ≠ i.token
  | .write i => sh.witness = some ⟨i.head, some (i.pending h)⟩ ∧ h.head sh.journal = i.head
  | .recover _ => True
  | .settle c => c.token < sh.tokens ∧ (c.commit = true → ∀ w pending, sh.witness = some w →
      w.pending = some pending → pending.token = c.token →
      h.head sh.journal = (pending.revision, pending.digest))
  | .witness history => history <+: sh.journal
  | .genesis history => history <+: sh.journal ∧ history.length = 1

/-- **No abort under a writer**: the journal is not replaced from outside, and an abort that
takes effect finds the journal at the confirmed head and no process about to write what it
aborts. -/
def Undisturbed (h : Hashing Digest Content) (s : System Digest Content) : Action Content → Prop
  | .tamper _ => False
  | .proceed p o => ∀ c w, (s.processes p).phase = .settle c → c.commit = false →
      c.seen.isSome → o ≠ .before → s.shared.witness = some w →
      w.pending.map Pending.token = some c.token →
      h.head s.shared.journal = w.confirmed ∧
        ∀ q i, (s.processes q).phase = .write i → i.token ≠ c.token
  | _ => True

/-- The invariant of undisturbed runs. -/
structure Steady (h : Hashing Digest Content) (s : System Digest Content) : Prop where
  sound : Sound h s
  honest : Honest h s.shared
  tokens : Tokens s
  linked : ∀ p i, (s.processes p).phase.intent = some i → Linked h s.shared i
  stands : ∀ p, Stands h s.shared (s.processes p).phase
  apart : ∀ p q i c, (s.processes p).phase = .prepare i → (s.processes q).phase = .settle c →
    c.token ≠ i.token

namespace Steady

variable {s : System Digest Content} {sh : Shared Digest Content} {p : ℕ}
  {process : Process Digest Content} {o : Outcome}

/-- An abort that is about to take effect meets the condition. -/
def Clear (h : Hashing Digest Content) (s : System Digest Content) (p : ℕ) (o : Outcome) : Prop :=
  ∀ c w, (s.processes p).phase = .settle c → c.commit = false → c.seen.isSome → o ≠ .before →
    s.shared.witness = some w → w.pending.map Pending.token = some c.token →
    h.head s.shared.journal = w.confirmed ∧
      ∀ q i, (s.processes q).phase = .write i → i.token ≠ c.token

section

variable (hs : Steady h s)

include hs

/-- The journal stays at the confirmed head or at the pending one. -/
theorem honest_move (hclear : Clear h s p o)
    (hmove : Move h s.shared (s.processes p) o sh process) : Honest h sh := by
  have hstands := hs.stands p
  have ho := hs.honest
  cases hmove with
  | stop | unwritten | recovered | seen | pending | absent => exact ho
  | loaded => exact ⟨ho.journal, ho.genesis, ho.head, ho.pending⟩
  | prepared i w hphase hw hhead hfree hrest =>
      refine ⟨ho.journal, fun hnone => ?_, fun w' hw' => ?_, fun w' pending hw' hpending => ?_⟩
      · cases hnone
      · cases hw'
        rcases ho.head w hw with hconfirmed | ⟨pending, hpending, -⟩
        · exact .inl hconfirmed
        · cases hfree.symm.trans hpending
      · cases hw'
        cases hpending
        exact hs.tokens.drawn p i (by rw [hphase]; rfl)
  | written i hphase hlength hrest =>
      rw [hphase] at hstands
      obtain ⟨hw, hhead⟩ := hstands
      refine ⟨by simp, fun hnone => ?_, fun w' hw' => ?_, fun w' pending hw' hpending =>
        ho.pending w' pending hw' hpending⟩
      · cases hw.symm.trans hnone
      · cases hw.symm.trans hw'
        refine .inr ⟨_, rfl, ?_⟩
        rw [Hashing.head_append ho.journal, hhead]
        rfl
  | settled c w pending confirmed returned loads hphase hseen heffect hw hpending htoken hconfirmed
      hreturned hloads hrest =>
      refine ⟨ho.journal, fun hnone => ?_, fun w' hw' => .inl ?_, fun w' pending' hw' hpending' => ?_⟩
      · cases hnone
      · cases hw'
        show h.head s.shared.journal = confirmed
        rw [hphase] at hstands
        rw [hconfirmed]
        split
        · next hcommit => exact hstands.2 hcommit w pending hw hpending htoken
        · next habort =>
          refine (hclear c w hphase (Bool.eq_false_iff.2 habort) hseen heffect hw ?_).1
          rw [hpending, map_some, htoken]
      · cases hw'
        cases hpending'
  | provisioned history hphase hw hgenesis loads hloads hrest =>
      rw [hphase] at hstands
      refine ⟨ho.journal, fun hnone => ?_, fun w' hw' => .inl ?_, fun w' pending' hw' hpending' => ?_⟩
      · cases hnone
      · cases hw'
        have hsame : history = s.shared.journal :=
          hstands.1.eq_of_length (hstands.2.trans (ho.genesis hw).symm)
        show h.head s.shared.journal = h.head history
        rw [hsame]
      · cases hw'
        cases hpending'

/-- Where the process that moves stands then. -/
theorem stands_self (hmove : Move h s.shared (s.processes p) o sh process) :
    Stands h sh process.phase := by
  have hstands := hs.stands p
  have ho := hs.honest
  cases hmove with
  | stop hrest | loaded _ _ _ _ _ hrest => rw [hrest]; trivial
  | settled c w pending confirmed returned loads hphase hseen heffect hw hpending htoken hconfirmed
      hreturned hloads hrest => rw [hrest]; trivial
  | provisioned history hphase hw hgenesis loads hloads hrest => rw [hrest]; trivial
  | prepared i w hphase hw hhead hfree hrest =>
      rcases hrest with hrest | hrest
      · rw [hrest]
        refine ⟨by rw [hhead], ?_⟩
        rcases ho.head w hw with hconfirmed | ⟨pending, hpending, -⟩
        · exact hconfirmed.trans hhead
        · cases hfree.symm.trans hpending
      · rw [hrest]
        trivial
  | unwritten i hphase hrest =>
      rw [hrest]
      trivial
  | written i hphase hlength hrest =>
      rcases hrest with hrest | hrest
      · rw [hrest]
        rw [hphase] at hstands
        obtain ⟨hw, hhead⟩ := hstands
        refine ⟨hs.tokens.drawn p i (by rw [hphase]; rfl), fun _ w' pending hw' hpending _ => ?_⟩
        cases hw.symm.trans hw'
        cases hpending
        show h.head (s.shared.journal ++ [i.changed]) = i.next h
        rw [Hashing.head_append ho.journal, hhead]
        rfl
      · rw [hrest]
        trivial
  | recovered i commit hphase hhead hrest =>
      rw [hrest]
      refine ⟨hs.tokens.drawn p i (by rw [hphase]; rfl), fun hcommit w pending hw hpending htoken => ?_⟩
      obtain ⟨rfl, -⟩ := hs.linked p i (by rw [hphase]; rfl) w pending hw hpending htoken
      exact (hhead hcommit).2
  | seen c w hphase hw htoken hrest =>
      rw [hrest]
      rw [hphase] at hstands
      exact hstands
  | pending history w pending commit hphase hw hpending hhead hrest =>
      rw [hrest]
      rw [hphase] at hstands
      refine ⟨ho.pending w pending hw hpending, fun hcommit w' pending' hw' hpending' _ => ?_⟩
      cases hw.symm.trans hw'
      cases hpending.symm.trans hpending'
      have hread := hhead hcommit
      rcases ho.head w hw with hconfirmed | ⟨pending', hpending', hhead'⟩
      · -- The journal cannot be behind what was read of it.
        exfalso
        have hrevision := (hs.sound.certified.pending w pending hw hpending).1
        have hlength : history.length - 1 = pending.revision := congrArg Prod.fst hread
        have hjournal : s.shared.journal.length - 1 = w.confirmed.1 := congrArg Prod.fst hconfirmed
        have hle := hstands.length_le
        omega
      · cases hpending.symm.trans hpending'
        exact hhead'
  | absent history hphase hw hgenesis hrest =>
      rw [hrest]
      rw [hphase] at hstands
      exact ⟨hstands, hgenesis⟩

/-- Where the others stand then. -/
theorem stands_other (hclear : Clear h s p o) (hmove : Move h s.shared (s.processes p) o sh process)
    {q : ℕ} (hq : q ≠ p) : Stands h sh (s.processes q).phase := by
  have hstands := hs.stands p
  have hother := hs.stands q
  have ho := hs.honest
  cases hmove with
  | stop | unwritten | recovered | seen | pending | absent => exact hother
  | loaded =>
      cases hphase : (s.processes q).phase <;> rw [hphase] at hother <;> exact hother
  | prepared i w hphase hw hhead hfree hrest =>
      have hi : (s.processes p).phase.intent = some i := by rw [hphase]; rfl
      cases hphase' : (s.processes q).phase with
      | idle | recover => trivial
      | prepare j =>
          intro w' pending hw' hpending htoken
          cases hw'
          cases hpending
          exact hq (hs.tokens.own q p j i (by rw [hphase']; rfl) hi htoken.symm)
      | write j =>
          rw [hphase'] at hother
          cases hw.symm.trans hother.1
          cases hfree
      | settle c =>
          rw [hphase'] at hother
          refine ⟨hother.1, fun _ w' pending hw' hpending htoken => ?_⟩
          cases hw'
          cases hpending
          exact absurd htoken.symm (hs.apart p q i c hphase hphase')
      | witness history | genesis history =>
          rw [hphase'] at hother
          exact hother
  | written i hphase hlength hrest =>
      rw [hphase] at hstands
      obtain ⟨hw, hhead⟩ := hstands
      cases hphase' : (s.processes q).phase with
      | idle | recover => trivial
      | prepare j =>
          rw [hphase'] at hother
          exact hother
      | write j =>
          rw [hphase'] at hother
          have hboth : some (i.pending h) = some (j.pending h) :=
            congrArg State.pending (Option.some.inj (hw.symm.trans hother.1))
          have htoken : i.token = j.token := congrArg Pending.token (Option.some.inj hboth)
          exact absurd (hs.tokens.own p q i j (by rw [hphase]; rfl) (by rw [hphase']; rfl) htoken).symm
            hq
      | settle c =>
          rw [hphase'] at hother
          refine ⟨hother.1, fun hcommit w' pending hw' hpending htoken => ?_⟩
          have hpending_head := hother.2 hcommit w' pending hw' hpending htoken
          cases hw.symm.trans hw'
          cases hpending
          have hrevision : i.head.1 = i.head.1 + 1 :=
            congrArg Prod.fst (hhead.symm.trans hpending_head)
          omega
      | witness history =>
          rw [hphase'] at hother
          exact hother.trans (prefix_append _ _)
      | genesis history =>
          rw [hphase'] at hother
          exact ⟨hother.1.trans (prefix_append _ _), hother.2⟩
  | settled c w pending confirmed returned loads hphase hseen heffect hw hpending htoken hconfirmed
      hreturned hloads hrest =>
      cases hphase' : (s.processes q).phase with
      | idle | recover => trivial
      | prepare j =>
          intro w' pending' hw' hpending'
          cases hw'
          cases hpending'
      | write j =>
          -- The writer's intent is neither confirmed nor aborted.
          exfalso
          rw [hphase'] at hother
          rw [hphase] at hstands
          obtain ⟨hjw, hjhead⟩ := hother
          cases hw.symm.trans hjw
          cases hpending
          cases hcommit : c.commit with
          | true =>
              have hhead := hstands.2 hcommit _ _ hw rfl htoken
              have hrevision : j.head.1 = j.head.1 + 1 := congrArg Prod.fst (hjhead.symm.trans hhead)
              omega
          | false =>
              have hquiet := (hclear c _ hphase hcommit hseen heffect hw (by
                rw [← htoken]; rfl)).2 q j hphase'
              exact hquiet htoken
      | settle c' =>
          rw [hphase'] at hother
          refine ⟨hother.1, fun _ w' pending' hw' hpending' => ?_⟩
          cases hw'
          cases hpending'
      | witness history | genesis history =>
          rw [hphase'] at hother
          exact hother
  | provisioned history hphase hw hgenesis loads hloads hrest =>
      cases hphase' : (s.processes q).phase with
      | idle | recover => trivial
      | prepare j =>
          intro w' pending' hw' hpending'
          cases hw'
          cases hpending'
      | write j =>
          rw [hphase'] at hother
          cases hw.symm.trans hother.1
      | settle c' =>
          rw [hphase'] at hother
          refine ⟨hother.1, fun _ w' pending' hw' hpending' => ?_⟩
          cases hw'
          cases hpending'
      | witness history | genesis history =>
          rw [hphase'] at hother
          exact hother

/-- Nobody is about to settle what another is only about to say. -/
theorem apart_move (hmove : Move h s.shared (s.processes p) o sh process) (q r : ℕ)
    (i : Intent Digest Content) (c : Settling Digest Content)
    (hprepare : ((s.set sh p process).processes q).phase = .prepare i)
    (hsettle : ((s.set sh p process).processes r).phase = .settle c) : c.token ≠ i.token := by
  -- No step leaves a process before its `prepare`.
  have hq : q ≠ p := by
    rintro rfl
    rw [s.set_same] at hprepare
    cases hmove with
    | stop hrest | unwritten _ _ hrest | loaded _ _ _ _ _ hrest | absent _ _ _ _ hrest
    | recovered _ _ _ _ hrest | seen _ _ _ _ _ hrest | pending _ _ _ _ _ _ _ _ hrest =>
        cases hrest.symm.trans hprepare
    | prepared _ _ _ _ _ _ hrest | written _ _ _ hrest =>
        rcases hrest with hrest | hrest <;> cases hrest.symm.trans hprepare
    | settled _ _ _ _ _ _ _ _ _ _ _ _ _ _ _ hrest => cases hrest.symm.trans hprepare
    | provisioned _ _ _ _ _ _ hrest => cases hrest.symm.trans hprepare
  rw [s.set_other hq] at hprepare
  have hi : (s.processes q).phase.intent = some i := by rw [hprepare]; rfl
  by_cases hr : r = p
  · subst hr
    rw [s.set_same] at hsettle
    cases hmove with
    | stop hrest | unwritten _ _ hrest | loaded _ _ _ _ _ hrest | absent _ _ _ _ hrest =>
        cases hrest.symm.trans hsettle
    | settled _ _ _ _ _ _ _ _ _ _ _ _ _ _ _ hrest => cases hrest.symm.trans hsettle
    | provisioned _ _ _ _ _ _ hrest => cases hrest.symm.trans hsettle
    | prepared _ _ _ _ _ _ hrest => rcases hrest with hrest | hrest <;> cases hrest.symm.trans hsettle
    | written j hphase hlength hrest =>
        rcases hrest with hrest | hrest
        · cases hrest.symm.trans hsettle
          exact fun htoken => hq (hs.tokens.own r q j i (by rw [hphase]; rfl) hi htoken).symm
        · cases hrest.symm.trans hsettle
    | recovered j commit hphase hhead hrest =>
        cases hrest.symm.trans hsettle
        exact fun htoken => hq (hs.tokens.own r q j i (by rw [hphase]; rfl) hi htoken).symm
    | seen c' w hphase hw htoken hrest =>
        cases hrest.symm.trans hsettle
        exact hs.apart q r i c' hprepare hphase
    | pending history w pending commit hphase hw hpending hhead hrest =>
        cases hrest.symm.trans hsettle
        have hstands := hs.stands q
        rw [hprepare] at hstands
        exact hstands w pending hw hpending
  · rw [s.set_other hr] at hsettle
    exact hs.apart q r i c hprepare hsettle

/-- **A step that is undisturbed.** -/
theorem move (hclear : Clear h s p o) (hmove : Move h s.shared (s.processes p) o sh process)
    (hsound : Sound h (s.set sh p process)) : Steady h (s.set sh p process) := by
  have htokens : sh.tokens = s.shared.tokens := by
    cases hmove <;> rfl
  refine ⟨hsound, hs.honest_move hclear hmove, hs.tokens.set htokens.ge hmove.keeps.1,
    fun q j hj => ?_, fun q => ?_, hs.apart_move hmove⟩
  · -- An append that is under way was under way before.
    have hwas : (s.processes q).phase.intent = some j := by
      by_cases hq : q = p
      · subst hq
        rw [s.set_same] at hj
        rcases hmove.keeps.1 with hnone | hsame
        · cases hnone.symm.trans hj
        · exact hsame.symm.trans hj
      · rwa [s.set_other hq] at hj
    refine hmove.linked (hs.linked q j hwas) fun i hi htoken => ?_
    have hpq := hs.tokens.own p q i j hi hwas htoken
    subst hpq
    exact Option.some.inj (hi.symm.trans hwas)
  · by_cases hq : q = p
    · subst hq
      rw [s.set_same]
      exact hs.stands_self hmove
    · rw [s.set_other hq]
      exact hs.stands_other hclear hmove hq

/-- A process that stands elsewhere, with what is shared as it was. -/
theorem elsewhere (hintent : process.phase.intent = none)
    (hsound : Sound h (s.set s.shared p process)) (hstands : Stands h s.shared process.phase)
    (hprepare : ∀ i, process.phase ≠ .prepare i) (hsettle : ∀ c, process.phase ≠ .settle c) :
    Steady h (s.set s.shared p process) := by
  refine ⟨hsound, hs.honest, hs.tokens.set le_rfl (.inl hintent), fun q j hj => ?_, fun q => ?_,
    fun q r i c hq hr => ?_⟩
  · by_cases hq : q = p
    · subst hq
      rw [s.set_same] at hj
      cases hintent.symm.trans hj
    · rw [s.set_other hq] at hj
      exact hs.linked q j hj
  · by_cases hq : q = p
    · subst hq
      rw [s.set_same]
      exact hstands
    · rw [s.set_other hq]
      exact hs.stands q
  · by_cases hqp : q = p
    · subst hqp
      rw [s.set_same] at hq
      exact absurd hq (hprepare i)
    · by_cases hrp : r = p
      · subst hrp
        rw [s.set_same] at hr
        exact absurd hr (hsettle c)
      · rw [s.set_other hqp] at hq
        rw [s.set_other hrp] at hr
        exact hs.apart q r i c hq hr

/-- A process that draws a token. -/
theorem draw {head : ℕ × Digest}
    (hsound : Sound h (s.set { s.shared with tokens := s.shared.tokens + 1 } p
      ((s.processes p).to (.prepare ⟨s.shared.tokens, head, changed⟩)))) :
    Steady h (s.set { s.shared with tokens := s.shared.tokens + 1 } p
      ((s.processes p).to (.prepare ⟨s.shared.tokens, head, changed⟩))) := by
  have ho := hs.honest
  have hfresh : ∀ w pending, s.shared.witness = some w → w.pending = some pending →
      pending.token ≠ s.shared.tokens := fun w pending hw hpending =>
    (ho.pending w pending hw hpending).ne
  refine ⟨hsound, ⟨ho.journal, ho.genesis, ho.head, fun w pending hw hpending =>
    (ho.pending w pending hw hpending).trans (Nat.lt_succ_self _)⟩, hs.tokens.draw,
    fun q j hj => ?_, fun q => ?_, fun q r i c hq hr => ?_⟩
  · by_cases hq : q = p
    · subst hq
      rw [s.set_same] at hj
      cases hj
      exact fun w pending hw hpending htoken => absurd htoken (hfresh w pending hw hpending)
    · rw [s.set_other hq] at hj
      exact hs.linked q j hj
  · by_cases hq : q = p
    · subst hq
      rw [s.set_same]
      exact hfresh
    · rw [s.set_other hq]
      have hstands := hs.stands q
      cases hphase : (s.processes q).phase with
      | idle | recover => trivial
      | prepare | write | witness | genesis =>
          rw [hphase] at hstands
          exact hstands
      | settle c =>
          rw [hphase] at hstands
          exact ⟨hstands.1.trans (Nat.lt_succ_self _), hstands.2⟩
  · by_cases hrp : r = p
    · subst hrp
      rw [s.set_same] at hr
      cases hr
    · rw [s.set_other hrp] at hr
      by_cases hqp : q = p
      · subst hqp
        rw [s.set_same] at hq
        cases hq
        have hstands := hs.stands r
        rw [hr] at hstands
        exact hstands.1.ne
      · rw [s.set_other hqp] at hq
        exact hs.apart q r i c hq hr

end

/-- **Every undisturbed action keeps the invariant.** -/
theorem step [DecidableEq Digest] (hfree : h.CollisionFree) (hs : Steady h s) {a : Action Content}
    (ha : Undisturbed h s a) : Steady h ((witnessed h).step s a) := by
  have hsound := (hs.sound.step hfree a).1
  cases a with
  | load p o =>
      change Sound h (s.set s.shared p (beginLoad s.shared (s.processes p) o)) at hsound
      show Steady h (s.set s.shared p (beginLoad s.shared (s.processes p) o))
      rcases beginLoad_cases s.shared (s.processes p) o with hsame | ⟨hne, hphase, hread⟩
      · rw [hsame]
        rw [hsame] at hsound
        have hself : s.set s.shared p (s.processes p) = s := by
          unfold System.set
          rw [Function.update_eq_self]
        rw [hself]
        exact hs
      · rw [hread] at hsound ⊢
        refine hs.elsewhere rfl hsound (prefix_refl _) (fun i hi => ?_) fun c hc => ?_
        · cases hi
        · cases hc
  | append p expected next changed =>
      change Sound h (s.set (beginAppend s.shared (s.processes p) expected next changed).1 p
        (beginAppend s.shared (s.processes p) expected next changed).2) at hsound
      show Steady h (s.set (beginAppend s.shared (s.processes p) expected next changed).1 p
        (beginAppend s.shared (s.processes p) expected next changed).2)
      rcases beginAppend_cases s.shared (s.processes p) expected next changed with hsame |
        ⟨head, -, hdrawn⟩
      · rw [hsame]
        have hself : s.set s.shared p (s.processes p) = s := by
          unfold System.set
          rw [Function.update_eq_self]
        rw [hself]
        exact hs
      · rw [hdrawn] at hsound ⊢
        exact hs.draw hsound
  | proceed p o => exact hs.move ha (proceed_move s.shared (s.processes p) o) hsound
  | restart p provisionGenesis =>
      refine hs.elsewhere rfl hsound trivial (fun i hi => ?_) fun c hc => ?_
      · cases hi
      · cases hc
  | tamper journal => exact ha.elim

end Steady

theorem steady_new (genesis : Content) : Steady h (.new genesis) := by
  refine ⟨sound_new genesis, ⟨cons_ne_nil _ _, fun _ => rfl, fun w hw => ?_,
    fun w pending hw => ?_⟩, ⟨fun p i hi => ?_, fun p q i j hi => ?_⟩, fun p i hi => ?_,
    fun p => trivial, fun p q i c hq => ?_⟩
  · cases hw
  · cases hw
  · cases hi
  · cases hi
  · cases hi
  · cases hq

/-- Whether an action is neither an abort nor a replacement of the journal. -/
def abortsNothing (s : System Digest Content) : Action Content → Bool
  | .proceed p _ => match (s.processes p).phase with
    | .settle c => c.commit
    | _ => true
  | .tamper _ => false
  | _ => true

theorem undisturbed_of_abortsNothing (s : System Digest Content) (a : Action Content)
    (ha : abortsNothing s a = true) : Undisturbed h s a := by
  cases a with
  | proceed p o =>
      intro c w hphase habort
      unfold abortsNothing at ha
      dsimp only at ha
      rw [hphase] at ha
      cases ha.symm.trans habort
  | tamper journal => cases ha
  | load | append | restart => trivial

/-! ## A fresh load -/

variable [DecidableEq Digest]

/-- Three steps of one process. -/
def proceedThrice (h : Hashing Digest Content) (sh : Shared Digest Content)
    (p : Process Digest Content) : Shared Digest Content × Process Digest Content :=
  let (sh, p) := proceed h sh p .done
  let (sh, p) := proceed h sh p .done
  proceed h sh p .done

/-- What a fresh process does to load, with the witness within reach. -/
def freshLoad (p : ℕ) (provisionGenesis : Bool) : List (Action Content) :=
  [.restart p provisionGenesis, .load p .done, .proceed p .done, .proceed p .done, .proceed p .done]

/-- The state once a process has begun to load. -/
def loading (sh : Shared Digest Content) (provisionGenesis : Bool) : Process Digest Content :=
  (Process.fresh provisionGenesis).to (.witness sh.journal)

theorem proceed_idle (sh : Shared Digest Content) {p : Process Digest Content}
    (hp : p.phase = .idle) (o : Outcome) : proceed h sh p o = (sh, p) := by
  unfold proceed
  rw [hp]

theorem freshLoad_eq {s : System Digest Content} (hne : s.shared.journal ≠ []) (p : ℕ)
    (provisionGenesis : Bool) :
    (freshLoad p provisionGenesis).foldl (witnessed h).step s =
      s.set (proceedThrice h s.shared (loading s.shared provisionGenesis)).1 p
        (proceedThrice h s.shared (loading s.shared provisionGenesis)).2 := by
  have hproceed : ∀ (sh : Shared Digest Content) (process : Process Digest Content),
      (witnessed h).step (s.set sh p process) (.proceed p .done) =
        s.set (proceed h sh process .done).1 p (proceed h sh process .done).2 := by
    intro sh process
    show (s.set sh p process).set (proceed h sh ((s.set sh p process).processes p) .done).1 p
      (proceed h sh ((s.set sh p process).processes p) .done).2 = _
    rw [s.set_same]
    unfold System.set
    rw [Function.update_idem]
  have hload : (witnessed h).step (s.set s.shared p (.fresh provisionGenesis)) (.load p .done) =
      s.set s.shared p (loading s.shared provisionGenesis) := by
    show (s.set s.shared p (.fresh provisionGenesis)).set s.shared p (beginLoad s.shared
      ((s.set s.shared p (.fresh provisionGenesis)).processes p) .done) = _
    rw [s.set_same]
    unfold System.set
    rw [Function.update_idem]
    unfold beginLoad
    rw [if_neg]
    · rfl
    · rintro (hfault | hdone | hnil)
      · cases hfault
      · exact hdone rfl
      · exact hne hnil
  show (witnessed h).step ((witnessed h).step ((witnessed h).step ((witnessed h).step
    (s.set s.shared p (.fresh provisionGenesis)) (.load p .done)) (.proceed p .done))
      (.proceed p .done)) (.proceed p .done) = _
  rw [hload, hproceed, hproceed, hproceed]
  rfl

/-- A load whose journal is at the confirmed head. -/
theorem finishLoad_done {sh : Shared Digest Content} {process : Process Digest Content}
    {history : List Content} {w : State Digest} (hhead : h.head history = w.confirmed) :
    (finishLoad h sh process history w).2.loaded = true ∧
      (finishLoad h sh process history w).2.phase = .idle ∧
      (finishLoad h sh process history w).1.witness = sh.witness ∧
      (finishLoad h sh process history w).1.journal = sh.journal := by
  unfold finishLoad
  rw [if_pos hhead]
  exact ⟨rfl, rfl, rfl, rfl⟩

/-- A load that settles what is pending the right way. -/
theorem settle_done {sh : Shared Digest Content} {process : Process Digest Content}
    {w : State Digest} {pending : Pending Digest} {commit : Bool} (hw : sh.witness = some w)
    (hpending : w.pending = some pending)
    (hhead : h.head sh.journal = if commit then (pending.revision, pending.digest) else w.confirmed) :
    let c : Settling Digest Content := ⟨commit, pending.token, none, .load sh.journal⟩
    let (sh', process') := proceed h sh (process.to (.settle c)) .done
    let (sh', process') := proceed h sh' process' .done
    process'.loaded = true ∧ sh'.witness = some ⟨h.head sh.journal, none⟩ ∧
      sh'.journal = sh.journal := by
  have hread : Provider.pendingWith sh.witness pending.token = some w := by
    unfold Provider.pendingWith
    rw [hw, filter_some, hpending, map_some, decide_eq_true rfl]
    rfl
  have hupdate : Settling.update (⟨commit, pending.token, some w, .load sh.journal⟩ :
      Settling Digest Content) sh.witness w = .ok ⟨h.head sh.journal, none⟩ := by
    unfold Settling.update
    rw [hhead, hw]
    cases commit with
    | true =>
        unfold Provider.confirm
        rw [if_pos rfl, hpending]
        exact if_pos hpending
    | false =>
        unfold Provider.abort
        rw [if_neg Bool.false_ne_true]
        exact if_pos ⟨by rw [hpending]; rfl, rfl⟩
  have hfirst : proceed h sh (process.to (.settle ⟨commit, pending.token, none, .load sh.journal⟩))
      .done = (sh, process.to (.settle ⟨commit, pending.token, some w, .load sh.journal⟩)) := by
    unfold proceed Process.to
    dsimp only
    rw [hread]
  have hsecond : proceed h sh
      (process.to (.settle ⟨commit, pending.token, some w, .load sh.journal⟩)) .done =
      finishLoad h { sh with witness := some ⟨h.head sh.journal, none⟩ }
        (process.to (.settle ⟨commit, pending.token, some w, .load sh.journal⟩)) sh.journal
        ⟨h.head sh.journal, none⟩ := by
    unfold proceed Process.to
    dsimp only
    rw [hupdate]
    rfl
  dsimp only
  rw [hfirst]
  dsimp only
  rw [hsecond]
  obtain ⟨hloaded, -, hwitness, hjournal⟩ := @finishLoad_done _ _ h _
    { sh with witness := some ⟨h.head sh.journal, none⟩ }
    (process.to (.settle ⟨commit, pending.token, some w, .load sh.journal⟩)) sh.journal
    ⟨h.head sh.journal, none⟩ rfl
  exact ⟨hloaded, hwitness, hjournal⟩

/-- **A fresh load brings journal and witness together.** -/
theorem Honest.fresh_load {s : System Digest Content} (ho : Honest h s.shared) (p : ℕ)
    {provisionGenesis : Bool} (hwitness : provisionGenesis = true ∨ s.shared.witness ≠ none) :
    (((freshLoad p provisionGenesis).foldl (witnessed h).step s).processes p).loaded = true ∧
      ((freshLoad p provisionGenesis).foldl (witnessed h).step s).shared.witness =
        some ⟨h.head s.shared.journal, none⟩ ∧
      ((freshLoad p provisionGenesis).foldl (witnessed h).step s).shared.journal =
        s.shared.journal := by
  rw [freshLoad_eq ho.journal, s.set_same]
  show (proceedThrice h s.shared (loading s.shared provisionGenesis)).2.loaded = true ∧
    (proceedThrice h s.shared (loading s.shared provisionGenesis)).1.witness = _ ∧
    (proceedThrice h s.shared (loading s.shared provisionGenesis)).1.journal = _
  -- A process that is through with its load does no more.
  have hthrough : ∀ (sh : Shared Digest Content) (process : Process Digest Content),
      process.phase = .idle → proceed h (proceed h sh process .done).1
        (proceed h sh process .done).2 .done = (sh, process) := by
    intro sh process hidle
    rw [proceed_idle sh hidle, proceed_idle sh hidle]
  unfold proceedThrice
  cases hw : s.shared.witness with
  | none =>
      have hprovision : provisionGenesis = true := hwitness.resolve_right fun hsome => hsome hw
      have hlength := ho.genesis hw
      have hgenesis : proceed h s.shared (loading s.shared provisionGenesis) .done =
          (s.shared, (Process.fresh provisionGenesis).to (.genesis s.shared.journal)) := by
        unfold proceed loading Process.to
        dsimp only
        rw [if_neg (by decide), hw]
        exact if_pos ⟨hprovision, hlength⟩
      have hput : Provider.provision s.shared.witness (h.head s.shared.journal) =
          .ok ⟨h.head s.shared.journal, none⟩ := by
        unfold Provider.provision
        rw [hw]
        refine if_neg (not_not.2 ?_)
        show s.shared.journal.length - 1 = 0
        rw [hlength]
      have hloads : proceed h s.shared
          ((Process.fresh provisionGenesis).to (.genesis s.shared.journal)) .done =
          finishLoad h { s.shared with witness := some ⟨h.head s.shared.journal, none⟩ }
            { (Process.fresh provisionGenesis).to (.genesis s.shared.journal) with
              provisionGenesis := false } s.shared.journal ⟨h.head s.shared.journal, none⟩ := by
        unfold proceed Process.to
        dsimp only
        rw [hput]
        rfl
      rw [hgenesis]
      dsimp only
      rw [hloads]
      obtain ⟨hloaded, hidle, hwitness, hjournal⟩ := @finishLoad_done _ _ h _
        { s.shared with witness := some ⟨h.head s.shared.journal, none⟩ }
        { (Process.fresh provisionGenesis).to (.genesis s.shared.journal) with
          provisionGenesis := false } s.shared.journal ⟨h.head s.shared.journal, none⟩ rfl
      rw [proceed_idle _ hidle]
      exact ⟨hloaded, hwitness, hjournal⟩
  | some w =>
      have hreads : proceed h s.shared (loading s.shared provisionGenesis) .done =
          reconcile h s.shared (loading s.shared provisionGenesis) s.shared.journal w := by
        unfold proceed loading Process.to
        dsimp only
        rw [if_neg (by decide), hw]
      rw [hreads]
      unfold reconcile
      cases hpending : w.pending with
      | none =>
          have hhead : h.head s.shared.journal = w.confirmed := by
            rcases ho.head w hw with hconfirmed | ⟨pending, hsome, -⟩
            · exact hconfirmed
            · cases hpending.symm.trans hsome
          obtain ⟨hloaded, hidle, hwitness', hjournal⟩ := @finishLoad_done _ _ h _ s.shared
            (loading s.shared provisionGenesis) s.shared.journal w hhead
          dsimp only
          rw [hthrough _ _ hidle]
          refine ⟨hloaded, ?_, hjournal⟩
          rw [hwitness', hw, hhead, ← hpending]
      | some pending =>
          dsimp only
          by_cases hhead : h.head s.shared.journal = w.confirmed
          · rw [if_pos hhead]
            exact settle_done hw hpending (by rw [if_neg Bool.false_ne_true]; exact hhead)
          · rw [if_neg hhead]
            have hahead : h.head s.shared.journal = (pending.revision, pending.digest) := by
              rcases ho.head w hw with hconfirmed | ⟨pending', hsome, hhead'⟩
              · exact absurd hconfirmed hhead
              · cases hpending.symm.trans hsome
                exact hhead'
            rw [if_pos hahead]
            exact settle_done hw hpending (by rw [if_pos rfl]; exact hahead)

/-- **The external revision witness.**  In every run the confirmed revision never decreases, and
every journal that a load returns holds every append that had returned.  In a run in which
nothing is aborted under a writer, a load by a fresh process succeeds, whatever state was
reached, and leaves the witness at the head of the journal with nothing pending. -/
theorem witness_sound (hfree : h.CollisionFree) (genesis : Content) {s : System Digest Content} :
    ((witnessed h).Run Machine.Any (.new genesis) s →
      (∀ a, s.confirmed ≤ ((witnessed h).step s a).confirmed) ∧
        ∀ l ∈ s.shared.loads, ∀ x ∈ l.returned, l.history[x.1]? = some x.2) ∧
    ((witnessed h).Run (Undisturbed h) (.new genesis) s → ∀ p provisionGenesis,
      provisionGenesis = true ∨ s.shared.witness ≠ none →
      (((freshLoad p provisionGenesis).foldl (witnessed h).step s).processes p).loaded = true ∧
        ((freshLoad p provisionGenesis).foldl (witnessed h).step s).shared.witness =
          some ⟨h.head s.shared.journal, none⟩ ∧
        ((freshLoad p provisionGenesis).foldl (witnessed h).step s).shared.journal =
          s.shared.journal) := by
  refine ⟨fun hrun => ?_, fun hrun p provisionGenesis hwitness => ?_⟩
  · have hsound : Sound h s := hrun.invariant (fun s a _ hs => (hs.step hfree a).1)
      (sound_new genesis)
    exact ⟨fun a => (hsound.step hfree a).2, hsound.certified.loads⟩
  · have hsteady : Steady h s := hrun.invariant (fun s a ha hs => hs.step hfree ha)
      (steady_new genesis)
    exact hsteady.honest.fresh_load p hwitness

/-- A chain that is its own digest. -/
def listing : Hashing (List (ℕ × ℕ)) ℕ := ⟨[], fun d r v => d ++ [(r, v)]⟩

theorem listing_free : listing.CollisionFree := by
  refine ⟨fun d r v d' r' v' heq => ?_⟩
  obtain ⟨hd, hlast⟩ := append_inj' heq rfl
  exact ⟨hd, (Prod.mk.inj (List.singleton_inj.1 hlast)).2⟩

/-- A process provisions the witness. -/
def provisioning : List (Action ℕ) :=
  [.restart 0 true, .load 0 .done, .proceed 0 .done, .proceed 0 .done]

/-- It appends a revision, up to the end. -/
def appending : List (Action ℕ) :=
  [.append 0 0 1 7, .proceed 0 .done, .proceed 0 .done, .proceed 0 .done, .proceed 0 .done]

theorem witness_sound_appended :
    (((freshLoad 1 false).foldl (witnessed listing).step
      ((provisioning ++ appending).foldl (witnessed listing).step (.new 5))).processes 1).loaded =
        true :=
  ((witness_sound listing_free 5).2
    (.ofWalk undisturbed_of_abortsNothing (by decide +kernel)) 1 false (.inr (by decide +kernel))).1

/-- A process says what it is about to write, another one loads and takes it for gone, and then
the first one writes. -/
def overtaken : List (Action ℕ) :=
  [.append 0 0 1 7, .proceed 0 .done,
    .restart 1 false, .load 1 .done, .proceed 1 .done, .proceed 1 .done, .proceed 1 .done,
    .proceed 0 .done, .proceed 0 .done]

/-- The journal is ahead of its witness: no process can load it any more. -/
theorem overtaken_locked_out :
    let s := (provisioning ++ overtaken).foldl (witnessed listing).step (.new 5)
    s.shared.journal = [5, 7] ∧ s.confirmed = 0 ∧
      (((freshLoad 2 false).foldl (witnessed listing).step s).processes 2).loaded = false := by
  decide +kernel

end ArchHub.Witness

import ArchHub.Accounts.Credits

/-!
# Credits are conserved

In every order of the steps of any number of requests, what an actor consumed and what remains
of the grants is what was granted, and a billing event is credited at most once (`Books`).

That no grant goes below zero depends on the order: a request spends what it selected, whatever
was spent since.  It holds in exactly the runs in which every request that spends finds in each
row at least what it takes from it (`conserved_iff`).
-/

namespace ArchHub.Accounts

open Lib Service List

/-! ## What the answers and the ledger say -/

/-- What remains of the grants of an actor, expired or not. -/
def Ledger.remainingOf (l : Ledger) (a : Actor) : ℤ :=
  (l.grants.map fun g => if g.actor = a then g.remaining else 0).sum

/-- The credits an answer says were granted to an actor. -/
def grantedTo (a : Actor) : Request × Answer → ℤ
  | (.grantCredits q, .granted ..) => if billed q.userId q.companyId = some a then q.messages else 0
  | _ => 0

/-- The credits an answer says an actor consumed. -/
def consumedBy (a : Actor) : Request × Answer → ℤ
  | (.consumeCredit q, .consumed n ..) => if billed q.userId q.companyId = some a then n else 0
  | _ => 0

/-- The answer credits this billing event. -/
def creditsEvent (e : String) : Request × Answer → Bool
  | (.grantCredits q, .granted ..) => q.stripeEventId = some e
  | _ => false

/-- What was consumed and what remains is what was granted, and no event is credited twice. -/
structure Balanced (l : Ledger) (answered : List (Request × Answer)) : Prop where
  balanced : ∀ a, (answered.map (consumedBy a)).sum + l.remainingOf a
    = (answered.map (grantedTo a)).sum
  once : ∀ e, answered.countP (creditsEvent e) ≤ 1

/-- No grant is below zero. -/
def Ledger.Covered (l : Ledger) : Prop := ∀ g ∈ l.grants, 0 ≤ g.remaining

/-- The ledger and the answers are as they should be. -/
structure Conserved (l : Ledger) (answered : List (Request × Answer)) : Prop
    extends Balanced l answered where
  covered : l.Covered

/-! ## What a request takes -/

section Takes

variable {n : ℤ} {rows : List (ℕ × ℤ)}

theorem takes_sublist : ((takes n rows).map Prod.fst).Sublist (rows.map Prod.fst) := by
  induction rows generalizing n with
  | nil => exact List.Sublist.refl _
  | cons x rows ih =>
      unfold takes
      split
      · exact nil_sublist _
      · exact ih.cons_cons x.1

end Takes

namespace Ledger

variable {l : Ledger} {ts : List (ℕ × ℤ)} {t : ℕ × ℤ} {l' : Ledger} {g : Grant}

/-- Grants are told apart by their numbers, which are below the next one. -/
structure Numbered (l : Ledger) : Prop where
  nodup : (l.grants.map Grant.id).Nodup
  below : ∀ g ∈ l.grants, g.id < l.nextId

theorem drawAll_cons : l.drawAll (t :: ts)
    = drawAll ⟨Rows.update Grant.id t.1 (Grant.draw t.2) l.grants, l.nextId⟩ ts := rfl

/-- Any column but the credits that remain is as before. -/
theorem map_update {β : Type} (c : Grant → β) (hc : ∀ k g, c (Grant.draw k g) = c g) :
    (Rows.update Grant.id t.1 (Grant.draw t.2) l.grants).map c = l.grants.map c := by
  unfold Rows.update
  rw [map_map]
  refine map_congr_left fun g _ => ?_
  rw [Function.comp_apply]
  split
  · exact hc t.2 g
  · rfl

theorem map_drawAll {β : Type} (c : Grant → β) (hc : ∀ k g, c (Grant.draw k g) = c g) :
    (l.drawAll ts).grants.map c = l.grants.map c := by
  induction ts generalizing l with
  | nil => rfl
  | cons t ts ih => rw [drawAll_cons, ih, map_update c hc]

theorem Numbered.of_map_id (h : l.Numbered) (hids : l'.grants.map Grant.id = l.grants.map Grant.id)
    (hnext : l'.nextId = l.nextId) :
    l'.Numbered where
  nodup := hids ▸ h.nodup
  below g hg := by
    have hmem : g.id ∈ l.grants.map Grant.id := hids ▸ mem_map_of_mem hg
    obtain ⟨g', hg', heq⟩ := List.mem_map.1 hmem
    rw [hnext, ← heq]
    exact h.below g' hg'

theorem Numbered.drawAll (h : l.Numbered) : (l.drawAll ts).Numbered :=
  h.of_map_id (map_drawAll Grant.id fun _ _ => rfl) rfl

/-- The grants under these numbers are there and are one actor's. -/
def Owns (l : Ledger) (a : Actor) (ids : List ℕ) : Prop :=
  ∀ i ∈ ids, ∃ g ∈ l.grants, g.id = i ∧ g.actor = a

theorem Owns.of_map {a : Actor} {ids : List ℕ} (h : l.Owns a ids)
    (heq : l'.grants.map (fun g => (g.id, g.actor)) = l.grants.map fun g => (g.id, g.actor)) :
    l'.Owns a ids := by
  intro i hi
  obtain ⟨g, hg, rfl, rfl⟩ := h i hi
  have hmem : (g.id, g.actor) ∈ l'.grants.map fun g => (g.id, g.actor) :=
    heq ▸ mem_map_of_mem (f := fun g : Grant => (g.id, g.actor)) hg
  obtain ⟨g', hg', hpair⟩ := List.mem_map.1 hmem
  exact ⟨g', hg', congrArg Prod.fst hpair, congrArg Prod.snd hpair⟩

/-- **What is taken from an actor's grants is missing from what remains to it**, and
from nobody else. -/
theorem remainingOf_drawAll (h : l.Numbered) {a : Actor} (hown : l.Owns a (ts.map Prod.fst))
    (b : Actor) : (l.drawAll ts).remainingOf b = l.remainingOf b - if a = b then taken ts else 0 := by
  induction ts generalizing l with
  | nil => simp [drawAll, taken]
  | cons t ts ih =>
      obtain ⟨g, hg, hid, hactor⟩ := hown t.1 (by simp)
      let l' : Ledger := ⟨Rows.update Grant.id t.1 (Grant.draw t.2) l.grants, l.nextId⟩
      have hl' : l'.Numbered := h.of_map_id (map_update Grant.id fun _ _ => rfl) rfl
      have hown' : l'.Owns a (ts.map Prod.fst) := by
        refine Owns.of_map (fun i hi => hown i ?_) (map_update _ fun _ _ => rfl)
        rw [map_cons]
        exact mem_cons_of_mem _ hi
      have hone : l'.remainingOf b = l.remainingOf b - if a = b then t.2 else 0 := by
        have hsum := Rows.sum_update h.nodup hg (Grant.draw t.2)
          fun g => if g.actor = b then g.remaining else 0
        rw [hid] at hsum
        refine hsum.trans ?_
        have hdraw : (Grant.draw t.2 g).actor = g.actor := rfl
        rw [hdraw, hactor]
        unfold remainingOf
        split
        · show _ + (g.remaining - t.2 - g.remaining) = _
          ring
        · ring
      rw [drawAll_cons, ih hl' hown', hone]
      unfold taken
      rw [map_cons, sum_cons]
      split <;> ring

/-- A row after the updates of all rows. -/
def drawn (ts : List (ℕ × ℤ)) (g : Grant) : Grant :=
  ts.foldl (fun g t => if g.id = t.1 then g.draw t.2 else g) g

theorem grants_drawAll : (l.drawAll ts).grants = l.grants.map (drawn ts) := by
  induction ts generalizing l with
  | nil => exact l.grants.map_id.symm
  | cons t ts ih =>
      rw [drawAll_cons, ih]
      exact map_map

theorem drawn_of_notMem (h : g.id ∉ ts.map Prod.fst) : drawn ts g = g := by
  induction ts with
  | nil => rfl
  | cons t ts ih =>
      rw [map_cons, mem_cons, not_or] at h
      show drawn ts (if g.id = t.1 then g.draw t.2 else g) = g
      rw [if_neg h.1]
      exact ih h.2

/-- From a row is taken what is to be taken from it. -/
theorem drawn_of_mem (hts : (ts.map Prod.fst).Nodup) (ht : t ∈ ts) (hg : g.id = t.1) :
    drawn ts g = g.draw t.2 := by
  induction ts with
  | nil => cases ht
  | cons x ts ih =>
      obtain ⟨hx, hrest⟩ := List.nodup_cons.1 hts
      show drawn ts (if g.id = x.1 then g.draw x.2 else g) = g.draw t.2
      rcases List.mem_cons.1 ht with rfl | hmem
      · rw [if_pos hg]
        apply drawn_of_notMem
        show g.id ∉ ts.map Prod.fst
        rw [hg]
        exact hx
      · have hne : g.id ≠ x.1 := fun heq => hx (List.mem_map.2 ⟨t, hmem, hg.symm.trans heq⟩)
        rw [if_neg hne]
        exact ih hrest hmem

/-- Each row holds at least what is to be taken from it. -/
def Holds (l : Ledger) (ts : List (ℕ × ℤ)) : Prop :=
  ∀ t ∈ ts, ∀ g ∈ l.grants, g.id = t.1 → t.2 ≤ g.remaining

instance : Decidable (l.Holds ts) := inferInstanceAs (Decidable (∀ t ∈ ts, ∀ g ∈ l.grants, _))

/-- **Taking from rows that are not below zero leaves none below zero, if and only
if each of them holds what is taken.** -/
theorem covered_drawAll (h : l.Covered) (hts : (ts.map Prod.fst).Nodup) :
    (l.drawAll ts).Covered ↔ l.Holds ts := by
  unfold Covered
  rw [grants_drawAll]
  constructor
  · intro hall t ht g hg hid
    have hrow := hall _ (mem_map_of_mem hg)
    rw [drawn_of_mem hts ht hid] at hrow
    have hleft : 0 ≤ g.remaining - t.2 := hrow
    omega
  · intro hholds g' hg'
    obtain ⟨g, hg, rfl⟩ := List.mem_map.1 hg'
    by_cases hmem : g.id ∈ ts.map Prod.fst
    · obtain ⟨t, ht, heq⟩ := List.mem_map.1 hmem
      rw [drawn_of_mem hts ht heq.symm]
      have hle := hholds t ht g hg heq.symm
      show 0 ≤ g.remaining - t.2
      omega
    · rw [drawn_of_notMem hmem]
      exact h g hg

end Ledger

/-! ## What one step does -/

/-- What a request under way goes by. -/
def Sound (l : Ledger) : Request → Phase → Prop
  | .grantCredits q, .insert a => billed q.userId q.companyId = some a ∧ 0 < q.messages
  | .consumeCredit q, .spend a rows => billed q.userId q.companyId = some a ∧
      (rows.map Prod.fst).Nodup ∧ l.Owns a (rows.map Prod.fst)
  | .grantCredits _, .duplicate _ => True
  | _, .called => True
  | _, _ => False

/-- An answer that neither grants nor consumes. -/
def Idle (x : Request × Answer) : Prop :=
  (∀ a, grantedTo a x = 0) ∧ (∀ a, consumedBy a x = 0) ∧ ∀ e, creditsEvent e x = false

/-- A request that has selected what it is to spend. -/
def Phase.spending : Phase → Bool
  | .spend .. => true
  | _ => false

/-- What one step does: it leaves the ledger as it is, or inserts a grant, or draws
on the rows it selected. -/
inductive Effect (l : Ledger) : Request → Phase → Ledger → Phase ⊕ Answer → Prop where
  | quiet {r p out} (hp : p.spending = false) (hout : ∀ x ∈ answers r out, Idle x)
      (hnext : ∀ q, out = .inl q → Sound l r q) : Effect l r p l out
  | inserted {q p a b x} (hbilled : billed q.userId q.companyId = some a) (hpos : 0 < q.messages)
      (hevent : l.hasEvent q.stripeEventId = false) :
      Effect l (.grantCredits q) p ⟨l.grants ++ [q.row a l.nextId], l.nextId + 1⟩
        (.inr (.granted b x q.messages))
  | spent {q a rows b x} (hbilled : billed q.userId q.companyId = some a)
      (hnodup : (rows.map Prod.fst).Nodup) (hown : l.Owns a (rows.map Prod.fst)) :
      Effect l (.consumeCredit q) (.spend a rows) (l.drawAll (takes q.n rows))
        (.inr (.consumed (taken (takes q.n rows)) b x))

theorem insertGrant_effect {q : GrantArgs} {p : Phase} {a : Actor} {l : Ledger}
    (hp : p.spending = false) (hbilled : billed q.userId q.companyId = some a)
    (hpos : 0 < q.messages) :
    Effect l (.grantCredits q) p (insertGrant q a l).1 (insertGrant q a l).2 := by
  unfold insertGrant
  split
  · refine .quiet hp (fun x hx => ?_) fun _ h => by cases h
    obtain rfl := List.mem_singleton.1 hx
    exact ⟨fun _ => rfl, fun _ => rfl, fun _ => rfl⟩
  · rename_i hevent
    exact .inserted hbilled hpos (by simpa using hevent)

variable {now : ℤ}

theorem owns_spendable {l : Ledger} {a : Actor} : l.Owns a ((l.spendable a now).map Grant.id) := by
  intro i hi
  obtain ⟨g, hg, rfl⟩ := List.mem_map.1 hi
  have hmem := (Rows.perm_orderBy _ _).mem_iff.1 hg
  have hlive := List.mem_filter.1 (List.mem_filter.1 hmem).1
  have hactor : g.actor = a ∧ now < g.expiresAt := by simpa using hlive.2
  exact ⟨g, hlive.1, rfl, hactor.1⟩

theorem nodup_spendable {l : Ledger} (h : l.Numbered) {a : Actor} :
    ((l.spendable a now).map Grant.id).Nodup := by
  have hperm := (Rows.perm_orderBy (fun g : Grant => toLex (g.expiresAt, g.id))
    ((l.live a now).filter fun g => 0 < g.remaining)).map Grant.id
  refine hperm.nodup_iff.2 (h.nodup.sublist ?_)
  exact (List.filter_sublist.trans filter_sublist).map Grant.id

/-- **Every step has one of the three effects.** -/
theorem creditStep_effect {l : Ledger} {r : Request} {p : Phase} (h : l.Numbered)
    (hs : Sound l r p) : Effect l r p (creditStep r p l).1 (creditStep r p l).2 := by
  have hanswer : ∀ a : Answer, p.spending = false → Idle (r, a) → Effect l r p l (.inr a) :=
    fun a hp ha =>
      .quiet hp (fun x hx => by rw [List.mem_singleton.1 hx]; exact ha) fun _ hq => by cases hq
  have hnext : ∀ q : Phase, p.spending = false → Sound l r q → Effect l r p l (.inl q) :=
    fun q hp hq => .quiet hp (fun x hx => by cases hx) fun q' hq' => by cases hq'; exact hq
  cases r with
  | grantCredits q =>
      cases p with
      | called =>
          show Effect l _ _ (grantCredits q l).1 (grantCredits q l).2
          unfold grantCredits
          split
          · exact hanswer _ rfl ⟨fun _ => rfl, fun _ => rfl, fun _ => rfl⟩
          · rename_i a hbilled
            split
            · exact hanswer _ rfl ⟨fun _ => rfl, fun _ => rfl, fun _ => rfl⟩
            · rename_i hpos
              split
              · exact insertGrant_effect rfl hbilled (not_le.1 hpos)
              · apply hnext _ rfl
                split
                · trivial
                · exact ⟨hbilled, not_le.1 hpos⟩
      | duplicate a => exact hanswer _ rfl ⟨fun _ => rfl, fun _ => rfl, fun _ => rfl⟩
      | insert a => exact insertGrant_effect rfl hs.1 hs.2
      | spend a rows => exact hs.elim
  | consumeCredit q =>
      cases p with
      | called =>
          show Effect l _ _ (consumeCredit q l).1 (consumeCredit q l).2
          unfold consumeCredit
          split
          · exact hanswer _ rfl ⟨fun _ => rfl, fun _ => rfl, fun _ => rfl⟩
          · rename_i a hbilled
            apply hnext _ rfl
            have hmap : ((l.spendable a q.now).map fun g => (g.id, g.remaining)).map Prod.fst
                = (l.spendable a q.now).map Grant.id := map_map
            refine ⟨hbilled, ?_, ?_⟩
            · rw [hmap]
              exact nodup_spendable h
            · rw [hmap]
              exact owns_spendable
      | duplicate a => exact hs.elim
      | insert a => exact hs.elim
      | spend a rows => exact .spent hs.1 hs.2.1 hs.2.2

/-! ## Runs -/

/-- What the books must say of a ledger and its answers, in every run. -/
structure Books (l : Ledger) (answered : List (Request × Answer)) : Prop where
  balanced : ∀ a, (answered.map (consumedBy a)).sum + l.remainingOf a
    = (answered.map (grantedTo a)).sum
  events : ∀ e, answered.countP (creditsEvent e) = l.grants.countP fun g => g.stripeEventId = some e
  unique : ∀ e, (l.grants.countP fun g => g.stripeEventId = some e) ≤ 1

theorem Books.toBalanced {l : Ledger} {answered : List (Request × Answer)} (h : Books l answered) :
    Balanced l answered where
  balanced := h.balanced
  once e := (h.events e).trans_le (h.unique e)

variable {l t : Ledger} {r : Request} {p : Phase} {out : Phase ⊕ Answer}
  {answered : List (Request × Answer)}

theorem Effect.numbered (h : Effect l r p t out) (hl : l.Numbered) : t.Numbered := by
  cases h with
  | quiet hp hout hnext => exact hl
  | spent hbilled hnodup hown => exact hl.drawAll
  | @inserted q p a b x hbilled hpos hevent =>
      constructor
      · show ((l.grants ++ [q.row a l.nextId]).map Grant.id).Nodup
        rw [map_append, nodup_append]
        refine ⟨hl.nodup, nodup_singleton _, ?_⟩
        intro i hi j hj heq
        obtain ⟨g, hg, rfl⟩ := List.mem_map.1 hi
        obtain rfl := List.mem_singleton.1 hj
        exact (hl.below g hg).ne heq
      · intro g hg
        rcases List.mem_append.1 hg with hold | hnew
        · exact (hl.below g hold).trans (Nat.lt_succ_self _)
        · obtain rfl := List.mem_singleton.1 hnew
          exact Nat.lt_succ_self _

/-- Grants stay, and stay with their actors. -/
def Ledger.Grows (l t : Ledger) : Prop := ∀ a ids, l.Owns a ids → t.Owns a ids

theorem Effect.grows (h : Effect l r p t out) : l.Grows t := by
  intro a ids hown
  cases h with
  | quiet hp hout hnext => exact hown
  | spent hbilled hnodup hrows => exact hown.of_map (Ledger.map_drawAll _ fun _ _ => rfl)
  | inserted hbilled hpos hevent =>
      intro i hi
      obtain ⟨g, hg, hgi⟩ := hown i hi
      exact ⟨g, mem_append_left _ hg, hgi⟩

theorem Sound.mono (h : Sound l r p) (hgrows : l.Grows t) : Sound t r p := by
  cases r with
  | grantCredits q => cases p <;> exact h
  | consumeCredit q =>
      cases p with
      | spend a rows => exact ⟨h.1, h.2.1, hgrows a _ h.2.2⟩
      | called => trivial
      | duplicate a => exact h
      | insert a => exact h

theorem Effect.books (h : Effect l r p t out) (hl : l.Numbered) (hbooks : Books l answered) :
    Books t (answered ++ answers r out) := by
  cases h with
  | quiet hp hout hnext =>
      have hzero : ∀ f : Request × Answer → ℤ, (∀ x ∈ answers r out, f x = 0) →
          ((answers r out).map f).sum = 0 := fun f hf => by
        refine sum_eq_zero fun k hk => ?_
        obtain ⟨x, hx, rfl⟩ := List.mem_map.1 hk
        exact hf x hx
      refine ⟨fun a => ?_, fun e => ?_, hbooks.unique⟩
      · rw [map_append, map_append, sum_append, sum_append,
          hzero _ fun x hx => (hout x hx).2.1 a, hzero _ fun x hx => (hout x hx).1 a, add_zero,
          add_zero]
        exact hbooks.balanced a
      · have hnone : (answers r out).countP (creditsEvent e) = 0 :=
          List.countP_eq_zero.2 fun x hx => by rw [(hout x hx).2.2 e]; exact Bool.false_ne_true
        rw [countP_append, hnone, add_zero]
        exact hbooks.events e
  | @spent q a rows b x hbilled hnodup hown =>
      have hids : (takes q.n rows).map Prod.fst ⊆ rows.map Prod.fst := takes_sublist.subset
      have hdraw := Ledger.remainingOf_drawAll hl fun i hi => hown i (hids hi)
      have hcount : ∀ e, ((l.drawAll (takes q.n rows)).grants.countP
          fun g => g.stripeEventId = some e) = l.grants.countP fun g => g.stripeEventId = some e := by
        intro e
        have hcol : ((l.drawAll (takes q.n rows)).grants.map Grant.stripeEventId)
            = l.grants.map Grant.stripeEventId := Ledger.map_drawAll _ fun _ _ => rfl
        have hcountP := congrArg (List.countP fun s => decide (s = some e)) hcol
        rw [countP_map, countP_map] at hcountP
        exact hcountP
      refine ⟨fun b => ?_, fun e => ?_, fun e => ?_⟩
      · have hold := hbooks.balanced b
        rw [hdraw b]
        simp only [map_append, sum_append, answers_inr, map_cons, map_nil,
          sum_cons, sum_nil, consumedBy, grantedTo, hbilled, Option.some.injEq]
        split <;> linarith
      · rw [hcount e]
        have hnone : creditsEvent e (.consumeCredit q, .consumed (taken (takes q.n rows)) b x)
          = false := rfl
        simp only [countP_append, answers_inr, countP_singleton, hnone]
        exact hbooks.events e
      · rw [hcount e]
        exact hbooks.unique e
  | @inserted q p a b x hbilled hpos hevent =>
      have hcount : ∀ e, q.stripeEventId = some e →
          (l.grants.countP fun g => g.stripeEventId = some e) = 0 := by
        intro e he
        unfold Ledger.hasEvent at hevent
        rw [he] at hevent
        have hnone : ∀ g ∈ l.grants, ¬g.stripeEventId = some e := by simpa using hevent
        exact List.countP_eq_zero.2 fun g hg => by simpa using hnone g hg
      refine ⟨fun b => ?_, fun e => ?_, fun e => ?_⟩
      · have hold := hbooks.balanced b
        unfold Ledger.remainingOf at hold ⊢
        simp only [map_append, sum_append, answers_inr, map_cons, map_nil,
          sum_cons, sum_nil, consumedBy, grantedTo, hbilled, Option.some.injEq,
          GrantArgs.row]
        split <;> linarith
      · simp only [countP_append, answers_inr, countP_singleton, hbooks.events e,
          creditsEvent, GrantArgs.row]
        rfl
      · simp only [countP_append, countP_singleton, GrantArgs.row]
        have hold := hbooks.unique e
        by_cases he : q.stripeEventId = some e
        · rw [hcount e he]
          split <;> omega
        · simpa [he] using hold

theorem Effect.sound (h : Effect l r p t out) (q : Phase) (hq : out = .inl q) : Sound t r q := by
  cases h with
  | quiet hp hout hnext => exact hnext q hq
  | inserted hbilled hpos hevent => cases hq
  | spent hbilled hnodup hown => cases hq

/-- What every run keeps of the ledger and the answers. -/
structure InOrder (l : Ledger) (answered : List (Request × Answer)) : Prop where
  numbered : l.Numbered
  books : Books l answered

/-- What one step keeps. -/
theorem credits_keeps : credits.Keeps (fun _ _ _ _ => True) InOrder (fun l _ r p => Sound l r p)
      fun _ _ => True where
  first r _ := by cases r <;> trivial
  symm _ := trivial
  apart_first _ _ := trivial
  inv _ hl hs :=
    have heffect := creditStep_effect hl.numbered hs
    ⟨heffect.numbered hl.numbered, heffect.books hl.numbered hl.books⟩
  next _ hl hs hq := (creditStep_effect hl.numbered hs).sound _ hq
  stable _ hl hs h _ := h.mono (creditStep_effect hl.numbered hs).grows
  apart_next _ _ _ _ _ _ := trivial

variable {W : Type} [DecidableEq W] {s : State Ledger Request Phase Answer W}

/-- The service with no credit granted and no request under way. -/
def opened : State Ledger Request Phase Answer W := idle Ledger.empty

theorem inOrder_empty : InOrder Ledger.empty [] where
  numbered := ⟨nodup_nil, fun g hg => by cases hg⟩
  books := ⟨fun _ => rfl, fun _ => rfl, fun _ => Nat.zero_le 1⟩

/-- The state of a run. -/
abbrev Running (s : State Ledger Request Phase Answer W) : Prop :=
  Kept InOrder (fun l _ r p => Sound l r p) (fun _ _ => True) s

omit [DecidableEq W] in
theorem running_opened : Running (opened : State Ledger Request Phase Answer W) :=
  Kept.idle inOrder_empty

theorem Running.step {s : State Ledger Request Phase Answer W} (h : Running s)
    (a : Action Request Unit W) : Running (credits.machine.step s a) := by
  apply credits_keeps.kept_step h a
  cases a with
  | accept w r => trivial
  | advance w i => exact fun _ _ _ => trivial

/-- **In every run what was consumed and what remains is what was granted, and every
billing event is credited at most once.** -/
theorem balanced_of_run (h : credits.machine.Run Machine.Any opened s) :
    Balanced s.shared s.answered := by
  have hs : Running s := h.invariant (fun _ a _ hi => Running.step hi a) running_opened
  exact hs.inv.books.toBalanced

/-- What a request is about to spend is there. -/
def funds (l : Ledger) : Request → Phase → Bool
  | .consumeCredit q, .spend _ rows => l.Holds (takes q.n rows)
  | _, _ => true

theorem funds_of_not_spending (hp : p.spending = false) : funds l r p = true := by
  cases r <;> cases p <;> first | rfl | cases hp

/-- The step is not of a request that spends, or it finds in each row that was selected
at least what it takes from it. -/
def funded : State Ledger Request Phase Answer W → Action Request Unit W → Bool :=
  admitted fun l r p _ => funds l r p

/-- **One step leaves no grant below zero, if and only if what it spends is there.** -/
theorem Effect.covered (h : Effect l r p t out) (hcovered : l.Covered) :
    t.Covered ↔ funds l r p = true := by
  cases h with
  | quiet hp hout hnext => exact ⟨fun _ => funds_of_not_spending hp, fun _ => hcovered⟩
  | spent hbilled hnodup hown =>
      unfold funds
      rw [decide_eq_true_iff]
      exact Ledger.covered_drawAll hcovered (hnodup.sublist takes_sublist)
  | inserted hbilled hpos hevent =>
      refine ⟨fun _ => by cases p <;> rfl, fun _ g hg => ?_⟩
      rcases List.mem_append.1 hg with hold | hnew
      · exact hcovered g hold
      · obtain rfl := List.mem_singleton.1 hnew
        exact hpos.le

/-- From a state that is in order, no grant is ever below zero along these steps, if and
only if every step is funded. -/
theorem covered_along (h : Running s) (hcovered : s.shared.Covered)
    (as : List (Action Request Unit W)) :
    (∀ bs, bs <+: as → (bs.foldl credits.machine.step s).shared.Covered) ↔
      credits.machine.walk funded s as = true := by
  have hstep : ∀ {l : Ledger} {answered : List (Request × Answer)} {r : Request} {p : Phase}
      {i : Unit}, InOrder l answered → Sound l r p → l.Covered →
      ((credits.step r p i l).1.Covered ↔ funds l r p = true) :=
    fun hl hs hc => (creditStep_effect hl.numbered hs).covered hc
  exact credits_keeps.along_iff_walk hstep h hcovered as

/-- One message is granted, two requests select it, and both spend it. -/
def spentTwice : List (Action Request Unit Bool) :=
  let spend : Request := .consumeCredit { userId := some "u", now := 0 }
  [.accept true (.grantCredits { messages := 1, userId := some "u", now := 0 }), .advance true (),
    .accept true spend, .accept false spend, .advance true (), .advance false (), .advance true (),
    .advance false ()]

end ArchHub.Accounts

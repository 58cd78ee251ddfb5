import ArchHub.Accounts.Hosted

/-!
# Hosted turns are paid for

Every step has one of four effects (`Effect`): it leaves the ledger and the receipts alone, or
takes one credit and writes its receipt, or completes a turn, or is a step of a grant.  Where the
steps are solvent, what they leave is `Sound`, and so no account completes more turns than it
was credited.
-/

namespace ArchHub.Accounts.Hosted

open Lib Service List

variable {db t : Db} {r : Request} {p : Phase} {i : Reading} {out : Phase ⊕ Answer}
  {answered : List (Request × Answer)} {l : Ledger} {c : Actor} {rec : Receipt} {l' : Ledger}
  {r' : Request} {p' : Phase}

/-! ## Accounts and what they spend -/

theorem given_some {s : Option String} {c : String} (h : given s = some c) : c ≠ "" := by
  have hsome := Option.filter_eq_some_iff.1 h
  exact of_decide_eq_true hsome.2

/-- The account of a user can be billed. -/
theorem billed_actor (db : Db) (u : User) (today : String) (now : ℤ) :
    billed (spend (db.actor u today) now).userId (spend (db.actor u today) now).companyId
      = some (db.actor u today) := by
  have huser : billed (some u.id) none = some (.user u.id) := by
    simp [billed, given, Option.filter, u.minted]
  unfold Db.actor
  split
  · exact huser
  · rename_i c hc
    split
    · have hne := given_some hc
      simp [spend, billed, given, Option.filter, hne]
    · exact huser

/-- From a row that holds something, one credit is taken. -/
theorem takes_one {id : ℕ} {remaining : ℤ} {rows : List (ℕ × ℤ)} (h : 0 < remaining) :
    takes 1 ((id, remaining) :: rows) = [(id, 1)] := by
  have hmin : min remaining 1 = 1 := min_eq_right h
  have hrest : takes 0 rows = [] := by
    cases rows with
    | nil => rfl
    | cons row rows => rfl
  rw [takes, if_neg (by decide), hmin, sub_self, hrest]

/-- What a request that takes a credit goes by: the rows it selected, the first of which held
something. -/
structure Selected (l : Ledger) (c : Actor) (now : ℤ) (p : Accounts.Phase) : Prop where
  sound : Accounts.Sound l (.consumeCredit (spend c now)) p
  rows : ∃ id remaining rows, p = .spend c ((id, remaining) :: rows) ∧ 0 < remaining

/-- The selection of an account that has a live credit. -/
theorem selected_of_spendable (hl : l.Numbered) {now : ℤ}
    (hbilled : billed (spend c now).userId (spend c now).companyId = some c)
    (hsome : l.spendable c now ≠ []) :
    Selected l c now (.spend c ((l.spendable c now).map fun g => (g.id, g.remaining))) := by
  have hids : ((l.spendable c now).map fun g => (g.id, g.remaining)).map Prod.fst
      = (l.spendable c now).map Grant.id := map_map
  constructor
  · refine ⟨hbilled, ?_, ?_⟩
    · rw [hids]
      exact nodup_spendable hl
    · rw [hids]
      exact owns_spendable
  · obtain ⟨g, gs, hrows⟩ := exists_cons_of_ne_nil hsome
    have hmem : g ∈ l.spendable c now := hrows ▸ mem_cons_self
    have hlive := List.mem_filter.1 ((Rows.perm_orderBy _ _).mem_iff.1 hmem)
    refine ⟨g.id, g.remaining, gs.map fun g => (g.id, g.remaining), ?_, by simpa using hlive.2⟩
    rw [hrows]
    rfl

/-! ## What one step does -/

/-- The receipt a request has and has not answered with. -/
def Phase.receipt : Phase → Option Receipt
  | .counting _ r => some r
  | .logging _ r => some r
  | _ => none

/-- A phase in which nothing is owed. -/
def Phase.plain : Phase → Bool
  | .paying .. => false
  | .counting .. => false
  | .logging .. => false
  | .granting .. => false
  | _ => true

theorem receipt_of_plain {q : Phase} (h : q.plain = true) : q.receipt = none := by
  cases q <;> first | rfl | cases h

/-- What one step does to the ledger and to the receipts. -/
inductive Effect (db : Db) : Request → Phase → Db → Phase ⊕ Answer → Prop where
  | refused {u m p t x} (hledger : t.ledger = db.ledger) (hreceipts : t.receipts = db.receipts)
      (hx : ∀ a, receiptOf (.chat u m, x) = none ∧ credited a (.chat u m, x) = 0) :
      Effect db (.chat u m) p t (.inr x)
  | went {u m p t q} (hledger : t.ledger = db.ledger) (hreceipts : t.receipts = db.receipts)
      (hq : q.plain = true ∨ (∃ x r, p = .counting x r ∧ q = .logging x r) ∨
        ∃ a x now p', q = .paying a a x now p' ∧ Selected db.ledger a now p') :
      Effect db (.chat u m) p t (.inl q)
  | charged {u m a x now p} (hselected : Selected db.ledger a now p)
      (hfunds : funds db.ledger (.consumeCredit (spend a now)) p = true) :
      Effect db (.chat u m) (.paying a a x now p)
        { db with
          ledger := (creditStep (.consumeCredit (spend a now)) p db.ledger).1
          receipts := db.receipts ++ [⟨db.receipts.length, a, a, 1⟩] }
        (.inl (.counting x ⟨db.receipts.length, a, a, 1⟩))
  | completed {u m x r t} (hledger : t.ledger = db.ledger) (hreceipts : t.receipts = db.receipts) :
      Effect db (.chat u m) (.logging x r) t (.inr (.completed r))
  | granted {q p} (hsound : Accounts.Sound db.ledger (.grantCredits q) p) :
      Effect db (.grant q) (.granting p)
        { db with ledger := (creditStep (.grantCredits q) p db.ledger).1 }
        ((creditStep (.grantCredits q) p db.ledger).2.map .granting .granted)

/-- What a request under way goes by. -/
def Held (db : Db) (answered : List (Request × Answer)) : Request → Phase → Prop
  | .chat _ _, .paying a c _ now p => c = a ∧ Selected db.ledger c now p
  | .chat _ _, .counting _ r => r ∈ db.receipts ∧ r ∉ answered.filterMap receiptOf
  | .chat _ _, .logging _ r => r ∈ db.receipts ∧ r ∉ answered.filterMap receiptOf
  | .chat _ _, .granting _ => False
  | .chat _ _, _ => True
  | .grant q, .granting p => Accounts.Sound db.ledger (.grantCredits q) p
  | .grant _, _ => False

theorem incrementUsageForActor_ledger (db : Db) (u : User) (today : String) :
    (db.incrementUsageForActor u today).ledger = db.ledger ∧
      (db.incrementUsageForActor u today).receipts = db.receipts := by
  unfold Db.incrementUsageForActor
  split
  · exact ⟨rfl, rfl⟩
  · split <;> exact ⟨rfl, rfl⟩

/-- A charge, from rows that were selected. -/
theorem pay_spend {a : Actor} {x : String} {now : ℤ} {p : Accounts.Phase}
    (h : Selected db.ledger a now p) :
    pay a a x now p db
      = ({ db with
            ledger := (creditStep (.consumeCredit (spend a now)) p db.ledger).1
            receipts := db.receipts ++ [⟨db.receipts.length, a, a, 1⟩] },
          .inl (.counting x ⟨db.receipts.length, a, a, 1⟩)) := by
  obtain ⟨id, remaining, rows, rfl, hpos⟩ := h.rows
  have hn : (spend a now).n = 1 := by cases a <;> rfl
  have hone : taken (takes (spend a now).n ((id, remaining) :: rows)) = 1 := by
    rw [hn, takes_one hpos]
    rfl
  unfold pay
  simp only [creditStep, spendRows, hone]

/-- **Every solvent step has one of the effects.** -/
theorem hostedStep_effect (cfg : Config) (hl : db.ledger.Numbered) (hs : Held db answered r p)
    (hok : solvent db r p i = true) :
    Effect db r p (hostedStep cfg r p i db).1 (hostedStep cfg r p i db).2 := by
  cases r with
  | grant q =>
      cases p with
      | granting p => exact .granted hs
      | _ => exact hs.elim
  | chat u m =>
      have hrefused : ∀ status error, Effect db (.chat u m) p db (.inr (.refused status error)) :=
        fun _ _ => .refused rfl rfl fun _ => ⟨rfl, rfl⟩
      have hwent : ∀ q : Phase, q.plain = true → Effect db (.chat u m) p db (.inl q) :=
        fun q hq => .went rfl rfl (.inl hq)
      have hcount := incrementUsageForActor_ledger db u i.today
      cases p with
      | called =>
          simp only [hostedStep, chatStep]
          split
          · exact hrefused _ _
          · exact hwent _ rfl
      | metered =>
          show Effect db _ _ db (chooseMode cfg u i db)
          unfold chooseMode
          split
          · split
            · exact hwent _ rfl
            · exact hrefused _ _
          · split
            · exact hwent _ rfl
            · exact hrefused _ _
      | capped x =>
          simp only [hostedStep, chatStep]
          split
          · exact hrefused _ _
          · exact hwent _ rfl
      | entitled =>
          show Effect db _ _ db (creditGate cfg u m i db)
          unfold creditGate
          split
          · exact hrefused _ _
          · split
            · exact hrefused _ _
            · exact hwent _ rfl
      | streaming a x =>
          simp only [hostedStep, chatStep]
          cases hended : i.ended with
          | false => exact .refused rfl rfl fun _ => ⟨rfl, rfl⟩
          | true =>
              have hsolvent : db.actor u i.today = a ∧ db.ledger.spendable a i.now ≠ [] := by
                simpa [solvent, hended] using hok
              obtain ⟨rfl, hsome⟩ := hsolvent
              have hbilled := billed_actor db u i.today i.now
              have hnow : (spend (db.actor u i.today) i.now).now = i.now := by
                cases db.actor u i.today <;> rfl
              -- the selection alone: the ledger is only read
              have hpay : pay (db.actor u i.today) (db.actor u i.today) x i.now .called db
                  = (db, .inl (.paying (db.actor u i.today) (db.actor u i.today) x i.now
                      (.spend (db.actor u i.today) ((db.ledger.spendable (db.actor u i.today)
                        i.now).map fun g => (g.id, g.remaining))))) := by
                unfold pay
                simp only [creditStep, consumeCredit, hbilled, hnow]
              rw [if_pos rfl, hpay]
              exact .went rfl rfl (.inr (.inr ⟨_, _, _, _, rfl,
                selected_of_spendable hl hbilled hsome⟩))
      | paying a c x now p =>
          obtain ⟨rfl, hselected⟩ := hs
          show Effect db _ _ (pay c c x now p db).1 (pay c c x now p db).2
          rw [pay_spend hselected]
          exact .charged hselected hok
      | counting x rec => exact .went hcount.1 hcount.2 (.inr (.inl ⟨x, rec, rfl, rfl⟩))
      | logging x rec => exact .completed rfl rfl
      | freeStreaming x =>
          simp only [hostedStep, chatStep]
          split
          · exact hwent _ rfl
          · exact .refused rfl rfl fun _ => ⟨rfl, rfl⟩
      | freeCounting x => exact .went hcount.1 hcount.2 (.inl rfl)
      | freeLogging x => exact .refused rfl rfl fun _ => ⟨rfl, rfl⟩
      | granting p => exact hs.elim

/-! ## What steps keep -/

section

variable (h : Effect db r p t out)

include h

/-- Grants stay with their accounts. -/
theorem Effect.grows (hl : db.ledger.Numbered) : db.ledger.Grows t.ledger := by
  cases h with
  | refused hledger hreceipts hx => rw [hledger]; exact fun _ _ hown => hown
  | went hledger hreceipts hq => rw [hledger]; exact fun _ _ hown => hown
  | charged hselected hfunds => exact (creditStep_effect hl hselected.sound).grows
  | completed hledger hreceipts => rw [hledger]; exact fun _ _ hown => hown
  | granted hsound => exact (creditStep_effect hl hsound).grows

theorem Effect.numbered (hl : db.ledger.Numbered) : t.ledger.Numbered := by
  cases h with
  | refused hledger hreceipts hx => rw [hledger]; exact hl
  | went hledger hreceipts hq => rw [hledger]; exact hl
  | charged hselected hfunds => exact (creditStep_effect hl hselected.sound).numbered hl
  | completed hledger hreceipts => rw [hledger]; exact hl
  | granted hsound => exact (creditStep_effect hl hsound).numbered hl

theorem Effect.covered (hl : db.ledger.Numbered) (hcovered : db.ledger.Covered) :
    t.ledger.Covered := by
  cases h with
  | refused hledger hreceipts hx => rw [hledger]; exact hcovered
  | went hledger hreceipts hq => rw [hledger]; exact hcovered
  | charged hselected hfunds =>
      exact ((creditStep_effect hl hselected.sound).covered hcovered).2 hfunds
  | completed hledger hreceipts => rw [hledger]; exact hcovered
  | @granted q p hsound =>
      have hfunds : funds db.ledger (.grantCredits q) p = true := by cases p <;> rfl
      exact ((creditStep_effect hl hsound).covered hcovered).2 hfunds

/-- Receipts stay. -/
theorem Effect.receipts_subset : db.receipts ⊆ t.receipts := by
  cases h with
  | refused hledger hreceipts hx => rw [hreceipts]; exact List.Subset.refl _
  | went hledger hreceipts hq => rw [hreceipts]; exact List.Subset.refl _
  | charged hselected hfunds => exact subset_append_left _ _
  | completed hledger hreceipts => rw [hreceipts]; exact List.Subset.refl _
  | granted hsound => exact List.Subset.refl _

/-- A request answers with the receipt it has. -/
theorem Effect.receipt_of_mem (hrec : rec ∈ (answers r out).filterMap receiptOf) :
    p.receipt = some rec := by
  cases h with
  | @refused u m p t x hledger hreceipts hx => simp [(hx (.user "")).1] at hrec
  | went hledger hreceipts hq => cases hrec
  | charged hselected hfunds => cases hrec
  | completed hledger hreceipts =>
      obtain rfl := List.mem_singleton.1 hrec
      rfl
  | @granted q p hsound =>
      cases hout : (creditStep (.grantCredits q) p db.ledger).2 with
      | inl p' => rw [hout] at hrec; cases hrec
      | inr x => rw [hout] at hrec; cases hrec

end

/-- What an account has left after a step of a grant. -/
theorem remainingOf_grant {q : GrantArgs} {p : Accounts.Phase}
    {out : Accounts.Phase ⊕ Accounts.Answer} (h : Accounts.Effect l (.grantCredits q) p l' out)
    (a : Actor) : l'.remainingOf a
      = l.remainingOf a + ((answers (.grantCredits q) out).map (grantedTo a)).sum := by
  cases h with
  | quiet hp hout hnext =>
      have hzero : ((answers (.grantCredits q) out).map (grantedTo a)).sum = 0 := by
        refine sum_eq_zero fun k hk => ?_
        obtain ⟨x, hx, rfl⟩ := List.mem_map.1 hk
        exact (hout x hx).1 a
      rw [hzero, add_zero]
  | inserted hbilled hpos hevent =>
      unfold Ledger.remainingOf
      simp only [map_append, sum_append, answers_inr, map_cons, map_nil,
        sum_cons, sum_nil, grantedTo, hbilled, Option.some.injEq, GrantArgs.row, add_zero]

/-- What an account has left after it was charged. -/
theorem remainingOf_charge (hl : l.Numbered) {a : Actor} {now : ℤ} {p : Accounts.Phase}
    (h : Selected l a now p) (b : Actor) :
    (creditStep (.consumeCredit (spend a now)) p l).1.remainingOf b
      = l.remainingOf b - if a = b then 1 else 0 := by
  obtain ⟨id, remaining, rows, rfl, hpos⟩ := h.rows
  obtain ⟨-, -, hown⟩ := h.sound
  have hn : (spend a now).n = 1 := by cases a <;> rfl
  have htakes : takes (spend a now).n ((id, remaining) :: rows) = [(id, 1)] := by
    rw [hn, takes_one hpos]
  show (l.drawAll (takes (spend a now).n ((id, remaining) :: rows))).remainingOf b = _
  rw [htakes, Ledger.remainingOf_drawAll hl (a := a)]
  · rfl
  · intro j hj
    obtain rfl := List.mem_singleton.1 hj
    exact hown j mem_cons_self

/-- What every run keeps of the ledger, the receipts and the answers. -/
structure Booked (db : Db) (answered : List (Request × Answer)) : Prop where
  numbered : db.ledger.Numbered
  covered : db.ledger.Covered
  balanced : ∀ a, (db.receipts.map (paidBy a)).sum + db.ledger.remainingOf a
    = (answered.map (credited a)).sum
  below : ∀ r ∈ db.receipts, r.number < db.receipts.length
  single : ∀ r ∈ db.receipts, r.consumed = 1 ∧ r.charged = r.admitted
  once : (answered.filterMap receiptOf).Nodup
  kept : ∀ r ∈ answered.filterMap receiptOf, r ∈ db.receipts

/-- The answers and the receipts that a step adds balance what it takes from the ledger. -/
theorem Effect.balanced (h : Effect db r p t out) (hbooked : Booked db answered) (a : Actor) :
    (t.receipts.map (paidBy a)).sum + t.ledger.remainingOf a
      = ((answered ++ answers r out).map (credited a)).sum := by
  have hold := hbooked.balanced a
  rw [map_append, sum_append]
  cases h with
  | refused hledger hreceipts hx => simp [hledger, hreceipts, (hx a).2, hold]
  | went hledger hreceipts hq => simp [hledger, hreceipts, hold]
  | completed hledger hreceipts => simp [hledger, hreceipts, credited, hold]
  | charged hselected hfunds =>
      have hleft := remainingOf_charge hbooked.numbered hselected a
      simp only [map_append, sum_append, map_cons, map_nil, sum_cons,
        sum_nil, paidBy, answers_inl, hleft]
      linarith
  | @granted q p hsound =>
      have hleft := remainingOf_grant (creditStep_effect hbooked.numbered hsound) a
      have hanswers : ((answers (Request.grant q) ((creditStep (.grantCredits q) p
          db.ledger).2.map Phase.granting Answer.granted)).map (credited a)).sum
          = ((answers (.grantCredits q) (creditStep (.grantCredits q) p db.ledger).2).map
              (grantedTo a)).sum := by
        cases (creditStep (.grantCredits q) p db.ledger).2 with
        | inl p' => rfl
        | inr x => rfl
      show (db.receipts.map (paidBy a)).sum + _ = _
      rw [hanswers, hleft]
      linarith

/-- What one step keeps. -/
theorem Effect.booked (h : Effect db r p t out) (hs : Held db answered r p)
    (hbooked : Booked db answered) : Booked t (answered ++ answers r out) where
  numbered := h.numbered hbooked.numbered
  covered := h.covered hbooked.numbered hbooked.covered
  balanced := h.balanced hbooked
  below := by
    cases h with
    | refused hledger hreceipts hx => rw [hreceipts]; exact hbooked.below
    | went hledger hreceipts hq => rw [hreceipts]; exact hbooked.below
    | completed hledger hreceipts => rw [hreceipts]; exact hbooked.below
    | granted hsound => exact hbooked.below
    | charged hselected hfunds =>
        intro x hx
        rw [length_append, length_singleton]
        rcases List.mem_append.1 hx with hold | hnew
        · exact (hbooked.below x hold).trans (Nat.lt_succ_self _)
        · obtain rfl := List.mem_singleton.1 hnew
          exact Nat.lt_succ_self _
  single := by
    cases h with
    | refused hledger hreceipts hx => rw [hreceipts]; exact hbooked.single
    | went hledger hreceipts hq => rw [hreceipts]; exact hbooked.single
    | completed hledger hreceipts => rw [hreceipts]; exact hbooked.single
    | granted hsound => exact hbooked.single
    | charged hselected hfunds =>
        intro x hx
        rcases List.mem_append.1 hx with hold | hnew
        · exact hbooked.single x hold
        · obtain rfl := List.mem_singleton.1 hnew
          exact ⟨rfl, rfl⟩
  once := by
    rw [filterMap_append, nodup_append]
    refine ⟨hbooked.once, ?_, ?_⟩
    · cases out with
      | inl q => exact nodup_nil
      | inr x =>
          show (List.filterMap receiptOf [(r, x)]).Nodup
          cases hx : receiptOf (r, x) with
          | none => simp [hx]
          | some rec => simp [hx]
    · rintro x hx y hy rfl
      have hown := h.receipt_of_mem hy
      cases h with
      | completed hledger hreceipts =>
          cases hown
          exact hs.2 hx
      | refused hledger hreceipts hq => simp [(hq (.user "")).1] at hy
      | went hledger hreceipts hq => cases hy
      | charged hselected hfunds => cases hy
      | granted hsound => cases hown
  kept := by
    intro x hx
    rw [filterMap_append] at hx
    rcases List.mem_append.1 hx with hold | hnew
    · exact h.receipts_subset (hbooked.kept x hold)
    · have hown := h.receipt_of_mem hnew
      cases h with
      | completed hledger hreceipts =>
          cases hown
          rw [hreceipts]
          exact hs.1
      | refused hledger hreceipts hq => simp [(hq (.user "")).1] at hnew
      | went hledger hreceipts hq => cases hnew
      | charged hselected hfunds => cases hnew
      | granted hsound => cases hown

theorem Selected.mono {now : ℤ} {p : Accounts.Phase} (h : Selected l c now p)
    (hgrows : l.Grows l') : Selected l' c now p where
  sound := Accounts.Sound.mono h.sound hgrows
  rows := h.rows

/-- Two requests do not have one receipt. -/
def Apart (x y : Request × Phase) : Prop := ∀ r, x.2.receipt = some r → y.2.receipt ≠ some r

/-- A request that has a receipt has one that is written, and that nobody answered with. -/
theorem Held.receipt (h : Held db answered r p) (hp : p.receipt = some rec) :
    rec ∈ db.receipts ∧ rec ∉ answered.filterMap receiptOf := by
  cases r with
  | grant q => cases p <;> first | exact h.elim | cases hp
  | chat u m =>
      cases p with
      | counting x rec' => cases hp; exact h
      | logging x rec' => cases hp; exact h
      | _ => cases hp

/-- What a request under way goes by outlives the steps of the others. -/
theorem Held.stable (h : Held db answered r' p') (heffect : Effect db r p t out)
    (hl : db.ledger.Numbered) (hapart : Apart (r, p) (r', p')) :
    Held t (answered ++ answers r out) r' p' := by
  have hgrows := heffect.grows hl
  have hreceipt : ∀ rec, p'.receipt = some rec →
      rec ∈ t.receipts ∧ rec ∉ (answered ++ answers r out).filterMap receiptOf := by
    intro rec hrec
    obtain ⟨hmem, hnot⟩ := h.receipt hrec
    refine ⟨heffect.receipts_subset hmem, fun hnew => ?_⟩
    rw [filterMap_append] at hnew
    rcases List.mem_append.1 hnew with hold | hanswer
    · exact hnot hold
    · exact hapart rec (heffect.receipt_of_mem hanswer) hrec
  cases r' with
  | grant q =>
      cases p' with
      | granting p' => exact Accounts.Sound.mono h hgrows
      | _ => exact h.elim
  | chat u m =>
      cases p' with
      | paying a c x now p' => exact ⟨h.1, h.2.mono hgrows⟩
      | counting x rec => exact hreceipt rec rfl
      | logging x rec => exact hreceipt rec rfl
      | granting p' => exact h.elim
      | _ => trivial

/-- A request goes on by what its own step left. -/
theorem Effect.held {q : Phase} (h : Effect db r p t out) (hbooked : Booked db answered)
    (hs : Held db answered r p) (hq : out = .inl q) : Held t (answered ++ answers r out) r q := by
  cases h with
  | refused hledger hreceipts hx => cases hq
  | completed hledger hreceipts => cases hq
  | @went u m p t q' hledger hreceipts hnext =>
      cases hq
      rcases hnext with hplain | ⟨x, rec, rfl, rfl⟩ | ⟨a, x, now, p', rfl, hselected⟩
      · cases q <;> trivial
      · show rec ∈ t.receipts ∧ _
        rw [hreceipts, answers_inl, append_nil]
        exact hs
      · exact ⟨rfl, hledger ▸ hselected⟩
  | charged hselected hfunds =>
      cases hq
      refine ⟨mem_append_right _ mem_cons_self, fun hmem => ?_⟩
      rw [answers_inl, append_nil] at hmem
      exact (hbooked.below _ (hbooked.kept _ hmem)).ne rfl
  | @granted g p hsound =>
      cases hout : (creditStep (.grantCredits g) p db.ledger).2 with
      | inr x => rw [hout] at hq; cases hq
      | inl p' =>
          rw [hout] at hq
          cases hq
          exact (creditStep_effect hbooked.numbered hsound).sound p' hout

/-- A receipt that a step gives its request is new or was its own. -/
theorem Effect.apart {q : Phase} (h : Effect db r p t out) (hbooked : Booked db answered)
    (hs : Held db answered r' p') (hapart : Apart (r, p) (r', p')) (hq : out = .inl q) :
    Apart (r, q) (r', p') := by
  intro rec hrec hother
  have hother' : p'.receipt = some rec := hother
  cases h with
  | refused hledger hreceipts hx => cases hq
  | completed hledger hreceipts => cases hq
  | went hledger hreceipts hnext =>
      cases hq
      rcases hnext with hplain | ⟨x, rec', rfl, rfl⟩ | ⟨a, x, now, p', rfl, hselected⟩
      · have hnone : q.receipt = some rec := hrec
        rw [receipt_of_plain hplain] at hnone
        cases hnone
      · cases hrec
        exact hapart rec rfl hother
      · cases hrec
  | charged hselected hfunds =>
      cases hq
      cases hrec
      exact (hbooked.below _ (hs.receipt hother').1).ne rfl
  | @granted g p hsound =>
      cases hout : (creditStep (.grantCredits g) p db.ledger).2 with
      | inr x => rw [hout] at hq; cases hq
      | inl p' =>
          rw [hout] at hq
          cases hq
          cases hrec

/-- What one solvent step keeps. -/
theorem hosted_keeps (cfg : Config) :
    (hosted cfg).Keeps (fun db r p i => solvent db r p i = true) Booked Held Apart where
  first r _ := by cases r <;> trivial
  symm h rec hx hy := h rec hy hx
  apart_first r y rec hrec := by cases r <;> cases hrec
  inv hok hbooked hs :=
    (hostedStep_effect cfg hbooked.numbered hs hok).booked hs hbooked
  next hok hbooked hs hq :=
    (hostedStep_effect cfg hbooked.numbered hs hok).held hbooked hs hq
  stable hok hbooked hs hs' hapart :=
    hs'.stable (hostedStep_effect cfg hbooked.numbered hs hok) hbooked.numbered hapart
  apart_next hok hbooked hs hs' hapart hq :=
    (hostedStep_effect cfg hbooked.numbered hs hok).apart hbooked hs' hapart hq

/-! ## Runs -/

/-- One credit for each receipt of an account. -/
theorem sum_paidBy {rs : List Receipt} (h : ∀ r ∈ rs, r.consumed = 1 ∧ r.charged = r.admitted)
    (a : Actor) : (rs.map (paidBy a)).sum = (rs.countP fun r => r.admitted = a : ℕ) := by
  induction rs with
  | nil => rfl
  | cons r rs ih =>
      obtain ⟨hconsumed, hcharged⟩ := h r mem_cons_self
      have hrest := ih fun x hx => h x (mem_cons_of_mem r hx)
      rw [map_cons, sum_cons, hrest, countP_cons, paidBy, hconsumed, hcharged]
      by_cases ha : r.admitted = a
      · simp [ha, add_comm]
      · simp [ha]

theorem quota_nonneg (db : Db) (a : Actor) : 0 ≤ db.quota a := by
  have hmax : ∀ o : Option ℤ, 0 ≤ o.elim 0 (max 0) := by
    intro o
    cases o with
    | none => exact le_rfl
    | some n => exact le_max_left 0 n
  cases a with
  | user id => exact hmax _
  | company id => exact hmax _

theorem remainingOf_nonneg (h : l.Covered) (a : Actor) : 0 ≤ l.remainingOf a := by
  refine sum_nonneg fun k hk => ?_
  obtain ⟨g, hg, rfl⟩ := List.mem_map.1 hk
  have hrow := h g hg
  show 0 ≤ if g.actor = a then g.remaining else 0
  split
  · exact hrow
  · exact le_rfl

/-- **Books in order say that the turns are paid for.** -/
theorem Booked.paid (h : Booked db answered) : Paid db answered where
  balanced := h.balanced
  once := h.once
  charged r hr := ⟨h.kept r hr, h.single r (h.kept r hr)⟩
  bound a := by
    have hsub := (h.once.subperm h.kept).countP_le fun r => decide (r.admitted = a)
    have hsum := sum_paidBy h.single a
    have hbalanced := h.balanced a
    have hleft := remainingOf_nonneg h.covered a
    have hquota := quota_nonneg db a
    omega

/-- No credit was granted, and nothing charged. -/
structure Db.Unspent (db : Db) : Prop where
  ledger : db.ledger = .empty
  receipts : db.receipts = []

theorem Db.Unspent.booked (h : db.Unspent) : Booked db [] where
  numbered := h.ledger ▸ inOrder_empty.numbered
  covered := h.ledger ▸ fun g hg => by cases hg
  balanced a := by rw [h.ledger, h.receipts]; rfl
  below := h.receipts ▸ fun x hx => by cases hx
  single := h.receipts ▸ fun x hx => by cases hx
  once := nodup_nil
  kept x hx := by cases hx

variable {W : Type} [DecidableEq W]

/-- Hosted AI is switched on, and every model has a provider. -/
def live : Config where
  proxyLive := true
  enabledPlans := ["solo", "studio", "firm"]
  freeModel := none
  freeDailyCap := 0
  upstream := some

/-- A user on a paid plan, who works in hosted mode. -/
def payer : User where
  id := "u"
  minted := by decide
  plan := "solo"
  aiMode := .hosted
  msgLimit := 1000000
  msgUsed := 0

/-- So many credits are granted, two chat requests start, and both end. -/
def twoTurns (messages : ℤ) : List (Action Request Reading Bool) :=
  let chat : Request := .chat payer (some "claude-sonnet-4-6")
  let steps (w : Bool) (n : ℕ) : List (Action Request Reading Bool) :=
    List.replicate n (.advance w {})
  [.accept true (.grant { messages := messages, userId := some "u", now := 0 }),
      .advance true {}, .accept true chat, .accept false chat]
    ++ steps true 3 ++ steps false 3 ++ steps true 4 ++ steps false 4

/-- Where they end. -/
def afterTwoTurns (messages : ℤ) : State Db Request Phase Answer Bool :=
  (twoTurns messages).foldl (hosted live).machine.step (idle { users := [payer] })

end ArchHub.Accounts.Hosted

import ArchHub.Accounts.Webhook

/-!
# Events that come again

An event sets the plan of an account by a function of its row that does no more the second time
(`setUser_setUser`, `setCompany_setCompany`).  So where the event was the last to write the row,
the row says what the event says (`Written`), and setting the plan again changes nothing.  Credits
are kept apart by the ids of their events.
-/

namespace ArchHub.Accounts.Billing

open Lib Service

variable {cfg : Config} {e x : Event} {live : Option Live} {db t : Db} {a b : Actor} {i : Reading}
  {now : ℤ} {id : String}

/-! ## The same plan set twice -/

theorem updatePlan_updatePlan (plan : String) (stripeId : Option String) (periodEnd : Option ℤ)
    (u : User) : (u.updatePlan plan stripeId periodEnd).updatePlan plan stripeId periodEnd
      = u.updatePlan plan stripeId periodEnd := by
  cases stripeId <;> rfl

/-- Every event sets the plan of a user in one way. -/
theorem setUser_eq (cfg : Config) (e : Event) (live : Option Live) :
    ∃ plan stripeId periodEnd, setUser cfg e live = User.updatePlan plan stripeId periodEnd := by
  unfold setUser
  cases e.kind <;> exact ⟨_, _, _, rfl⟩

theorem setUser_setUser (u : User) :
    setUser cfg e live (setUser cfg e live u) = setUser cfg e live u := by
  obtain ⟨plan, stripeId, periodEnd, h⟩ := setUser_eq cfg e live
  rw [h]
  exact updatePlan_updatePlan plan stripeId periodEnd u

theorem setCompany_setCompany (c : Company) :
    setCompany cfg e live (setCompany cfg e live c) = setCompany cfg e live c := by
  -- what the event leaves open is read back from the row
  have htier : ∀ o : Option String, o.getD (o.getD c.plan) = o.getD c.plan := by
    intro o
    cases o <;> rfl
  unfold setCompany
  cases e.kind with
  | checkoutCompleted => rfl
  | subscriptionDeleted => rfl
  | _ =>
      simp only [Company.updatePlan, htier]
      split <;> rfl

/-- The cached balance is neither read nor written by either. -/
theorem setUser_cache (u : User) (n : ℤ) : setUser cfg e live { u with creditBalance := n }
    = { setUser cfg e live u with creditBalance := n } := by
  obtain ⟨plan, stripeId, periodEnd, h⟩ := setUser_eq cfg e live
  rw [h]
  rfl

theorem setCompany_cache (c : Company) (n : ℤ) :
    setCompany cfg e live { c with creditBalance := n }
      = { setCompany cfg e live c with creditBalance := n } := by
  unfold setCompany
  cases e.kind <;> rfl

theorem setUser_id (u : User) : (setUser cfg e live u).id = u.id := by
  obtain ⟨plan, stripeId, periodEnd, h⟩ := setUser_eq cfg e live
  rw [h]
  rfl

theorem setCompany_id (c : Company) : (setCompany cfg e live c).id = c.id := by
  unfold setCompany
  cases e.kind <;> rfl

/-! ## Rows that say what an event says -/

/-- The row of the account is as the event leaves it. -/
def Written (cfg : Config) (e : Event) (live : Option Live) (db : Db) : Actor → Prop
  | .user id => ∀ u ∈ db.users, u.id = id → setUser cfg e live u = u
  | .company id => ∀ c ∈ db.companies, c.id = id → setCompany cfg e live c = c

theorem update_eq_self {ρ κ : Type} [DecidableEq κ] {key : ρ → κ} {k : κ} {f : ρ → ρ}
    {rows : List ρ} (h : ∀ r ∈ rows, key r = k → f r = r) : Rows.update key k f rows = rows := by
  unfold Rows.update
  conv_rhs => rw [← rows.map_id]
  refine List.map_congr_left fun r hr => ?_
  split
  · rename_i hk
    exact h r hr hk
  · rfl

theorem Written.setPlan (h : Written cfg e live db a) : db.setPlan cfg e live a = db := by
  cases a with
  | user id =>
      show { db with users := Rows.update User.id id (setUser cfg e live) db.users } = db
      rw [update_eq_self h]
  | company id =>
      show { db with companies := Rows.update Company.id id (setCompany cfg e live) db.companies }
        = db
      rw [update_eq_self h]

/-- **After an event set the plan of an account, its row says so.** -/
theorem written_setPlan (cfg : Config) (e : Event) (live : Option Live) (db : Db) (a : Actor) :
    Written cfg e live (db.setPlan cfg e live a) a := by
  cases a with
  | user id =>
      intro u hu hid
      rcases Rows.cases_update hu with ⟨old, -, -, rfl⟩ | ⟨-, hne⟩
      · exact setUser_setUser old
      · exact absurd hid hne
  | company id =>
      intro c hc hid
      rcases Rows.cases_update hc with ⟨old, -, -, rfl⟩ | ⟨-, hne⟩
      · exact setCompany_setCompany old
      · exact absurd hid hne

/-- The rows of an account were there, but for the cached balance. -/
def Carries (db t : Db) : Actor → Prop
  | .user id => ∀ u ∈ t.users, u.id = id → ∃ old ∈ db.users, old.id = id ∧
      u = { old with creditBalance := u.creditBalance }
  | .company id => ∀ c ∈ t.companies, c.id = id → ∃ old ∈ db.companies, old.id = id ∧
      c = { old with creditBalance := c.creditBalance }

theorem Written.of_carries (h : Written cfg e live db a) (ht : Carries db t a) :
    Written cfg e live t a := by
  cases a with
  | user id =>
      intro u hu hid
      obtain ⟨old, hold, holdid, heq⟩ := ht u hu hid
      have hwritten : setUser cfg e live old = old := h old hold holdid
      rw [heq, setUser_cache, hwritten]
  | company id =>
      intro c hc hid
      obtain ⟨old, hold, holdid, heq⟩ := ht c hc hid
      have hwritten : setCompany cfg e live old = old := h old hold holdid
      rw [heq, setCompany_cache, hwritten]

theorem carries_user (h : t.users = db.users) : Carries db t (.user id) := by
  intro u hu hid
  exact ⟨u, h ▸ hu, hid, rfl⟩

theorem carries_company (h : t.companies = db.companies) : Carries db t (.company id) := by
  intro c hc hid
  exact ⟨c, h ▸ hc, hid, rfl⟩

/-- Tables that are as they were carry the rows of every account. -/
theorem carries_of_eq (husers : t.users = db.users) (hcompanies : t.companies = db.companies) :
    Carries db t a := by
  cases a with
  | user id => exact carries_user husers
  | company id => exact carries_company hcompanies

/-- A write of another user's row. -/
theorem carries_users {f : User → User} (hf : ∀ u, (f u).id = u.id) (hne : a ≠ .user id) :
    Carries db { db with users := Rows.update User.id id f db.users } a := by
  cases a with
  | company id' => exact carries_company rfl
  | user id' =>
      intro u hu hid
      rcases Rows.cases_update hu with ⟨old, -, hold, rfl⟩ | ⟨hmem, -⟩
      · exact absurd (congrArg Actor.user (hid.symm.trans ((hf old).trans hold))) hne
      · exact ⟨u, hmem, hid, rfl⟩

/-- A write of another company's row. -/
theorem carries_companies {f : Company → Company} (hf : ∀ c, (f c).id = c.id)
    (hne : a ≠ .company id) :
    Carries db { db with companies := Rows.update Company.id id f db.companies } a := by
  cases a with
  | user id' => exact carries_user rfl
  | company id' =>
      intro c hc hid
      rcases Rows.cases_update hc with ⟨old, -, hold, rfl⟩ | ⟨hmem, -⟩
      · exact absurd (congrArg Actor.company (hid.symm.trans ((hf old).trans hold))) hne
      · exact ⟨c, hmem, hid, rfl⟩

theorem carries_recache (db : Db) (a b : Actor) (now : ℤ) : Carries db (db.recache b now) a := by
  cases b with
  | user id =>
      cases a with
      | company id' => exact carries_company rfl
      | user id' =>
          intro u hu hid
          rcases Rows.cases_update hu with ⟨old, hmem, -, rfl⟩ | ⟨hmem, -⟩
          · exact ⟨old, hmem, hid, rfl⟩
          · exact ⟨u, hmem, hid, rfl⟩
  | company id =>
      cases a with
      | user id' => exact carries_user rfl
      | company id' =>
          intro c hc hid
          rcases Rows.cases_update hc with ⟨old, hmem, -, rfl⟩ | ⟨hmem, -⟩
          · exact ⟨old, hmem, hid, rfl⟩
          · exact ⟨c, hmem, hid, rfl⟩

theorem carries_setPlan (hne : a ≠ b) : Carries db (db.setPlan cfg e live b) a := by
  cases b with
  | user id => exact carries_users setUser_id hne
  | company id => exact carries_companies setCompany_id hne

/-! ## Credits and their events -/

theorem billed_packArgs (h : packAccount e = some a) :
    billed (packArgs e a now).userId (packArgs e a now).companyId = some a := by
  have hsome : ∀ s : String, s ≠ "" → given (some s) = some s := by
    intro s hs
    simp [given, Option.filter, hs]
  have hne : ∀ {o : Option String} {s : String}, given o = some s → s ≠ "" := by
    intro o s ho
    exact of_decide_eq_true (Option.filter_eq_some_iff.1 ho).2
  have huser : ∀ s : String, s ≠ "" → billed (some s) none = some (.user s) := by
    intro s hs
    unfold billed
    rw [hsome s hs]
    rfl
  have hcompany : ∀ s : String, s ≠ "" → billed none (some s) = some (.company s) := by
    intro s hs
    unfold billed
    rw [hsome s hs]
    rfl
  unfold packAccount at h
  split at h
  · rename_i c hc
    cases h
    exact hcompany c (hne hc)
  · rename_i u _ hu
    cases h
    exact huser u (hne hu)
  · obtain ⟨ref, href, heq⟩ := Option.map_eq_some_iff.1 h
    split at heq
    · cases heq
      exact hcompany ref (hne href)
    · cases heq
      exact huser ref (hne href)

theorem stripeEventId_packArgs (e : Event) (a : Actor) (now : ℤ) :
    (packArgs e a now).stripeEventId = some e.id := by
  have hid : given (some e.id) = some e.id := by simp [given, Option.filter, e.named]
  unfold packArgs
  rw [hid]
  rfl

/-- What the grant of a pack does, where it can be stored. -/
theorem grantNow_pack {l : Ledger} (h : packAccount e = some a)
    (hpos : 0 < e.object.metadata.messages.getD 1000) :
    grantNow (packArgs e a now) l = if l.hasEvent (some e.id) then
        (l, .duplicateEvent (l.balance a now))
      else
        let l' : Ledger := ⟨l.grants ++ [(packArgs e a now).row a l.nextId], l.nextId + 1⟩
        (l', .granted (l'.balance a now) (packArgs e a now).expiresAt (packArgs e a now).messages) := by
  have hid : given (some e.id) = some e.id := by simp [given, Option.filter, e.named]
  have hcall : grantCredits (packArgs e a now) l
      = (l, .inl (if l.hasEvent (some e.id) then .duplicate a else .insert a)) := by
    have hneg : ¬(packArgs e a now).messages ≤ 0 := not_le.2 hpos
    unfold grantCredits
    rw [billed_packArgs h, stripeEventId_packArgs, hid]
    simp only [if_neg hneg]
  unfold grantNow
  rw [hcall]
  by_cases hdup : l.hasEvent (some e.id) = true
  · rw [if_pos hdup, if_pos hdup]
    rfl
  · rw [if_neg hdup, if_neg hdup]
    simp only [creditStep, insertGrant, stripeEventId_packArgs, if_neg hdup]
    rfl

theorem hasEvent_row (q : GrantArgs) (l : Ledger) (k : String) (hq : q.stripeEventId = some k) :
    Ledger.hasEvent ⟨l.grants ++ [q.row a l.nextId], l.nextId + 1⟩ (some k) = true := by
  simp [Ledger.hasEvent, GrantArgs.row, hq]

/-- The events of the grants that there were are there still. -/
def Ledger.Keeps (l l' : Ledger) : Prop := ∀ k, l.hasEvent k = true → l'.hasEvent k = true

theorem keeps_append (l : Ledger) (g : Grant) (n : ℕ) : Ledger.Keeps l ⟨l.grants ++ [g], n⟩ := by
  intro k hk
  simp only [Accounts.Ledger.hasEvent, Bool.and_eq_true, List.any_append, Bool.or_eq_true] at hk ⊢
  exact ⟨hk.1, .inl hk.2⟩

theorem keeps_drawAll (l : Ledger) (ts : List (ℕ × ℤ)) : Ledger.Keeps l (l.drawAll ts) := by
  intro k hk
  have hcol : (l.drawAll ts).grants.map Grant.stripeEventId = l.grants.map Grant.stripeEventId :=
    Accounts.Ledger.map_drawAll _ fun _ _ => rfl
  have hany := congrArg (List.any · fun s => decide (s = k)) hcol
  simp only [List.any_map] at hany
  simp only [Accounts.Ledger.hasEvent, Bool.and_eq_true] at hk ⊢
  exact ⟨hk.1, hany.trans hk.2⟩

@[simp] theorem recache_ledger (db : Db) (a : Actor) (now : ℤ) :
    (db.recache a now).ledger = db.ledger := by cases a <;> rfl

/-- A balance that is cached is not cached anew. -/
theorem unchanged_recache (h : db.cached now a = true) : Unchanged db (db.recache a now) := by
  cases a with
  | user id =>
      have hall : ∀ u ∈ db.users, u.id ≠ id ∨ u.creditBalance = db.ledger.balance (.user id) now := by
        simpa [Db.cached] using h
      refine ⟨update_eq_self fun u hu hid => ?_, rfl, rfl⟩
      rcases hall u hu with hne | hbalance
      · exact absurd hid hne
      · rw [← hbalance]
  | company id =>
      have hall : ∀ c ∈ db.companies,
          c.id ≠ id ∨ c.creditBalance = db.ledger.balance (.company id) now := by
        simpa [Db.cached] using h
      refine ⟨rfl, update_eq_self fun c hc hid => ?_, rfl⟩
      rcases hall c hc with hne | hbalance
      · exact absurd hid hne
      · rw [← hbalance]

/-! ## What one delivery does -/

/-- What a delivery does to the tables, and how it is answered. -/
inductive Effect (cfg : Config) (e : Event) (i : Reading) (db : Db) : Db → Outcome → Prop where
  | quiet {t : Db} {o : Outcome} (husers : t.users = db.users)
      (hcompanies : t.companies = db.companies) (hledger : t.ledger = db.ledger)
      (ho : o.raised = true → o.acknowledged = false)
      (hpack : e.isPack = true → (packAccount e).isSome → o.acknowledged = false)
      (hplan : e.setsPlan = true → (accountOf e db).isSome → o ≠ ⟨false, true⟩) :
      Effect cfg e i db t o
  | planned {b : Actor} (hplan : e.setsPlan = true) (haccount : accountOf e db = some b)
      (hstores : i.stores = true) (hverified : (i.configured && i.signed) = true) :
      Effect cfg e i db (db.setPlan cfg e i.live b) ⟨false, true⟩
  | granted {b : Actor} {l : Ledger} (hpack : e.isPack = true) (haccount : packAccount e = some b)
      (hverified : (i.configured && i.signed) = true) (hkeeps : Ledger.Keeps db.ledger l)
      (hevent : l.hasEvent (some e.id) = true)
      (hsame : db.ledger.hasEvent (some e.id) = true → l = db.ledger) :
      Effect cfg e i db (Db.recache { db with ledger := l } b i.now) ⟨false, true⟩

theorem setsPlan_of_isPack (h : e.isPack = true) : e.setsPlan = false := by
  have hkind : e.kind = .checkoutCompleted := by
    have hboth : e.kind = .checkoutCompleted ∧ e.object.metadata.kind = some "credit_pack" := by
      simpa [Event.isPack] using h
    exact hboth.1
  unfold Event.setsPlan
  rw [hkind, h]
  rfl

/-- A pack that can be stored. -/
theorem handlePack_effect (hpack : e.isPack = true) (hverified : (i.configured && i.signed) = true)
    (hstores : ∀ a, packAccount e = some a →
      i.stores = true ∧ 0 < e.object.metadata.messages.getD 1000) :
    Effect cfg e i db (handlePack e i db).1 (handlePack e i db).2 := by
  have hplan : e.setsPlan = false := setsPlan_of_isPack hpack
  unfold handlePack
  cases haccount : packAccount e with
  | none =>
      refine .quiet rfl rfl rfl (fun h => by cases h) (fun _ h => ?_) fun h => ?_
      · rw [haccount] at h
        cases h
      · rw [hplan] at h
        cases h
  | some a =>
      obtain ⟨hi, hpos⟩ := hstores a haccount
      simp only [hi, if_true, grantNow_pack haccount hpos]
      by_cases hdup : db.ledger.hasEvent (some e.id) = true
      · rw [if_pos hdup]
        exact .granted hpack haccount hverified (fun _ h => h) hdup fun _ => rfl
      · rw [if_neg hdup]
        exact .granted hpack haccount hverified (keeps_append _ _ _)
          (hasEvent_row _ _ e.id (stripeEventId_packArgs e a i.now)) fun h => absurd h hdup

/-- **Every delivery has one of the effects**, if a pack can be stored. -/
theorem handle_effect
    (hstores : (i.configured && i.signed) = true → e.isPack = true → ∀ a, packAccount e = some a →
      i.stores = true ∧ 0 < e.object.metadata.messages.getD 1000) :
    Effect cfg e i db (handle cfg e i db).1 (handle cfg e i db).2 := by
  unfold handle
  cases hverified : (i.configured && i.signed) with
  | false =>
      exact .quiet rfl rfl rfl (fun _ => rfl) (fun _ _ => rfl) fun _ _ h => by cases h
  | true =>
      rw [Bool.not_true, if_neg Bool.false_ne_true]
      cases hpack : e.isPack with
      | true =>
          rw [if_pos rfl]
          exact handlePack_effect hpack hverified (hstores hverified hpack)
      | false =>
          rw [if_neg Bool.false_ne_true]
          have hnopack : ∀ {o : Outcome}, e.isPack = true → (packAccount e).isSome →
              o.acknowledged = false := fun h => by rw [hpack] at h; cases h
          cases hplan : e.setsPlan with
          | true =>
              rw [if_pos rfl]
              unfold handlePlan
              cases haccount : accountOf e db with
              | none =>
                  refine .quiet rfl rfl rfl (fun h => by cases h) hnopack fun _ h => ?_
                  rw [haccount] at h
                  cases h
              | some b =>
                  unfold store
                  cases hi : i.stores with
                  | true => exact .planned hplan haccount hi hverified
                  | false =>
                      exact .quiet rfl rfl rfl (fun _ => rfl) hnopack fun _ _ h => by cases h
          | false =>
              rw [if_neg Bool.false_ne_true]
              have hnoplan : ∀ {o : Outcome}, e.setsPlan = true → (accountOf e db).isSome →
                  o ≠ ⟨false, true⟩ := fun h => by rw [hplan] at h; cases h
              split
              · exact .quiet rfl rfl rfl (fun h => by cases h) hnopack hnoplan
              · unfold store
                split
                · exact .quiet rfl rfl rfl (fun h => by cases h) hnopack hnoplan
                · exact .quiet rfl rfl rfl (fun _ => rfl) hnopack hnoplan

end ArchHub.Accounts.Billing

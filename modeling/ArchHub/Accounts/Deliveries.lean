import ArchHub.Accounts.Redelivery

/-!
# The webhook over whole histories

Along a run of steady deliveries, among any turns, seat changes and sign-ups, the row of each
account says what the event says that wrote it last, and every pack that was acknowledged has its
grant (`Settled`).  So every delivery is faithful (`faithful_of_run`).
-/

namespace ArchHub.Accounts.Billing

open Lib Service

variable {cfg : Config} {e x : Event} {live : Option Live} {db t : Db} {a b : Actor} {i : Reading}
  {w : World} {o : Outcome}

/-- What every run keeps. -/
structure Settled (cfg : Config) (w : World) : Prop where
  written : ∀ a e live, latest (writer a) w.history = some (some (e, live)) → Written cfg e live w.db a
  granted : ∀ e ∈ w.history.filterMap acknowledged, e.isPack = true → (packAccount e).isSome →
    w.db.ledger.hasEvent (some e.id) = true
  faithful : Warranted Faithful w.history

/-! ## Deliveries -/

/-- What a steady delivery needs of a pack. -/
theorem stores_of_steady (h : steady w (.deliver e i) = true)
    (hverified : (i.configured && i.signed) = true) (hpack : e.isPack = true) (a : Actor)
    (ha : packAccount e = some a) :
    i.stores = true ∧ 0 < e.object.metadata.messages.getD 1000 := by
  simp only [steady, hverified, hpack, ha, Bool.not_true, Bool.false_eq_true, if_false, if_true,
    Option.all_some, Bool.and_eq_true, decide_eq_true_eq] at h
  exact h.1

/-- When a pack comes again, its balance is cached. -/
theorem cached_of_steady (h : steady w (.deliver e i) = true)
    (hverified : (i.configured && i.signed) = true) (hpack : e.isPack = true)
    (ha : packAccount e = some a) (hagain : repeated w.history e = true) :
    w.db.cached i.now a = true := by
  simp only [steady, hverified, hpack, ha, hagain, Bool.not_true, Bool.false_eq_true, if_false,
    if_true, Option.all_some, Bool.and_eq_true, Bool.false_or] at h
  exact h.2

/-- When an event comes again that sets a plan, it was the last to write the row. -/
theorem latest_of_steady (h : steady w (.deliver e i) = true)
    (hverified : (i.configured && i.signed) = true) (hplan : e.setsPlan = true)
    (hstores : i.stores = true) (ha : accountOf e w.db = some a)
    (hagain : repeated w.history e = true) :
    latest (writer a) w.history = some (some (e, i.live)) := by
  have hpack : e.isPack = false := by
    cases hp : e.isPack with
    | false => rfl
    | true => rw [setsPlan_of_isPack hp] at hplan; cases hplan
  simp only [steady, hverified, hpack, hplan, hstores, ha, hagain, Bool.not_true,
    Bool.false_eq_true, if_false, if_true, Option.all_some, Bool.false_or,
    decide_eq_true_eq] at h
  exact h

/-- The entry of a delivery. -/
def delivery (cfg : Config) (w : World) (e : Event) (i : Reading) : Entry :=
  .delivered ⟨e, i, w.db, (handle cfg e i w.db).1, (handle cfg e i w.db).2⟩

theorem Effect.keeps (h : Effect cfg e i db t o) : Ledger.Keeps db.ledger t.ledger := by
  cases h with
  | quiet husers hcompanies hledger ho hpack hplan => rw [hledger]; exact fun _ hk => hk
  | @planned b hplan haccount hstores hverified => cases b <;> exact fun _ hk => hk
  | granted hpack haccount hverified hkeeps hevent hsame =>
      rw [recache_ledger]
      exact hkeeps

/-- An account's row is carried by a delivery that did not set its plan. -/
theorem Effect.carries (h : Effect cfg e i db t o)
    (ha : writer a (.delivered ⟨e, i, db, t, o⟩) = none) : Carries db t a := by
  cases h with
  | quiet husers hcompanies hledger ho hpack hplan => exact carries_of_eq husers hcompanies
  | @planned b hplan haccount hstores hverified =>
      refine carries_setPlan fun heq => ?_
      subst heq
      simp [writer, hplan, haccount] at ha
  | @granted b l hpack haccount hverified hkeeps hevent hsame =>
      have hrows : Carries db (Db.recache { db with ledger := l } b i.now) a := by
        have hcarry := carries_recache { db with ledger := l } a b i.now
        cases a <;> exact hcarry
      exact hrows

/-- Who set the plan of an account said what its row says. -/
theorem Effect.written (h : Effect cfg e i db t o)
    (ha : writer a (.delivered ⟨e, i, db, t, o⟩) = some (some (x, live))) :
    Written cfg x live t a := by
  have hwriter : e.setsPlan = true ∧ accountOf e db = some a ∧ o = ⟨false, true⟩ ∧
      e = x ∧ i.live = live := by
    simpa [writer, and_assoc] using ha
  obtain ⟨hset, hacc, rfl, rfl, rfl⟩ := hwriter
  cases h with
  | quiet husers hcompanies hledger ho hpack hplan =>
      exact absurd rfl (hplan hset (hacc ▸ rfl))
  | planned hplan haccount hstores hverified =>
      rw [hacc] at haccount
      cases haccount
      exact written_setPlan cfg e i.live db a
  | granted hpack haccount hverified hkeeps hevent hsame =>
      rw [setsPlan_of_isPack hpack] at hset
      cases hset

/-- **A steady delivery is faithful.** -/
theorem Effect.faithful (h : Effect cfg e i w.db t o) (hw : Settled cfg w)
    (hsteady : steady w (.deliver e i) = true) :
    Faithful w.history (.delivered ⟨e, i, w.db, t, o⟩) := by
  constructor
  · intro hagain
    have hhandled : e ∈ w.history.filterMap acknowledged := by
      have hboth := of_decide_eq_true hagain
      exact hboth.1
    show Unchanged w.db t
    cases h with
    | quiet husers hcompanies hledger ho hpack hplan => exact ⟨husers, hcompanies, hledger⟩
    | @planned b hplan haccount hstores hverified =>
        have hlast := latest_of_steady hsteady hverified hplan hstores haccount hagain
        rw [(hw.written b e i.live hlast).setPlan]
        exact ⟨rfl, rfl, rfl⟩
    | @granted b l hpack haccount hverified hkeeps hevent hsame =>
        have hthere := hw.granted e hhandled hpack (haccount ▸ rfl)
        rw [hsame hthere]
        exact unchanged_recache (cached_of_steady hsteady hverified hpack haccount hagain)
  · show o.raised = true → o.acknowledged = false
    cases h with
    | quiet husers hcompanies hledger ho hpack hplan => exact ho
    | planned hplan haccount hstores hverified => exact fun h => by cases h
    | granted hpack haccount hverified hkeeps hevent hsame => exact fun h => by cases h

/-- An event that is acknowledged, and paid for credits, has its grant. -/
theorem Effect.granted_of (h : Effect cfg e i db t o) (ho : o.acknowledged = true)
    (hpack : e.isPack = true) (ha : (packAccount e).isSome) :
    t.ledger.hasEvent (some e.id) = true := by
  cases h with
  | quiet husers hcompanies hledger ho' hpack' hplan =>
      rw [hpack' hpack ha] at ho
      cases ho
  | planned hplan haccount hstores hverified =>
      rw [setsPlan_of_isPack hpack] at hplan
      cases hplan
  | granted hpack haccount hverified hkeeps hevent hsame =>
      rw [recache_ledger]
      exact hevent

/-! ## Steps -/

/-- One entry more, after which the rows and the credits are kept. -/
theorem Settled.concat (hw : Settled cfg w) {n : Entry}
    (hcarries : ∀ a, writer a n = none → Carries w.db t a)
    (hwritten : ∀ a e live, writer a n = some (some (e, live)) → Written cfg e live t a)
    (hkeeps : Ledger.Keeps w.db.ledger t.ledger)
    (hgranted : ∀ e, acknowledged n = some e → e.isPack = true → (packAccount e).isSome →
      t.ledger.hasEvent (some e.id) = true)
    (hfaithful : Faithful w.history n) : Settled cfg ⟨t, w.history ++ [n]⟩ where
  written a e live hlast := by
    have hlast' : latest (writer a) (w.history ++ [n]) = some (some (e, live)) := hlast
    cases hn : writer a n with
    | none =>
        rw [latest_concat_none hn] at hlast'
        exact (hw.written a e live hlast').of_carries (hcarries a hn)
    | some o =>
        rw [latest_concat_some hn] at hlast'
        exact hwritten a e live (hn.trans hlast')
  granted e he := by
    rw [List.filterMap_append] at he
    rcases List.mem_append.1 he with hold | hnew
    · exact fun hpack ha => hkeeps _ (hw.granted e hold hpack ha)
    · obtain ⟨m, hm, hack⟩ := List.mem_filterMap.1 hnew
      obtain rfl := List.mem_singleton.1 hm
      exact hgranted e hack
  faithful := hw.faithful.concat hfaithful

/-- **What one step keeps.** -/
theorem Settled.step (hw : Settled cfg w) (act : Action) (h : steady w act = true) :
    Settled cfg ((webhooks cfg).step w act) := by
  cases act with
  | deliver e i =>
      have heffect : Effect cfg e i w.db (handle cfg e i w.db).1 (handle cfg e i w.db).2 :=
        handle_effect (stores_of_steady h)
      refine hw.concat (fun a ha => heffect.carries ha) (fun a x live ha => heffect.written ha)
        heffect.keeps (fun x hx hpack ha => ?_) (heffect.faithful hw h)
      have hack : (handle cfg e i w.db).2.acknowledged = true ∧ e = x := by
        simpa [acknowledged] using hx
      obtain ⟨hack, rfl⟩ := hack
      exact heffect.granted_of hack hpack ha
  | incrementUsage b =>
      refine hw.concat (fun a ha => ?_) (fun a x live ha => ?_) (fun _ hk => ?_)
        (fun x hx => by cases hx) trivial
      · have hne : a ≠ b := fun heq => by simp [writer, heq] at ha
        cases b with
        | user id => exact carries_users (fun _ => rfl) hne
        | company id => exact carries_companies (fun _ => rfl) hne
      · simp [writer] at ha
      · cases b <;> exact hk
  | consumeCredit b now =>
      refine hw.concat (fun a _ => ?_) (fun a x live ha => by cases ha) ?_
        (fun x hx => by cases hx) trivial
      · have hcarry := carries_recache { w.db with ledger := w.db.ledger.drawAll (takes 1
          ((w.db.ledger.spendable b now).map fun g => (g.id, g.remaining))) } a b now
        cases a <;> exact hcarry
      · show Ledger.Keeps w.db.ledger (Db.recache _ b now).ledger
        rw [recache_ledger]
        exact keeps_drawAll _ _
  | setSeats id seatLimit =>
      refine hw.concat (fun a ha => ?_) (fun a x live ha => ?_) (fun _ hk => hk)
        (fun x hx => by cases hx) trivial
      · exact carries_companies (fun _ => rfl) fun heq => by simp [writer, heq] at ha
      · simp [writer] at ha
  | signUp u =>
      refine hw.concat (fun a ha => ?_) (fun a x live ha => ?_) (fun _ hk => hk)
        (fun x hx => by cases hx) trivial
      · cases a with
        | company id => exact carries_company rfl
        | user id =>
            intro row hrow hid
            rcases List.mem_append.1 hrow with hold | hnew
            · exact ⟨row, hold, hid, rfl⟩
            · obtain rfl := List.mem_singleton.1 hnew
              simp [writer, hid] at ha
      · simp [writer] at ha
  | createCompany c =>
      refine hw.concat (fun a ha => ?_) (fun a x live ha => ?_) (fun _ hk => hk)
        (fun x hx => by cases hx) trivial
      · cases a with
        | user id => exact carries_user rfl
        | company id =>
            intro row hrow hid
            rcases List.mem_append.1 hrow with hold | hnew
            · exact ⟨row, hold, hid, rfl⟩
            · obtain rfl := List.mem_singleton.1 hnew
              simp [writer, hid] at ha
      · simp [writer] at ha

/-! ## Runs -/

/-- Nothing was delivered. -/
theorem settled_new (cfg : Config) (db : Db) : Settled cfg ⟨db, []⟩ where
  written a e live h := by cases h
  granted e he := by cases he
  faithful := warranted_nil

/-- **In every run of steady deliveries, whatever the tables were and whatever else writes them,
every delivery is faithful: an event that comes again changes nothing, and an event that could not
be stored is not acknowledged.** -/
theorem faithful_of_run (h : (webhooks cfg).Run (fun w act => steady w act = true) ⟨db, []⟩ w) :
    Warranted Faithful w.history := by
  have hw : Settled cfg w := h.invariant (fun _ act hok hi => hi.step act hok) (settled_new cfg db)
  exact hw.faithful

/-! ## One event, delivered twice -/

/-- No price is configured. -/
def unpriced : Config := ⟨fun _ => none⟩

/-- A user's checkout of the solo plan. -/
def soloCheckout : Event where
  id := "evt_1"
  named := by decide
  kind := .checkoutCompleted
  created := 1
  object := { id := "cs_1", clientReferenceId := some "u", customer := some "cus",
              metadata := { tier := some "solo" } }

/-- The same user's credits. -/
def packCheckout : Event where
  id := "evt_2"
  named := by decide
  kind := .checkoutCompleted
  created := 2
  object := { id := "cs_2", metadata := { kind := some "credit_pack", userId := some "u" } }

/-- A user signs up and checks out; the event comes again after these actions. -/
def twice (between : List Action) : List Action :=
  [.signUp { id := "u" }, .deliver soloCheckout {}] ++ between ++ [.deliver soloCheckout {}]

/-- Where they end. -/
def afterTwice (between : List Action) : World :=
  (twice between).foldl (webhooks unpriced).step ⟨{}, []⟩

/-- Credits that are bought and spent in between, and whose event comes twice, change nothing. -/
theorem faithful_twice : Warranted Faithful
    (afterTwice [.deliver packCheckout {}, .consumeCredit (.user "u") 0,
      .deliver packCheckout {}]).history := by
  have hwalk : (webhooks unpriced).walk steady ⟨{}, []⟩
      (twice [.deliver packCheckout {}, .consumeCredit (.user "u") 0, .deliver packCheckout {}])
        = true := by decide +kernel
  exact faithful_of_run (Machine.Run.ofWalk (fun _ _ h => h) hwalk)

/-- After a turn was metered, the event sets the count of the turns back. -/
theorem not_faithful_meteredTurn :
    ¬Warranted Faithful (afterTwice [.incrementUsage (.user "u")]).history := by
  intro h
  let before : World :=
    ([.signUp { id := "u" }, .deliver soloCheckout {}, .incrementUsage (.user "u")] :
      List Action).foldl (webhooks unpriced).step ⟨{}, []⟩
  have hlast := h before.history (delivery unpriced before soloCheckout {}) [] rfl
  have hagain : repeated before.history soloCheckout = true := by decide +kernel
  have husers := (hlast.1 hagain).users
  have hdiffer : (handle unpriced soloCheckout {} before.db).1.users ≠ before.db.users := by
    decide +kernel
  exact hdiffer husers

end ArchHub.Accounts.Billing

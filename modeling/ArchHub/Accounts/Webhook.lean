import ArchHub.Lib.Histories
import ArchHub.Accounts.Conservation
import ArchHub.Accounts.Companies

/-!
# The billing webhook

The payment provider delivers each event at least once, and again until it is acknowledged.

* `handle`: `handle_webhook`, with what the provider and the database answer as a reading.
* `webhooks`: deliveries in any order and number, among the turns, the seat changes and the
  sign-ups that also write the rows of accounts.
* `Faithful`: what is to hold of a delivery, by the deliveries before it.
* `steady`: the condition on one delivery.

An endpoint answers a delivery without giving way to another one, so a delivery is one step.
When an event was created is read by nobody; it says which of two events is the newer one.
-/

namespace ArchHub.Accounts.Billing

open Lib Service

/-! ## The tables -/

/-- A row of `users`. -/
structure User where
  id : String
  plan : String := "trial"
  stripeId : Option String := none
  periodEnd : Option ℤ := none
  msgLimit : ℤ := trialMessages
  msgUsed : ℤ := 0
  creditBalance : ℤ := 0
deriving DecidableEq

/-- A row of `companies`. -/
structure Company where
  id : String
  plan : String
  seatLimit : ℤ
  stripeCustomerId : Option String := none
  stripeSubscriptionId : Option String := none
  periodEnd : Option ℤ := none
  msgLimit : ℤ
  msgUsed : ℤ := 0
  creditBalance : ℤ := 0
deriving DecidableEq

/-- A row of `payment_events`. -/
structure Payment where
  ts : ℤ
  kind : String
  userId : Option String
  stripeObject : String
  amount : Option ℤ
  currency : Option String
  detail : String
deriving DecidableEq

structure Db where
  users : List User := []
  companies : List Company := []
  ledger : Ledger := .empty
  payments : List Payment := []

/-! ## Events -/

inductive Kind where
  | checkoutCompleted
  | subscriptionCreated
  | subscriptionUpdated
  | subscriptionDeleted
  | paymentFailed
  | chargeRefunded
  | other (type : String)
deriving DecidableEq

/-- `data.object.metadata`. -/
structure Metadata where
  kind : Option String := none
  companyId : Option String := none
  userId : Option String := none
  tier : Option String := none
  messages : Option ℤ := none
  seats : Option ℤ := none
deriving DecidableEq

/-- `data.object`; the price and the quantity are those of its first item. -/
structure Object where
  id : String
  clientReferenceId : Option String := none
  customer : Option String := none
  subscription : Option String := none
  currentPeriodEnd : Option ℤ := none
  priceId : Option String := none
  quantity : Option ℤ := none
  metadata : Metadata := {}
  paymentIntent : Option String := none
  amount : Option ℤ := none
  currency : Option String := none
  attemptCount : Option ℤ := none
deriving DecidableEq

structure Event where
  id : String
  /-- Every event has an id. -/
  named : ¬id = ""
  kind : Kind
  created : ℤ
  object : Object
deriving DecidableEq

namespace Event

/-- A checkout that bought credits. -/
def isPack (e : Event) : Bool :=
  e.kind = .checkoutCompleted ∧ e.object.metadata.kind = some "credit_pack"

/-- An event that sets a plan. -/
def setsPlan (e : Event) : Bool :=
  match e.kind with
  | .checkoutCompleted => !e.isPack
  | .subscriptionCreated => true
  | .subscriptionUpdated => true
  | .subscriptionDeleted => true
  | _ => false

/-- The subscription that an event is about. -/
def subscriptionId (e : Event) : Option String :=
  match e.kind with
  | .checkoutCompleted => e.object.subscription
  | .subscriptionCreated => some e.object.id
  | .subscriptionUpdated => some e.object.id
  | .subscriptionDeleted => some e.object.id
  | _ => none

end Event

/-- The prices that are configured: the tier of a price. -/
structure Config where
  tierOfPrice : String → Option String

/-- What `Subscription.retrieve` returned. -/
structure Live where
  currentPeriodEnd : ℤ
  /-- The quantity of the first item, if there is an item. -/
  quantity : Option ℤ
deriving DecidableEq

/-- What a delivery reads from outside. -/
structure Reading where
  now : ℤ := 0
  /-- `_ensure_stripe`. -/
  configured : Bool := true
  /-- `construct_event` accepts the signature. -/
  signed : Bool := true
  /-- The provider's answer about the subscription; none when the call raised. -/
  live : Option Live := none
  /-- The statement that writes succeeds. -/
  stores : Bool := true

/-- What came of a delivery: whether the store raised, and whether the provider was told that the
event is handled. -/
structure Outcome where
  raised : Bool
  acknowledged : Bool
deriving DecidableEq

/-! ## Accounts -/

/-- `_user_id_from_event`. -/
def userIdOf (e : Event) (db : Db) : Option String :=
  (given e.object.clientReferenceId).or <| (given e.object.metadata.userId).or <|
    (given e.object.customer).bind fun c =>
      (db.users.find? fun u => u.stripeId = some c).map User.id

/-- `_company_from_subscription`. -/
def companyOf (e : Event) (db : Db) : Option Company :=
  (given e.object.customer).bind fun c =>
    db.companies.find? fun row => row.stripeCustomerId = some c

/-- The account whose plan an event sets. -/
def accountOf (e : Event) (db : Db) : Option Actor :=
  match e.kind with
  | .checkoutCompleted =>
      if (given e.object.metadata.companyId).isSome ∨ e.object.metadata.kind = some "company" then
        (given ((given e.object.metadata.companyId).or e.object.clientReferenceId)).map .company
      else (userIdOf e db).map .user
  | _ => match companyOf e db with
      | some c => some (.company c.id)
      | none => (userIdOf e db).map .user

/-- The account that bought a pack. -/
def packAccount (e : Event) : Option Actor :=
  match given e.object.metadata.companyId, given e.object.metadata.userId with
  | some c, _ => some (.company c)
  | none, some u => some (.user u)
  | none, none => (given e.object.clientReferenceId).map fun ref =>
      if "co_".toList.isPrefixOf ref.toList then .company ref else .user ref

/-! ## Plans -/

/-- `update_user_plan`. -/
def User.updatePlan (plan : String) (stripeId : Option String) (periodEnd : Option ℤ) (u : User) :
    User :=
  { u with
    plan := plan
    stripeId := stripeId.or u.stripeId
    periodEnd := periodEnd
    msgLimit := planQuota plan
    msgUsed := 0 }

/-- `update_company` with a plan. -/
def Company.updatePlan (plan : String) (periodEnd : Option ℤ) (c : Company) : Company :=
  { c with plan := plan, periodEnd := periodEnd, msgLimit := planQuota plan, msgUsed := 0 }

/-- `_tier_from_subscription`. -/
def tierFromSubscription (cfg : Config) (e : Event) : Option String :=
  (given e.object.priceId).bind cfg.tierOfPrice

/-- What an event makes of the row of a user. -/
def setUser (cfg : Config) (e : Event) (live : Option Live) : User → User :=
  match e.kind with
  | .checkoutCompleted =>
      User.updatePlan ((given e.object.metadata.tier).getD "solo") e.object.customer
        (if (given e.object.subscription).isSome then live.map Live.currentPeriodEnd else none)
  | .subscriptionDeleted => User.updatePlan "trial" none none
  | _ => User.updatePlan ((tierFromSubscription cfg e).getD "solo") e.object.customer
      (some (e.object.currentPeriodEnd.getD 0))

/-- The period and the quantity that a company checkout reads: both or neither. -/
def liveSeats (e : Event) (live : Option Live) : Option (ℤ × ℤ) :=
  if (given e.object.subscription).isSome then
    live.bind fun l => l.quantity.map fun q => (l.currentPeriodEnd, q)
  else none

/-- The seats that a company checkout bought. -/
def boughtSeats (e : Event) (tier : String) (live : Option Live) : ℤ :=
  let quantity := ((liveSeats e live).map Prod.snd).getD 0
  let seats := if quantity ≠ 0 then quantity else e.object.metadata.seats.getD 0
  clampSeats tier (if seats ≠ 0 then seats else (planSeats tier).getD 1)

/-- What an event makes of the row of a company. -/
def setCompany (cfg : Config) (e : Event) (live : Option Live) (c : Company) : Company :=
  match e.kind with
  | .checkoutCompleted =>
      let tier := (given e.object.metadata.tier).getD "studio"
      { c.updatePlan tier ((liveSeats e live).map Prod.fst) with
        seatLimit := boughtSeats e tier live
        stripeCustomerId := e.object.customer
        stripeSubscriptionId := e.object.subscription }
  | .subscriptionDeleted => c.updatePlan "trial" none
  | _ =>
      let tier := (tierFromSubscription cfg e).getD c.plan
      let quantity := e.object.quantity.getD 0
      { c.updatePlan tier (some (e.object.currentPeriodEnd.getD 0)) with
        seatLimit := if quantity ≠ 0 then clampSeats tier quantity else c.seatLimit }

/-- The `UPDATE` of the account's row. -/
def Db.setPlan (db : Db) (cfg : Config) (e : Event) (live : Option Live) : Actor → Db
  | .user id => { db with users := Rows.update User.id id (setUser cfg e live) db.users }
  | .company id =>
      { db with companies := Rows.update Company.id id (setCompany cfg e live) db.companies }

/-! ## Credits -/

/-- `_recache_balance`. -/
def Db.recache (db : Db) (a : Actor) (now : ℤ) : Db :=
  let balance := db.ledger.balance a now
  match a with
  | .user id =>
      { db with
        users := Rows.update User.id id (fun u => { u with creditBalance := balance }) db.users }
  | .company id =>
      { db with
        companies := Rows.update Company.id id (fun c => { c with creditBalance := balance })
          db.companies }

/-- `grant_credits` from its call to its return. -/
def grantNow (q : GrantArgs) (l : Ledger) : Ledger × Accounts.Answer :=
  match grantCredits q l with
  | (l', .inr a) => (l', a)
  | (l', .inl p) => match creditStep (.grantCredits q) p l' with
      | (l'', .inr a) => (l'', a)
      | (l'', .inl _) => (l'', .integrityError)

/-- The arguments of the grant of a pack. -/
def packArgs (e : Event) (a : Actor) (now : ℤ) : GrantArgs where
  -- `CREDIT_PACK["messages"]`
  messages := e.object.metadata.messages.getD 1000
  userId := match a with | .user id => some id | .company _ => none
  companyId := match a with | .user _ => none | .company id => some id
  stripeEventId := (given (some e.id)).or <| (given (some e.object.id)).or e.object.paymentIntent
  now := now

/-! ## The handler -/

/-- A statement that raises leaves the tables as they are, and the event unacknowledged. -/
def store (i : Reading) (db t : Db) : Db × Outcome :=
  if i.stores then (t, ⟨false, true⟩) else (db, ⟨true, false⟩)

/-- A pack that was paid for. -/
def handlePack (e : Event) (i : Reading) (db : Db) : Db × Outcome :=
  match packAccount e with
  | none => (db, ⟨false, true⟩)
  | some a =>
      -- whatever the grant raises is printed
      if i.stores then
        match grantNow (packArgs e a i.now) db.ledger with
        | (_, .valueError _) => (db, ⟨true, true⟩)
        | (_, .integrityError) => (db, ⟨true, true⟩)
        | (l, _) => (Db.recache { db with ledger := l } a i.now, ⟨false, true⟩)
      else (db, ⟨true, true⟩)

/-- An event that sets a plan. -/
def handlePlan (cfg : Config) (e : Event) (i : Reading) (db : Db) : Db × Outcome :=
  match accountOf e db with
  | none => (db, ⟨false, true⟩)
  | some a => store i db (db.setPlan cfg e i.live a)

/-- The record of a payment. -/
def payment (e : Event) (i : Reading) (db : Db) : Payment where
  ts := i.now
  kind := if e.kind = .paymentFailed then "payment_failed" else "refund"
  userId := userIdOf e db
  stripeObject := e.object.id
  amount := e.object.amount
  currency := e.object.currency
  detail :=
    if e.kind = .paymentFailed then
      "attempt " ++ (e.object.attemptCount.elim "None" toString)
    else e.object.paymentIntent.getD ""

/-- `handle_webhook`. -/
def handle (cfg : Config) (e : Event) (i : Reading) (db : Db) : Db × Outcome :=
  if !(i.configured && i.signed) then (db, ⟨false, false⟩)
  else if e.isPack then handlePack e i db
  else if e.setsPlan then handlePlan cfg e i db
  else match e.kind with
    | .other _ => (db, ⟨false, true⟩)
    | _ => store i db { db with payments := db.payments ++ [payment e i db] }

/-! ## Deliveries among other writes -/

/-- A delivery, with the tables before and after it. -/
structure Delivery where
  event : Event
  reading : Reading
  before : Db
  after : Db
  outcome : Outcome

/-- What was done so far. -/
inductive Entry where
  | delivered (d : Delivery)
  /-- Another part of the program wrote the row of an account. -/
  | wrote (a : Actor)
  | spent (a : Actor)

structure World where
  db : Db
  history : List Entry := []

/-- `increment_usage_for_actor`. -/
def Db.incrementUsage (db : Db) : Actor → Db
  | .user id =>
      { db with
        users := Rows.update User.id id (fun u => { u with msgUsed := u.msgUsed + 1 }) db.users }
  | .company id =>
      { db with
        companies := Rows.update Company.id id (fun c => { c with msgUsed := c.msgUsed + 1 })
          db.companies }

/-- `consume_credit` of one credit, from its call to its return. -/
def Db.consumeCredit (db : Db) (a : Actor) (now : ℤ) : Db :=
  let rows := (db.ledger.spendable a now).map fun g => (g.id, g.remaining)
  Db.recache { db with ledger := db.ledger.drawAll (takes 1 rows) } a now

inductive Action where
  | deliver (e : Event) (i : Reading)
  /-- A turn is metered. -/
  | incrementUsage (a : Actor)
  | consumeCredit (a : Actor) (now : ℤ)
  /-- A company changes its seats. -/
  | setSeats (companyId : String) (seatLimit : ℤ)
  | signUp (u : User)
  | createCompany (c : Company)

/-- All that writes the rows of accounts. -/
def webhooks (cfg : Config) : Machine World Action where
  step w
    | .deliver e i =>
        let out := handle cfg e i w.db
        ⟨out.1, w.history ++ [.delivered ⟨e, i, w.db, out.1, out.2⟩]⟩
    | .incrementUsage a => ⟨w.db.incrementUsage a, w.history ++ [.wrote a]⟩
    | .consumeCredit a now => ⟨w.db.consumeCredit a now, w.history ++ [.spent a]⟩
    | .setSeats id seatLimit =>
        ⟨{ w.db with
            companies := Rows.update Company.id id (fun c => { c with seatLimit := seatLimit })
              w.db.companies },
          w.history ++ [.wrote (.company id)]⟩
    | .signUp u => ⟨{ w.db with users := w.db.users ++ [u] }, w.history ++ [.wrote (.user u.id)]⟩
    | .createCompany c =>
        ⟨{ w.db with companies := w.db.companies ++ [c] }, w.history ++ [.wrote (.company c.id)]⟩

/-! ## What is to hold -/

/-- An event that was acknowledged. -/
def acknowledged : Entry → Option Event
  | .delivered d => if d.outcome.acknowledged then some d.event else none
  | _ => none

/-- An event was handled, and no newer one of its subscription was. -/
def repeated (history : List Entry) (e : Event) : Bool :=
  let handled := history.filterMap acknowledged
  e ∈ handled ∧ ∀ x ∈ handled, x.subscriptionId.isSome → x.subscriptionId = e.subscriptionId →
    x.created ≤ e.created

/-- The users, the companies with their counters, and the credits are as they were. -/
structure Unchanged (before after : Db) : Prop where
  users : after.users = before.users
  companies : after.companies = before.companies
  ledger : after.ledger = before.ledger

/-- **What is to hold of a delivery**: an event that was handled changes nothing when it comes
again, and one whose effect could not be stored is not acknowledged. -/
def Faithful (earlier : List Entry) : Entry → Prop
  | .delivered d =>
      (repeated earlier d.event = true → Unchanged d.before d.after) ∧
        (d.outcome.raised = true → d.outcome.acknowledged = false)
  | _ => True

/-! ## The condition -/

/-- Who wrote the plan of an account: an event with what it read, or somebody else. -/
def writer (a : Actor) : Entry → Option (Option (Event × Option Live))
  | .delivered d =>
      if d.event.setsPlan ∧ accountOf d.event d.before = some a ∧ d.outcome = ⟨false, true⟩ then
        some (some (d.event, d.reading.live))
      else none
  | .wrote b => if b = a then some none else none
  | .spent _ => none

/-- The cached balance of an account is its balance. -/
def Db.cached (db : Db) (now : ℤ) (a : Actor) : Bool :=
  match a with
  | .user id => db.users.all fun u => u.id ≠ id ∨ u.creditBalance = db.ledger.balance a now
  | .company id => db.companies.all fun c => c.id ≠ id ∨ c.creditBalance = db.ledger.balance a now

/-- The condition on a delivery.  Credits that were paid for can be stored, and when their event
comes again no credit of the account has lapsed since its balance was cached.  When an event comes
again that sets the plan of an account, it was the last to write the account's row, and the
provider says what it said then. -/
def steady (w : World) : Action → Bool
  | .deliver e i =>
      if !(i.configured && i.signed) then true
      else if e.isPack then
        (packAccount e).all fun a => i.stores && decide (0 < e.object.metadata.messages.getD 1000) &&
          (!repeated w.history e || w.db.cached i.now a)
      else if e.setsPlan then
        !repeated w.history e || !i.stores || (accountOf e w.db).all fun a =>
          decide (latest (writer a) w.history = some (some (e, i.live)))
      else true
  | _ => true

end ArchHub.Accounts.Billing

import ArchHub.Lib.Requests
import ArchHub.Lib.Rows

/-!
# Hosted credits

Credits are bought in packs and spent one hosted message at a time.  A pack is a row of
`credit_grants`; spending draws on the rows that expire first.

* `grantCredits`: `grant_credits`, which looks for the billing event first and inserts then.
* `consumeCredit`: `consume_credit`, which selects the rows first and updates them then.
* `credits`: the service of both.  A `SELECT` is made outside of any transaction; the first
  statement that writes opens one, and the commit ends it, so all that a request writes is
  written at once.

The cached balance of an account is not read by either and left out.
-/

namespace ArchHub.Accounts

open Lib Service

/-! ## The ledger -/

/-- Who is billed. -/
inductive Actor where
  | user (id : String)
  | company (id : String)
deriving DecidableEq, Repr

/-- A string that is there and not empty. -/
def given (s : Option String) : Option String := s.filter (· ≠ "")

/-- Exactly one of the two must be given. -/
def billed (userId companyId : Option String) : Option Actor :=
  match given userId, given companyId with
  | some u, none => some (.user u)
  | none, some c => some (.company c)
  | _, _ => none

/-- A row of `credit_grants`. -/
structure Grant where
  id : ℕ
  actor : Actor
  messages : ℤ
  remaining : ℤ
  source : String
  stripeEventId : Option String
  grantedAt : ℤ
  expiresAt : ℤ
deriving DecidableEq, Repr

/-- The table `credit_grants`, and the next of its numbers. -/
structure Ledger where
  grants : List Grant
  nextId : ℕ

namespace Ledger

/-- No credit was ever granted. -/
def empty : Ledger := ⟨[], 1⟩

/-- The grants of one actor that have not expired. -/
def live (l : Ledger) (a : Actor) (now : ℤ) : List Grant :=
  l.grants.filter fun g => g.actor = a ∧ now < g.expiresAt

/-- The balance that `_recache_balance` computes. -/
def balance (l : Ledger) (a : Actor) (now : ℤ) : ℤ := ((l.live a now).map Grant.remaining).sum

end Ledger

/-! ## Requests -/

/-- The arguments of `grant_credits`. -/
structure GrantArgs where
  messages : ℤ
  userId : Option String := none
  companyId : Option String := none
  rolloverDays : Option ℤ := none
  source : String := "credit_pack"
  stripeEventId : Option String := none
  now : ℤ

/-- The arguments of `consume_credit`. -/
structure ConsumeArgs where
  n : ℤ := 1
  userId : Option String := none
  companyId : Option String := none
  now : ℤ

inductive Request where
  | grantCredits (q : GrantArgs)
  | consumeCredit (q : ConsumeArgs)

inductive Answer where
  | granted (balance expiresAt messages : ℤ)
  | duplicateEvent (balance : ℤ)
  | consumed (consumed balance : ℤ) (exhausted : Bool)
  | valueError (text : String)
  | integrityError
deriving DecidableEq

/-- Where a request is between two statements. -/
inductive Phase where
  | called
  /-- The billing event was found. -/
  | duplicate (a : Actor)
  /-- The billing event was not found. -/
  | insert (a : Actor)
  /-- The number and the remaining credits of each live grant, as selected. -/
  | spend (a : Actor) (rows : List (ℕ × ℤ))

/-! ## Granting -/

/-- `CREDIT_PACK["rollover_days"]`. -/
def creditPackRolloverDays : ℤ := 60

/-- `expires_at`. -/
def GrantArgs.expiresAt (q : GrantArgs) : ℤ :=
  q.now + q.rolloverDays.getD creditPackRolloverDays * 86400

/-- The row of a grant. -/
def GrantArgs.row (q : GrantArgs) (a : Actor) (id : ℕ) : Grant where
  id := id
  actor := a
  messages := q.messages
  remaining := q.messages
  source := q.source
  stripeEventId := q.stripeEventId
  grantedAt := q.now
  expiresAt := q.expiresAt

/-- Whether some grant has this billing event. -/
def Ledger.hasEvent (l : Ledger) (e : Option String) : Bool :=
  e.isSome && l.grants.any fun g => g.stripeEventId = e

/-- The `INSERT` and the balance after it; the index on `stripe_event_id` is unique. -/
def insertGrant (q : GrantArgs) (a : Actor) (l : Ledger) : Ledger × (Phase ⊕ Answer) :=
  if l.hasEvent q.stripeEventId then (l, .inr .integrityError)
  else
    let t : Ledger := ⟨l.grants ++ [q.row a l.nextId], l.nextId + 1⟩
    (t, .inr (.granted (t.balance a q.now) q.expiresAt q.messages))

/-- `grant_credits` from the call to its first statement. -/
def grantCredits (q : GrantArgs) (l : Ledger) : Ledger × (Phase ⊕ Answer) :=
  match billed q.userId q.companyId with
  | none => (l, .inr (.valueError "grant_credits needs exactly one of user_id/company_id"))
  | some a =>
      if q.messages ≤ 0 then (l, .inr (.valueError "messages must be positive"))
      else match given q.stripeEventId with
        | none => insertGrant q a l
        | some e => (l, .inl (if l.hasEvent (some e) then .duplicate a else .insert a))

/-! ## Spending -/

/-- The `SELECT` of `consume_credit`. -/
def Ledger.spendable (l : Ledger) (a : Actor) (now : ℤ) : List Grant :=
  Rows.orderBy (fun g => toLex (g.expiresAt, g.id)) ((l.live a now).filter fun g => 0 < g.remaining)

/-- `consume_credit` from the call to its first statement. -/
def consumeCredit (q : ConsumeArgs) (l : Ledger) : Ledger × (Phase ⊕ Answer) :=
  match billed q.userId q.companyId with
  | none => (l, .inr (.valueError "consume_credit needs exactly one of user_id/company_id"))
  | some a => (l, .inl (.spend a ((l.spendable a q.now).map fun g => (g.id, g.remaining))))

/-- What the loop takes from each row. -/
def takes : ℤ → List (ℕ × ℤ) → List (ℕ × ℤ)
  | _, [] => []
  | need, (id, remaining) :: rows =>
      if need ≤ 0 then []
      else (id, min remaining need) :: takes (need - min remaining need) rows

/-- `SET remaining = remaining - take`. -/
def Grant.draw (take : ℤ) (g : Grant) : Grant := { g with remaining := g.remaining - take }

/-- The `UPDATE` of each row, one after the other. -/
def Ledger.drawAll (l : Ledger) (ts : List (ℕ × ℤ)) : Ledger where
  grants := ts.foldl (fun gs t => Rows.update Grant.id t.1 (Grant.draw t.2) gs) l.grants
  nextId := l.nextId

/-- How much is taken in all. -/
def taken (ts : List (ℕ × ℤ)) : ℤ := (ts.map Prod.snd).sum

/-- The updates and the balance after them. -/
def spendRows (q : ConsumeArgs) (a : Actor) (rows : List (ℕ × ℤ)) (l : Ledger) :
    Ledger × (Phase ⊕ Answer) :=
  let ts := takes q.n rows
  let t := l.drawAll ts
  (t, .inr (.consumed (taken ts) (t.balance a q.now) (t.balance a q.now ≤ 0)))

/-! ## The service -/

/-- The next statement, or transaction, of a request. -/
def creditStep : Request → Phase → Ledger → Ledger × (Phase ⊕ Answer)
  | .grantCredits q, .called, l => grantCredits q l
  | .grantCredits q, .duplicate a, l => (l, .inr (.duplicateEvent (l.balance a q.now)))
  | .grantCredits q, .insert a, l => insertGrant q a l
  | .consumeCredit q, .called, l => consumeCredit q l
  | .consumeCredit q, .spend a rows, l => spendRows q a rows l
  -- a request is never in a phase of the other kind
  | _, p, l => (l, .inl p)

/-- Granting and spending by any number of requests. -/
def credits : Service Ledger Request Phase Answer Unit where
  first _ := .called
  step r p _ l := creditStep r p l

end ArchHub.Accounts

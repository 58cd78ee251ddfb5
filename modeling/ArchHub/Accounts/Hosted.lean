import ArchHub.Accounts.Conservation

/-!
# Hosted turns

The proxy lets a chat request through when its account has quota and credits, and charges it
when the stream has ended.  In between any number of other requests start and end.

* `chatStep`: `chat_completions` and the stream it answers with, statement by statement.
* `hosted`: the service of chat requests and of grants.
* `Paid`: what is to hold of the turns that were completed; `paid_of_run`: it holds in every run
  in which each request that ends finds a credit of the account that let it through, and finds it
  still there when it takes it.

A turn is completed when its response is: the stream is at its end and the charge was made.  The
receipts of the charges, and their numbers, are kept in the model only.
-/

namespace ArchHub.Accounts.Hosted

open Lib Service

/-! ## The tables -/

inductive AiMode where
  | byoKey
  | hosted
deriving DecidableEq

/-- A row of `users`; `plan` is stored lower-case and stripped. -/
structure User where
  id : String
  /-- An id is minted, never empty. -/
  minted : id ≠ ""
  currentCompanyId : Option String := none
  plan : String
  aiMode : AiMode
  msgLimit : ℤ
  msgUsed : ℤ
deriving DecidableEq

/-- A row of `companies`. -/
structure Company where
  id : String
  aiMode : AiMode
  msgLimit : ℤ
  msgUsed : ℤ
deriving DecidableEq

/-- A row of `company_members`. -/
structure Member where
  companyId : String
  userId : String
  accessUntil : Option String := none
deriving DecidableEq

/-- A row of `usage_log`. -/
structure Usage where
  userId : String
  ts : ℤ
  model : String
deriving DecidableEq

/-- What was taken at the end of a hosted stream: the account that let the request through, the
one that was charged, and the credits that it was charged. -/
structure Receipt where
  number : ℕ
  admitted : Actor
  charged : Actor
  consumed : ℤ
deriving DecidableEq

structure Db where
  users : List User
  companies : List Company := []
  members : List Member := []
  usageLog : List Usage := []
  ledger : Ledger := .empty
  receipts : List Receipt := []

namespace Db

def getUser (db : Db) (id : String) : Option User := Rows.select User.id id db.users

def getCompany (db : Db) (id : String) : Option Company := Rows.select Company.id id db.companies

/-- `get_membership`: dates are compared as texts. -/
def getMembership (db : Db) (companyId userId today : String) : Option Member :=
  let row := Rows.select (fun m : Member => (m.companyId, m.userId)) (companyId, userId) db.members
  row.filter fun m => (given m.accessUntil).all fun day => ¬day < today

/-- The account a user bills on: a company it is a member of, else its own. -/
def actor (db : Db) (u : User) (today : String) : Actor :=
  match given u.currentCompanyId with
  | none => .user u.id
  | some c => if (db.getMembership c u.id today).isSome then .company c else .user u.id

/-- `quota_remaining`. -/
def quotaRemaining (db : Db) (userId : String) : ℤ :=
  match db.getUser userId with
  | none => 0
  | some row => max 0 (row.msgLimit - row.msgUsed)

/-- `quota_remaining_for_actor`. -/
def quotaRemainingForActor (db : Db) (u : User) (today : String) : ℤ :=
  match db.actor u today with
  | .user _ => db.quotaRemaining u.id
  | .company c => match db.getCompany c with
      | some row => max 0 (row.msgLimit - row.msgUsed)
      | none => db.quotaRemaining u.id

/-- `ai_mode_for_actor`; a user's own mode is that of the row the request came with. -/
def aiModeForActor (db : Db) (u : User) (today : String) : AiMode :=
  match db.actor u today with
  | .user _ => u.aiMode
  | .company c => ((db.getCompany c).map Company.aiMode).getD u.aiMode

/-- `credit_balance_for_actor`. -/
def creditBalanceForActor (db : Db) (u : User) (today : String) (now : ℤ) : ℤ :=
  db.ledger.balance (db.actor u today) now

/-- `increment_usage`. -/
def incrementUsage (db : Db) (userId : String) : Db :=
  { db with
    users := Rows.update User.id userId (fun row => { row with msgUsed := row.msgUsed + 1 })
      db.users }

/-- `increment_usage_for_actor`. -/
def incrementUsageForActor (db : Db) (u : User) (today : String) : Db :=
  match db.actor u today with
  | .user _ => db.incrementUsage u.id
  | .company c =>
      if (db.getCompany c).isSome then
        { db with
          companies := Rows.update Company.id c (fun row => { row with msgUsed := row.msgUsed + 1 })
            db.companies }
      else db.incrementUsage u.id

/-- `log_usage`. -/
def logUsage (db : Db) (userId : String) (now : ℤ) (model : String) : Db :=
  { db with usageLog := db.usageLog ++ [⟨userId, now, model⟩] }

/-- `free_messages_today`; `LIKE` looks at no letter's case. -/
def freeMessagesToday (db : Db) (userId : String) (now : ℤ) : ℕ :=
  db.usageLog.countP fun row => row.userId = userId ∧ now - now % 86400 ≤ row.ts ∧
    "free:".toList.isPrefixOf (row.model.toList.map Char.toLower)

end Db

/-! ## Chat requests -/

/-- What the deployment is configured with. -/
structure Config where
  proxyLive : Bool
  /-- `PROXY_ENABLED_PLANS`. -/
  enabledPlans : List String
  /-- The model of the free default, where that is available. -/
  freeModel : Option String
  freeDailyCap : ℤ
  /-- The model that a hosted request for a model is sent to, where its provider has a key. -/
  upstream : String → Option String

inductive Request where
  /-- A chat request, with the row of the user it was made by and the model it asks for. -/
  | chat (u : User) (model : Option String)
  | grant (q : GrantArgs)

/-- What a step reads from outside: the clock, the date, and how the provider's stream went. -/
structure Reading where
  now : ℤ := 0
  today : String := ""
  /-- The provider's stream came to its end, and the client read all of it. -/
  ended : Bool := true

inductive Answer where
  | refused (status : ℕ) (error : String)
  /-- The stream broke off: nothing after it is done. -/
  | broken
  /-- The generator raised after the last chunk. -/
  | raised
  | served
  | completed (r : Receipt)
  | granted (a : Accounts.Answer)
deriving DecidableEq

/-- Where a request is between two statements. -/
inductive Phase where
  | called
  /-- It has quota. -/
  | metered
  /-- It is for the free default. -/
  | capped (model : String)
  /-- The mode is hosted, and the plan allows for it. -/
  | entitled
  /-- The hosted stream, let through by this account. -/
  | streaming (admitted : Actor) (model : String)
  /-- The stream has ended, and this account is being charged. -/
  | paying (admitted charged : Actor) (model : String) (now : ℤ) (p : Accounts.Phase)
  | counting (model : String) (r : Receipt)
  | logging (model : String) (r : Receipt)
  | freeStreaming (model : String)
  | freeCounting (model : String)
  | freeLogging (model : String)
  | granting (p : Accounts.Phase)

/-- The arguments of `consume_credit` for an account. -/
def spend (a : Actor) (now : ℤ) : ConsumeArgs :=
  match a with
  | .user id => { userId := some id, now := now }
  | .company id => { companyId := some id, now := now }

/-- The next statement of `consume_credit`. -/
def pay (admitted charged : Actor) (model : String) (now : ℤ) (p : Accounts.Phase) (db : Db) :
    Db × (Phase ⊕ Answer) :=
  let out := creditStep (.consumeCredit (spend charged now)) p db.ledger
  match out.2 with
  | .inl p' => ({ db with ledger := out.1 }, .inl (.paying admitted charged model now p'))
  | .inr (.consumed n _ _) =>
      let r : Receipt := ⟨db.receipts.length, admitted, charged, n⟩
      ({ db with ledger := out.1, receipts := db.receipts ++ [r] }, .inl (.counting model r))
  | .inr _ => ({ db with ledger := out.1 }, .inr .raised)

/-- The gate on mode and plan. -/
def chooseMode (cfg : Config) (u : User) (i : Reading) (db : Db) : Phase ⊕ Answer :=
  match db.aiModeForActor u i.today with
  | .byoKey => match cfg.freeModel with
      | some m => .inl (.capped m)
      | none => .inr (.refused 402 "byo_key_required")
  | .hosted =>
      if cfg.proxyLive ∧ u.plan ∈ cfg.enabledPlans then .inl .entitled
      else .inr (.refused 402 "hosted_unavailable")

/-- The gate on credits, and the choice of the provider. -/
def creditGate (cfg : Config) (u : User) (model : Option String) (i : Reading) (db : Db) :
    Phase ⊕ Answer :=
  if db.creditBalanceForActor u i.today i.now ≤ 0 then .inr (.refused 402 "out_of_credits")
  else match cfg.upstream ((given model).getD "auto") with
    | none => .inr (.refused 503 "provider_not_configured")
    | some m => .inl (.streaming (db.actor u i.today) m)

/-- The next statement of a chat request. -/
def chatStep (cfg : Config) (u : User) (model : Option String) :
    Phase → Reading → Db → Db × (Phase ⊕ Answer)
  | .called, i, db =>
      if db.quotaRemainingForActor u i.today ≤ 0 then (db, .inr (.refused 402 "quota_exhausted"))
      else (db, .inl .metered)
  | .metered, i, db => (db, chooseMode cfg u i db)
  | .capped m, i, db =>
      if 0 < cfg.freeDailyCap ∧ cfg.freeDailyCap ≤ db.freeMessagesToday u.id i.now then
        (db, .inr (.refused 402 "free_daily_cap"))
      else (db, .inl (.freeStreaming m))
  | .entitled, i, db => (db, creditGate cfg u model i db)
  | .streaming a m, i, db =>
      -- the account is looked up anew
      if i.ended then pay a (db.actor u i.today) m i.now .called db else (db, .inr .broken)
  | .paying a c m now p, _, db => pay a c m now p db
  | .counting m r, i, db => (db.incrementUsageForActor u i.today, .inl (.logging m r))
  | .logging m r, i, db => (db.logUsage u.id i.now m, .inr (.completed r))
  | .freeStreaming m, i, db => if i.ended then (db, .inl (.freeCounting m)) else (db, .inr .broken)
  | .freeCounting m, i, db => (db.incrementUsageForActor u i.today, .inl (.freeLogging m))
  | .freeLogging m, i, db => (db.logUsage u.id i.now ("free:" ++ m), .inr .served)
  | p, _, db => (db, .inl p)

/-- The next statement of a grant. -/
def grantStep (q : GrantArgs) (p : Accounts.Phase) (db : Db) : Db × (Phase ⊕ Answer) :=
  let out := creditStep (.grantCredits q) p db.ledger
  ({ db with ledger := out.1 }, out.2.map .granting .granted)

def hostedStep (cfg : Config) : Request → Phase → Reading → Db → Db × (Phase ⊕ Answer)
  | .chat u model, p, i, db => chatStep cfg u model p i db
  | .grant q, .granting p, _, db => grantStep q p db
  | .grant _, p, _, db => (db, .inl p)

/-- Chat requests and grants, any number of them at once. -/
def hosted (cfg : Config) : Service Db Request Phase Answer Reading where
  first
    | .chat _ _ => .called
    | .grant _ => .granting .called
  step := hostedStep cfg

/-! ## What is to hold -/

/-- `msg_limit` of an account. -/
def Db.quota (db : Db) : Actor → ℤ
  | .user id => ((db.getUser id).map User.msgLimit).elim 0 (max 0)
  | .company id => ((db.getCompany id).map Company.msgLimit).elim 0 (max 0)

/-- The receipt of a turn that was completed. -/
def receiptOf : Request × Answer → Option Receipt
  | (_, .completed r) => some r
  | _ => none

/-- The credits that were granted to an account. -/
def credited (a : Actor) : Request × Answer → ℤ
  | (.grant q, .granted x) => grantedTo a (.grantCredits q, x)
  | _ => 0

/-- The credits that an account was charged. -/
def paidBy (a : Actor) (r : Receipt) : ℤ := if r.charged = a then r.consumed else 0

/-- **What is to hold of the hosted turns**: an account completes no more of them than its quota
and its credits allow, and each has a receipt of its own, over one credit of the account that let
it through.  What is on the receipts is missing from what was granted. -/
structure Paid (db : Db) (answered : List (Request × Answer)) : Prop where
  balanced : ∀ a, (db.receipts.map (paidBy a)).sum + db.ledger.remainingOf a
    = (answered.map (credited a)).sum
  bound : ∀ a, ((answered.filterMap receiptOf).countP (fun r => r.admitted = a) : ℤ)
    ≤ db.quota a + (answered.map (credited a)).sum
  once : (answered.filterMap receiptOf).Nodup
  charged : ∀ r ∈ answered.filterMap receiptOf,
    r ∈ db.receipts ∧ r.consumed = 1 ∧ r.charged = r.admitted

/-- The condition: a stream that ends finds a live credit of the account that let it through, and
where a credit is taken, it is still there. -/
def solvent (db : Db) (r : Request) (p : Phase) (i : Reading) : Bool :=
  match r, p with
  | .chat u _, .streaming a _ => !i.ended ||
      decide (db.actor u i.today = a) && !(db.ledger.spendable a i.now).isEmpty
  | .chat _ _, .paying _ c _ now p => funds db.ledger (.consumeCredit (spend c now)) p
  | _, _ => true

end ArchHub.Accounts.Hosted

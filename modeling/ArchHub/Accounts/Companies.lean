import Mathlib
import ArchHub.Lib.Requests
import ArchHub.Lib.Rows

/-!
# Plans and companies

The tiers of the offer, the seats a subscription may have on each, and the message quota.

A company has members, one of whom owns it, invites that are under way, and a number of seats.

* `companyStep`: the endpoints that invite, accept, remove, transfer and change seats, and the
  subscription events of the billing webhook, statement by statement.
* `company`: the service of all of these, on one company.
* `Kept`: what is to hold of its seats and of its ownership.

Each endpoint reads what it goes by first and writes later; nothing tests at the write that what
was read still holds.  Addresses are stored stripped and lower-cased.  The record of what was
seated and sent is kept in the model only.
-/

namespace ArchHub.Accounts

/-- An entry of `PLANS`. -/
structure Tier where
  name : String
  minSeats : ℤ
  defaultSeats : ℤ
  maxSeats : Option ℤ := none
  isCompany : Bool

/-- `PLANS`. -/
def plans : List Tier :=
  [{ name := "solo", minSeats := 1, defaultSeats := 1, maxSeats := some 1, isCompany := false },
    { name := "studio", minSeats := 1, defaultSeats := 5, isCompany := true },
    { name := "firm", minSeats := 10, defaultSeats := 10, isCompany := true }]

def tierOf (plan : String) : Option Tier := plans.find? fun t => t.name = plan

/-- `clamp_seats`. -/
def clampSeats (tier : String) (seats : ℤ) : ℤ :=
  match tierOf tier with
  | none => max 1 seats
  | some t => match t.maxSeats with
      | none => max t.minSeats seats
      | some most => min most (max t.minSeats seats)

/-- `PLAN_SEATS`, the plans of companies. -/
def planSeats (plan : String) : Option ℤ :=
  ((tierOf plan).filter Tier.isCompany).map Tier.defaultSeats

/-- `TRIAL_MESSAGES`. -/
def trialMessages : ℤ := 30

/-- `PLAN_QUOTAS.get(plan, PLAN_QUOTAS["trial"])`. -/
def planQuota (plan : String) : ℤ := if (tierOf plan).isSome then 1000000 else trialMessages

end ArchHub.Accounts

namespace ArchHub.Accounts.Companies

open Lib Service

/-! ## The tables -/

inductive Role where
  | owner
  | admin
  | member
  | viewer
deriving DecidableEq

/-- The roles an invite may be for. -/
inductive InviteRole where
  | admin
  | member
deriving DecidableEq

def InviteRole.toRole : InviteRole → Role
  | .admin => .admin
  | .member => .member

/-- The check of `invite_member`. -/
def inviteRole (role : String) : Option InviteRole :=
  if role = "admin" then some .admin else if role = "member" then some .member else none

/-- A row of `company_members`, under its user. -/
structure Member where
  role : Role
  joinedAt : ℤ
  invitedByUserId : Option String := none
  accessUntil : Option String := none
deriving DecidableEq

/-- A row of `company_invites`; tokens are drawn and never repeat. -/
structure Invite where
  token : ℕ
  email : String
  role : InviteRole
  invitedByUserId : String
  expiresAt : ℤ
  acceptedAt : Option ℤ := none
deriving DecidableEq

/-- What was done with seats. -/
inductive Event where
  /-- An accepted invite added a member: how many there are with it, and the limit. -/
  | seated (members : ℕ) (seatLimit : ℤ)
  /-- An invite was sent: how many seats were taken or reserved, and the limit. -/
  | sent (taken : ℕ) (seatLimit : ℤ)
deriving DecidableEq

/-- A company. -/
structure Db where
  plan : String
  seatLimit : ℤ
  stripeSubscriptionId : Option String := none
  ownerUserId : String
  members : Dict String Member
  invites : List Invite := []
  minted : ℕ := 0
  events : List Event := []

/-- A row of `users`. -/
structure User where
  id : String
  email : String

namespace Db

/-- `get_membership`: a membership that has lapsed is none. -/
def getMembership (db : Db) (userId today : String) : Option Member :=
  (db.members.get? userId).filter fun m =>
    (m.accessUntil.filter (· ≠ "")).all fun day => ¬day < today

/-- `count_company_members`. -/
def countMembers (db : Db) : ℕ := db.members.size

/-- `count_outstanding_invites`. -/
def countOutstanding (db : Db) (now : ℤ) : ℕ :=
  ((db.invites.filter fun i => i.acceptedAt = none ∧ now < i.expiresAt).map Invite.email).dedup.length

/-- `create_company_invite`. -/
def createInvite (db : Db) (email : String) (role : InviteRole) (invitedBy : String) (now : ℤ) :
    Db :=
  { db with
    invites := db.invites ++ [{ token := db.minted, email := email, role := role,
                                invitedByUserId := invitedBy, expiresAt := now + 7 * 24 * 3600 }]
    minted := db.minted + 1
    events := db.events ++ [.sent (db.countMembers + db.countOutstanding now) db.seatLimit] }

/-- `add_company_member`: `INSERT OR IGNORE`. -/
def addMember (db : Db) (userId : String) (invite : Invite) (now : ℤ) : Db :=
  if db.members.contains userId then db
  else
    { db with
      members := db.members.set userId { role := invite.role.toRole, joinedAt := now,
                                         invitedByUserId := some invite.invitedByUserId }
      events := db.events ++ [.seated (db.countMembers + 1) db.seatLimit] }

/-- `mark_invite_accepted`. -/
def markAccepted (db : Db) (token : ℕ) (now : ℤ) : Db :=
  { db with
    invites := Rows.update Invite.token token (fun i => { i with acceptedAt := some now })
      db.invites }

/-- `remove_company_member`. -/
def removeMember (db : Db) (userId : String) : Db := { db with members := db.members.erase userId }

/-- `UPDATE company_members SET role = …`. -/
def setRole (members : Dict String Member) (userId : String) (role : Role) : Dict String Member :=
  match members.get? userId with
  | none => members
  | some m => members.set userId { m with role := role }

/-- `transfer_company_ownership`, one transaction. -/
def transferOwnership (db : Db) (oldOwner newOwner : String) : Db :=
  { db with
    ownerUserId := newOwner
    members := setRole (setRole db.members newOwner .owner) oldOwner .admin }

end Db

/-! ## Requests -/

/-- An event of the subscription of this company, as the webhook resolves it. -/
inductive Subscription where
  /-- `checkout.session.completed`: the tier, the quantity of the subscription, the seats of the
  metadata, and the subscription. -/
  | completed (tier : Option String) (quantity seats : ℤ) (subscription : Option String)
  /-- `customer.subscription.created` and `.updated`. -/
  | updated (tier : Option String) (quantity : ℤ)
  | deleted

inductive Request where
  | inviteMember (actor : User) (email role : String)
  | acceptInvite (user : User) (token : ℕ)
  | removeMember (actor : User) (userId : String)
  | transferOwnership (actor : User) (newOwner : String)
  | setSeats (actor : User) (seats : ℤ)
  | webhook (e : Subscription)

/-- What a step reads from outside: the clock, the date, and what the payment provider says. -/
structure Reading where
  now : ℤ := 0
  today : String := ""
  stripe : Bool := true

inductive Answer where
  | done
  | refused (status : ℕ) (detail : String)
deriving DecidableEq

/-- Where a request is between two statements. -/
inductive Phase where
  | called
  /-- The caller was let through. -/
  | allowed
  /-- An invite: its role, and what was counted so far. -/
  | counting (role : InviteRole)
  | counted (role : InviteRole) (members : ℕ)
  | reserved (role : InviteRole) (taken : ℕ)
  | inviting (role : InviteRole)
  /-- An invite that is good for the user, and then the limit that was read. -/
  | found (invite : Invite)
  | limited (invite : Invite) (seatLimit : ℤ)
  | joining (invite : Invite)
  | marking (token : ℕ)
  | removing
  | transferring
  /-- The seats that are asked for, and the subscription to bill. -/
  | sizing (target : ℤ) (subscription : Option String)
  | billing (target : ℤ)
  | resizing (target : ℤ)
  /-- The row that a subscription event was resolved to: its plan and its limit. -/
  | subscribed (plan : String) (seatLimit : ℤ)

/-- `_require_membership`: the detail names the roles that are allowed. -/
def requireMembership (db : Db) (userId : String) (roles : List Role) (detail today : String)
    (next : Phase) : Phase ⊕ Answer :=
  match db.getMembership userId today with
  | none => .inr (.refused 403 "not_a_member")
  | some m => if m.role ∈ roles then .inl next else .inr (.refused 403 ("requires_role:" ++ detail))

/-- `invite_member`. -/
def inviteMember (actor : User) (email role : String) :
    Phase → Reading → Db → Db × (Phase ⊕ Answer)
  | .called, i, db =>
      (db, requireMembership db actor.id [.owner, .admin] "owner|admin" i.today .allowed)
  | .allowed, _, db => match inviteRole role with
      | none => (db, .inr (.refused 400 "invalid_role"))
      | some r => (db, .inl (.counting r))
  | .counting r, _, db => (db, .inl (.counted r db.countMembers))
  | .counted r n, i, db => (db, .inl (.reserved r (n + db.countOutstanding i.now)))
  | .reserved r taken, _, db =>
      if db.seatLimit ≤ taken then (db, .inr (.refused 400 "seat_limit_reached"))
      else (db, .inl (.inviting r))
  | .inviting r, i, db => (db.createInvite email r actor.id i.now, .inr .done)
  | p, _, db => (db, .inl p)

/-- What `accept_invite` makes of the row it read. -/
def judgeInvite (user : User) (now : ℤ) : Option Invite → Phase ⊕ Answer
  | none => .inr (.refused 404 "invite_not_found")
  | some invite =>
      if invite.acceptedAt.any (· ≠ 0) then .inr (.refused 400 "invite_already_used")
      else if invite.expiresAt < now then .inr (.refused 400 "invite_expired")
      else if invite.email = "" ∨ invite.email ≠ user.email then
        .inr (.refused 403 "invite_email_mismatch")
      else .inl (.found invite)

/-- `accept_invite`. -/
def acceptInvite (user : User) (token : ℕ) : Phase → Reading → Db → Db × (Phase ⊕ Answer)
  | .called, i, db => (db, judgeInvite user i.now (Rows.select Invite.token token db.invites))
  | .found invite, _, db => (db, .inl (.limited invite db.seatLimit))
  | .limited invite seatLimit, _, db =>
      -- a limit of nothing is no limit
      if seatLimit ≠ 0 ∧ seatLimit ≤ db.countMembers then
        (db, .inr (.refused 409 "seat_limit_reached"))
      else (db, .inl (.joining invite))
  | .joining invite, i, db => (db.addMember user.id invite i.now, .inl (.marking token))
  | .marking t, i, db => (db.markAccepted t i.now, .inr .done)
  | p, _, db => (db, .inl p)

/-- `remove_member`, up to the pointer of the user it removed. -/
def removeMember (actor : User) (userId : String) : Phase → Reading → Db → Db × (Phase ⊕ Answer)
  | .called, i, db =>
      (db, (requireMembership db actor.id [.owner] "owner" i.today .allowed).elim
        (fun p => if userId = actor.id then .inr (.refused 400 "cannot_remove_self") else .inl p)
        .inr)
  | .allowed, i, db => match db.getMembership userId i.today with
      | none => (db, .inr (.refused 404 "member_not_found"))
      | some _ => (db, .inl .removing)
  | .removing, _, db => (db.removeMember userId, .inr .done)
  | p, _, db => (db, .inl p)

/-- `transfer_ownership`. -/
def transferOwnership (actor : User) (newOwner : String) :
    Phase → Reading → Db → Db × (Phase ⊕ Answer)
  | .called, i, db =>
      (db, (requireMembership db actor.id [.owner] "owner" i.today .allowed).elim
        (fun p => if newOwner = actor.id then .inr (.refused 400 "already_owner") else .inl p) .inr)
  | .allowed, i, db => match db.getMembership newOwner i.today with
      | none => (db, .inr (.refused 404 "member_not_found"))
      | some _ => (db, .inl .transferring)
  | .transferring, _, db => (db.transferOwnership actor.id newOwner, .inr .done)
  | p, _, db => (db, .inl p)

/-- `set_company_seats`. -/
def setSeats (actor : User) (seats : ℤ) : Phase → Reading → Db → Db × (Phase ⊕ Answer)
  | .called, i, db =>
      (db, requireMembership db actor.id [.owner, .admin] "owner|admin" i.today .allowed)
  | .allowed, _, db =>
      (db, .inl (.sizing (clampSeats db.plan seats)
        (db.stripeSubscriptionId.filter (· ≠ ""))))
  | .sizing target subscription, _, db =>
      if target < db.countMembers then (db, .inr (.refused 400 "seats_below_member_count"))
      else if subscription.isSome then (db, .inl (.billing target)) else (db, .inl (.resizing target))
  | .billing target, i, db =>
      if i.stripe then (db, .inl (.resizing target))
      else (db, .inr (.refused 503 "seat_update_failed"))
  | .resizing target, _, db => ({ db with seatLimit := target }, .inr .done)
  | p, _, db => (db, .inl p)

/-- The seats that a completed checkout bought. -/
def boughtSeats (tier : String) (quantity seats : ℤ) : ℤ :=
  let bought := if quantity ≠ 0 then quantity else seats
  clampSeats tier (if bought ≠ 0 then bought else (planSeats tier).getD 1)

/-- `handle_webhook` for the subscription of the company. -/
def webhook (e : Subscription) : Phase → Reading → Db → Db × (Phase ⊕ Answer)
  | .called, _, db => match e with
      | .completed tier quantity seats subscription =>
          let plan := (tier.filter (· ≠ "")).getD "studio"
          ({ db with
              plan := plan
              seatLimit := boughtSeats plan quantity seats
              stripeSubscriptionId := subscription }, .inr .done)
      | _ => (db, .inl (.subscribed db.plan db.seatLimit))
  | .subscribed plan seatLimit, _, db => match e with
      | .updated tier quantity =>
          let plan := (tier.filter (· ≠ "")).getD plan
          ({ db with
              plan := plan
              seatLimit := if quantity ≠ 0 then clampSeats plan quantity else seatLimit },
            .inr .done)
      | _ => ({ db with plan := "trial" }, .inr .done)
  | p, _, db => (db, .inl p)

/-- The next statement of a request. -/
def companyStep : Request → Phase → Reading → Db → Db × (Phase ⊕ Answer)
  | .inviteMember actor email role => inviteMember actor email role
  | .acceptInvite user token => acceptInvite user token
  | .removeMember actor userId => removeMember actor userId
  | .transferOwnership actor newOwner => transferOwnership actor newOwner
  | .setSeats actor seats => setSeats actor seats
  | .webhook e => webhook e

/-- All requests on one company. -/
def company : Service Db Request Phase Answer Reading where
  first _ := .called
  step := companyStep

/-- `create_company`. -/
def created (owner plan : String) (seatLimit now : ℤ) : Db where
  plan := plan
  seatLimit := seatLimit
  ownerUserId := owner
  members := Dict.empty.set owner { role := .owner, joinedAt := now }

/-! ## What is to hold -/

/-- Somebody is the owner. -/
def Db.Owns (db : Db) (userId : String) : Prop :=
  (db.members.get? userId).map Member.role = some .owner

instance (db : Db) (userId : String) : Decidable (db.Owns userId) :=
  inferInstanceAs (Decidable (_ = _))

/-- What was done with seats was within the limit. -/
def Event.Within : Event → Prop
  | .seated members seatLimit => members ≤ seatLimit
  | .sent taken seatLimit => taken < seatLimit

/-- **What is to hold of a company**: no accepted invite put its members over the limit, each
invite was sent while a seat was left for it, and exactly one member is the owner. -/
structure Kept (db : Db) : Prop where
  seats : ∀ e ∈ db.events, e.Within
  owner : ∃! userId, db.Owns userId

/-- The condition: the write that a request is about to make is one that its own check would
still let through.  Where an invite is accepted a seat is left, or the user is seated already;
where one is sent a seat is left that is not reserved; whoever is removed is not the owner; and a
transfer goes from the owner to a member, or changes nothing that counts. -/
def undisturbed (db : Db) (r : Request) (p : Phase) (i : Reading) : Bool :=
  match r, p with
  | .inviteMember .., .inviting _ => db.countMembers + db.countOutstanding i.now < db.seatLimit
  | .acceptInvite user _, .joining _ =>
      db.members.contains user.id || db.countMembers < db.seatLimit
  | .removeMember _ userId, .removing => !decide (db.Owns userId)
  | .transferOwnership actor newOwner, .transferring =>
      if db.members.contains newOwner then
        decide (db.Owns actor.id) || decide (db.Owns newOwner)
      else !decide (db.Owns actor.id)
  | _, _ => true

end ArchHub.Accounts.Companies

import ArchHub.Mcp.Tables

/-!
# The endpoints, statement by statement

What `/oauth/token` and its neighbours write.  A code or a refresh token is consumed by one
conditional update; who finds it consumed revokes its family.

* `Db.mint`: the code of a finished authorization, in a new family.
* `redeem`, `refresh`: the transactions of the two grant types.
* `bearer`: `issue_header_bearer`.
* `Db.accessRow`: the row that `user_for_access_token` finds.

What the endpoints of the authorization flow write.  Each definition here is one transaction, or
the part of one that a function of the source makes; the ceilings are counted inside of it.

* `Db.tombstone`, `Db.endExpired`, `Db.evictOldest`: how requests end.
* `register`, `file`: what `/oauth/register` and `/oauth/authorize` write.
* `verify`: what `google_verified` writes.
* `spend`: what `finish_authorization` deletes.

Each request is answered in steps: a `SELECT` outside of any transaction, or a transaction, which
begins with the first statement that writes.

* `Phase`: where a request is between two steps.
* `registerStep` … `accessStep`: the next step of each endpoint.
* `oauth`: the service of all of them.
-/

namespace ArchHub.Mcp

open Lib

namespace Db

/-- `_revoke`. -/
def revoke (db : Db) (family : ℕ) (now : ℤ) : Db :=
  { db with
      families := Rows.update Family.family family
        (fun f => { f with revokedAt := f.revokedAt.or (some now) }) db.families }

/-- The code of a finished authorization and its family. -/
def mint (db : Db) (grant : Pending) (userId : String) (now : ℤ) : Db where
  clients := db.clients
  pending := db.pending
  ended := db.ended
  links := db.links
  approvals := db.approvals
  codes := db.codes ++ [{
    code := db.drawn
    family := db.drawn + 1
    clientId := grant.clientId
    userId := userId
    redirectUri := grant.redirectUri
    codeChallenge := grant.codeChallenge
    scope := grant.scope
    resource := grant.resource
    expiresAt := now + codeTtl }]
  tokens := db.tokens
  families := db.families ++ [{ family := db.drawn + 1 }]
  drawn := db.drawn + 2

/-- Whether the family is revoked, as the refresh grant reads it. -/
def revoked (db : Db) (family : ℕ) : Bool :=
  (Rows.select Family.family family db.families).any fun f => f.revokedAt.any (· ≠ 0)

/-- The row that `user_for_access_token` finds. -/
def accessRow (db : Db) (token : ℕ) : Option Token :=
  (Rows.select Token.token token db.tokens).filter fun t =>
    t.kind = .access && db.families.any fun f => f.family = t.family && f.revokedAt = none

end Db

/-- What tokens are issued for. -/
structure Holder where
  family : ℕ
  clientId : ClientId
  userId : String
  scope : List String
  resource : String
deriving DecidableEq

/-- What a code is for. -/
def Code.holder (c : Code) : Holder := ⟨c.family, c.clientId, c.userId, c.scope, c.resource⟩

/-- What a token is for. -/
def Token.holder (t : Token) : Holder := ⟨t.family, t.clientId, t.userId, t.scope, t.resource⟩

/-- A token for this holder. -/
def Holder.token (h : Holder) (token : ℕ) (kind : Kind) (expiresAt : ℤ) : Token :=
  ⟨token, kind, h.family, h.clientId, h.userId, h.scope, h.resource, expiresAt, none⟩

/-- The two `INSERT`s of `_issue`. -/
def Db.insertTokens (db : Db) (h : Holder) (ttl now : ℤ) : Db :=
  { db with
      tokens := db.tokens ++ [h.token db.drawn .access (now + ttl),
        h.token (db.drawn + 1) .refresh (now + refreshTtl)]
      drawn := db.drawn + 2 }

/-- `invalid_grant`. -/
def invalidGrant (description : String) : Answer := .error "invalid_grant" description 400

/-- `_issue`, and the answer made of it. -/
def issue (h : Holder) (ttl : ℤ) (i : Reading) (db : Db) : Db × Answer :=
  if i.active h.userId then
    (db.insertTokens h ttl i.now, .tokens db.drawn (db.drawn + 1) ttl h.scope)
  else (db.revoke h.family i.now, invalidGrant "this account is suspended")

/-- `_pkce_ok`; `none` where `compare_digest` raises, on a challenge that is not ASCII. -/
def pkceOk (cfg : Config) (verifier challenge : String) : Option Bool :=
  if 43 ≤ verifier.length && verifier.length ≤ 128 then
    if ascii challenge then some (cfg.s256 verifier = challenge) else none
  else some false

/-- `UPDATE oauth_codes SET consumed_at = ?`. -/
def Db.consumeCode (db : Db) (code : ℕ) (now : ℤ) : Db :=
  { db with codes := Rows.update Code.code code (fun c => { c with consumedAt := some now }) db.codes }

/-- `UPDATE oauth_tokens SET consumed_at = ?`. -/
def Db.consumeToken (db : Db) (token : ℕ) (now : ℤ) : Db :=
  { db with
      tokens := Rows.update Token.token token (fun t => { t with consumedAt := some now }) db.tokens }

/-- The arguments of a code's redemption. -/
structure Redemption where
  code : ℕ
  redirectUri : String
  clientId : ClientId
  codeVerifier : String

/-- The transaction that redeems a code, of the row that was read and at the clock that was read
before it. -/
def redeem (cfg : Config) (q : Redemption) (grant : Code) (now : ℤ) (i : Reading) (db : Db) :
    Db × Answer :=
  if (Rows.select Code.code q.code db.codes).any fun c => c.consumedAt = none then
    let mismatch := invalidGrant "code, client, redirect_uri or verifier does not match"
    let taken := db.consumeCode q.code now
    if grant.expiresAt < now || grant.clientId ≠ q.clientId || grant.redirectUri ≠ q.redirectUri then
      (taken, mismatch)
    else match pkceOk cfg q.codeVerifier grant.codeChallenge with
      | none => (db, .raised)
      | some false => (taken, mismatch)
      | some true => issue { grant.holder with clientId := q.clientId } accessTtl i taken
  else (db.revoke grant.family i.now, invalidGrant "code already used")

/-- The transaction that refreshes a token, of the row that was read. -/
def refresh (token : ℕ) (clientId : ClientId) (held : Token) (now : ℤ) (i : Reading)
    (db : Db) : Db × Answer :=
  if (Rows.select Token.token token db.tokens).any fun t => t.consumedAt = none then
    let taken := db.consumeToken token now
    if held.expiresAt < now || held.clientId ≠ clientId || taken.revoked held.family then
      (taken, invalidGrant "refresh token expired, revoked or for another client")
    else issue { held.holder with clientId := clientId } accessTtl i taken
  else (db.revoke held.family i.now, invalidGrant "refresh token already used")

/-- `INSERT OR IGNORE INTO oauth_clients`. -/
def Db.insertClient (db : Db) (c : Client) : Db :=
  if db.clients.any fun d => d.clientId = c.clientId then db
  else { db with clients := db.clients ++ [c] }

/-- `issue_header_bearer`. -/
def bearer (cfg : Config) (userId : String) (i : Reading) (db : Db) : Db × Answer :=
  let db := db.insertClient ⟨xaiClientId, [], "xAI", i.now⟩
  let h : Holder := ⟨db.drawn, xaiClientId, userId, scopes, cfg.mcpResource⟩
  issue h refreshTtl i
    { db with families := db.families ++ [{ family := db.drawn }], drawn := db.drawn + 1 }

end ArchHub.Mcp

namespace ArchHub.Mcp

open Lib

/-! ## Ending requests -/

/-- At most `MAX_ENDED` tombstones are kept; the oldest go first. -/
def trimEnded (ended : List Ended) : List Ended :=
  let surplus := (Rows.orderBy Ended.expiresAt ended).take (ended.length - maxEnded)
  ended.filter fun e => e.id ∉ surplus.map Ended.id

/-- The tombstone of a request. -/
def Pending.ended (row : Pending) : Ended :=
  ⟨row.id, row.redirectUri, row.state, row.expiresAt + pendingTtl, row.continueSecret⟩

namespace Db

/-- `_tombstone`. -/
def tombstone (db : Db) (row : Pending) : Db :=
  { db with ended := trimEnded (Rows.delete Ended.id row.id db.ended ++ [row.ended]) }

/-- The `SELECT` of `_end_expired`. -/
def expired (db : Db) (now : ℤ) : List Pending := db.pending.filter fun r => r.expiresAt < now

/-- `_end_expired`, of the rows that were selected. -/
def endExpired (db : Db) (now : ℤ) (rows : List Pending) : Db :=
  let db := rows.foldl tombstone db
  { db with
      pending := db.pending.filter fun r => ¬r.expiresAt < now
      ended := db.ended.filter fun e => ¬e.expiresAt < now }

/-- `DELETE FROM oauth_pending WHERE id = ?`. -/
def endPending (db : Db) (id : ℕ) : Db :=
  { db with pending := Rows.delete Pending.id id db.pending }

/-- How `_evict_oldest` orders the requests: never approved first, then not verified, then by
expiry. -/
def eviction (r : Pending) : ℕ ×ₗ ℕ ×ₗ ℤ :=
  toLex (r.approved.toNat, toLex (r.verifiedEmail.isSome.toNat, r.expiresAt))

/-- `_evict_oldest`; `none` where there is nothing to evict. -/
def evictOldest (db : Db) (p : Pending → Bool) : Option Db :=
  match Rows.orderBy eviction (db.pending.filter p) with
  | [] => none
  | row :: _ => some ((db.tombstone row).endPending row.id)

/-- `SELECT COUNT(*) FROM oauth_pending WHERE`. -/
def live (db : Db) (p : Pending → Bool) : ℕ := db.pending.countP p

end Db

/-! ## Registering -/

/-- The client that makes room: the oldest that nobody approved and that never got a code. -/
def Db.staleClient (db : Db) : Option Client :=
  (Rows.orderBy Client.createdAt (db.clients.filter fun c =>
    !(db.approvals.any fun a => a.clientId = c.clientId) &&
      !(db.codes.any fun o => o.clientId = c.clientId))).head?

/-- `DELETE FROM oauth_pending` and `FROM oauth_clients`, of one client. -/
def Db.dropClient (db : Db) (clientId : ClientId) : Db :=
  { db with
      pending := db.pending.filter fun r => r.clientId ≠ clientId
      clients := Rows.delete Client.clientId clientId db.clients }

/-- The transaction of `/oauth/register`, which first drops the client that makes room. -/
def register (q : RegisterArgs) (drop : Option ClientId) (now : ℤ) (db : Db) : Db × Answer :=
  let db := match drop with
    | none => db
    | some clientId => db.dropClient clientId
  let client : Client :=
    ⟨.minted db.drawn, q.redirectUris.getD [], (q.clientName.take 200).toString, now⟩
  ({ db with clients := db.clients ++ [client], drawn := db.drawn + 1 },
    .registered client.clientId)

/-! ## Filing -/

/-- What is known of a request when it is filed. -/
structure Filing where
  args : AuthorizeArgs
  client : Client
  granted : List String

/-- The row of a new request, with the three values drawn for it. -/
def Filing.row (cfg : Config) (f : Filing) (drawn : ℕ) (now : ℤ) : Pending where
  id := drawn
  clientId := f.args.clientId
  redirectUri := f.args.redirectUri
  codeChallenge := f.args.codeChallenge
  state := f.args.state
  scope := f.granted
  resource := cfg.mcpResource
  expiresAt := now + pendingTtl
  csrf := drawn + 1
  browser := drawn + 2
  address := f.args.address
  network := f.args.network
  lane := f.args.lane

/-- The `INSERT` of `/oauth/authorize` and the consent page. -/
def Filing.insert (cfg : Config) (f : Filing) (now : ℤ) (db : Db) : Db × Answer :=
  ({ db with pending := db.pending ++ [f.row cfg db.drawn now], drawn := db.drawn + 3 },
    .page db.drawn (db.drawn + 1) (db.drawn + 2) f.client.clientName f.args.redirectUri f.granted)

/-- `temporarily_unavailable`. -/
def tooMany : Answer :=
  .error "temporarily_unavailable" "too many unfinished authorizations; retry shortly" 503

/-- `_founder_approval_sql`: a founder approved this client. -/
def Db.founderApproved (cfg : Config) (db : Db) (clientId : ClientId) : Bool :=
  db.approvals.any fun a => a.clientId = clientId && cfg.founderUser a.userId

/-- The shares of one caller: what each counts, and its ceiling. -/
def shares (f : Filing) : List ((Pending → Bool) × ℕ) :=
  [(fun r => r.lane = "" && r.clientId = f.args.clientId && r.address = f.args.address,
      maxPendingPerClient),
    (fun r => r.lane = "" && r.address = f.args.address, maxPendingPerAddress),
    (fun r => r.lane = "" && r.network = f.args.network, maxPendingPerNetwork)]

/-- Outside of every lane, of clients that no founder approved. -/
def Db.pool (cfg : Config) (db : Db) (r : Pending) : Bool :=
  r.lane = "" && !db.founderApproved cfg r.clientId

/-- What everybody shares. -/
def shared (cfg : Config) (f : Filing) (db : Db) : List ((Pending → Bool) × ℕ) :=
  (fun r => r.lane = "", maxPendingAll) ::
    if db.founderApproved cfg f.args.clientId then [] else [(db.pool cfg, maxPending)]

/-- Make room under each ceiling, and whether there is room under all of them. -/
def makeRoom : List ((Pending → Bool) × ℕ) → Db → Db × Bool
  | [], db => (db, true)
  | (p, cap) :: rest, db =>
      if db.live p < cap then makeRoom rest db
      else match db.evictOldest p with
        | none => (db, false)
        | some db => makeRoom rest db

/-- What a new request makes room under. -/
def ceilings (cfg : Config) (f : Filing) (db : Db) : List ((Pending → Bool) × ℕ) :=
  if f.args.lane ≠ "" then [(fun r => r.lane = f.args.lane, maxFounderLane)] else shared cfg f db

/-- The transaction of `/oauth/authorize`, after the requests that expired have ended.  A request
in a founder's lane has no share of its caller. -/
def file (cfg : Config) (f : Filing) (now : ℤ) (db : Db) : Db × Answer :=
  if f.args.lane = "" && (shares f).any (fun share => share.2 ≤ db.live share.1) then (db, tooMany)
  else
    let room := makeRoom (ceilings cfg f db) db
    if room.2 then f.insert cfg now room.1 else (room.1, tooMany)

/-! ## Verifying and spending -/

/-- `UPDATE oauth_pending SET verified_email = ?, continue_hash = ?`, where the request may still
be verified in this browser. -/
def Db.setVerified (db : Db) (id : ℕ) (email : String) : Db :=
  { db with
      pending := Rows.update Pending.id id
        (fun r => { r with verifiedEmail := some email, continueSecret := some db.drawn }) db.pending
      drawn := db.drawn + 1 }

/-- The request that Google or an emailed link may verify. -/
def verifiable (browser : ℕ) (now : ℤ) (r : Pending) : Bool :=
  r.browser = browser && r.approved && r.verifiedEmail.isNone && now ≤ r.expiresAt

/-- The loop of `google_verified`: each turn that goes on deletes a row. -/
def evictVerified (email : String) (id : ℕ) : ℕ → Db → Db
  | 0, db => db
  | turns + 1, db =>
      if db.live (fun r => r.verifiedEmail = some email) ≤ maxVerifiedPerEmail then db
      else match db.evictOldest fun r => r.verifiedEmail = some email && r.id ≠ id with
        | none => db
        | some db => evictVerified email id turns db

/-- The transaction of `google_verified`; `none` where it raises. -/
def verify (id browser : ℕ) (email : String) (now : ℤ) (db : Db) : Option (Db × ℕ) :=
  match Rows.select Pending.id id db.pending with
  | none => none
  | some row =>
      if verifiable browser now row then
        some (evictVerified email id db.pending.length (db.setVerified id email), db.drawn)
      else none

/-- The transaction of `finish_authorization` that deletes the request: whether it was still
there. -/
def spend (row : Pending) (now : ℤ) (db : Db) : Db × Bool :=
  let db := if row.expiresAt < now then db.tombstone row else db
  (db.endPending row.id, (Rows.select Pending.id row.id db.pending).isSome)

end ArchHub.Mcp

namespace ArchHub.Mcp

open Lib Service

/-- Where a request is between two steps. -/
inductive Phase where
  | called
  /-- The clients are at capacity; the one to drop is to be chosen. -/
  | choosing
  | registering (drop : Option ClientId)
  /-- `_cimd_client` accepted a document with these redirects and this name. -/
  | document (uris : List String) (name : String)
  /-- The request to authorize is in order. -/
  | filing (f : Filing)
  /-- `_end_expired` selected these rows, at this clock. -/
  | sweeping (f : Filing) (now : ℤ) (rows : List Pending)
  /-- The person's decision is to be written. -/
  | deny (row : Pending)
  | approve (row : Pending)
  /-- The links for the owner's addresses are to be made: `_link_minutes` first, then one for
  each address. -/
  | minutes (pending : ℕ)
  | linking (pending : ℕ) (expires : ℤ) (addresses : List String) (sent : ℕ)
  | counting (pending : ℕ)
  /-- The row of an opened link was read; and then the links of its request deleted. -/
  | opened (link : EmailLink)
  | proved (link : EmailLink)
  /-- `finish_authorization`: the row was read; it was deleted, by this request or not; the
  account is known; the approval is written. -/
  | spending (row : Pending)
  | signingIn (row : Pending) (taken : Bool)
  | approving (row : Pending) (userId : String)
  | minting (row : Pending) (userId : String)
  /-- `ended_response` is to look for a tombstone. -/
  | ended
  /-- The row of a code, or of a refresh token, was read, at this clock. -/
  | redeeming (grant : Code) (now : ℤ)
  | refreshing (held : Token) (now : ℤ)
  /-- The row of an access token was read; then whether its account is active. -/
  | holding (held : Token)
  | naming (held : Token) (active : Bool)

variable (cfg : Config)

/-! ## Registering and authorizing -/

/-- The redirects of a registration are a list of one to ten that are allowed. -/
def RegisterArgs.redirectsOk (q : RegisterArgs) : Bool :=
  q.redirectUris.any fun uris =>
    0 < uris.length && uris.length ≤ 10 && uris.all cfg.redirectAllowed

/-- `/oauth/register`. -/
def registerStep (q : RegisterArgs) : Phase → Reading → Db → Db × (Phase ⊕ Answer)
  | .called, _, db =>
      if !q.redirectsOk cfg then (db, .inr (.error "invalid_redirect_uri"
        "exact https (or loopback http) redirect URIs are required" 400))
      else if q.authMethod ≠ "none" then (db, .inr (.error "invalid_client_metadata"
        "only public clients (token_endpoint_auth_method none)" 400))
      else (db, .inl (if db.clients.length < maxClients then .registering none else .choosing))
  | .choosing, _, db => match db.staleClient with
      | some stale => (db, .inl (.registering (some stale.clientId)))
      | none => (db, .inr (.error "invalid_client_metadata" "registration capacity reached" 400))
  | .registering drop, i, db =>
      ((register q drop i.now db).1, .inr (register q drop i.now db).2)
  | p, _, db => (db, .inl p)

/-- What a client asks for. -/
def asked (scope : String) : List String := words (if scope = "" then mcpRead else scope)

/-- The scope shown on the consent page: `mcp:read` always. -/
def granted (scope : String) : List String :=
  scopes.filter fun name => name = mcpRead || name ∈ asked scope

/-- What `authorize` checks before it files the request. -/
def checkAuthorize (q : AuthorizeArgs) (client : Client) : Except Answer Filing :=
  if q.redirectUri ∉ client.redirectUris || !cfg.redirectAllowed q.redirectUri then
    .error (.error "invalid_request" "unknown client or unregistered redirect_uri" 400)
  else if maxState < q.state.utf8ByteSize then
    .error (.error "invalid_request" "state is longer than 4096 bytes" 400)
  else
    let fail (error text : String) : Except Answer Filing :=
      .error (.redirected q.redirectUri error text q.state)
    if q.responseType ≠ "code" then
      fail "unsupported_response_type" "response_type must be code"
    else if q.codeChallengeMethod ≠ "S256" || !(43 ≤ q.codeChallenge.length &&
        q.codeChallenge.length ≤ 128) then fail "invalid_request" "PKCE with S256 is required"
    else if q.resource ≠ "" && q.resource ≠ cfg.mcpResource then
      fail "invalid_target" "unknown resource"
    else if (asked q.scope).any (· ∉ scopes) then
      fail "invalid_scope" "only mcp:read and mcp:workshop are offered"
    else .ok ⟨q, client, granted q.scope⟩

/-- A request of a client that was found. -/
def foundClient (q : AuthorizeArgs) (client : Client) : Phase ⊕ Answer :=
  match checkAuthorize cfg q client with
  | .ok f => .inl (.filing f)
  | .error a => .inr a

/-- `/oauth/authorize`. -/
def authorizeStep (q : AuthorizeArgs) : Phase → Reading → Db → Db × (Phase ⊕ Answer)
  | .called, i, db => match Rows.select Client.clientId q.clientId db.clients, i.document with
      | some client, _ => (db, foundClient cfg q client)
      | none, some (uris, name) => (db, .inl (.document uris name))
      | none, none =>
          (db, .inr (.error "invalid_request" "unknown client or unregistered redirect_uri" 400))
  | .document uris name, i, db =>
      let db := db.insertClient ⟨q.clientId, uris, (name.take 200).toString, i.now⟩
      match Rows.select Client.clientId q.clientId db.clients with
      | some client => (db, foundClient cfg q client)
      | none =>
          (db, .inr (.error "invalid_request" "unknown client or unregistered redirect_uri" 400))
  | .filing f, i, db => (db, .inl (.sweeping f i.now (db.expired i.now)))
  | .sweeping f now rows, i, db =>
      let out := file cfg f i.now (db.endExpired now rows)
      (out.1, .inr out.2)
  | p, _, db => (db, .inl p)

/-! ## Consent -/

/-- The request may be decided from here. -/
def decidable (q : ConsentArgs) (now : ℤ) (r : Pending) : Bool :=
  !r.approved && now ≤ r.expiresAt && r.csrf = q.csrf && thisBrowser q.cookie q.pending = some r.browser

/-- What a decision comes to. -/
def ConsentArgs.approves (q : ConsentArgs) : Bool :=
  q.decision = "approve" || (q.decision = "email" && !cfg.founders.isEmpty)

/-- `_link_minutes`: when a link expires, and the whole minutes left. -/
def Db.linkMinutes (db : Db) (pending : ℕ) (now : ℤ) : ℤ × ℤ :=
  let expires := min (now + emailLinkTtl)
    (((Rows.select Pending.id pending db.pending).map Pending.expiresAt).getD now)
  (expires, max 0 ((expires - now) / 60))

/-- `/oauth/consent`. -/
def consentStep (q : ConsentArgs) : Phase → Reading → Db → Db × (Phase ⊕ Answer)
  | .called, i, db =>
      match (Rows.select Pending.id q.pending db.pending).filter (decidable q i.now) with
      | none => (db, .inr (.error "invalid_request" ("this authorization request is unknown, " ++
          "expired, already decided or was not opened in this browser") 400))
      | some row => (db, .inl (if q.approves cfg then .approve row else .deny row))
  | .deny row, _, db =>
      (db.endPending q.pending, .inr (.redirected row.redirectUri "access_denied" "" row.state))
  | .approve _, _, db =>
      if (Rows.select Pending.id q.pending db.pending).any fun r => !r.approved then
        let db := { db with
          pending := Rows.update Pending.id q.pending (fun r => { r with approved := true }) db.pending }
        if q.decision = "email" then (db, .inl (.minutes q.pending))
        else if cfg.googleLogin then (db, .inr (.toGoogle q.pending))
        else (db, .inr (.error "temporarily_unavailable" "Google sign-in is not configured" 503))
      else (db, .inr (.error "invalid_request" "this authorization request was already decided" 400))
  | .minutes pending, i, db =>
      let left := db.linkMinutes pending i.now
      if left.2 < 1 then
        (db, .inr (.error "temporarily_unavailable" "the sign-in email could not be sent" 503))
      else (db, .inl (.linking pending left.1 cfg.founders 0))
  | .linking pending expires (address :: rest) sent, i, db =>
      ({ db with links := db.links ++ [⟨db.drawn, pending, address, expires⟩], drawn := db.drawn + 1 },
        .inl (.linking pending expires rest (if i.mailed then sent + 1 else sent)))
  | .linking pending _ [] sent, _, db =>
      if sent = 0 then
        (db, .inr (.error "temporarily_unavailable" "the sign-in email could not be sent" 503))
      else (db, .inl (.counting pending))
  | .counting pending, i, db => (db, .inr (.mailed (db.linkMinutes pending i.now).2))
  | p, _, db => (db, .inl p)

/-! ## Verification -/

/-- `google_verified`. -/
def verified (pending : ℕ) (email : String) (cookie : Option Cookie) (now : ℤ) (db : Db) :
    Option (Db × ℕ) :=
  (thisBrowser cookie pending).bind fun browser => verify pending browser email now db

/-- `ended_response`: what a person sees when the sign-in is gone. -/
def endedAnswer (e : Option Ended) : Answer :=
  match e.filter fun e => cfg.redirectAllowed e.redirectUri with
  | some e => .redirected e.redirectUri "access_denied" "the sign-in expired; start again" e.state
  | none => .endedPage

/-- Google's callback. -/
def googleStep (q : GoogleArgs) : Phase → Reading → Db → Db × (Phase ⊕ Answer)
  | .called, i, db => match verified q.pending q.email q.cookie i.now db with
      | some (db, secret) => (db, .inr (.toContinue secret))
      | none => (db, .inl .ended)
  | .ended, i, db =>
      (db, .inr (endedAnswer cfg (db.ended.find? fun e => e.id = q.pending && i.now ≤ e.expiresAt)))
  | p, _, db => (db, .inl p)

/-- `/oauth/email-link`. -/
def emailLinkStep (q : LinkArgs) : Phase → Reading → Db → Db × (Phase ⊕ Answer)
  | .called, _, db => match Rows.select EmailLink.token q.token db.links with
      | some link => (db, .inl (.opened link))
      | none =>
          (db, .inr (.error "invalid_request" "this sign-in link is unknown, used or expired" 400))
  | .opened link, i, db =>
      let db := { db with links := Rows.delete EmailLink.pendingId link.pendingId db.links }
      if link.expiresAt < i.now then
        (db, .inr (.error "invalid_request" "this sign-in link is unknown, used or expired" 400))
      else if link.email ∉ cfg.founders then
        (db, .inr (.error "access_denied" "this address no longer owns this ArchHub" 403))
      else (db, .inl (.proved link))
  | .proved link, i, db => match verified link.pendingId link.email q.cookie i.now db with
      | some (db, secret) => (db, .inr (.toContinue secret))
      | none => (db, .inr (.error "invalid_request"
          "open the link in the browser that approved the application" 400))
  | p, _, db => (db, .inl p)

/-! ## Continuing -/

/-- What `finish_authorization` asks of the row it deleted. -/
def finishable (q : ContinueArgs) (now : ℤ) (r : Pending) : Bool :=
  thisBrowser q.cookie r.id = some r.browser && r.approved && r.verifiedEmail.isSome &&
    now ≤ r.expiresAt

/-- `INSERT INTO oauth_approvals … ON CONFLICT DO UPDATE`. -/
def Db.approve (db : Db) (userId : String) (clientId : ClientId) (now : ℤ) : Db :=
  { db with
      approvals := if db.approvals.any fun a => a.userId = userId && a.clientId = clientId then
          db.approvals.map fun a =>
            if a.userId = userId && a.clientId = clientId then { a with approvedAt := now } else a
        else db.approvals ++ [⟨userId, clientId, now⟩] }

/-- `/oauth/continue`. -/
def continueStep (q : ContinueArgs) : Phase → Reading → Db → Db × (Phase ⊕ Answer)
  | .called, _, db => match db.pending.find? fun r => r.continueSecret = some q.secret with
      | some row => (db, .inl (.spending row))
      | none => (db, .inl .ended)
  | .spending row, i, db =>
      let out := spend row i.now db
      (out.1, .inl (.signingIn row out.2))
  | .signingIn row taken, i, db =>
      let userId := cfg.account (row.verifiedEmail.getD "")
      (db, .inl (if taken && finishable q i.now row && i.active userId then .approving row userId
        else .ended))
  | .approving row userId, i, db =>
      (db.approve userId row.clientId i.now, .inl (.minting row userId))
  | .minting row userId, i, db =>
      (db.mint row userId i.now, .inr (.code row.redirectUri db.drawn row.state))
  | .ended, i, db =>
      (db, .inr (endedAnswer cfg
        (db.ended.find? fun e => e.continueSecret = some q.secret && i.now ≤ e.expiresAt)))
  | p, _, db => (db, .inl p)

/-! ## Tokens -/

/-- The resource a client names is unknown. -/
def foreign (resource : String) : Bool := resource ≠ "" && resource ≠ cfg.mcpResource

/-- `/oauth/token`. -/
def tokenStep : TokenArgs → Phase → Reading → Db → Db × (Phase ⊕ Answer)
  | .authorizationCode code _ _ _ resource, .called, i, db =>
      if foreign cfg resource then (db, .inr (.error "invalid_target" "unknown resource" 400))
      else match Rows.select Code.code code db.codes with
        | none => (db, .inr (invalidGrant "unknown code"))
        | some grant => (db, .inl (.redeeming grant i.now))
  | .authorizationCode code redirectUri clientId verifier _, .redeeming grant now, i, db =>
      let out := redeem cfg ⟨code, redirectUri, clientId, verifier⟩ grant now i db
      (out.1, .inr out.2)
  | .refreshToken token _ resource, .called, i, db =>
      if foreign cfg resource then (db, .inr (.error "invalid_target" "unknown resource" 400))
      else match (Rows.select Token.token token db.tokens).filter (·.kind = .refresh) with
        | none => (db, .inr (invalidGrant "unknown refresh token"))
        | some held => (db, .inl (.refreshing held i.now))
  | .refreshToken token clientId _, .refreshing held now, i, db =>
      let out := refresh token clientId held now i db
      (out.1, .inr out.2)
  | .other resource, .called, _, db =>
      if foreign cfg resource then (db, .inr (.error "invalid_target" "unknown resource" 400))
      else (db, .inr (.error "unsupported_grant_type" "authorization_code or refresh_token" 400))
  | _, p, _, db => (db, .inl p)

/-- `user_for_access_token`. -/
def accessStep (token : ℕ) : Phase → Reading → Db → Db × (Phase ⊕ Answer)
  | .called, i, db => match (db.accessRow token).filter fun t =>
        i.now ≤ t.expiresAt && t.resource = cfg.mcpResource && mcpRead ∈ t.scope with
      | some held => (db, .inl (.holding held))
      | none => (db, .inr .noAccount)
  | .holding held, i, db => (db, .inl (.naming held (i.active held.userId)))
  | .naming held active, _, db =>
      let name := (Rows.select Client.clientId held.clientId db.clients).map Client.clientName
      (db, .inr (if active then .account held.userId held.clientId (name.getD "")
        (scopes.filter (· ∈ held.scope)) else .noAccount))
  | p, _, db => (db, .inl p)

/-! ## The service -/

/-- The next step of a request. -/
def oauthStep : Request → Phase → Reading → Db → Db × (Phase ⊕ Answer)
  | .register q, p, i, db => registerStep cfg q p i db
  | .authorize q, p, i, db => authorizeStep cfg q p i db
  | .consent q, p, i, db => consentStep cfg q p i db
  | .google q, p, i, db => googleStep cfg q p i db
  | .emailLink q, p, i, db => emailLinkStep cfg q p i db
  | .continuation q, p, i, db => continueStep cfg q p i db
  | .token q, p, i, db => tokenStep cfg q p i db
  | .bearer userId, .called, i, db => ((bearer cfg userId i db).1, .inr (bearer cfg userId i db).2)
  | .access token, p, i, db => accessStep cfg token p i db
  | _, p, _, db => (db, .inl p)

/-- The authorization server. -/
def oauth : Service Db Sent Phase Answer Reading where
  first _ := .called
  step q p i db := oauthStep cfg q.request p i db

end ArchHub.Mcp

import ArchHub.Lib.Requests
import ArchHub.Lib.Rows
import ArchHub.Update.Release

/-!
# The authorization server of the public MCP door

The tables of the authorization server, and the requests that reach it.

Every value drawn from `secrets` is a number, drawn from one counter, so that no two are the
same.  The tables keep the digest of a secret and compare digests; here they keep its number and
compare numbers.  Whoever sends a request may put any number in it.

* `Config`: what the deployment sets.
* `Db`: the tables.
* `Request`, `Answer`: what the endpoints are sent and what they answer.
* `Reading`: what a step is given from outside.
-/

namespace ArchHub.Mcp

open Lib

/-- A registered client has a drawn identifier; a client that identifies itself by a metadata
document, or sends a bearer, has a text of its own. -/
inductive ClientId where
  | minted (n : ℕ)
  | named (text : String)
deriving DecidableEq

/-! ## Constants -/

/-- `SCOPE`. -/
def mcpRead : String := "mcp:read"

/-- `WORKSHOP_SCOPE`. -/
def mcpWorkshop : String := "mcp:workshop"

/-- `SCOPES`. -/
def scopes : List String := [mcpRead, mcpWorkshop]

/-- `ACCESS_TTL`. -/
def accessTtl : ℤ := 3600

/-- `REFRESH_TTL`. -/
def refreshTtl : ℤ := 30 * 24 * 3600

/-- `CODE_TTL`. -/
def codeTtl : ℤ := 300

/-- `PENDING_TTL`. -/
def pendingTtl : ℤ := 600

/-- `EMAIL_LINK_TTL`. -/
def emailLinkTtl : ℤ := 15 * 60

/-- `MAX_CLIENTS`. -/
def maxClients : ℕ := 10000

/-- `MAX_PENDING`. -/
def maxPending : ℕ := 500

/-- `MAX_PENDING_ALL`. -/
def maxPendingAll : ℕ := 5000

/-- `MAX_PENDING_PER_CLIENT`. -/
def maxPendingPerClient : ℕ := 5

/-- `MAX_PENDING_PER_ADDRESS`. -/
def maxPendingPerAddress : ℕ := 20

/-- `MAX_PENDING_PER_NETWORK`. -/
def maxPendingPerNetwork : ℕ := 100

/-- `MAX_STATE`. -/
def maxState : ℕ := 4096

/-- `MAX_FOUNDER_LANE`. -/
def maxFounderLane : ℕ := 20

/-- `MAX_VERIFIED_PER_EMAIL`. -/
def maxVerifiedPerEmail : ℕ := 2

/-- `MAX_ENDED`. -/
def maxEnded : ℕ := 10000

/-- `XAI_CLIENT_ID`. -/
def xaiClientId : ClientId := .named "xai-header"

/-- What the deployment sets, and what the model takes from elsewhere. -/
structure Config where
  /-- `mcp_resource()`. -/
  mcpResource : String
  /-- `sorted(config.founder_emails())`. -/
  founders : List String
  /-- The accounts with a founder's email that are not suspended. -/
  founderUser : String → Bool
  /-- `_redirect_allowed`. -/
  redirectAllowed : String → Bool
  /-- The unpadded base64url text of the SHA-256 digest of a verifier. -/
  s256 : String → String
  /-- `config.google_login_enabled()`. -/
  googleLogin : Bool
  /-- `db.get_or_create_user`: the account of an email. -/
  account : String → String

/-! ## Tables -/

/-- A row of `oauth_clients`. -/
structure Client where
  clientId : ClientId
  redirectUris : List String
  clientName : String
  createdAt : ℤ
deriving DecidableEq

/-- A row of `oauth_pending`. -/
structure Pending where
  id : ℕ
  clientId : ClientId
  redirectUri : String
  codeChallenge : String
  state : String
  scope : List String
  resource : String
  expiresAt : ℤ
  csrf : ℕ
  browser : ℕ
  address : String
  network : String
  approved : Bool := false
  verifiedEmail : Option String := none
  continueSecret : Option ℕ := none
  lane : String := ""
deriving DecidableEq

/-- A row of `oauth_ended`. -/
structure Ended where
  id : ℕ
  redirectUri : String
  state : String
  expiresAt : ℤ
  continueSecret : Option ℕ
deriving DecidableEq

/-- A row of `oauth_email_links`. -/
structure EmailLink where
  token : ℕ
  pendingId : ℕ
  email : String
  expiresAt : ℤ
deriving DecidableEq

/-- A row of `oauth_approvals`. -/
structure Approval where
  userId : String
  clientId : ClientId
  approvedAt : ℤ
deriving DecidableEq

/-- A row of `oauth_codes`. -/
structure Code where
  code : ℕ
  family : ℕ
  clientId : ClientId
  userId : String
  redirectUri : String
  codeChallenge : String
  scope : List String
  resource : String
  expiresAt : ℤ
  consumedAt : Option ℤ := none
deriving DecidableEq

/-- `kind`. -/
inductive Kind where
  | access
  | refresh
deriving DecidableEq

/-- A row of `oauth_tokens`. -/
structure Token where
  token : ℕ
  kind : Kind
  family : ℕ
  clientId : ClientId
  userId : String
  scope : List String
  resource : String
  expiresAt : ℤ
  consumedAt : Option ℤ := none
deriving DecidableEq

/-- A row of `oauth_families`. -/
structure Family where
  family : ℕ
  revokedAt : Option ℤ := none
deriving DecidableEq

/-- The tables, and the next value that is drawn. -/
structure Db where
  clients : List Client := []
  pending : List Pending := []
  ended : List Ended := []
  links : List EmailLink := []
  approvals : List Approval := []
  codes : List Code := []
  tokens : List Token := []
  families : List Family := []
  drawn : ℕ := 0

/-! ## Requests -/

/-- The consent cookie: the request it was set for, and the secret of the browser. -/
structure Cookie where
  held : ℕ
  browser : ℕ
deriving DecidableEq

/-- The body of `/oauth/register`; `none` where `redirect_uris` is not a list. -/
structure RegisterArgs where
  redirectUris : Option (List String)
  clientName : String := ""
  authMethod : String := "none"

/-- The query of `/oauth/authorize`, and what the server makes of the caller: its address and
network, and the founder's lane that its cookie proves. -/
structure AuthorizeArgs where
  responseType : String
  clientId : ClientId
  redirectUri : String
  codeChallenge : String
  codeChallengeMethod : String
  state : String := ""
  scope : String := ""
  resource : String := ""
  address : String
  network : String
  lane : String := ""

/-- The form of `/oauth/consent`. -/
structure ConsentArgs where
  pending : ℕ
  csrf : ℕ
  decision : String
  cookie : Option Cookie

/-- What Google's callback gives `google_verified`: the request named in its signed state, the
email that Google verified, and the cookie of the browser. -/
structure GoogleArgs where
  pending : ℕ
  email : String
  cookie : Option Cookie

/-- An opened link of `/oauth/email-link`. -/
structure LinkArgs where
  token : ℕ
  cookie : Option Cookie

/-- A presented value of `/oauth/continue`. -/
structure ContinueArgs where
  secret : ℕ
  cookie : Option Cookie

/-- The form of `/oauth/token`. -/
inductive TokenArgs where
  | authorizationCode (code : ℕ) (redirectUri : String) (clientId : ClientId)
      (codeVerifier : String) (resource : String)
  | refreshToken (refreshToken : ℕ) (clientId : ClientId) (resource : String)
  | other (resource : String)

inductive Request where
  | register (q : RegisterArgs)
  | authorize (q : AuthorizeArgs)
  | consent (q : ConsentArgs)
  | google (q : GoogleArgs)
  | emailLink (q : LinkArgs)
  | continuation (q : ContinueArgs)
  | token (q : TokenArgs)
  /-- `issue_header_bearer`, for a founder's account. -/
  | bearer (userId : String)
  /-- `user_for_access_token`. -/
  | access (token : ℕ)

/-- A request, and the browser or program that sends it. -/
structure Sent where
  browser : ℕ
  request : Request

inductive Answer where
  | error (error description : String) (status : ℕ)
  | registered (clientId : ClientId)
  /-- Back to the client with an error. -/
  | redirected (redirectUri error description state : String)
  /-- The consent page, with its hidden fields, and the cookie set with it. -/
  | page (pending csrf browser : ℕ) (client redirectUri : String) (scope : List String)
  /-- To Google, with the request in the signed state. -/
  | toGoogle (pending : ℕ)
  /-- The sign-in link was sent. -/
  | mailed (minutes : ℤ)
  /-- To `/oauth/continue`. -/
  | toContinue (secret : ℕ)
  /-- To the client with a code. -/
  | code (redirectUri : String) (code : ℕ) (state : String)
  /-- The sign-in has ended, and the request is not known. -/
  | endedPage
  | tokens (access refresh : ℕ) (expiresIn : ℤ) (scope : List String)
  | noAccount
  | account (userId : String) (clientId : ClientId) (clientName : String) (scopes : List String)
  /-- An exception; what was written in its transaction is rolled back. -/
  | raised

/-- What a step is given from outside. -/
structure Reading where
  /-- `int(time.time())`. -/
  now : ℤ
  /-- The clock is past its epoch. -/
  past : 0 < now
  /-- The redirects and the name in a client's metadata document, where one is accepted. -/
  document : Option (List String × String) := none
  /-- Whether there is an account that is not suspended. -/
  active : String → Bool
  /-- Whether an email could be sent. -/
  mailed : Bool := true

/-! ## Rows -/

/-- `str.split`. -/
def words (s : String) : List String :=
  ((s.toList.splitOnP Update.isSpace).filter (· ≠ [])).map String.ofList

/-- `str.isascii`. -/
def ascii (s : String) : Bool := s.toList.all fun c => c.toNat < 128

/-- `_this_browser`. -/
def thisBrowser (cookie : Option Cookie) (pending : ℕ) : Option ℕ :=
  (cookie.filter (·.held = pending)).map Cookie.browser

end ArchHub.Mcp

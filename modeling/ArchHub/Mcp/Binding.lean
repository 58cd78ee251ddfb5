import ArchHub.Mcp.Replay
import ArchHub.Mcp.Filings

/-!
# One browser, one person, one client

What the record of all steps says of a code or a token that was given: which consent page was
shown, who approved it, whose identity was verified and where the value to continue was
presented, in this order and in one browser.

* `Opened`: a consent page; `Opens`, `Approves`, `Verifies`, `Presents`, `Mints`: the entries of
  the record that advance the request it is about.
* `Minted`, `Redeems`, `Lineage`: how a code and the tokens of its family came about.
* `Binding`: what holds of every record.
-/

namespace ArchHub.Mcp

open Lib Service

/-- A step that was made. -/
abbrev Entry : Type := Made Sent Phase Answer Reading

/-- A consent page: the browser that opened it and what it asked for, the values drawn for it,
and the scope that it shows. -/
structure Opened where
  browser : ℕ
  args : AuthorizeArgs
  id : ℕ
  csrf : ℕ
  secret : ℕ
  scope : List String

/-! ## Entries -/

/-- The page was shown. -/
def Opens (m : Entry) (o : Opened) : Prop :=
  m.request = ⟨o.browser, .authorize o.args⟩ ∧
    ∃ client, m.outcome = .inr (.page o.id o.csrf o.secret client o.args.redirectUri o.scope)

/-- `this authorization request was already decided`. -/
def alreadyDecided : Answer :=
  .error "invalid_request" "this authorization request was already decided" 400

/-- The page was approved, with its own values, in the browser that opened it. -/
def Approves (cfg : Config) (m : Entry) (o : Opened) : Prop :=
  ∃ q row, m.request = ⟨o.browser, .consent q⟩ ∧ m.phase = .approve row ∧ q.pending = o.id ∧
    q.csrf = o.csrf ∧ q.cookie = some ⟨o.id, o.secret⟩ ∧ q.approves cfg = true ∧
    m.outcome ≠ .inr alreadyDecided

/-- The person was identified in the browser that opened the page: by Google, or by a link that
was mailed to a founder for this request.  What is to be presented next was drawn. -/
def Verifies (cfg : Config) (m : Entry) (o : Opened) (email : String) (value : ℕ) : Prop :=
  ((∃ q, m.request = ⟨o.browser, .google q⟩ ∧ q.pending = o.id ∧ q.email = email ∧
      q.cookie = some ⟨o.id, o.secret⟩) ∨
    ∃ q link, m.request = ⟨o.browser, .emailLink q⟩ ∧ m.phase = .proved link ∧
      link.token = q.token ∧ link.pendingId = o.id ∧ link.email = email ∧ email ∈ cfg.founders ∧
      q.cookie = some ⟨o.id, o.secret⟩) ∧
  m.outcome = .inr (.toContinue value)

/-- The value to continue was presented in the browser that opened the page, and the request was
taken. -/
def Presents (m : Entry) (o : Opened) (value : ℕ) : Prop :=
  ∃ q row, m.request = ⟨o.browser, .continuation q⟩ ∧ q.secret = value ∧
    q.cookie = some ⟨o.id, o.secret⟩ ∧ m.phase = .spending row ∧ row.id = o.id ∧
    m.outcome = .inl (.signingIn row true)

/-- The code was given, to the client and with the state of the page. -/
def Mints (cfg : Config) (m : Entry) (o : Opened) (email : String) (code : ℕ) : Prop :=
  ∃ q row, m.request = ⟨o.browser, .continuation q⟩ ∧ m.phase = .minting row (cfg.account email) ∧
    row.id = o.id ∧ m.outcome = .inr (.code o.args.redirectUri code o.args.state)

/-- The entry gives a code for the request. -/
def mintsFor (id : ℕ) (m : Entry) : Bool :=
  match m.phase, m.outcome with
  | .minting row _, .inr (.code ..) => row.id = id
  | _, _ => false

/-! ## How codes and tokens come about -/

/-- The person was identified for the page, after it was approved. -/
def Identified (cfg : Config) (log : List Entry) (o : Opened) (email : String) (value : ℕ) : Prop :=
  ∃ m₁ m₂ m₃, [m₁, m₂, m₃].Sublist log ∧ Opens m₁ o ∧ Approves cfg m₂ o ∧ Verifies cfg m₃ o email value

/-- All that must come before a code: and then the value to continue was presented. -/
def Authorized (cfg : Config) (log : List Entry) (o : Opened) (email : String) : Prop :=
  ∃ value m₁ m₂ m₃ m₄, [m₁, m₂, m₃, m₄].Sublist log ∧ Opens m₁ o ∧ Approves cfg m₂ o ∧
    Verifies cfg m₃ o email value ∧ Presents m₄ o value

/-- The code was given for the page. -/
def Minted (cfg : Config) (log : List Entry) (o : Opened) (email : String) (code : ℕ) : Prop :=
  ∃ before m, (before ++ [m]).Sublist log ∧ Authorized cfg before o email ∧ Mints cfg m o email code

/-- Tokens were given for a code: to the client of the page, for its redirect and with the
verifier of its challenge, while the account of the person was active, of the scope of the page. -/
def Redeems (cfg : Config) (log : List Entry) (o : Opened) (email : String) (m : Entry) : Prop :=
  ∃ b code verifier resource access refresh ttl, Minted cfg log o email code ∧
    m.request = ⟨b, .token (.authorizationCode code o.args.redirectUri o.args.clientId verifier
      resource)⟩ ∧
    pkceOk cfg verifier o.args.codeChallenge = some true ∧
    m.input.active (cfg.account email) = true ∧
    m.outcome = .inr (.tokens access refresh ttl o.scope)

/-- Tokens were given for a refresh token: to the client of the page, while the account of the
person was active, of the scope of the page. -/
def Refreshes (cfg : Config) (o : Opened) (email : String) (token : ℕ) (m : Entry) : Prop :=
  ∃ b resource access refresh ttl,
    m.request = ⟨b, .token (.refreshToken token o.args.clientId resource)⟩ ∧
    m.input.active (cfg.account email) = true ∧
    m.outcome = .inr (.tokens access refresh ttl o.scope)

/-- A founder's bearer was issued. -/
def Bears (userId : String) (m : Entry) : Prop :=
  ∃ b, m.request = ⟨b, .bearer userId⟩

/-- The refresh token came of a root, by any chain of refreshes. -/
inductive Lineage (log : List Entry) (root : Entry → Prop) : ℕ → Prop
  | root {m : Entry} {access refresh : ℕ} {ttl : ℤ} {scope : List String} (hm : m ∈ log)
      (hroot : root m) (hout : m.outcome = .inr (.tokens access refresh ttl scope)) :
      Lineage log root refresh
  | refreshed {m : Entry} {b token : ℕ} {clientId : ClientId} {resource : String}
      {access refresh : ℕ} {ttl : ℤ} {scope : List String} (hold : Lineage log root token)
      (hm : m ∈ log) (hask : m.request = ⟨b, .token (.refreshToken token clientId resource)⟩)
      (hout : m.outcome = .inr (.tokens access refresh ttl scope)) : Lineage log root refresh

/-! A longer record says no less. -/

section Later

variable {cfg : Config} {log log' : List Entry} {o : Opened} {email : String}

section

variable (hlog : log.Sublist log')

include hlog

theorem Authorized.mono (h : Authorized cfg log o email) : Authorized cfg log' o email := by
  obtain ⟨value, m₁, m₂, m₃, m₄, hsub, hrest⟩ := h
  exact ⟨value, m₁, m₂, m₃, m₄, hsub.trans hlog, hrest⟩

theorem Identified.mono {value : ℕ} (h : Identified cfg log o email value) :
    Identified cfg log' o email value := by
  obtain ⟨m₁, m₂, m₃, hsub, hrest⟩ := h
  exact ⟨m₁, m₂, m₃, hsub.trans hlog, hrest⟩

theorem Minted.mono {code : ℕ} (h : Minted cfg log o email code) :
    Minted cfg log' o email code := by
  obtain ⟨before, m, hsub, hrest⟩ := h
  exact ⟨before, m, hsub.trans hlog, hrest⟩

theorem Redeems.mono {m : Entry} (h : Redeems cfg log o email m) : Redeems cfg log' o email m := by
  obtain ⟨b, code, verifier, resource, access, refresh, ttl, hminted, hrest⟩ := h
  exact ⟨b, code, verifier, resource, access, refresh, ttl, hminted.mono hlog, hrest⟩

theorem Lineage.mono {root root' : Entry → Prop} {token : ℕ} (hroot : ∀ m, root m → root' m)
    (h : Lineage log root token) : Lineage log' root' token := by
  induction h with
  | root hm hr hout => exact .root (hlog.subset hm) (hroot _ hr) hout
  | refreshed _ hm hask hout ih => exact .refreshed ih (hlog.subset hm) hask hout

end

end Later

/-- Tokens that were given. -/
def Issued (cfg : Config) (before : List Entry) (m : Entry) : Prop :=
  (∃ userId, Bears userId m) ∨
    (∃ userId b token clientId resource, Lineage before (Bears userId) token ∧
      m.request = ⟨b, .token (.refreshToken token clientId resource)⟩) ∨
    (∃ o email, Redeems cfg before o email m) ∨
    ∃ o email token, Lineage before (Redeems cfg before o email) token ∧
      Refreshes cfg o email token m

/-- What an entry must come after. -/
structure Rightful (cfg : Config) (before : List Entry) (m : Entry) : Prop where
  code : ∀ redirectUri code state, m.outcome = .inr (.code redirectUri code state) →
    ∃ o email, Authorized cfg before o email ∧ Mints cfg m o email code
  tokens : ∀ access refresh ttl scope, m.outcome = .inr (.tokens access refresh ttl scope) →
    Issued cfg before m

/-- The authorization flow binds one browser, one person and one client. -/
structure Binding (cfg : Config) (log : List Entry) : Prop where
  /-- Every code and every token was given rightfully. -/
  rightful : Warranted (Rightful cfg) log
  /-- A request yields one code at most. -/
  once : ∀ id, log.countP (mintsFor id) ≤ 1

/-! ## Random values -/

/-- The cookie that a request carries. -/
def Request.cookie : Request → Option Cookie
  | .consent q => q.cookie
  | .google q => q.cookie
  | .emailLink q => q.cookie
  | .continuation q => q.cookie
  | _ => none

/-- The secret that was set in the browser. -/
def secretSet (m : Entry) : Option ℕ :=
  match m.outcome with
  | .inr (.page _ _ secret _ _ _) => some secret
  | _ => none

/-- Random values are not guessed: no request carries a secret that was set in another browser. -/
def unguessed (s : Db × List Entry) (r : Sent) (_ : Phase) (_ : Reading) : Bool :=
  r.request.cookie.all fun c =>
    s.2.all fun m => secretSet m ≠ some c.browser || m.request.browser = r.browser

end ArchHub.Mcp

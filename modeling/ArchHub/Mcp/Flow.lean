import ArchHub.Mcp.Bound

/-!
# The flow of an authorization

What a request goes by between two steps (`Owed`), what one step keeps of the record and the
tables (`Goes`), and from these what every run keeps (`binding_of_run`).
-/

namespace ArchHub.Mcp

open Lib Service List

/-! ## The transactions that give tokens -/

section Transactions

variable (cfg : Config) (i : Reading) (db : Db)

theorem issue_cases (h : Holder) (ttl : ℤ) :
    i.active h.userId = true ∧ issue h ttl i db
        = (db.insertTokens h ttl i.now, .tokens db.drawn (db.drawn + 1) ttl h.scope) ∨
      issue h ttl i db = (db.revoke h.family i.now, invalidGrant "this account is suspended") := by
  unfold issue
  split
  · rename_i hactive
    exact Or.inl ⟨hactive, rfl⟩
  · exact Or.inr rfl

/-- A code that is redeemed: it was taken at most, or tokens were given. -/
theorem redeem_cases (q : Redemption) (grant : Code) (now : ℤ) :
    Took db (redeem cfg q grant now i db).1 ∧ plain (.inr (redeem cfg q grant now i db).2) = true ∨
      (grant.clientId = q.clientId ∧ grant.redirectUri = q.redirectUri ∧
        pkceOk cfg q.codeVerifier grant.codeChallenge = some true ∧
        i.active grant.userId = true ∧ redeem cfg q grant now i db
          = ((db.consumeCode q.code now).insertTokens { grant.holder with clientId := q.clientId }
              accessTtl i.now, .tokens db.drawn (db.drawn + 1) accessTtl grant.scope)) := by
  have htaken : Took db (db.consumeCode q.code now) := .consumeCode db q.code now
  unfold redeem
  split
  · dsimp only
    split
    · exact Or.inl ⟨htaken, rfl⟩
    · rename_i hmatch
      simp only [Bool.or_eq_true, decide_eq_true_eq, not_or, Decidable.not_not] at hmatch
      obtain ⟨⟨-, hclient⟩, hredirect⟩ := hmatch
      split
      · exact Or.inl ⟨.refl db, rfl⟩
      · exact Or.inl ⟨htaken, rfl⟩
      · rename_i hpkce
        rcases issue_cases i (db.consumeCode q.code now)
          { grant.holder with clientId := q.clientId } accessTtl with ⟨hactive, heq⟩ | heq
        · exact Or.inr ⟨hclient, hredirect, hpkce, hactive, heq⟩
        · rw [heq]
          exact Or.inl ⟨⟨htaken.codes, htaken.tokens⟩, rfl⟩
  · exact Or.inl ⟨⟨(Took.refl db).codes, (Took.refl db).tokens⟩, rfl⟩

/-- A refresh token that is presented. -/
theorem refresh_cases (token : ℕ) (clientId : ClientId) (held : Token) (now : ℤ) :
    Took db (refresh token clientId held now i db).1 ∧
        plain (.inr (refresh token clientId held now i db).2) = true ∨
      (held.clientId = clientId ∧ i.active held.userId = true ∧ refresh token clientId held now i db
        = ((db.consumeToken token now).insertTokens { held.holder with clientId := clientId }
            accessTtl i.now, .tokens db.drawn (db.drawn + 1) accessTtl held.scope)) := by
  have htaken : Took db (db.consumeToken token now) := .consumeToken db token now
  unfold refresh
  split
  · dsimp only
    split
    · exact Or.inl ⟨htaken, rfl⟩
    · rename_i hmatch
      simp only [Bool.or_eq_true, decide_eq_true_eq, not_or, Decidable.not_not] at hmatch
      obtain ⟨⟨-, hclient⟩, -⟩ := hmatch
      rcases issue_cases i (db.consumeToken token now)
        { held.holder with clientId := clientId } accessTtl with ⟨hactive, heq⟩ | heq
      · exact Or.inr ⟨hclient, hactive, heq⟩
      · rw [heq]
        exact Or.inl ⟨⟨htaken.codes, htaken.tokens⟩, rfl⟩
  · exact Or.inl ⟨⟨(Took.refl db).codes, (Took.refl db).tokens⟩, rfl⟩

/-- A founder's bearer. -/
theorem bearer_cases (hg : Grants db) (userId : String) :
    Took db (bearer cfg userId i db).1 ∧ plain (.inr (bearer cfg userId i db).2) = true ∨
      ∃ u h, Grants u ∧ Took db u ∧ Fewer db u ∧ bearer cfg userId i db
        = (u.insertTokens h refreshTtl i.now, .tokens u.drawn (u.drawn + 1) refreshTtl h.scope) := by
  unfold bearer
  dsimp only
  have hclient : SameGrants db (db.insertClient ⟨xaiClientId, [], "xAI", i.now⟩) := .insertClient _
  have hfewer : Fewer db (db.insertClient ⟨xaiClientId, [], "xAI", i.now⟩) :=
    (Calm.insertClient _).fewer
  have hgrants := (hg.ofSame hclient).newFamily
  have htook : Took db (db.insertClient ⟨xaiClientId, [], "xAI", i.now⟩).newFamily :=
    ⟨(Took.ofSame hclient).codes, (Took.ofSame hclient).tokens⟩
  generalize db.insertClient ⟨xaiClientId, [], "xAI", i.now⟩ = u at hgrants htook hfewer ⊢
  rcases issue_cases i u.newFamily ⟨u.drawn, xaiClientId, userId, scopes, cfg.mcpResource⟩ refreshTtl
    with ⟨-, heq⟩ | heq
  · exact Or.inr ⟨u.newFamily, _, hgrants, htook,
      hfewer.trans (.still rfl rfl rfl (Nat.le_succ _)), heq⟩
  · refine Or.inl ⟨?_, ?_⟩
    · show Took db (issue _ refreshTtl i u.newFamily).1
      rw [heq]
      exact ⟨htook.codes, htook.tokens⟩
    · show plain (.inr (issue _ refreshTtl i u.newFamily).2) = true
      rw [heq]
      rfl

end Transactions

/-! ## Steps that give nothing -/

section Plain

variable {cfg : Config} {p : Phase} {i : Reading} {db : Db}

theorem endedAnswer_plain (e : Option Ended) : plain (.inr (endedAnswer cfg e)) = true := by
  unfold endedAnswer
  split <;> rfl

/-- What is checked before a request is filed: it is filed as it was sent, or refused. -/
theorem checkAuthorize_cases (q : AuthorizeArgs) (client : Client) :
    checkAuthorize cfg q client = .ok ⟨q, client, granted q.scope⟩ ∨
      ∃ a, checkAuthorize cfg q client = .error a ∧ plain (.inr a) = true := by
  unfold checkAuthorize
  split
  · exact Or.inr ⟨_, rfl, rfl⟩
  · split
    · exact Or.inr ⟨_, rfl, rfl⟩
    · dsimp only
      split
      · exact Or.inr ⟨_, rfl, rfl⟩
      · split
        · exact Or.inr ⟨_, rfl, rfl⟩
        · split
          · exact Or.inr ⟨_, rfl, rfl⟩
          · split
            · exact Or.inr ⟨_, rfl, rfl⟩
            · exact Or.inl rfl

theorem foundClient_plain (q : AuthorizeArgs) (client : Client) :
    plain (foundClient cfg q client) = true := by
  unfold foundClient
  rcases checkAuthorize_cases q client  with h | ⟨a, h, hplain⟩
  · rw [h]
    rfl
  · rw [h]
    exact hplain

/-- A request that is found in order is filed as it was sent. -/
theorem foundClient_filing {q : AuthorizeArgs} {client : Client} {p : Phase}
    (h : foundClient cfg q client = .inl p) : p = .filing ⟨q, client, granted q.scope⟩ := by
  unfold foundClient at h
  rcases checkAuthorize_cases q client  with hok | ⟨a, herror, -⟩
  · rw [hok] at h
    exact (Sum.inl.inj h).symm
  · rw [herror] at h
    cases h

theorem accessStep_plain (token : ℕ) : plain (accessStep cfg token p i db).2 = true := by
  cases p with
  | called =>
      unfold accessStep
      dsimp only
      split <;> rfl
  | naming held active =>
      cases active with
      | true => rfl
      | false => rfl
  | _ => rfl

end Plain

/-! ## What a request goes by -/

/-- What a request goes by between two steps. -/
def Owed (cfg : Config) (db : Db) (log : List Entry) (r : Sent) : Phase → Prop
  | .filing f => r.request = .authorize f.args
  | .sweeping f _ _ => r.request = .authorize f.args
  | .approve _ => ∃ q o, r.request = .consent q ∧ q.approves cfg = true ∧ (∃ m ∈ log, Opens m o) ∧
      q.pending = o.id ∧ q.csrf = o.csrf ∧ q.cookie = some ⟨o.id, o.secret⟩
  | .opened link => ∃ q, r.request = .emailLink q ∧ link.token = q.token
  | .proved link => ∃ q, r.request = .emailLink q ∧ link.token = q.token ∧ link.email ∈ cfg.founders
  | .spending row => ∃ q o, r.request = .continuation q ∧ OfPage row o ∧
      ∀ email, row.verifiedEmail = some email → Identified cfg log o email q.secret
  | .signingIn row true => ∃ q o m, r.request = .continuation q ∧ Gone db log row.id ∧ OfPage row o ∧
      m.request = r ∧ m.phase = .spending row ∧ m.outcome = .inl (.signingIn row true) ∧
      ∀ email, row.verifiedEmail = some email → ∃ m₁ m₂ m₃, [m₁, m₂, m₃, m].Sublist log ∧
        Opens m₁ o ∧ Approves cfg m₂ o ∧ Verifies cfg m₃ o email q.secret
  | .approving row userId => ∃ q o email, r.request = .continuation q ∧ Gone db log row.id ∧
      OfPage row o ∧ o.browser = r.browser ∧ userId = cfg.account email ∧ Authorized cfg log o email
  | .minting row userId => ∃ q o email, r.request = .continuation q ∧ Gone db log row.id ∧
      OfPage row o ∧ o.browser = r.browser ∧ userId = cfg.account email ∧ Authorized cfg log o email
  | _ => True

/-- The request that was taken by this worker, and may yet yield a code. -/
def holding : Sent × Phase → Option ℕ
  | (_, .signingIn row true) => some row.id
  | (_, .approving row _) => some row.id
  | (_, .minting row _) => some row.id
  | _ => none

/-- Two workers hold different requests. -/
def Separate (x y : Sent × Phase) : Prop := ∀ id, holding x = some id → holding y ≠ some id

variable {a : Answer} {id : ℕ} {o : Opened}

section Owed

variable {cfg : Config} {db t : Db} {log : List Entry} {r : Sent} {p : Phase} {i : Reading}
  {m : Entry} {out : Phase ⊕ Answer}

theorem Gone.later (h : Gone db log id) (hdrawn : db.drawn ≤ t.drawn)
    (hgone : ∀ id, id < db.drawn → (∀ x ∈ db.pending, x.id ≠ id) → ∀ x ∈ t.pending, x.id ≠ id)
    (hm : mintsFor id m = false) : Gone t (log ++ [m]) id where
  below := h.below.trans_le hdrawn
  ended := hgone id h.below h.ended
  none := by
    rw [countP_append, countP_singleton, hm, h.none]
    rfl

/-- What a request goes by survives a step that gives no code for the request it holds. -/
theorem Owed.later (h : Owed cfg db log r p) (hdrawn : db.drawn ≤ t.drawn)
    (hgone : ∀ id, id < db.drawn → (∀ x ∈ db.pending, x.id ≠ id) → ∀ x ∈ t.pending, x.id ≠ id)
    (hm : ∀ id, holding (r, p) = some id → mintsFor id m = false) :
    Owed cfg t (log ++ [m]) r p := by
  have hsub := sublist_append_left log [m]
  cases p with
  | approve row =>
      obtain ⟨q, o, hreq, happroves, ⟨m', hm', ho⟩, hrest⟩ := h
      exact ⟨q, o, hreq, happroves, ⟨m', hsub.subset hm', ho⟩, hrest⟩
  | spending row =>
      obtain ⟨q, o, hreq, hpage, hid⟩ := h
      exact ⟨q, o, hreq, hpage, fun email he => (hid email he).mono hsub⟩
  | signingIn row taken =>
      cases taken with
      | false => trivial
      | true =>
          obtain ⟨q, o, m', hreq, hg, hpage, hmreq, hphase, hout, hid⟩ := h
          refine ⟨q, o, m', hreq, hg.later hdrawn hgone (hm row.id rfl), hpage, hmreq, hphase, hout, ?_⟩
          intro email he
          obtain ⟨m₁, m₂, m₃, hlog, hrest⟩ := hid email he
          exact ⟨m₁, m₂, m₃, hlog.trans hsub, hrest⟩
  | approving row userId =>
      obtain ⟨q, o, email, hreq, hg, hpage, hbrowser, huser, hauth⟩ := h
      exact ⟨q, o, email, hreq, hg.later hdrawn hgone (hm row.id rfl), hpage, hbrowser, huser,
        hauth.mono hsub⟩
  | minting row userId =>
      obtain ⟨q, o, email, hreq, hg, hpage, hbrowser, huser, hauth⟩ := h
      exact ⟨q, o, email, hreq, hg.later hdrawn hgone (hm row.id rfl), hpage, hbrowser, huser,
        hauth.mono hsub⟩
  | _ => exact h

/-- Who carries the secret of a page is the browser that opened it. -/
theorem same_browser (hguess : unguessed (db, log) r p i = true) (hm : m ∈ log) (ho : Opens m o)
    (hcookie : r.request.cookie = some ⟨id, o.secret⟩) : o.browser = r.browser := by
  unfold unguessed at hguess
  rw [hcookie, Option.all_some, all_eq_true] at hguess
  have hentry := hguess m hm
  obtain ⟨hreq, client, hout⟩ := ho
  unfold secretSet at hentry
  rw [hout, hreq] at hentry
  simpa using hentry

/-- What one step keeps. -/
structure Goes (cfg : Config) (db : Db) (log : List Entry) (r : Sent) (p : Phase) (i : Reading)
    (t : Db) (out : Phase ⊕ Answer) : Prop where
  bound : Bound cfg t (log ++ [⟨r, p, i, out⟩])
  owed : ∀ q, out = .inl q → Owed cfg t (log ++ [⟨r, p, i, out⟩]) r q
  drawn : db.drawn ≤ t.drawn
  gone : ∀ id, id < db.drawn → (∀ x ∈ db.pending, x.id ≠ id) → ∀ x ∈ t.pending, x.id ≠ id
  /-- It gives a code for the request it holds only. -/
  mints : ∀ id, mintsFor id ⟨r, p, i, out⟩ = true → holding (r, p) = some id
  /-- It holds no request but one that was pending. -/
  holds : ∀ q id, out = .inl q → holding (r, q) = some id →
    holding (r, p) = some id ∨ ∃ x ∈ db.pending, x.id = id

/-- A step that takes requests away and gives nothing. -/
theorem goes_quiet (h : Bound cfg db log) (hfewer : Fewer db t) (hsame : SameGrants db t)
    (hplain : plain out = true)
    (howed : ∀ q, out = .inl q → Owed cfg t (log ++ [⟨r, p, i, out⟩]) r q)
    (hholds : ∀ q id, out = .inl q → holding (r, q) = some id →
      holding (r, p) = some id ∨ ∃ x ∈ db.pending, x.id = id) : Goes cfg db log r p i t out where
  bound := (h.fewer hfewer hsame).entry hplain
  owed := howed
  drawn := hfewer.drawn
  gone _ _ := hfewer.gone
  mints id hid := by
    rw [not_mintsFor hplain id] at hid
    cases hid
  holds := hholds

/-- A request that does not get on. -/
theorem goes_stay (h : Bound cfg db log) (hp : Owed cfg db log r p) :
    Goes cfg db log r p i db (.inl p) :=
  goes_quiet h (.refl db) (.refl db) rfl (fun q hq => by
      cases hq
      exact hp.later le_rfl (fun _ _ hnone => hnone) fun id _ => not_mintsFor rfl id)
    fun q id hq hid => by
      cases hq
      exact Or.inl hid

/-- A step that takes requests away, and answers. -/
theorem goes_answer (h : Bound cfg db log) (hfewer : Fewer db t) (hsame : SameGrants db t)
    (hplain : plain (.inr a) = true) : Goes cfg db log r p i t (.inr a) :=
  goes_quiet h hfewer hsame hplain (fun _ hq => by cases hq) fun _ _ hq => by cases hq

/-- A step that takes requests away, and goes on holding none. -/
theorem goes_on (h : Bound cfg db log) (hfewer : Fewer db t) (hsame : SameGrants db t) {q : Phase}
    (howed : Owed cfg t (log ++ [⟨r, p, i, .inl q⟩]) r q) (hholding : holding (r, q) = none) :
    Goes cfg db log r p i t (.inl q) :=
  goes_quiet h hfewer hsame rfl (fun q' hq => by
      cases hq
      exact howed)
    fun q' id hq hid => by
      cases hq
      rw [hholding] at hid
      cases hid

end Owed

/-! ## The endpoints -/

variable {row : Pending} {r : Sent} {m : Entry} {clientId : ClientId} {resource : String} {now : ℤ}

section Endpoints

variable {cfg : Config} {db t : Db} {log : List Entry} {b : ℕ} {p : Phase} {i : Reading}
  {q : ContinueArgs}

section

variable (h : Bound cfg db log)

include h

theorem goes_register (q : RegisterArgs) (hp : Owed cfg db log ⟨b, .register q⟩ p) :
    Goes cfg db log ⟨b, .register q⟩ p i (registerStep cfg q p i db).1
      (registerStep cfg q p i db).2 := by
  have hsame : SameGrants db (registerStep cfg q p i db).1 := registerStep_same q
  cases p with
  | called =>
      unfold registerStep
      dsimp only
      split
      · exact goes_answer h (.refl db) (.refl db) rfl
      · split
        · exact goes_answer h (.refl db) (.refl db) rfl
        · dsimp only
          split <;> exact goes_on h (.refl db) (.refl db) trivial rfl
  | choosing =>
      unfold registerStep
      dsimp only
      split
      · exact goes_on h (.refl db) (.refl db) trivial rfl
      · exact goes_answer h (.refl db) (.refl db) rfl
  | registering drop => exact goes_answer h (.register q drop i.now) hsame rfl
  | _ => exact goes_stay h hp

/-- A request of a client that was found is filed next, or refused. -/
theorem goes_found (hfewer : Fewer db t) (hsame : SameGrants db t) (q : AuthorizeArgs)
    (client : Client) : Goes cfg db log ⟨b, .authorize q⟩ p i t (foundClient cfg q client) := by
  cases hout : foundClient cfg q client with
  | inl next =>
      obtain rfl := foundClient_filing hout
      exact goes_on h hfewer hsame rfl rfl
  | inr a => exact goes_answer h hfewer hsame (hout ▸ foundClient_plain q client)

theorem goes_authorize (q : AuthorizeArgs) (hp : Owed cfg db log ⟨b, .authorize q⟩ p) :
    Goes cfg db log ⟨b, .authorize q⟩ p i (authorizeStep cfg q p i db).1
      (authorizeStep cfg q p i db).2 := by
  cases p with
  | called =>
      unfold authorizeStep
      dsimp only
      split
      · exact goes_found h (.refl db) (.refl db) q _
      · exact goes_on h (.refl db) (.refl db) trivial rfl
      · exact goes_answer h (.refl db) (.refl db) rfl
  | document uris name =>
      unfold authorizeStep
      dsimp only
      split
      · exact goes_found h (Calm.insertClient _).fewer (.insertClient _) q _
      · exact goes_answer h (Calm.insertClient _).fewer (.insertClient _) rfl
  | filing f => exact goes_on h (.refl db) (.refl db) hp rfl
  | sweeping f now rows =>
      obtain rfl : q = f.args := by
        cases hp
        rfl
      have hfewer : Fewer db (db.endExpired now rows) := .endExpired now rows
      have hsame : SameGrants db (db.endExpired now rows) := .endExpired now rows
      show Goes cfg db log _ _ i (file cfg f i.now (db.endExpired now rows)).1
        (.inr (file cfg f i.now (db.endExpired now rows)).2)
      rcases file_cases cfg f i.now (db.endExpired now rows) with ⟨hmore, hfull⟩ | ⟨u, hmore, hsame', heq⟩
      · rw [hfull]
        exact goes_answer h (hfewer.trans hmore) (hsame.trans (.file cfg f i.now)) rfl
      · rw [heq]
        have hu := h.fewer (hfewer.trans hmore) (hsame.trans hsame')
        have hgrow := (hfewer.trans hmore).drawn
        have hbound : Bound cfg (f.insert cfg i.now u).1
            (log ++ [⟨⟨b, .authorize f.args⟩, .sweeping f now rows, i, .inr (f.insert cfg i.now u).2⟩]) :=
          hu.insert rfl rfl
        refine ⟨hbound, (fun _ hq => by cases hq), hgrow.trans (Nat.le_add_right _ 3),
          fun id hlt hnone x hx => ?_, fun id hid => ?_, fun _ _ hq => by cases hq⟩
        · rcases List.mem_append.1 hx with hold | hlast
          · exact (hfewer.trans hmore).gone hnone x hold
          · rw [List.mem_singleton.1 hlast]
            show u.drawn ≠ id
            omega
        · cases hid
  | _ => exact goes_stay h hp

/-- A request that was approved in its own browser. -/
theorem Bound.approve (hplain : plain m.outcome = true) (hopened : ∃ m' ∈ log, Opens m' o)
    (hm : Approves cfg m o) (hpending : t.pending
      = Rows.update Pending.id o.id (fun r => { r with approved := true }) db.pending)
    (hsame : SameGrants db t) : Bound cfg t (log ++ [m]) := by
  refine (h.entry hplain).update hpending hsame (fun _ => rfl) fun x hx hxid => ?_
  obtain ⟨o', ho'⟩ := h.filed.traced x hx
  obtain ⟨m', hm', hopens⟩ := hopened
  obtain ⟨m₁, hm₁, hopens₁⟩ := ho'.opened
  obtain rfl : o' = o := h.filed.unique m₁ hm₁ m' hm' o' o hopens₁ hopens (ho'.page.id.symm.trans hxid)
  have hlater := ho'.mono (sublist_append_left log [m])
  refine ⟨o', ⟨hlater.page.id, hlater.page.csrf, hlater.page.browser, hlater.page.clientId,
    hlater.page.redirectUri, hlater.page.codeChallenge, hlater.page.state, hlater.page.scope⟩,
    hlater.opened, fun _ => ⟨m', m, ?_, hopens, hm⟩, hlater.verified⟩
  exact (List.singleton_sublist.2 hm').append (List.Sublist.refl [m])

/-- A request whose person was identified in its own browser. -/
theorem Bound.identify (email : String) (hplain : plain m.outcome = true) (hrow : row ∈ db.pending)
    (happroved : row.approved = true)
    (hm : ∀ o, Traced cfg log row o → Verifies cfg m o email db.drawn) :
    Bound cfg (db.setVerified row.id email) (log ++ [m]) := by
  refine (h.entry hplain).update rfl ⟨rfl, rfl, rfl, Nat.le_succ _⟩ (fun _ => rfl) fun x hx hxid => ?_
  obtain rfl := Rows.eq_of_key h.filed.nodup hx hrow hxid
  obtain ⟨o, ho⟩ := h.filed.traced x hx
  have hlater := ho.mono (sublist_append_left log [m])
  refine ⟨o, ⟨hlater.page.id, hlater.page.csrf, hlater.page.browser, hlater.page.clientId,
    hlater.page.redirectUri, hlater.page.codeChallenge, hlater.page.state, hlater.page.scope⟩,
    hlater.opened, hlater.approved, fun email' he => ?_⟩
  obtain rfl : email = email' := Option.some.inj he
  obtain ⟨m₁, m₂, hsub, hopens, happroves⟩ := ho.approved happroved
  exact ⟨db.drawn, rfl, m₁, m₂, m, hsub.append (List.Sublist.refl [m]), hopens, happroves, hm o ho⟩

theorem goes_consent (q : ConsentArgs) (hguess : unguessed (db, log) ⟨b, .consent q⟩ p i = true)
    (hp : Owed cfg db log ⟨b, .consent q⟩ p) :
    Goes cfg db log ⟨b, .consent q⟩ p i (consentStep cfg q p i db).1 (consentStep cfg q p i db).2 := by
  cases p with
  | called =>
      unfold consentStep
      dsimp only
      split
      · exact goes_answer h (.refl db) (.refl db) rfl
      · rename_i row hfound
        obtain ⟨hselect, hok⟩ := Option.filter_eq_some_iff.1 hfound
        unfold decidable at hok
        simp only [Bool.and_eq_true, decide_eq_true_eq] at hok
        obtain ⟨⟨-, hcsrf⟩, hbrowser⟩ := hok
        obtain ⟨o, ho⟩ := h.filed.traced row (Rows.mem_of_select hselect)
        have hid : q.pending = o.id := (Rows.key_of_select hselect).symm.trans ho.page.id
        have hcookie := thisBrowser_eq_some.1 hbrowser
        rw [hid, ho.page.browser] at hcookie
        obtain ⟨m, hm, hopens⟩ := ho.opened
        by_cases happroves : q.approves cfg = true
        · rw [if_pos happroves]
          exact goes_on h (.refl db) (.refl db) ⟨q, o, rfl, happroves,
            ⟨m, mem_append_left _ hm, hopens⟩, hid, hcsrf.symm.trans ho.page.csrf, hcookie⟩ rfl
        · rw [if_neg happroves]
          exact goes_on h (.refl db) (.refl db) trivial rfl
  | deny row => exact goes_answer h (.endPending _) (.endPending _) rfl
  | approve row =>
      obtain ⟨q', o, hreq, happroves, hopened, hid, hcsrf, hcookie⟩ := hp
      obtain rfl : q = q' := by
        cases hreq
        rfl
      obtain ⟨m', hm', hopens⟩ := hopened
      have hbrowser : o.browser = b := same_browser hguess hm' hopens hcookie
      unfold consentStep
      dsimp only
      split
      · have hgo : ∀ (t : Db) (out : Phase ⊕ Answer), plain out = true → SameGrants db t →
            t.pending = Rows.update Pending.id o.id (fun r => { r with approved := true }) db.pending →
            out ≠ .inr alreadyDecided →
            (∀ next, out = .inl next → (∀ u l, Owed cfg u l ⟨b, .consent q⟩ next) ∧
              holding (⟨b, .consent q⟩, next) = none) →
            Goes cfg db log ⟨b, .consent q⟩ (.approve row) i t out := by
          intro t out hplain hsame hpending hout hnext
          have hm : Approves cfg ⟨⟨b, .consent q⟩, .approve row, i, out⟩ o :=
            ⟨q, row, by rw [hbrowser], rfl, hid, hcsrf, hcookie, happroves, hout⟩
          refine ⟨h.approve hplain ⟨m', hm', hopens⟩ hm hpending hsame,
            fun next hnext' => (hnext next hnext').1 _ _, hsame.drawn, fun id _ hnone x hx => ?_,
            fun id hmint => ?_, fun next id hnext' hhold => ?_⟩
          · rw [hpending] at hx
            obtain ⟨y, hy, rfl⟩ := List.mem_map.1 hx
            have hyid := hnone y hy
            split <;> exact hyid
          · rw [not_mintsFor hplain id] at hmint
            cases hmint
          · rw [(hnext next hnext').2] at hhold
            cases hhold
        split
        · exact hgo _ _ rfl ⟨rfl, rfl, rfl, le_rfl⟩ (hid ▸ rfl) (fun h => by cases h) fun next hnext => by
            cases hnext
            exact ⟨fun _ _ => trivial, rfl⟩
        · split
          · exact hgo _ _ rfl ⟨rfl, rfl, rfl, le_rfl⟩ (hid ▸ rfl)
              (fun h => by cases h) fun _ hnext => by cases hnext
          · exact hgo _ _ rfl ⟨rfl, rfl, rfl, le_rfl⟩ (hid ▸ rfl)
              (fun h => by simp [alreadyDecided] at h) fun _ hnext => by cases hnext
      · exact goes_answer h (.refl db) (.refl db) rfl
  | minutes pending =>
      unfold consentStep
      dsimp only
      split
      · exact goes_answer h (.refl db) (.refl db) rfl
      · exact goes_on h (.refl db) (.refl db) trivial rfl
  | linking pending expires addresses sent =>
      cases addresses with
      | nil =>
          unfold consentStep
          dsimp only
          split
          · exact goes_answer h (.refl db) (.refl db) rfl
          · exact goes_on h (.refl db) (.refl db) trivial rfl
      | cons address rest =>
          refine goes_on h ?_ ?_ ?_ rfl
          · exact .still rfl rfl rfl (Nat.le_succ _)
          · exact ⟨rfl, rfl, rfl, Nat.le_succ _⟩
          · trivial
  | counting pending => exact goes_answer h (.refl db) (.refl db) rfl
  | _ => exact goes_stay h hp

/-- A step that identifies the person. -/
theorem goes_verified {pending secret : ℕ} {email : String} {cookie : Option Cookie}
    (hguess : unguessed (db, log) r p i = true) (hcookie : r.request.cookie = cookie)
    (hverified : verified pending email cookie i.now db = some (t, secret))
    (hm : ∀ o : Opened, o.browser = r.browser → o.id = pending → cookie = some ⟨o.id, o.secret⟩ →
      Verifies cfg ⟨r, p, i, .inr (.toContinue secret)⟩ o email secret) :
    Goes cfg db log r p i t (.inr (.toContinue secret)) := by
  have hsame := SameGrants.verified hverified
  obtain ⟨row, hselect, hmine, happroved, -, -, rfl, hfewer⟩ := verified_eq hverified
  obtain rfl := Rows.key_of_select hselect
  have hrow := Rows.mem_of_select hselect
  have hset : SameGrants db (db.setVerified row.id email) := ⟨rfl, rfl, rfl, Nat.le_succ _⟩
  have hbound := h.identify (m := ⟨r, p, i, .inr (.toContinue db.drawn)⟩) email rfl hrow
    happroved fun o ho => by
      obtain ⟨m', hm', hopens⟩ := ho.opened
      have hsecret : cookie = some ⟨o.id, o.secret⟩ := by
        rw [hmine, ho.page.id, ho.page.browser]
      exact hm o (same_browser hguess hm' hopens (hcookie.trans hsecret)) ho.page.id.symm hsecret
  refine ⟨hbound.fewer hfewer ⟨hsame.codes, hsame.tokens, hsame.families, hfewer.drawn⟩,
    (fun _ hq => by cases hq), hsame.drawn, fun id _ hnone x hx => ?_, fun id hid => ?_,
    fun _ _ hq => by cases hq⟩
  · obtain ⟨y, hy, rfl⟩ := List.mem_map.1 (hfewer.pending.subset hx)
    have hyid := hnone y hy
    split <;> exact hyid
  · rw [not_mintsFor rfl id] at hid
    cases hid

theorem goes_google (q : GoogleArgs) (hguess : unguessed (db, log) ⟨b, .google q⟩ p i = true)
    (hp : Owed cfg db log ⟨b, .google q⟩ p) :
    Goes cfg db log ⟨b, .google q⟩ p i (googleStep cfg q p i db).1 (googleStep cfg q p i db).2 := by
  cases p with
  | called =>
      unfold googleStep
      dsimp only
      split
      · rename_i hverified
        exact goes_verified h hguess rfl hverified fun o hbrowser hid hcookie =>
          ⟨Or.inl ⟨q, by rw [hbrowser], hid.symm, rfl, hcookie⟩, rfl⟩
      · exact goes_on h (.refl db) (.refl db) trivial rfl
  | ended => exact goes_answer h (.refl db) (.refl db) (endedAnswer_plain _)
  | _ => exact goes_stay h hp

theorem goes_emailLink (q : LinkArgs) (hguess : unguessed (db, log) ⟨b, .emailLink q⟩ p i = true)
    (hp : Owed cfg db log ⟨b, .emailLink q⟩ p) :
    Goes cfg db log ⟨b, .emailLink q⟩ p i (emailLinkStep cfg q p i db).1
      (emailLinkStep cfg q p i db).2 := by
  cases p with
  | called =>
      unfold emailLinkStep
      dsimp only
      split
      · rename_i link hselect
        exact goes_on h (.refl db) (.refl db) ⟨q, rfl, Rows.key_of_select hselect⟩ rfl
      · exact goes_answer h (.refl db) (.refl db) rfl
  | opened link =>
      obtain ⟨q', hreq, htoken⟩ := hp
      unfold emailLinkStep
      dsimp only
      have hfewer : Fewer db { db with links := Rows.delete EmailLink.pendingId link.pendingId db.links } :=
        .still rfl rfl rfl le_rfl
      have hsame : SameGrants db
          { db with links := Rows.delete EmailLink.pendingId link.pendingId db.links } :=
        ⟨rfl, rfl, rfl, le_rfl⟩
      split
      · exact goes_answer h hfewer hsame rfl
      · split
        · exact goes_answer h hfewer hsame rfl
        · rename_i hfounder
          exact goes_on h hfewer hsame ⟨q', hreq, htoken, not_not.1 hfounder⟩ rfl
  | proved link =>
      obtain ⟨q', hreq, htoken, hfounder⟩ := hp
      obtain rfl : q = q' := by
        cases hreq
        rfl
      unfold emailLinkStep
      dsimp only
      split
      · rename_i hverified
        exact goes_verified h hguess rfl hverified fun o hbrowser hid hcookie =>
          ⟨Or.inr ⟨q, link, by rw [hbrowser], rfl, htoken, hid.symm, rfl, hfounder, hcookie⟩, rfl⟩
      · exact goes_answer h (.refl db) (.refl db) rfl
  | _ => exact goes_stay h hp

/-- The request is taken by the worker that deletes it. -/
theorem goes_spend (hp : Owed cfg db log ⟨b, .continuation q⟩ (.spending row)) :
    Goes cfg db log ⟨b, .continuation q⟩ (.spending row) i (spend row i.now db).1
      (.inl (.signingIn row (spend row i.now db).2)) := by
  obtain ⟨q', o, hreq, hpage, hid⟩ := hp
  have hfewer : Fewer db (spend row i.now db).1 := .spend row i.now
  have hsame : SameGrants db (spend row i.now db).1 := .spend row i.now
  have hended : ∀ x ∈ (spend row i.now db).1.pending, x.id ≠ row.id := fun x hx =>
    of_decide_eq_true (List.mem_filter.1 hx).2
  have htaken : (spend row i.now db).2 = true → ∃ x ∈ db.pending, x.id = row.id := fun ht => by
    rw [taken_spend] at ht
    obtain ⟨x, hx⟩ := Option.isSome_iff_exists.1 ht
    exact ⟨x, Rows.mem_of_select hx, Rows.key_of_select hx⟩
  generalize (spend row i.now db).1 = t at hfewer hsame hended ⊢
  generalize (spend row i.now db).2 = taken at htaken ⊢
  let m : Entry := ⟨⟨b, .continuation q⟩, .spending row, i, .inl (.signingIn row taken)⟩
  refine goes_quiet h hfewer hsame rfl (fun next hnext => ?_) fun next id hnext hhold => ?_
  · cases hnext
    cases taken with
    | false => trivial
    | true =>
        obtain ⟨x, hx, hxid⟩ := htaken rfl
        have hbelow : row.id < t.drawn := hxid ▸ (h.filed.below x hx).trans_le hfewer.drawn
        have hnone : (log ++ [m]).countP (mintsFor row.id) = 0 := by
          rw [countP_append, countP_singleton, not_mintsFor rfl]
          by_contra hne
          exact (h.counted.ended row.id hne).2 x hx hxid
        refine ⟨q', o, m, hreq, ⟨hbelow, hended, hnone⟩, hpage, rfl, rfl, rfl, fun email he => ?_⟩
        obtain ⟨m₁, m₂, m₃, hsub, hrest⟩ := hid email he
        exact ⟨m₁, m₂, m₃, hsub.append (List.Sublist.refl [m]), hrest⟩
  · cases hnext
    cases taken with
    | false => cases hhold
    | true =>
        obtain ⟨x, hx, hxid⟩ := htaken rfl
        cases hhold
        exact Or.inr ⟨x, hx, hxid⟩

/-- The account of the person who was identified is known. -/
theorem goes_signIn {taken : Bool}
    (hguess : unguessed (db, log) ⟨b, .continuation q⟩ (.signingIn row taken) i = true)
    (hp : Owed cfg db log ⟨b, .continuation q⟩ (.signingIn row taken)) (htaken : taken = true)
    (hfinish : finishable q i.now row = true) :
    Goes cfg db log ⟨b, .continuation q⟩ (.signingIn row taken) i db
      (.inl (.approving row (cfg.account (row.verifiedEmail.getD "")))) := by
  subst htaken
  obtain ⟨q', o, m', hreq, hgone, hpage, hmreq, hphase, hout, hid⟩ := hp
  obtain rfl : q = q' := by
    cases hreq
    rfl
  unfold finishable at hfinish
  simp only [Bool.and_eq_true, decide_eq_true_eq] at hfinish
  obtain ⟨⟨⟨hbrowser, -⟩, hverified⟩, -⟩ := hfinish
  obtain ⟨email, he⟩ := Option.isSome_iff_exists.1 hverified
  obtain ⟨m₁, m₂, m₃, hsub, hopens, happroves, hverifies⟩ := hid email he
  have hcookie := thisBrowser_eq_some.1 hbrowser
  rw [hpage.id, hpage.browser] at hcookie
  have hm₁ : m₁ ∈ log := hsub.subset mem_cons_self
  have hsame : o.browser = b := same_browser hguess hm₁ hopens hcookie
  have hpresents : Presents m' o q.secret :=
    ⟨q, row, by rw [hmreq, hsame], rfl, hcookie, hphase, hpage.id, hout⟩
  have howed : Owed cfg db log ⟨b, .continuation q⟩
      (.approving row (cfg.account (row.verifiedEmail.getD ""))) :=
    ⟨q, o, email, rfl, hgone, hpage, hsame, by rw [he]; rfl, q.secret, m₁, m₂, m₃, m', hsub, hopens,
      happroves, hverifies, hpresents⟩
  refine goes_quiet h (.refl db) (.refl db) rfl (fun next hnext => ?_) fun next id hnext hhold => ?_
  · cases hnext
    exact howed.later le_rfl (fun _ _ hnone => hnone) fun id _ => not_mintsFor rfl id
  · cases hnext
    exact Or.inl hhold

/-- The code is given. -/
theorem goes_mint {userId : String}
    (hp : Owed cfg db log ⟨b, .continuation q⟩ (.minting row userId)) :
    Goes cfg db log ⟨b, .continuation q⟩ (.minting row userId) i (db.mint row userId i.now)
      (.inr (.code row.redirectUri db.drawn row.state)) := by
  obtain ⟨q', o, email, hreq, hgone, hpage, hsame, rfl, hauth⟩ := hp
  have hm : Mints cfg ⟨⟨b, .continuation q⟩, .minting row (cfg.account email), i,
      .inr (.code row.redirectUri db.drawn row.state)⟩ o email db.drawn :=
    ⟨q, row, by rw [hsame], rfl, hpage.id, by rw [hpage.redirectUri, hpage.state]⟩
  have hfor : ∀ id, mintsFor id ⟨⟨b, .continuation q⟩, .minting row (cfg.account email), i,
      .inr (.code row.redirectUri db.drawn row.state)⟩ = true → id = row.id := fun id hid =>
    (of_decide_eq_true hid).symm
  exact ⟨h.mint hgone hpage hauth hm hfor, (fun _ hq => by cases hq), Nat.le_add_right _ 2,
    (fun _ _ hnone => hnone), (fun id hid => by rw [hfor id hid]; rfl), fun _ _ hq => by cases hq⟩

theorem goes_continue (hguess : unguessed (db, log) ⟨b, .continuation q⟩ p i = true)
    (hp : Owed cfg db log ⟨b, .continuation q⟩ p) :
    Goes cfg db log ⟨b, .continuation q⟩ p i (continueStep cfg q p i db).1
      (continueStep cfg q p i db).2 := by
  cases p with
  | called =>
      unfold continueStep
      dsimp only
      split
      · rename_i row hfind
        have hsecret : row.continueSecret = some q.secret := by
          have hsome := List.find?_some hfind
          exact of_decide_eq_true hsome
        obtain ⟨o, ho⟩ := h.filed.traced row (List.mem_of_find?_eq_some hfind)
        have hlater := ho.mono (sublist_append_left log
          [(⟨⟨b, .continuation q⟩, .called, i, .inl (.spending row)⟩ : Entry)])
        refine goes_on h (.refl db) (.refl db) ⟨q, o, rfl, hlater.page, fun email he => ?_⟩ rfl
        obtain ⟨value, hvalue, hid⟩ := hlater.verified email he
        obtain rfl : value = q.secret := Option.some.inj (hvalue.symm.trans hsecret)
        exact hid
      · exact goes_on h (.refl db) (.refl db) trivial rfl
  | spending row => exact goes_spend h hp
  | signingIn row taken =>
      unfold continueStep
      dsimp only
      split
      · rename_i hall
        simp only [Bool.and_eq_true] at hall
        exact goes_signIn h hguess hp hall.1.1 hall.1.2
      · exact goes_on h (.refl db) (.refl db) trivial rfl
  | approving row userId =>
      have hfewer : Fewer db (db.approve userId row.clientId i.now) := (Calm.approve _ _ _).fewer
      refine goes_quiet h hfewer ⟨rfl, rfl, rfl, le_rfl⟩ rfl (fun next hnext => ?_)
        fun next id hnext hhold => ?_
      · cases hnext
        have howed : Owed cfg db log ⟨b, .continuation q⟩ (.minting row userId) := hp
        exact howed.later le_rfl (fun _ _ hnone => hnone) fun id _ => not_mintsFor rfl id
      · cases hnext
        exact Or.inl hhold
  | minting row userId => exact goes_mint h hp
  | ended => exact goes_answer h (.refl db) (.refl db) (endedAnswer_plain _)
  | _ => exact goes_stay h hp

theorem goes_access (token : ℕ) (hp : Owed cfg db log ⟨b, .access token⟩ p) :
    Goes cfg db log ⟨b, .access token⟩ p i (accessStep cfg token p i db).1
      (accessStep cfg token p i db).2 := by
  cases p with
  | called =>
      unfold accessStep
      dsimp only
      split
      · exact goes_on h (.refl db) (.refl db) trivial rfl
      · exact goes_answer h (.refl db) (.refl db) rfl
  | holding held => exact goes_on h (.refl db) (.refl db) trivial rfl
  | naming held active =>
      have hplain : plain (accessStep cfg token (.naming held active) i db).2 = true :=
        accessStep_plain token
      exact goes_answer h (.refl db) (.refl db) hplain
  | _ => exact goes_stay h hp

end

/-- A step that answers, with tokens or without. -/
theorem goes_given (hfewer : Fewer db t) (hbound : Bound cfg t (log ++ [⟨r, p, i, .inr a⟩]))
    (ha : ∀ redirectUri code state, a ≠ .code redirectUri code state) :
    Goes cfg db log r p i t (.inr a) where
  bound := hbound
  owed _ hq := by cases hq
  drawn := hfewer.drawn
  gone _ _ := hfewer.gone
  mints id hid := by
    unfold mintsFor at hid
    split at hid
    · rename_i hout
      exact absurd (Sum.inr.inj hout) (ha _ _ _)
    · cases hid
  holds _ _ hq := by cases hq

theorem plain_code (h : plain (.inr a) = true) (redirectUri : String) (code : ℕ) (state : String) :
    a ≠ .code redirectUri code state := by
  rintro rfl
  cases h

/-- A code is redeemed. -/
theorem goes_redeem (h : Bound cfg db log) {n : ℕ} {redirectUri : String} {verifier : String}
    {grant : Code} (hs : ∃ c ∈ db.codes, c.code = n ∧ c.issued = grant.issued) :
    Goes cfg db log ⟨b, .token (.authorizationCode n redirectUri clientId verifier resource)⟩
      (.redeeming grant now) i (redeem cfg ⟨n, redirectUri, clientId, verifier⟩ grant now i db).1
      (.inr (redeem cfg ⟨n, redirectUri, clientId, verifier⟩ grant now i db).2) := by
  have hfewer : Fewer db (redeem cfg ⟨n, redirectUri, clientId, verifier⟩ grant now i db).1 :=
    (Calm.redeem cfg _ grant now i).fewer
  have hgrants := (redeem_spec cfg i ⟨n, redirectUri, clientId, verifier⟩ now h.grants hs).1
  rcases redeem_cases cfg i db ⟨n, redirectUri, clientId, verifier⟩ grant now with
    ⟨htook, hplain⟩ | ⟨hclient, hredirect, hpkce, hactive, heq⟩
  · exact goes_given hfewer ((h.took hgrants hfewer htook).entry hplain) (plain_code hplain)
  · rw [heq] at hgrants hfewer ⊢
    obtain ⟨c, hc, rfl, hissued⟩ := hs
    obtain ⟨o, email, hminted, hcoded⟩ := (h.granted.codes c hc).issued hissued.symm
    obtain ⟨hclient', hredirect', hchallenge, hscope, huser⟩ := hcoded
    have hnumber : grant.code = c.code := (Code.issued_eq hissued).1.symm
    have hbase : Bound cfg (db.consumeCode c.code now) log :=
      h.took h.grants.consumeCode (.still rfl rfl rfl le_rfl) (.consumeCode db c.code now)
    have hredeems : Redeems cfg log o email ⟨⟨b, .token (.authorizationCode c.code redirectUri
        clientId verifier resource)⟩, .redeeming grant now, i,
        .inr (.tokens db.drawn (db.drawn + 1) accessTtl grant.scope)⟩ := by
      refine ⟨b, c.code, verifier, resource, db.drawn, db.drawn + 1, accessTtl, hnumber ▸ hminted,
        ?_, hchallenge ▸ hpkce, huser ▸ hactive, by rw [hscope]⟩
      rw [← hredirect', ← hclient', hredirect, hclient]
    refine goes_given hfewer (hbase.tokens hgrants rfl (Or.inr (Or.inr (Or.inl ⟨o, email, hredeems⟩)))
      (Or.inr ⟨o, email, .root (mem_append_right _ (mem_singleton_self _))
        (hredeems.mono (sublist_append_left log _)) rfl, ?_, hscope, huser⟩))
      fun _ _ _ hcode => by cases hcode
    exact hclient.symm.trans hclient'

/-- A refresh token is presented. -/
theorem goes_refresh (h : Bound cfg db log) {token : ℕ} {held : Token}
    (hs : ∃ k ∈ db.tokens, k.token = token ∧ k.kind = .refresh ∧ k.issued = held.issued) :
    Goes cfg db log ⟨b, .token (.refreshToken token clientId resource)⟩ (.refreshing held now) i
      (refresh token clientId held now i db).1 (.inr (refresh token clientId held now i db).2) := by
  have hfewer : Fewer db (refresh token clientId held now i db).1 :=
    (Calm.refresh token clientId held now i).fewer
  have hgrants := (refresh_spec i clientId now h.grants hs).1
  rcases refresh_cases i db token clientId held now with ⟨htook, hplain⟩ | ⟨hclient, hactive, heq⟩
  · exact goes_given hfewer ((h.took hgrants hfewer htook).entry hplain) (plain_code hplain)
  · rw [heq] at hgrants hfewer ⊢
    obtain ⟨k, hk, rfl, hkind, hissued⟩ := hs
    have hbase : Bound cfg (db.consumeToken k.token now) log :=
      h.took h.grants.consumeToken (.still rfl rfl rfl le_rfl) (.consumeToken db k.token now)
    have hsub := sublist_append_left log
      [(⟨⟨b, .token (.refreshToken k.token clientId resource)⟩, .refreshing held now, i,
        .inr (.tokens db.drawn (db.drawn + 1) accessTtl held.scope)⟩ : Entry)]
    have hlast := mem_append_right log (mem_singleton_self
      (⟨⟨b, .token (.refreshToken k.token clientId resource)⟩, .refreshing held now, i,
        .inr (.tokens db.drawn (db.drawn + 1) accessTtl held.scope)⟩ : Entry))
    have hnumber : held.token = k.token := (Token.issued_eq hissued).1.symm
    refine goes_given hfewer ?_ fun _ _ _ hcode => by cases hcode
    rcases (h.granted.tokens k hk hkind).issued hissued.symm with
      ⟨userId, hline⟩ | ⟨o, email, hline, hclient', hscope, huser⟩
    · rw [hnumber] at hline
      exact hbase.tokens hgrants rfl (Or.inr (Or.inl ⟨userId, b, k.token, clientId, resource, hline, rfl⟩))
        (Or.inl ⟨userId, .refreshed (hline.mono hsub fun _ => id) hlast rfl rfl⟩)
    · rw [hnumber] at hline
      have hrefreshes : Refreshes cfg o email k.token
          ⟨⟨b, .token (.refreshToken k.token clientId resource)⟩, .refreshing held now, i,
            .inr (.tokens db.drawn (db.drawn + 1) accessTtl held.scope)⟩ :=
        ⟨b, resource, db.drawn, db.drawn + 1, accessTtl, by rw [← hclient', hclient],
          huser ▸ hactive, by rw [hscope]⟩
      exact hbase.tokens hgrants rfl (Or.inr (Or.inr (Or.inr ⟨o, email, k.token, hline, hrefreshes⟩)))
        (Or.inr ⟨o, email, .refreshed (hline.mono hsub fun _ hr => hr.mono hsub) hlast rfl rfl,
          hclient.symm.trans hclient', hscope, huser⟩)

theorem goes_token (h : Bound cfg db log) {q : TokenArgs} (hs : Sound db (.token q) p)
    (hp : Owed cfg db log ⟨b, .token q⟩ p) :
    Goes cfg db log ⟨b, .token q⟩ p i (tokenStep cfg q p i db).1 (tokenStep cfg q p i db).2 := by
  cases q with
  | other resource =>
      cases p with
      | called =>
          unfold tokenStep
          dsimp only
          split <;> exact goes_answer h (.refl db) (.refl db) rfl
      | _ => exact goes_stay h hp
  | authorizationCode n redirectUri clientId verifier resource =>
      cases p with
      | called =>
          unfold tokenStep
          dsimp only
          split
          · exact goes_answer h (.refl db) (.refl db) rfl
          · split
            · exact goes_answer h (.refl db) (.refl db) rfl
            · exact goes_on h (.refl db) (.refl db) trivial rfl
      | redeeming grant now => exact goes_redeem h hs
      | _ => exact goes_stay h hp
  | refreshToken n clientId resource =>
      cases p with
      | called =>
          unfold tokenStep
          dsimp only
          split
          · exact goes_answer h (.refl db) (.refl db) rfl
          · split
            · exact goes_answer h (.refl db) (.refl db) rfl
            · exact goes_on h (.refl db) (.refl db) trivial rfl
      | refreshing held now => exact goes_refresh h hs
      | _ => exact goes_stay h hp

theorem goes_bearer (h : Bound cfg db log) (userId : String) :
    Goes cfg db log ⟨b, .bearer userId⟩ .called i (bearer cfg userId i db).1
      (.inr (bearer cfg userId i db).2) := by
  have hfewer : Fewer db (bearer cfg userId i db).1 := (Calm.bearer cfg userId i).fewer
  have hgrants := (bearer_spec cfg i h.grants userId).1
  rcases bearer_cases cfg i db h.grants userId with ⟨htook, hplain⟩ | ⟨u, holder, hu, htook, hless, heq⟩
  · exact goes_given hfewer ((h.took hgrants hfewer htook).entry hplain) (plain_code hplain)
  · rw [heq] at hgrants hfewer ⊢
    have hbears : Bears userId ⟨⟨b, .bearer userId⟩, .called, i,
        .inr (.tokens u.drawn (u.drawn + 1) refreshTtl holder.scope)⟩ := ⟨b, rfl⟩
    exact goes_given hfewer ((h.took hu hless htook).tokens hgrants rfl (Or.inl ⟨userId, hbears⟩)
      (Or.inl ⟨userId, .root (mem_append_right _ (mem_singleton_self _)) hbears rfl⟩))
      fun _ _ _ hcode => by cases hcode

/-- **What any step keeps.** -/
theorem oauthStep_goes (h : Bound cfg db log) (hguess : unguessed (db, log) r p i = true)
    (hs : Sound db r.request p) (hp : Owed cfg db log r p) :
    Goes cfg db log r p i (oauthStep cfg r.request p i db).1 (oauthStep cfg r.request p i db).2 := by
  obtain ⟨b, request⟩ := r
  cases request with
  | register q => exact goes_register h q hp
  | authorize q => exact goes_authorize h q hp
  | consent q => exact goes_consent h q hguess hp
  | google q => exact goes_google h q hguess hp
  | emailLink q => exact goes_emailLink h q hguess hp
  | continuation q => exact goes_continue h hguess hp
  | token q => exact goes_token h hs hp
  | bearer userId =>
      cases p with
      | called => exact goes_bearer h userId
      | _ => exact goes_stay h hp
  | access token => exact goes_access h token hp

end Endpoints

/-! ## Runs -/

section Runs

variable {cfg : Config} {W : Type} [DecidableEq W]

/-- **What one step keeps of all requests.** -/
theorem audited_keeps : (oauth cfg).audited.Keeps (fun s r p i => unguessed s r p i = true)
    (fun s _ => Bound cfg s.1 s.2) (fun s _ r p => Sound s.1 r.request p ∧ Owed cfg s.1 s.2 r p)
    Separate where
  first r _ := by
    refine ⟨?_, trivial⟩
    obtain ⟨b, r⟩ := r
    cases r with
    | token q => cases q <;> trivial
    | _ => trivial
  symm h id hy hx := h id hx hy
  apart_first _ _ _ hx := by cases hx
  inv hguess h hl := (oauthStep_goes h hguess hl.1 hl.2).bound
  next hguess h hl hout :=
    ⟨(oauthStep_steps cfg _ h.grants hl.1).sound _ hout, (oauthStep_goes h hguess hl.1 hl.2).owed _ hout⟩
  stable {s as r p i r' p'} hguess h hl hl' hapart := by
    have hgoes := oauthStep_goes h hguess hl.1 hl.2
    refine ⟨hl'.1.grows (oauthStep_steps cfg i h.grants hl.1).grows,
      hl'.2.later hgoes.drawn hgoes.gone fun id hhold => ?_⟩
    by_contra hmint
    exact hapart id (hgoes.mints id (Bool.not_eq_false _ ▸ hmint)) hhold
  apart_next {s as r p i q r' p'} hguess h hl hl' hapart hout := by
    intro id hhold hother
    have hgoes := oauthStep_goes h hguess hl.1 hl.2
    rcases hgoes.holds q id hout hhold with hmine | ⟨x, hx, hxid⟩
    · exact hapart id hmine hother
    · -- a request that a worker holds is pending no more
      have hgone : Gone s.1 s.2 id := by
        cases p' with
        | signingIn row taken =>
            cases taken with
            | false => cases hother
            | true =>
                obtain ⟨-, -, -, -, hgone, -⟩ := hl'.2
                cases hother
                exact hgone
        | approving row userId =>
            obtain ⟨-, -, -, -, hgone, -⟩ := hl'.2
            cases hother
            exact hgone
        | minting row userId =>
            obtain ⟨-, -, -, -, hgone, -⟩ := hl'.2
            cases hother
            exact hgone
        | _ => cases hother
      exact hgone.ended x hx hxid

theorem bound_empty : Bound cfg {} [] where
  grants := inOrder_empty.grants
  filed := ⟨nodup_nil, (fun _ h => by cases h), (fun _ h => by cases h), (fun _ h => by cases h),
    fun _ h => by cases h⟩
  counted := ⟨fun _ => Nat.zero_le 1, fun _ h => absurd rfl h⟩
  granted := ⟨(fun _ h => by cases h), fun _ h => by cases h⟩
  rightful := warranted_nil

/-- **The authorization flow binds one browser, one person and one client**: in every run, with
any number of requests under way and their steps in any order, in which random values are not
guessed. -/
theorem binding_of_run {s : State (Db × List Entry) Sent Phase Answer W}
    (h : (oauth cfg).audited.machine.Run (fun s a => admitted unguessed s a = true) (idle ({}, [])) s) :
    Binding cfg s.shared.2 := by
  have hkept := kept_of_run audited_keeps (h.mono fun _ a ha => admits_of_admitted a ha)
    (Kept.idle bound_empty)
  exact ⟨hkept.inv.rightful, hkept.inv.counted.once⟩

/-- What a browser sends, and the steps in which it is answered. -/
def served (b : ℕ) (r : Request) (steps : ℕ) : List (Action Sent Reading Bool) :=
  .accept true ⟨b, r⟩ :: List.replicate steps (.advance true someReading)

/-- A challenge that is its own verifier. -/
def someChallenge : String := "0123456789012345678901234567890123456789012"

/-- A client is registered, a page is opened in the first browser, the second browser tries to
approve it, and the first carries it through to tokens. -/
def carriedThrough : List (Action Sent Reading Bool) :=
  served 0 (.register { redirectUris := some ["https://client"] }) 2 ++
    served 1 (.authorize {
      responseType := "code", clientId := .minted 0, redirectUri := "https://client",
      codeChallenge := someChallenge, codeChallengeMethod := "S256", address := "a", network := "n" }) 3 ++
    served 2 (.consent ⟨1, 2, "approve", none⟩) 1 ++
    served 1 (.consent ⟨1, 2, "approve", some ⟨1, 3⟩⟩) 2 ++
    served 1 (.google ⟨1, "ann", some ⟨1, 3⟩⟩) 1 ++
    served 1 (.continuation ⟨4, some ⟨1, 3⟩⟩) 5 ++
    served 0 (.token (.authorizationCode 5 "https://client" (.minted 0) someChallenge "")) 2

/-- A flow that is carried through. -/
theorem binding_carriedThrough :
    let s := carriedThrough.foldl (oauth someConfig).audited.machine.step (idle ({}, []))
    Binding someConfig s.shared.2 ∧ s.shared.2.countP (mintsFor 1) = 1 ∧
      s.answered.countP (yields (.code 5)) = 1 :=
  ⟨binding_of_run (Machine.Run.ofWalk (fun _ _ => id) (by decide +kernel)), by decide +kernel,
    by decide +kernel⟩

end Runs

end ArchHub.Mcp

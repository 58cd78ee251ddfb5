import ArchHub.Mcp.Families

/-!
# Replays

What one step of a token request does to its credential (`Transacts`), and what every run keeps
of the credentials and the answers (`Told`).  A family one of whose credentials was presented
twice is dead, and stays so: none of its access tokens is accepted, and none of its credentials
yields tokens.
-/

namespace ArchHub.Mcp

open Lib Service List

/-! ## Dead families -/

/-- No token of the family is accepted and no credential of it yields tokens: it is revoked, and
its code was taken; or its challenge cannot be compared, so that there never were any tokens. -/
def Dead (db : Db) (family : ℕ) : Prop :=
  (db.Revoked family ∧ ∀ c ∈ db.codes, c.family = family → c.consumedAt ≠ none) ∨
    ∃ c ∈ db.codes, c.family = family ∧ ascii c.codeChallenge = false

variable {token : ℕ}

section Dead

variable {db t : Db} {family : ℕ}

/-- A dead family stays dead. -/
theorem Dead.grows (hdead : Dead db family) (ht : Grants t) (h : Grows db t)
    (hfamily : family < db.drawn) : Dead t family := by
  rcases hdead with ⟨hrevoked, hspent⟩ | ⟨c, hc, rfl, hascii⟩
  · refine Or.inl ⟨h.revoked hrevoked, fun c' hc' heq => ?_⟩
    rcases h.old_codes c' hc' with ⟨c, hc, hissued⟩ | ⟨-, hnew⟩
    · have hfam : c'.family = c.family := congrArg Holder.family (Code.issued_eq hissued).2.1
      obtain ⟨c'', hc'', hissued', hmono⟩ := h.codes c hc
      have hfam' : c''.family = c.family := congrArg Holder.family (Code.issued_eq hissued').2.1
      rw [ht.one_code c' hc' c'' hc'' (hfam.trans hfam'.symm)]
      exact hmono (hspent c hc (hfam.symm.trans heq))
    · omega
  · obtain ⟨c', hc', hissued, -⟩ := h.codes c hc
    obtain ⟨-, hholder, hchallenge⟩ := Code.issued_eq hissued
    exact Or.inr ⟨c', hc', congrArg Holder.family hholder, hchallenge ▸ hascii⟩

/-- No access token of a dead family is accepted. -/
theorem Dead.accessRow (hdead : Dead db family) (hg : Grants db) {row : Token}
    (h : db.accessRow token = some row) : row.family ≠ family := by
  rintro rfl
  obtain ⟨hselect, hrow⟩ := Option.filter_eq_some_iff.1 h
  simp only [Bool.and_eq_true, any_eq_true, decide_eq_true_eq] at hrow
  obtain ⟨-, f, hf, hfamily, hlive⟩ := hrow
  rcases hdead with ⟨⟨f', hf', hfamily', hrevoked⟩, -⟩ | ⟨c, hc, hfam, hascii⟩
  · have heq := Rows.eq_of_key hg.families_nodup hf hf' (hfamily.trans hfamily'.symm)
    exact hrevoked (heq ▸ hlive)
  · have hmem := Rows.mem_of_select hselect
    rw [(hg.redeemed c hc row hmem hfam).2] at hascii
    cases hascii

end Dead

/-! ## One transaction of the token endpoint -/

/-- What the transaction does that presents `x`. -/
structure Transacts (db t : Db) (x : Credential) (a : Answer) : Prop where
  below : x.number < db.drawn
  read : a.readGrant = true
  spent : a.isRaised = false → t.Spent x
  /-- A credential that was taken before is refused, and its family revoked. -/
  replay : db.Spent x → (∀ h, db.Holds x h → t.Revoked h.family) ∧ a.isRaised = false ∧
    ∀ access refresh ttl scope, a ≠ .tokens access refresh ttl scope
  /-- Only a credential of a family that is not dead yields tokens. -/
  alive : ∀ access refresh ttl scope, a = .tokens access refresh ttl scope →
    ∀ h, db.Holds x h → ¬Dead db h.family
  raised : a.isRaised = true → ∃ c ∈ db.codes, x = .code c.code ∧ ascii c.codeChallenge = false

variable {h : Holder} {c : Code} {k : Token} {x : Credential} {a : Answer} {t : Db}

section Transactions

variable {cfg : Config} {db : Db} {i : Reading}

theorem reads_suspended : (invalidGrant "this account is suspended").readGrant = true := by decide

theorem reads_mismatch :
    (invalidGrant "code, client, redirect_uri or verifier does not match").readGrant = true := by
  decide

theorem reads_used : (invalidGrant "code already used").readGrant = true := by decide

theorem reads_expired :
    (invalidGrant "refresh token expired, revoked or for another client").readGrant = true := by
  decide

theorem reads_usedToken : (invalidGrant "refresh token already used").readGrant = true := by decide

/-- What `_issue` leaves and answers. -/
theorem issue_spec (ttl : ℤ) (hg : Grants db) (hfamily : ∃ f ∈ db.families, f.family = h.family)
    (hagree : ∀ h', db.Held h' → h'.family = h.family → h' = h)
    (hredeemed : ∀ c ∈ db.codes, c.family = h.family →
      c.consumedAt ≠ none ∧ ascii c.codeChallenge = true) :
    Grants (issue h ttl i db).1 ∧ Grows db (issue h ttl i db).1 ∧
      (issue h ttl i db).2.readGrant = true ∧ (issue h ttl i db).2.isRaised = false := by
  unfold issue
  split
  · exact ⟨hg.insertTokens hfamily hagree hredeemed, insertTokens_grows, rfl, rfl⟩
  · exact ⟨hg.revoke i.past, revoke_grows, reads_suspended, rfl⟩

/-- The update that takes a code found it untaken, or it was taken. -/
theorem taken_code (hg : Grants db) (hc : c ∈ db.codes) :
    ((Rows.select Code.code c.code db.codes).any fun c => c.consumedAt = none) = true ↔
      ¬db.Spent (.code c.code) := by
  rw [Rows.select_of_mem hg.codes_nodup hc]
  simp only [Option.any_some, decide_eq_true_eq]
  constructor
  · rintro hnone ⟨c', hc', hcode, hspent⟩
    rw [Rows.eq_of_key hg.codes_nodup hc' hc hcode] at hspent
    exact hspent hnone
  · intro hspent
    by_contra hne
    exact hspent ⟨c, hc, rfl, hne⟩

theorem taken_token (hg : Grants db) (hk : k ∈ db.tokens) :
    ((Rows.select Token.token k.token db.tokens).any fun k => k.consumedAt = none) = true ↔
      ¬db.Spent (.refresh k.token) := by
  rw [Rows.select_of_mem hg.tokens_nodup hk]
  simp only [Option.any_some, decide_eq_true_eq]
  constructor
  · rintro hnone ⟨k', hk', htoken, hspent⟩
    rw [Rows.eq_of_key hg.tokens_nodup hk' hk htoken] at hspent
    exact hspent hnone
  · intro hspent
    by_contra hne
    exact hspent ⟨k, hk, rfl, hne⟩

theorem spent_consumeCode (hc : c ∈ db.codes) (now : ℤ) :
    (db.consumeCode c.code now).Spent (.code c.code) := by
  refine ⟨_, mem_map_of_mem hc, ?_⟩
  rw [if_pos rfl]
  exact ⟨rfl, Option.some_ne_none now⟩

theorem spent_consumeToken (hk : k ∈ db.tokens) (now : ℤ) :
    (db.consumeToken k.token now).Spent (.refresh k.token) := by
  refine ⟨_, mem_map_of_mem hk, ?_⟩
  rw [if_pos rfl]
  exact ⟨rfl, Option.some_ne_none now⟩

/-- A credential is held by one. -/
theorem Grants.holds_code (hg : Grants db) (hc : c ∈ db.codes) (hh : db.Holds (.code c.code) h) :
    h = c.holder := by
  obtain ⟨c', hc', hcode, rfl⟩ := hh
  rw [Rows.eq_of_key hg.codes_nodup hc' hc hcode]

theorem Grants.holds_token (hg : Grants db) (hk : k ∈ db.tokens)
    (hh : db.Holds (.refresh k.token) h) : h = k.holder := by
  obtain ⟨k', hk', htoken, -, rfl⟩ := hh
  rw [Rows.eq_of_key hg.tokens_nodup hk' hk htoken]

/-- A transaction that takes the credential and answers without tokens. -/
theorem transacts_refused (hbelow : x.number < db.drawn) (hspent : ¬db.Spent x) (ht : t.Spent x)
    (hread : a.readGrant = true) (hraised : a.isRaised = false)
    (htokens : ∀ access refresh ttl scope, a ≠ .tokens access refresh ttl scope) :
    Transacts db t x a where
  below := hbelow
  read := hread
  spent _ := ht
  replay hx := absurd hx hspent
  alive access refresh ttl scope ha := absurd ha (htokens access refresh ttl scope)
  raised hr := by rw [hraised] at hr; cases hr

/-- A transaction that finds the credential taken. -/
theorem transacts_replay (hbelow : x.number < db.drawn) (hspent : t.Spent x)
    (hrevoked : ∀ h, db.Holds x h → t.Revoked h.family) (hread : a.readGrant = true)
    (hraised : a.isRaised = false)
    (htokens : ∀ access refresh ttl scope, a ≠ .tokens access refresh ttl scope) :
    Transacts db t x a where
  below := hbelow
  read := hread
  spent _ := hspent
  replay _ := ⟨hrevoked, hraised, htokens⟩
  alive access refresh ttl scope ha := absurd ha (htokens access refresh ttl scope)
  raised hr := by rw [hraised] at hr; cases hr

/-- **Redeeming a code.** -/
theorem redeem_spec (cfg : Config) (i : Reading) (q : Redemption) (now : ℤ) (hg : Grants db)
    {grant : Code}
    (hgrant : ∃ c ∈ db.codes, c.code = q.code ∧ c.issued = grant.issued) :
    Grants (redeem cfg q grant now i db).1 ∧ Grows db (redeem cfg q grant now i db).1 ∧
      Transacts db (redeem cfg q grant now i db).1 (.code q.code)
        (redeem cfg q grant now i db).2 := by
  obtain ⟨c, hc, hcode, hissued⟩ := hgrant
  obtain ⟨-, hholder, hchallenge⟩ := Code.issued_eq hissued
  have hheld : db.Held c.holder := Or.inl ⟨c, hc, rfl⟩
  have hspentTaken : (db.consumeCode q.code now).Spent (.code q.code) :=
    hcode ▸ spent_consumeCode hc now
  have hbelow := hg.codes_below c hc
  unfold redeem
  rw [← hcode]
  split
  · rename_i htaken
    have hspent := (taken_code hg hc).1 htaken
    have hrefused : Grants (db.consumeCode c.code now) ∧ Grows db (db.consumeCode c.code now) ∧
        Transacts db (db.consumeCode c.code now) (.code c.code)
          (invalidGrant "code, client, redirect_uri or verifier does not match") :=
      ⟨hg.consumeCode, consumeCode_grows, transacts_refused hbelow hspent (hcode ▸ hspentTaken)
        reads_mismatch rfl fun _ _ _ _ h => by cases h⟩
    dsimp only
    split
    · exact hrefused
    · rename_i hmatch
      split
      · rename_i hpkce
        refine ⟨hg, Grows.refl db, ⟨hbelow, rfl, (fun h => by cases h), fun h => absurd h hspent,
          (fun _ _ _ _ h => by cases h), fun _ => ⟨c, hc, rfl, ?_⟩⟩⟩
        unfold pkceOk at hpkce
        split at hpkce
        · split at hpkce
          · cases hpkce
          · rename_i hascii
            rw [hchallenge]
            exact Bool.eq_false_iff.2 hascii
        · cases hpkce
      · exact hrefused
      · rename_i hpkce
        have hascii : ascii c.codeChallenge = true := by
          unfold pkceOk at hpkce
          split at hpkce
          · split at hpkce
            · rename_i hascii
              rw [hchallenge]
              exact hascii
            · cases hpkce
          · cases hpkce
        have hsame : ({ grant.holder with clientId := q.clientId } : Holder) = c.holder := by
          have hclient : grant.clientId = q.clientId := by
            by_contra hne
            simp [hne] at hmatch
          rw [hholder, ← hclient]
          rfl
        rw [hsame]
        have hfamilies : (db.consumeCode c.code now).families = db.families := rfl
        have hold : ∀ h', (db.consumeCode c.code now).Held h' → db.Held h' := by
          rintro h' (⟨c', hc', rfl⟩ | hk)
          · obtain ⟨c₀, hc₀, hissued₀⟩ := (consumeCode_grows.old_codes c' hc').resolve_right
              fun hnew => by
                have hlt := hg.consumeCode.codes_below c' hc'
                exact absurd hnew.1 (not_le.2 hlt)
            exact Or.inl ⟨c₀, hc₀, (Code.issued_eq hissued₀).2.1.symm⟩
          · exact Or.inr hk
        obtain ⟨hgrants, hgrows, hread, hraised⟩ := issue_spec (i := i) accessTtl
          (hg.consumeCode : Grants (db.consumeCode c.code now)) (hfamilies ▸ hg.family_mem _ hheld)
          (fun h' hh' heq => hg.agree h' c.holder (hold h' hh') hheld heq)
          fun c' hc' heq => by
            obtain ⟨c₀, hc₀, rfl⟩ := List.mem_map.1 hc'
            have hfam : c₀.family = c.family := by
              split at heq <;> exact heq
            rw [hg.one_code c₀ hc₀ c hc hfam, if_pos rfl]
            exact ⟨Option.some_ne_none now, hascii⟩
        refine ⟨hgrants, consumeCode_grows.trans hgrows, ⟨hbelow, hread, fun _ =>
          hgrows.spent (hcode ▸ hspentTaken), fun h => absurd h hspent, fun _ _ _ _ _ h hh hdead => ?_,
          fun h => by rw [hraised] at h; cases h⟩⟩
        rw [hg.holds_code hc hh] at hdead
        rcases hdead with ⟨-, hcodes⟩ | ⟨c', hc', hfam, hnot⟩
        · exact hspent ⟨c, hc, rfl, hcodes c hc rfl⟩
        · rw [hg.one_code c' hc' c hc hfam, hascii] at hnot
          cases hnot
  · rename_i htaken
    have hspent : db.Spent (.code c.code) := by
      by_contra hnot
      exact htaken ((taken_code hg hc).2 hnot)
    refine ⟨hg.revoke i.past, revoke_grows, transacts_replay hbelow (revoke_grows.spent hspent)
      ?_ reads_used rfl fun _ _ _ _ h => by cases h⟩
    intro h hh
    rw [hg.holds_code hc hh]
    have hfam : grant.family = c.holder.family := congrArg Holder.family hholder.symm
    rw [hfam]
    exact revoked_revoke (hg.family_mem _ hheld)

/-- **Refreshing a token.** -/
theorem refresh_spec (i : Reading) (clientId : ClientId) (now : ℤ) (hg : Grants db) {held : Token}
    (hheld : ∃ k ∈ db.tokens, k.token = token ∧ k.kind = .refresh ∧ k.issued = held.issued) :
    Grants (refresh token clientId held now i db).1 ∧
      Grows db (refresh token clientId held now i db).1 ∧
      Transacts db (refresh token clientId held now i db).1 (.refresh token)
        (refresh token clientId held now i db).2 := by
  obtain ⟨k, hk, htoken, hkind, hissued⟩ := hheld
  obtain ⟨-, -, hholder⟩ := Token.issued_eq hissued
  have hin : db.Held k.holder := Or.inr ⟨k, hk, rfl⟩
  have hspentTaken : (db.consumeToken token now).Spent (.refresh token) :=
    htoken ▸ spent_consumeToken hk now
  have hbelow := hg.tokens_below k hk
  unfold refresh
  rw [← htoken]
  split
  · rename_i htaken
    have hspent := (taken_token hg hk).1 htaken
    dsimp only
    split
    · exact ⟨hg.consumeToken, consumeToken_grows,
        transacts_refused hbelow hspent (htoken ▸ hspentTaken) reads_expired rfl fun _ _ _ _ h => by cases h⟩
    · rename_i hmatch
      simp only [Bool.or_eq_true, decide_eq_true_eq, not_or, Decidable.not_not,
        Bool.not_eq_true] at hmatch
      obtain ⟨⟨-, hclient⟩, hlive⟩ := hmatch
      have hsame : ({ held.holder with clientId := clientId } : Holder) = k.holder := by
        rw [hholder, ← hclient]
        rfl
      rw [hsame]
      have hfamilies : (db.consumeToken k.token now).families = db.families := rfl
      have hold : ∀ h', (db.consumeToken k.token now).Held h' → db.Held h' := by
        rintro h' (hc | ⟨k', hk', rfl⟩)
        · exact Or.inl hc
        · obtain ⟨k₀, hk₀, hissued₀⟩ := (consumeToken_grows.old_tokens k' hk').resolve_right
            fun hnew => by
              have hlt := hg.consumeToken.tokens_below k' hk'
              exact absurd hnew (not_le.2 hlt)
          exact Or.inr ⟨k₀, hk₀, (Token.issued_eq hissued₀).2.2.symm⟩
      obtain ⟨hgrants, hgrows, hread, hraised⟩ := issue_spec (i := i) accessTtl
        (hg.consumeToken : Grants (db.consumeToken k.token now)) (hfamilies ▸ hg.family_mem _ hin)
        (fun h' hh' heq => hg.agree h' k.holder (hold h' hh') hin heq)
        fun c hc heq => hg.redeemed c hc k hk heq
      refine ⟨hgrants, consumeToken_grows.trans hgrows, ⟨hbelow, hread, fun _ =>
        hgrows.spent (htoken ▸ hspentTaken), fun h => absurd h hspent, fun _ _ _ _ _ h hh hdead => ?_,
        fun h => by rw [hraised] at h; cases h⟩⟩
      rw [hg.holds_token hk hh] at hdead
      rcases hdead with ⟨⟨f, hf, hfam, hrevoked⟩, -⟩ | ⟨c, hc, hfam, hnot⟩
      · have hfamily : held.family = f.family :=
          (congrArg Holder.family hholder.symm).trans hfam.symm
        have hselect := Rows.select_of_mem hg.families_nodup hf
        unfold Db.revoked at hlive
        rw [hfamilies, hfamily, hselect] at hlive
        obtain ⟨r, hr⟩ := Option.ne_none_iff_exists'.1 hrevoked
        have hpos := hg.past f hf r hr
        simp only [Option.any_some, hr, ne_eq, decide_eq_false_iff_not, Decidable.not_not] at hlive
        omega
      · rw [(hg.redeemed c hc k hk hfam).2] at hnot
        cases hnot
  · rename_i htaken
    have hspent : db.Spent (.refresh k.token) := by
      by_contra hnot
      exact htaken ((taken_token hg hk).2 hnot)
    refine ⟨hg.revoke i.past, revoke_grows, transacts_replay hbelow (revoke_grows.spent hspent)
      ?_ reads_usedToken rfl fun _ _ _ _ h => by cases h⟩
    intro h hh
    rw [hg.holds_token hk hh]
    have hfam : held.family = k.holder.family := congrArg Holder.family hholder.symm
    rw [hfam]
    exact revoked_revoke (hg.family_mem _ hin)

/-- **Issuing a founder's bearer.** -/
theorem bearer_spec (cfg : Config) (i : Reading) (hg : Grants db) (userId : String) :
    Grants (bearer cfg userId i db).1 ∧ Grows db (bearer cfg userId i db).1 := by
  have hclient : SameGrants db (db.insertClient ⟨xaiClientId, [], "xAI", i.now⟩) := .insertClient _
  have hbase := hg.ofSame hclient
  generalize hu : db.insertClient ⟨xaiClientId, [], "xAI", i.now⟩ = u at hclient hbase
  have hnew := hbase.newFamily
  have hheld : ∀ h', u.newFamily.Held h' → h'.family < u.drawn := fun h' hh' =>
    hbase.held_below (h := h') hh'
  obtain ⟨hgrants, hgrows, -, -⟩ := issue_spec (i := i) refreshTtl
    (h := ⟨u.drawn, xaiClientId, userId, scopes, cfg.mcpResource⟩) hnew
    ⟨_, mem_append_right _ (mem_singleton_self _), rfl⟩
    (fun h' hh' heq => absurd heq (hheld h' hh').ne)
    fun c hc heq => absurd heq (hheld c.holder (Or.inl ⟨c, hc, rfl⟩)).ne
  unfold bearer
  dsimp only
  rw [hu]
  exact ⟨hgrants, (Grows.ofSame hclient).trans (newFamily_grows.trans hgrows)⟩

end Transactions

/-! ## Steps -/

/-- What a token request under way goes by: the row it read is there, but for its consumption. -/
def Sound (db : Db) : Request → Phase → Prop
  | .token (.authorizationCode n _ _ _ _), .redeeming grant _ =>
      ∃ c ∈ db.codes, c.code = n ∧ c.issued = grant.issued
  | .token (.refreshToken n _ _), .refreshing held _ =>
      ∃ k ∈ db.tokens, k.token = n ∧ k.kind = .refresh ∧ k.issued = held.issued
  | _, _ => True

/-- What one step does to the grants. -/
structure Steps (db : Db) (r : Request) (t : Db) (out : Phase ⊕ Answer) : Prop where
  grants : Grants t
  grows : Grows db t
  sound : ∀ p, out = .inl p → Sound t r p
  answer : ∀ a, out = .inr a → (∀ x b, presents x (⟨b, r⟩, a) = false) ∨
    ∃ q x, r = .token q ∧ q.credential = some x ∧ Transacts db t x a

variable {q : TokenArgs} {e : Sent × Answer} {b : ℕ}

section Steps

variable {cfg : Config} {db t : Db} {r : Request} {p : Phase} {i : Reading}
  {out : Phase ⊕ Answer} {answered : List (Sent × Answer)}

/-- A step that leaves the grants alone, of a request that presents no credential. -/
theorem steps_same (hg : Grants db) (h : SameGrants db t) (hr : ∀ q, r ≠ .token q) :
    Steps db r t out where
  grants := hg.ofSame h
  grows := .ofSame h
  sound p _ := by
    cases r with
    | token q => exact absurd rfl (hr q)
    | _ => trivial
  answer a _ := Or.inl fun x b => by
    cases r with
    | token q => exact absurd rfl (hr q)
    | _ => rfl

/-- A step of the token endpoint that writes nothing and has not read the credential. -/
theorem steps_unread (hg : Grants db) (hsound : ∀ p, out = .inl p → Sound db r p)
    (hread : ∀ a, out = .inr a → a.readGrant = false) : Steps db r db out where
  grants := hg
  grows := .refl db
  sound := hsound
  answer a ha := Or.inl fun x b => by
    cases r with
    | token q =>
        show (decide (q.credential = some x) && a.readGrant) = false
        rw [hread a ha, Bool.and_false]
    | _ => rfl

theorem tokenStep_steps (hg : Grants db) (hs : Sound db (.token q) p) :
    Steps db (.token q) (tokenStep cfg q p i db).1 (tokenStep cfg q p i db).2 := by
  have hstay : Steps db (.token q) db (.inl p) :=
    steps_unread hg (fun p' hp' => by cases hp'; exact hs) fun a ha => by cases ha
  have herror : ∀ a : Answer, a.readGrant = false → Steps db (.token q) db (.inr a) :=
    fun a ha => steps_unread hg (fun p' hp' => by cases hp') fun a' ha' => by cases ha'; exact ha
  cases q with
  | other resource =>
      cases p with
      | called =>
          unfold tokenStep
          dsimp only
          split
          · exact herror _ (by decide)
          · exact herror _ (by decide)
      | _ => exact hstay
  | authorizationCode n redirectUri clientId verifier resource =>
      cases p with
      | called =>
          unfold tokenStep
          dsimp only
          split
          · exact herror _ (by decide)
          · split
            · exact herror _ (by decide)
            · rename_i grant hselect
              refine steps_unread hg (fun p' hp' => ?_) fun a ha => by cases ha
              cases hp'
              exact ⟨grant, Rows.mem_of_select hselect, Rows.key_of_select hselect, rfl⟩
      | redeeming grant now =>
          obtain ⟨hgrants, hgrows, htransacts⟩ := redeem_spec cfg i
            ⟨n, redirectUri, clientId, verifier⟩ now hg hs
          exact ⟨hgrants, hgrows, (fun p' hp' => by cases hp'), fun a ha => by
            cases ha
            exact Or.inr ⟨_, _, rfl, rfl, htransacts⟩⟩
      | _ => exact hstay
  | refreshToken n clientId resource =>
      cases p with
      | called =>
          unfold tokenStep
          dsimp only
          split
          · exact herror _ (by decide)
          · split
            · exact herror _ (by decide)
            · rename_i held hfound
              obtain ⟨hselect, hkind⟩ := Option.filter_eq_some_iff.1 hfound
              refine steps_unread hg (fun p' hp' => ?_) fun a ha => by cases ha
              cases hp'
              exact ⟨held, Rows.mem_of_select hselect, Rows.key_of_select hselect,
                of_decide_eq_true hkind, rfl⟩
      | refreshing held now =>
          obtain ⟨hgrants, hgrows, htransacts⟩ := refresh_spec i clientId now hg hs
          exact ⟨hgrants, hgrows, (fun p' hp' => by cases hp'), fun a ha => by
            cases ha
            exact Or.inr ⟨_, _, rfl, rfl, htransacts⟩⟩
      | _ => exact hstay

/-- **What any step does to the grants.** -/
theorem oauthStep_steps (cfg : Config) (i : Reading) (hg : Grants db) (hs : Sound db r p) :
    Steps db r (oauthStep cfg r p i db).1 (oauthStep cfg r p i db).2 := by
  cases r with
  | register q => exact steps_same hg (registerStep_same q) fun _ h => by cases h
  | authorize q => exact steps_same hg (authorizeStep_same q) fun _ h => by cases h
  | consent q => exact steps_same hg (consentStep_same q) fun _ h => by cases h
  | google q => exact steps_same hg (googleStep_same q) fun _ h => by cases h
  | emailLink q => exact steps_same hg (emailLinkStep_same q) fun _ h => by cases h
  | access token => exact steps_same hg (accessStep_same token) fun _ h => by cases h
  | token q => exact tokenStep_steps hg hs
  | bearer userId =>
      cases p with
      | called =>
          obtain ⟨hgrants, hgrows⟩ := bearer_spec cfg i hg userId
          exact ⟨hgrants, hgrows, (fun _ _ => trivial), fun _ _ => Or.inl fun _ _ => rfl⟩
      | _ => exact steps_same hg (.refl db) fun _ h => by cases h
  | continuation q =>
      cases p with
      | minting row userId =>
          exact ⟨hg.mint, mint_grows, (fun _ _ => trivial), fun _ _ => Or.inl fun _ _ => rfl⟩
      | _ => exact steps_same hg (continueStep_same q fun _ _ h => by cases h) fun _ h => by cases h

/-- What a token request goes by survives the growth of the grants. -/
theorem Sound.grows (hs : Sound db r p) (h : Grows db t) : Sound t r p := by
  cases r with
  | token q =>
      cases q with
      | other resource => trivial
      | authorizationCode n redirectUri clientId verifier resource =>
          cases p with
          | redeeming grant now =>
              obtain ⟨c, hc, hcode, hissued⟩ := hs
              obtain ⟨c', hc', hissued', -⟩ := h.codes c hc
              exact ⟨c', hc', (Code.issued_eq hissued').1.trans hcode, hissued'.trans hissued⟩
          | _ => trivial
      | refreshToken n clientId resource =>
          cases p with
          | refreshing held now =>
              obtain ⟨k, hk, htoken, hkind, hissued⟩ := hs
              obtain ⟨k', hk', hissued', -⟩ := h.tokens k hk
              obtain ⟨htoken', hkind', -⟩ := Token.issued_eq hissued'
              exact ⟨k', hk', htoken'.trans htoken, hkind'.trans hkind, hissued'.trans hissued⟩
          | _ => trivial
  | _ => trivial

/-! ## What the answers say -/

/-- What every run keeps of the credentials and the answers. -/
structure Told (db : Db) (answered : List (Sent × Answer)) : Prop where
  unspent : ∀ x, ¬db.Spent x → answered.countP (settles x) = 0
  replayed : ∀ x h, db.Holds x h → 2 ≤ answered.countP (settles x) → db.Revoked h.family
  once : ∀ x, answered.countP (yields x) ≤ 1
  raised : ∀ b q x, (⟨b, .token q⟩, Answer.raised) ∈ answered → q.credential = some x →
    ∃ c ∈ db.codes, x = .code c.code ∧ ascii c.codeChallenge = false

theorem settles_of_yields (h : yields x e = true) : settles x e = true := by
  obtain ⟨⟨b, r⟩, a⟩ := e
  cases r with
  | token q =>
      cases a with
      | tokens access refresh ttl scope =>
          show (decide (q.credential = some x) && true && true) = true
          rw [Bool.and_true, Bool.and_true]
          exact h
      | _ => cases h
  | _ => cases h

theorem presents_of_settles (h : settles x e = true) : presents x e = true := by
  obtain ⟨⟨b, r⟩, a⟩ := e
  cases r with
  | token q =>
      have hand : (decide (q.credential = some x) && a.readGrant && !a.isRaised) = true := h
      exact (Bool.and_eq_true _ _ ▸ hand).1
  | _ => cases h

/-- Codes that were not comparable stay so. -/
theorem Grows.raised (h : Grows db t)
    (hx : ∃ c ∈ db.codes, x = .code c.code ∧ ascii c.codeChallenge = false) :
    ∃ c ∈ t.codes, x = .code c.code ∧ ascii c.codeChallenge = false := by
  obtain ⟨c, hc, rfl, hascii⟩ := hx
  obtain ⟨c', hc', hissued, -⟩ := h.codes c hc
  obtain ⟨hcode, -, hchallenge⟩ := Code.issued_eq hissued
  exact ⟨c', hc', by rw [hcode], hchallenge ▸ hascii⟩

/-- What was answered before, of the grants after a step. -/
theorem Told.grows (h : Told db answered) (hg : Grants db) (hgrows : Grows db t) :
    Told t answered where
  unspent x hx := h.unspent x fun hspent => hx (hgrows.spent hspent)
  replayed x holder hholds htwo := by
    rcases hgrows.holds_old hholds with hold | hnew
    · exact hgrows.revoked (h.replayed x holder hold htwo)
    · have hspent : ¬db.Spent x := fun hspent => absurd (hg.spent_below hspent) (not_lt.2 hnew)
      rw [h.unspent x hspent] at htwo
      omega
  once := h.once
  raised b q x hmem hx := hgrows.raised (h.raised b q x hmem hx)

/-- An answer that does not count for a credential. -/
theorem countP_concat {f : Sent × Answer → Bool} (h : f e = false) :
    (answered ++ [e]).countP f = answered.countP f := by
  rw [countP_append, countP_singleton, h]
  rfl

theorem not_settles (h : presents x e = false) : settles x e = false := by
  by_contra hs
  rw [presents_of_settles (Bool.not_eq_false _ ▸ hs)] at h
  cases h

theorem not_yields (h : settles x e = false) : yields x e = false := by
  by_contra hy
  rw [settles_of_yields (Bool.not_eq_false _ ▸ hy)] at h
  cases h

/-- One answer more that presents no credential. -/
theorem Told.quiet (h : Told db answered) (he : ∀ x, presents x e = false) :
    Told db (answered ++ [e]) where
  unspent x hx := (countP_concat (not_settles (he x))).trans (h.unspent x hx)
  replayed x holder hholds htwo := by
    rw [countP_concat (not_settles (he x))] at htwo
    exact h.replayed x holder hholds htwo
  once x := (countP_concat (not_yields (not_settles (he x)))).trans_le (h.once x)
  raised b q x hmem hx := by
    rcases List.mem_append.1 hmem with hold | hnew
    · exact h.raised b q x hold hx
    · obtain rfl := List.mem_singleton.1 hnew
      have hpresents : presents x (⟨b, .token q⟩, .raised) = true := by
        show (decide (q.credential = some x) && true) = true
        rw [Bool.and_true, decide_eq_true_iff]
        exact hx
      rw [he x] at hpresents
      cases hpresents

/-- An answer counts for the credential of its request only. -/
theorem settles_token {y : Credential} (hq : q.credential = some x) (hne : y ≠ x) :
    settles y (⟨b, .token q⟩, a) = false := by
  show (decide (q.credential = some y) && a.readGrant && !a.isRaised) = false
  rw [hq, decide_eq_false (fun heq => hne (Option.some.inj heq).symm)]
  rfl

/-- **One answer more, of a transaction that presents a credential.** -/
theorem Told.transacts (h : Told db answered) (hg : Grants db) (hgrows : Grows db t)
    (hq : q.credential = some x) (htransacts : Transacts db t x a) :
    Told t (answered ++ [(⟨b, .token q⟩, a)]) := by
  have hold := h.grows hg hgrows
  have hspentOld : ∀ y, 0 < answered.countP (settles y) → db.Spent y := fun y hy => by
    by_contra hnot
    rw [h.unspent y hnot] at hy
    exact absurd hy (lt_irrefl 0)
  have hle : ∀ y, answered.countP (yields y) ≤ answered.countP (settles y) := fun y =>
    countP_mono_left fun e _ he => settles_of_yields he
  refine ⟨fun y hy => ?_, fun y holder hholds htwo => ?_, fun y => ?_, fun b' q' y hmem hy => ?_⟩
  · -- what is not taken after the transaction was not presented by it, or it was rolled back
    have hnot : settles y (⟨b, .token q⟩, a) = false := by
      by_cases heq : y = x
      · subst heq
        cases hraised : a.isRaised with
        | true =>
            show (decide (q.credential = some y) && a.readGrant && !a.isRaised) = false
            rw [hraised, Bool.not_true, Bool.and_false]
        | false => exact absurd (htransacts.spent hraised) hy
      · exact settles_token hq heq
    rw [countP_concat hnot]
    exact hold.unspent y hy
  · by_cases hnew : settles y (⟨b, .token q⟩, a) = true
    · have heq : y = x := by
        by_contra hne
        rw [settles_token hq hne] at hnew
        cases hnew
      subst heq
      rw [countP_append, countP_singleton, if_pos hnew] at htwo
      have hspent := hspentOld y (by omega)
      rcases hgrows.holds_old hholds with hdb | hnum
      · exact (htransacts.replay hspent).1 holder hdb
      · exact absurd (hg.spent_below hspent) (not_lt.2 hnum)
    · rw [countP_concat (Bool.eq_false_iff.2 hnew)] at htwo
      exact hold.replayed y holder hholds htwo
  · by_cases hnew : yields y (⟨b, .token q⟩, a) = true
    · have heq : y = x := by
        by_contra hne
        rw [not_yields (settles_token hq hne)] at hnew
        cases hnew
      subst heq
      have hspent : ¬db.Spent y := fun hspent => by
        obtain ⟨-, -, htokens⟩ := htransacts.replay hspent
        cases a with
        | tokens access refresh ttl scope => exact htokens access refresh ttl scope rfl
        | _ => cases hnew
      have hzero := h.unspent y hspent
      have hyields := hle y
      rw [countP_append, countP_singleton, if_pos hnew]
      omega
    · rw [countP_concat (Bool.eq_false_iff.2 hnew)]
      exact h.once y
  · rcases List.mem_append.1 hmem with hin | hlast
    · exact hgrows.raised (h.raised b' q' y hin hy)
    · obtain ⟨hsent, ha⟩ := Prod.mk.inj (List.mem_singleton.1 hlast)
      cases hsent
      subst ha
      obtain rfl := Option.some.inj (hq.symm.trans hy)
      exact hgrows.raised (htransacts.raised rfl)

end Steps

/-! ## Runs -/

section Runs

variable {cfg : Config} {W : Type} [DecidableEq W] {s : State Db Sent Phase Answer W}

/-- What every run keeps. -/
structure InOrder (db : Db) (answered : List (Sent × Answer)) : Prop where
  grants : Grants db
  told : Told db answered

theorem InOrder.step {db : Db} {answered : List (Sent × Answer)} {r : Sent} {p : Phase}
    {i : Reading} (h : InOrder db answered) (hs : Sound db r.request p) :
    InOrder (oauthStep cfg r.request p i db).1
      (answered ++ answers r (oauthStep cfg r.request p i db).2) := by
  have hsteps := oauthStep_steps cfg i h.grants hs
  refine ⟨hsteps.grants, ?_⟩
  have hanswer := hsteps.answer
  have hgrows := hsteps.grows
  generalize (oauthStep cfg r.request p i db).1 = u at hanswer hgrows ⊢
  cases hout : (oauthStep cfg r.request p i db).2 with
  | inl q =>
      rw [answers_inl, append_nil]
      exact h.told.grows h.grants hgrows
  | inr a =>
      rw [answers_inr]
      rcases hanswer a hout with hquiet | ⟨q, x, hr, hq, htransacts⟩
      · exact (h.told.grows h.grants hgrows).quiet fun x => hquiet x r.browser
      · have hsent : r = ⟨r.browser, .token q⟩ := by rw [← hr]
        rw [hsent]
        exact h.told.transacts h.grants hgrows hq htransacts

/-- What one step keeps. -/
theorem oauth_keeps : (oauth cfg).Keeps (fun _ _ _ _ => True) InOrder
    (fun db _ r p => Sound db r.request p) fun _ _ => True where
  first r _ := by
    obtain ⟨b, r⟩ := r
    cases r with
    | token q => cases q <;> trivial
    | _ => trivial
  symm _ := trivial
  apart_first _ _ := trivial
  inv _ h hs := h.step hs
  next _ h hs hq := (oauthStep_steps _ _ h.grants hs).sound _ hq
  stable _ h hs hs' _ := hs'.grows (oauthStep_steps _ _ h.grants hs).grows
  apart_next _ _ _ _ _ _ := trivial

theorem inOrder_empty : InOrder {} [] where
  grants := by
    refine ⟨nodup_nil, nodup_nil, nodup_nil, ?_, ?_, ?_, ?_, ?_, ?_, ?_, ?_⟩
    · exact fun c hc => by cases hc
    · exact fun k hk => by cases hk
    · exact fun f hf => by cases hf
    · exact fun f hf => by cases hf
    · rintro h (⟨c, hc, -⟩ | ⟨k, hk, -⟩)
      · cases hc
      · cases hk
    · rintro h h' (⟨c, hc, -⟩ | ⟨k, hk, -⟩)
      · cases hc
      · cases hk
    · exact fun c hc => by cases hc
    · exact fun c hc => by cases hc
  told := by
    refine ⟨fun _ _ => rfl, fun _ _ _ h => ?_, fun _ => Nat.zero_le 1, fun b q x hmem => ?_⟩
    · cases h
    · cases hmem

/-- The state of a run. -/
abbrev Running (s : State Db Sent Phase Answer W) : Prop :=
  Service.Kept InOrder (fun db _ r p => Sound db r.request p) (fun _ _ => True) s

/-- Any order of steps is admitted. -/
theorem running_of_run {t : State Db Sent Phase Answer W}
    (h : (oauth cfg).machine.Run Machine.Any s t) (hs : Running s) : Running t :=
  kept_of_run oauth_keeps (h.mono fun s a _ => by
    cases a with
    | accept w r => trivial
    | advance w i => exact fun _ _ _ => trivial) hs

/-- A token request that names the credential, whatever it was answered. -/
def names (x : Credential) : Sent × Answer → Bool
  | (⟨_, .token q⟩, _) => q.credential = some x
  | _ => false

/-- The rule of token families, from a state on: `shown` says which answered requests count as
presenting a credential. -/
structure Rotation (shown : Credential → Sent × Answer → Bool)
    (s t : State Db Sent Phase Answer W) : Prop where
  /-- A code or a refresh token yields tokens once at most. -/
  once : ∀ x, t.answered.countP (yields x) ≤ 1
  /-- The account and the scope never change within a family. -/
  constant : ∀ h h', t.shared.Held h → t.shared.Held h' → h.family = h'.family →
    h.userId = h'.userId ∧ h.scope = h'.scope
  /-- Once a credential was presented twice, no access token of its family is accepted, and no
  credential of it yields tokens. -/
  replayed : ∀ x h, s.shared.Holds x h → 2 ≤ s.answered.countP (shown x) →
    (∀ token row, t.shared.accessRow token = some row → row.family ≠ h.family) ∧
      ∀ e ∈ t.answered.drop s.answered.length, ∀ y h', yields y e = true →
        t.shared.Holds y h' → h'.family ≠ h.family

omit [DecidableEq W] in
/-- A credential that was presented twice is of a dead family. -/
theorem Running.dead (hs : Running s) (hholds : s.shared.Holds x h)
    (htwo : 2 ≤ s.answered.countP (presents x)) : Dead s.shared h.family := by
  obtain ⟨hg, htold⟩ := hs.inv
  by_cases hraised : ∃ b q, (⟨b, .token q⟩, Answer.raised) ∈ s.answered ∧ q.credential = some x
  · obtain ⟨b, q, hmem, hq⟩ := hraised
    obtain ⟨c, hc, rfl, hascii⟩ := htold.raised b q x hmem hq
    rw [hg.holds_code hc hholds]
    exact Or.inr ⟨c, hc, rfl, hascii⟩
  · have hcount : s.answered.countP (settles x) = s.answered.countP (presents x) := by
      refine countP_congr fun e he => ⟨presents_of_settles, fun hp => ?_⟩
      obtain ⟨⟨b, r⟩, a⟩ := e
      cases r with
      | token q =>
          have hand : (decide (q.credential = some x) && a.readGrant) = true := hp
          have hnot : a.isRaised = false := by
            by_contra hr
            cases a with
            | raised =>
                refine hraised ⟨b, q, he, ?_⟩
                exact of_decide_eq_true (Bool.and_eq_true _ _ ▸ hand).1
            | _ => exact hr rfl
          show (decide (q.credential = some x) && a.readGrant && !a.isRaised) = true
          rw [hand, hnot]
          rfl
      | _ => cases hp
    rw [← hcount] at htwo
    have hspent : s.shared.Spent x := by
      by_contra hnot
      rw [htold.unspent x hnot] at htwo
      omega
    refine Or.inl ⟨htold.replayed x h hholds htwo, fun c hc hfam => ?_⟩
    cases x with
    | code n =>
        obtain ⟨c', hc', rfl, rfl⟩ := hholds
        obtain ⟨c'', hc'', hcode, hconsumed⟩ := hspent
        rw [hg.one_code c hc c' hc' hfam, ← Rows.eq_of_key hg.codes_nodup hc'' hc' hcode]
        exact hconsumed
    | refresh n =>
        obtain ⟨k, hk, -, -, rfl⟩ := hholds
        exact (hg.redeemed c hc k hk hfam).1

/-- What is kept from a state on whose family is dead. -/
structure DeadSince (s : State Db Sent Phase Answer W) (family : ℕ)
    (t : State Db Sent Phase Answer W) : Prop where
  dead : Dead t.shared family
  below : family < t.shared.drawn
  later : s.answered <+: t.answered
  nothing : ∀ e ∈ t.answered.drop s.answered.length, ∀ y h', yields y e = true →
    t.shared.Holds y h' → h'.family ≠ family

theorem DeadSince.step {s t : State Db Sent Phase Answer W} {family : ℕ} (hdead : DeadSince s family t)
    (ht : Running t) (a : Action Sent Reading W) :
    DeadSince s family ((oauth cfg).machine.step t a) := by
  cases a with
  | accept w r => exact ⟨hdead.dead, hdead.below, hdead.later, hdead.nothing⟩
  | advance w i =>
      cases hw : t.flying w with
      | none =>
          rw [machine_advance_none hw]
          exact hdead
      | some call =>
          obtain ⟨r, p⟩ := call
          obtain ⟨hg, htold⟩ := ht.inv
          have hsteps := oauthStep_steps cfg i hg (ht.owed w r p hw)
          rw [machine_advance hw]
          show DeadSince s family ⟨(oauthStep cfg r.request p i t.shared).1, _,
            t.answered ++ answers r (oauthStep cfg r.request p i t.shared).2⟩
          generalize (oauthStep cfg r.request p i t.shared).1 = u at hsteps ⊢
          generalize (oauthStep cfg r.request p i t.shared).2 = out at hsteps ⊢
          refine ⟨hdead.dead.grows hsteps.grants hsteps.grows hdead.below,
            hdead.below.trans_le hsteps.grows.drawn, hdead.later.trans (prefix_append _ _), ?_⟩
          intro e he y h' hy hholds
          obtain ⟨news, hnews⟩ := hdead.later
          have hdrop : (t.answered ++ answers r out).drop s.answered.length
              = t.answered.drop s.answered.length ++ answers r out := by
            rw [drop_append_of_le_length]
            rw [← hnews, length_append]
            exact Nat.le_add_right _ _
          rw [hdrop] at he
          -- what yields tokens was there before the step
          have hwas : t.shared.Spent y → t.shared.Holds y h' := fun hspent =>
            (hsteps.grows.holds_old hholds).resolve_right fun hnew =>
              absurd (hg.spent_below hspent) (not_lt.2 hnew)
          rcases List.mem_append.1 he with hold | hnew
          · have hspent : t.shared.Spent y := by
              by_contra hnot
              have hzero := List.countP_eq_zero.1 (htold.unspent y hnot) e (mem_of_mem_drop hold)
              exact hzero (settles_of_yields hy)
            exact hdead.nothing e hold y h' hy (hwas hspent)
          · cases out with
            | inl q => cases hnew
            | inr a =>
                obtain rfl := List.mem_singleton.1 hnew
                rcases hsteps.answer a rfl with hquiet | ⟨q, x, hr, hq, htransacts⟩
                · have hpresents := presents_of_settles (settles_of_yields hy)
                  rw [hquiet y r.browser] at hpresents
                  cases hpresents
                · have hsent : r = ⟨r.browser, .token q⟩ := by rw [← hr]
                  rw [hsent] at hy
                  have hxy : y = x := by
                    by_contra hne
                    rw [not_yields (settles_token hq hne)] at hy
                    cases hy
                  subst hxy
                  have hold := (hsteps.grows.holds_old hholds).resolve_right
                    (not_le.2 htransacts.below)
                  rintro rfl
                  cases a with
                  | tokens access refresh ttl scope =>
                      exact htransacts.alive access refresh ttl scope rfl h' hold hdead.dead
                  | _ => cases hy

/-- **Token families are revoked by any replay.**  In every run, from a state on in which a
credential was presented twice, where a request that is refused before the credential is looked
up does not count. -/
theorem rotation_of_run {s t : State Db Sent Phase Answer W}
    (hs : (oauth cfg).machine.Run Machine.Any (idle {}) s)
    (ht : (oauth cfg).machine.Run Machine.Any s t) : Rotation presents s t := by
  have hrunning : Running s := running_of_run hs (Service.Kept.idle inOrder_empty)
  have hlast : Running t := running_of_run ht hrunning
  refine ⟨hlast.inv.told.once, fun h h' hh hh' heq => ?_, fun x h hholds htwo => ?_⟩
  · rw [hlast.inv.grants.agree h h' hh hh' heq]
    exact ⟨rfl, rfl⟩
  have hstart : DeadSince s h.family s := by
    have hheld : s.shared.Held h := by
      cases x with
      | code n =>
          obtain ⟨c, hc, -, hh⟩ := hholds
          exact Or.inl ⟨c, hc, hh⟩
      | refresh n =>
          obtain ⟨k, hk, -, -, hh⟩ := hholds
          exact Or.inr ⟨k, hk, hh⟩
    refine ⟨hrunning.dead hholds htwo, hrunning.inv.grants.held_below hheld, List.prefix_refl _, ?_⟩
    intro e he
    rw [List.drop_length] at he
    cases he
  have hdead : DeadSince s h.family t := by
    let Since : State Db Sent Phase Answer W → Prop := DeadSince s h.family
    have hstep : ∀ u a, Machine.Any u a → Running u → Since u →
        Since ((oauth cfg).machine.step u a) := fun u a _ hu hd => DeadSince.step hd hu a
    have hend : Since t := ht.invariant_of
      (fun u a _ hu => running_of_run (.step a trivial) hu) hstep hrunning hstart
    exact hend
  exact ⟨fun token row hrow => hdead.dead.accessRow hlast.inv.grants hrow, hdead.nothing⟩

/-- A deployment without a founder's email. -/
def someConfig : Config where
  mcpResource := "https://api.archhub.io/mcp"
  founders := []
  founderUser _ := false
  redirectAllowed _ := true
  s256 := id
  googleLogin := true
  account := id

/-- A clock, with every account active. -/
def someReading : Reading where
  now := 1
  past := by decide
  active _ := true

/-- A bearer is issued, and its refresh token presented, for these resources in turn. -/
def refreshedFor (resources : List String) : List (Action Sent Reading Bool) :=
  [.accept true ⟨0, .bearer "u"⟩, .advance true someReading] ++ resources.flatMap fun resource =>
    [.accept true ⟨0, .token (.refreshToken 2 xaiClientId resource)⟩, .advance true someReading,
      .advance true someReading]

/-- The refresh token is presented twice, and then the one that came of it. -/
theorem rotation_refreshedTwice :
    let s := (refreshedFor ["", ""]).foldl (oauth someConfig).machine.step (idle {})
    2 ≤ s.answered.countP (presents (.refresh 2)) ∧
      Rotation presents s ([.accept true ⟨0, .token (.refreshToken 4 xaiClientId "")⟩,
        .advance true someReading, .advance true someReading].foldl
          (oauth someConfig).machine.step s) :=
  ⟨by decide +kernel, rotation_of_run (.ofActions _ _) (.ofActions _ _)⟩

/-- A second presentation that names another resource is refused before the token is looked up,
and revokes nothing. -/
theorem not_rotation_foreign :
    let s := (refreshedFor ["", "https://other"]).foldl (oauth someConfig).machine.step (idle {})
    ¬Rotation names s s := by
  intro s h
  have hholds : s.shared.Holds (.refresh 2)
      ⟨0, xaiClientId, "u", scopes, "https://api.archhub.io/mcp"⟩ := by
    show ∃ k ∈ s.shared.tokens, _
    decide +kernel
  have htwo : 2 ≤ s.answered.countP (names (.refresh 2)) := by decide +kernel
  have hrow : s.shared.accessRow 1 = some ⟨1, .access, 0, xaiClientId, "u", scopes,
      "https://api.archhub.io/mcp", 1 + refreshTtl, none⟩ := by decide +kernel
  exact (h.replayed _ _ hholds htwo).1 1 _ hrow rfl

end Runs

end ArchHub.Mcp

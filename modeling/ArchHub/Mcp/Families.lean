import ArchHub.Mcp.Frame

/-!
# Token families

A code and the tokens that come of it, by any chain of refreshes, are one family.  A code or a
refresh token is a credential: whoever presents it first takes it, and whoever presents it again
revokes its family.

* `Db.Spent`, `Db.Holds`, `Db.Revoked`: what the tables say of credentials and families.
* `Effect`: what one step does to them.
* `Grants`: what every run keeps.
* `Dead`: a family of which no token is accepted and no credential yields tokens.
-/

namespace ArchHub.Mcp

open Lib Service List Function Nat

/-! ## Credentials -/

/-- What a token request presents. -/
inductive Credential where
  | code (n : ℕ)
  | refresh (n : ℕ)
deriving DecidableEq

/-- The number that was drawn for it. -/
def Credential.number : Credential → ℕ
  | .code n => n
  | .refresh n => n

/-- The credential of a token request. -/
def TokenArgs.credential : TokenArgs → Option Credential
  | .authorizationCode n .. => some (.code n)
  | .refreshToken n .. => some (.refresh n)
  | .other _ => none

namespace Db

/-- The credential was taken. -/
def Spent (db : Db) : Credential → Prop
  | .code n => ∃ c ∈ db.codes, c.code = n ∧ c.consumedAt ≠ none
  | .refresh n => ∃ t ∈ db.tokens, t.token = n ∧ t.consumedAt ≠ none

/-- The credential is there, for this holder. -/
def Holds (db : Db) : Credential → Holder → Prop
  | .code n, h => ∃ c ∈ db.codes, c.code = n ∧ c.holder = h
  | .refresh n, h => ∃ t ∈ db.tokens, t.token = n ∧ t.kind = .refresh ∧ t.holder = h

/-- There is a code or a token for this holder. -/
def Held (db : Db) (h : Holder) : Prop :=
  (∃ c ∈ db.codes, c.holder = h) ∨ ∃ t ∈ db.tokens, t.holder = h

/-- The family is revoked. -/
def Revoked (db : Db) (family : ℕ) : Prop :=
  ∃ row ∈ db.families, row.family = family ∧ row.revokedAt ≠ none

/-- The update that takes a credential. -/
def take (db : Db) : Credential → ℤ → Db
  | .code n, now => db.consumeCode n now
  | .refresh n, now => db.consumeToken n now

end Db

/-- The answer is not given before the credential was looked up, nor because there is none. -/
def Answer.readGrant : Answer → Bool
  | .error e d _ => e = "invalid_grant" && d ≠ "unknown code" && d ≠ "unknown refresh token"
  | _ => true

/-- The answer is an exception. -/
def Answer.isRaised : Answer → Bool
  | .raised => true
  | _ => false

/-- A token request for this credential was answered after the credential was found. -/
def presents (x : Credential) : Sent × Answer → Bool
  | (⟨_, .token q⟩, a) => q.credential = some x && a.readGrant
  | _ => false

/-- The same, and what it wrote was committed. -/
def settles (x : Credential) : Sent × Answer → Bool
  | (⟨_, .token q⟩, a) => q.credential = some x && a.readGrant && !a.isRaised
  | _ => false

/-- A token request for this credential was answered with tokens. -/
def yields (x : Credential) : Sent × Answer → Bool
  | (⟨_, .token q⟩, .tokens ..) => q.credential = some x
  | _ => false

/-! ## The tables of grants -/

/-- A code as it was issued. -/
def Code.issued (c : Code) : Code := { c with consumedAt := none }

/-- A token as it was issued. -/
def Token.issued (t : Token) : Token := { t with consumedAt := none }

/-- The tables of grants are in order. -/
structure Grants (db : Db) : Prop where
  codes_nodup : (db.codes.map Code.code).Nodup
  tokens_nodup : (db.tokens.map Token.token).Nodup
  families_nodup : (db.families.map Family.family).Nodup
  codes_below : ∀ c ∈ db.codes, c.code < db.drawn
  tokens_below : ∀ t ∈ db.tokens, t.token < db.drawn
  families_below : ∀ f ∈ db.families, f.family < db.drawn
  /-- The clock of a revocation is past its epoch. -/
  past : ∀ f ∈ db.families, ∀ now, f.revokedAt = some now → 0 < now
  family_mem : ∀ h, db.Held h → ∃ f ∈ db.families, f.family = h.family
  /-- All of a family is for one client, one account and one scope. -/
  agree : ∀ h h', db.Held h → db.Held h' → h.family = h'.family → h = h'
  one_code : ∀ c ∈ db.codes, ∀ c' ∈ db.codes, c.family = c'.family → c = c'
  /-- The code of a family that has tokens was taken, and its challenge could be compared. -/
  redeemed : ∀ c ∈ db.codes, ∀ t ∈ db.tokens, c.family = t.family →
    c.consumedAt ≠ none ∧ ascii c.codeChallenge = true

/-- Rows stay, and so does what was done to them; new rows have new numbers. -/
structure Grows (db t : Db) : Prop where
  codes : ∀ c ∈ db.codes, ∃ c' ∈ t.codes, c'.issued = c.issued ∧
    (c.consumedAt ≠ none → c'.consumedAt ≠ none)
  tokens : ∀ k ∈ db.tokens, ∃ k' ∈ t.tokens, k'.issued = k.issued ∧
    (k.consumedAt ≠ none → k'.consumedAt ≠ none)
  families : ∀ f ∈ db.families, ∃ f' ∈ t.families, f'.family = f.family ∧
    (f.revokedAt ≠ none → f'.revokedAt ≠ none)
  old_codes : ∀ c' ∈ t.codes, (∃ c ∈ db.codes, c'.issued = c.issued) ∨
    db.drawn ≤ c'.code ∧ db.drawn ≤ c'.family
  old_tokens : ∀ k' ∈ t.tokens, (∃ k ∈ db.tokens, k'.issued = k.issued) ∨ db.drawn ≤ k'.token
  drawn : db.drawn ≤ t.drawn

theorem Code.issued_eq {c c' : Code} (h : c.issued = c'.issued) :
    c.code = c'.code ∧ c.holder = c'.holder ∧ c.codeChallenge = c'.codeChallenge := by
  have hcode := congrArg Code.code h
  have hholder := congrArg Code.holder h
  have hchallenge := congrArg Code.codeChallenge h
  exact ⟨hcode, hholder, hchallenge⟩

theorem Token.issued_eq {k k' : Token} (h : k.issued = k'.issued) :
    k.token = k'.token ∧ k.kind = k'.kind ∧ k.holder = k'.holder := by
  have htoken := congrArg Token.token h
  have hkind := congrArg Token.kind h
  have hholder := congrArg Token.holder h
  exact ⟨htoken, hkind, hholder⟩

namespace Grows

variable {db t u : Db}

theorem refl (db : Db) : Grows db db where
  codes c hc := ⟨c, hc, rfl, id⟩
  tokens k hk := ⟨k, hk, rfl, id⟩
  families f hf := ⟨f, hf, rfl, id⟩
  old_codes c hc := Or.inl ⟨c, hc, rfl⟩
  old_tokens k hk := Or.inl ⟨k, hk, rfl⟩
  drawn := le_rfl

theorem trans (h : Grows db t) (h' : Grows t u) : Grows db u where
  codes c hc := by
    obtain ⟨c', hc', hissued, hspent⟩ := h.codes c hc
    obtain ⟨c'', hc'', hissued', hspent'⟩ := h'.codes c' hc'
    exact ⟨c'', hc'', hissued'.trans hissued, hspent' ∘ hspent⟩
  tokens k hk := by
    obtain ⟨k', hk', hissued, hspent⟩ := h.tokens k hk
    obtain ⟨k'', hk'', hissued', hspent'⟩ := h'.tokens k' hk'
    exact ⟨k'', hk'', hissued'.trans hissued, hspent' ∘ hspent⟩
  families f hf := by
    obtain ⟨f', hf', hfamily, hrevoked⟩ := h.families f hf
    obtain ⟨f'', hf'', hfamily', hrevoked'⟩ := h'.families f' hf'
    exact ⟨f'', hf'', hfamily'.trans hfamily, hrevoked' ∘ hrevoked⟩
  old_codes c hc := by
    rcases h'.old_codes c hc with ⟨c', hc', hissued⟩ | ⟨hcode, hfamily⟩
    · rcases h.old_codes c' hc' with ⟨c'', hc'', hissued'⟩ | ⟨hcode, hfamily⟩
      · exact Or.inl ⟨c'', hc'', hissued.trans hissued'⟩
      · obtain ⟨heq, hholder, -⟩ := Code.issued_eq hissued
        have hfam : c.family = c'.family := congrArg Holder.family hholder
        exact Or.inr ⟨heq ▸ hcode, hfam ▸ hfamily⟩
    · exact Or.inr ⟨h.drawn.trans hcode, h.drawn.trans hfamily⟩
  old_tokens k hk := by
    rcases h'.old_tokens k hk with ⟨k', hk', hissued⟩ | htoken
    · rcases h.old_tokens k' hk' with ⟨k'', hk'', hissued'⟩ | htoken
      · exact Or.inl ⟨k'', hk'', hissued.trans hissued'⟩
      · exact Or.inr ((Token.issued_eq hissued).1 ▸ htoken)
    · exact Or.inr (h.drawn.trans htoken)
  drawn := h.drawn.trans h'.drawn

theorem ofSame (h : SameGrants db t) : Grows db t where
  codes c hc := ⟨c, h.codes ▸ hc, rfl, id⟩
  tokens k hk := ⟨k, h.tokens ▸ hk, rfl, id⟩
  families f hf := ⟨f, h.families ▸ hf, rfl, id⟩
  old_codes c hc := Or.inl ⟨c, h.codes ▸ hc, rfl⟩
  old_tokens k hk := Or.inl ⟨k, h.tokens ▸ hk, rfl⟩
  drawn := h.drawn

theorem spent (h : Grows db t) {x : Credential} (hx : db.Spent x) : t.Spent x := by
  cases x with
  | code n =>
      obtain ⟨c, hc, rfl, hspent⟩ := hx
      obtain ⟨c', hc', hissued, hmono⟩ := h.codes c hc
      exact ⟨c', hc', (Code.issued_eq hissued).1, hmono hspent⟩
  | refresh n =>
      obtain ⟨k, hk, rfl, hspent⟩ := hx
      obtain ⟨k', hk', hissued, hmono⟩ := h.tokens k hk
      exact ⟨k', hk', (Token.issued_eq hissued).1, hmono hspent⟩

theorem revoked (h : Grows db t) {family : ℕ} (hf : db.Revoked family) : t.Revoked family := by
  obtain ⟨f, hmem, rfl, hrevoked⟩ := hf
  obtain ⟨f', hf', hfamily, hmono⟩ := h.families f hmem
  exact ⟨f', hf', hfamily, hmono hrevoked⟩

/-- A credential that was not there before is new. -/
theorem holds_old (h : Grows db t) {x : Credential} {holder : Holder} (hx : t.Holds x holder) :
    db.Holds x holder ∨ db.drawn ≤ x.number := by
  cases x with
  | code n =>
      obtain ⟨c, hc, rfl, rfl⟩ := hx
      rcases h.old_codes c hc with ⟨c', hc', hissued⟩ | ⟨hnew, -⟩
      · obtain ⟨hcode, hholder, -⟩ := Code.issued_eq hissued
        exact Or.inl ⟨c', hc', hcode.symm, hholder.symm⟩
      · exact Or.inr hnew
  | refresh n =>
      obtain ⟨k, hk, rfl, hkind, rfl⟩ := hx
      rcases h.old_tokens k hk with ⟨k', hk', hissued⟩ | hnew
      · obtain ⟨htoken, hkind', hholder⟩ := Token.issued_eq hissued
        exact Or.inl ⟨k', hk', htoken.symm, hkind'.symm.trans hkind, hholder.symm⟩
      · exact Or.inr hnew

end Grows

/-! ## What the updates keep -/

variable {ttl : ℤ} {grant : Pending} {userId : String}

section Updates

variable {db t : Db} {n family : ℕ} {now : ℤ} {h : Holder}

theorem Grants.ofSame (hg : Grants db) (h : SameGrants db t) : Grants t := by
  obtain ⟨hcodes, htokens, hfamilies, hdrawn⟩ := h
  have hheld : ∀ h, t.Held h → db.Held h := fun h hh => by
    unfold Db.Held at hh ⊢
    rwa [hcodes, htokens] at hh
  refine ⟨hcodes ▸ hg.codes_nodup, htokens ▸ hg.tokens_nodup, hfamilies ▸ hg.families_nodup,
    fun c hc => ?_, fun k hk => ?_,
    fun f hf => ?_, fun f hf => hg.past f (hfamilies ▸ hf), fun h hh => ?_,
    fun h h' hh hh' => hg.agree h h' (hheld h hh) (hheld h' hh'),
    fun c hc c' hc' => hg.one_code c (hcodes ▸ hc) c' (hcodes ▸ hc'),
    fun c hc k hk => hg.redeemed c (hcodes ▸ hc) k (htokens ▸ hk)⟩
  · exact (hg.codes_below c (hcodes ▸ hc)).trans_le hdrawn
  · exact (hg.tokens_below k (htokens ▸ hk)).trans_le hdrawn
  · exact (hg.families_below f (hfamilies ▸ hf)).trans_le hdrawn
  · rw [hfamilies]
    exact hg.family_mem h (hheld h hh)

theorem or_some_ne_none (o : Option ℤ) (now : ℤ) : o.or (some now) ≠ none := by
  cases o with
  | none => exact Option.some_ne_none now
  | some r => exact Option.some_ne_none r

/-- Revoking a family. -/
theorem revoke_grows : Grows db (db.revoke family now) where
  codes c hc := ⟨c, hc, rfl, id⟩
  tokens k hk := ⟨k, hk, rfl, id⟩
  families f hf := by
    refine ⟨_, mem_map_of_mem hf, ?_⟩
    split
    · exact ⟨rfl, fun _ => or_some_ne_none f.revokedAt now⟩
    · exact ⟨rfl, id⟩
  old_codes c hc := Or.inl ⟨c, hc, rfl⟩
  old_tokens k hk := Or.inl ⟨k, hk, rfl⟩
  drawn := le_rfl

theorem Grants.revoke (hg : Grants db) (hnow : 0 < now) : Grants (db.revoke family now) := by
  have hmem : ∀ f' ∈ (db.revoke family now).families, ∃ f ∈ db.families, f'.family = f.family ∧
      (f'.revokedAt = f.revokedAt ∨ f'.revokedAt = some now) := fun f' hf' => by
    obtain ⟨f, hf, rfl⟩ := List.mem_map.1 hf'
    refine ⟨f, hf, ?_⟩
    split
    · refine ⟨rfl, ?_⟩
      show f.revokedAt.or (some now) = f.revokedAt ∨ f.revokedAt.or (some now) = some now
      cases f.revokedAt with
      | none => exact Or.inr rfl
      | some r => exact Or.inl rfl
    · exact ⟨rfl, Or.inl rfl⟩
  have hcol : (db.revoke family now).families.map Family.family = db.families.map Family.family := by
    unfold Db.revoke Rows.update
    rw [map_map]
    refine map_congr_left fun f _ => ?_
    rw [comp_apply]
    split <;> rfl
  refine ⟨hg.codes_nodup, hg.tokens_nodup, hcol ▸ hg.families_nodup, hg.codes_below,
    hg.tokens_below, fun f' hf' => ?_, fun f' hf' r hr => ?_, fun h hh => ?_, hg.agree, hg.one_code, hg.redeemed⟩
  · obtain ⟨f, hf, hfamily, -⟩ := hmem f' hf'
    exact hfamily ▸ hg.families_below f hf
  · obtain ⟨f, hf, -, hrevoked | hrevoked⟩ := hmem f' hf'
    · exact hg.past f hf r (hrevoked ▸ hr)
    · rw [hrevoked] at hr
      cases hr
      exact hnow
  · obtain ⟨f, hf, hfamily⟩ := hg.family_mem h hh
    obtain ⟨f', hf', hfamily', -⟩ := (revoke_grows : Grows db (db.revoke family now)).families f hf
    exact ⟨f', hf', hfamily'.trans hfamily⟩

/-- A family that is there is revoked. -/
theorem revoked_revoke (hf : ∃ f ∈ db.families, f.family = family) :
    (db.revoke family now).Revoked family := by
  obtain ⟨f, hf, hfamily⟩ := hf
  refine ⟨_, mem_map_of_mem hf, ?_⟩
  rw [if_pos hfamily]
  exact ⟨hfamily, or_some_ne_none f.revokedAt now⟩

/-- Taking a code. -/
theorem consumeCode_grows : Grows db (db.consumeCode n now) where
  codes c hc := by
    refine ⟨_, mem_map_of_mem hc, ?_⟩
    split
    · exact ⟨rfl, fun _ => Option.some_ne_none now⟩
    · exact ⟨rfl, id⟩
  tokens k hk := ⟨k, hk, rfl, id⟩
  families f hf := ⟨f, hf, rfl, id⟩
  old_codes c' hc' := by
    obtain ⟨c, hc, rfl⟩ := List.mem_map.1 hc'
    refine Or.inl ⟨c, hc, ?_⟩
    split <;> rfl
  old_tokens k hk := Or.inl ⟨k, hk, rfl⟩
  drawn := le_rfl

theorem Grants.consumeCode (hg : Grants db) : Grants (db.consumeCode n now) := by
  have hcols : (db.consumeCode n now).codes.map Code.issued = db.codes.map Code.issued := by
    unfold Db.consumeCode Rows.update
    rw [map_map]
    refine map_congr_left fun c _ => ?_
    rw [comp_apply]
    split <;> rfl
  have hcodes : (db.consumeCode n now).codes.map Code.code = db.codes.map Code.code := by
    have hissued := congrArg (List.map Code.code) hcols
    rw [map_map, map_map] at hissued
    exact hissued
  have hold : ∀ c' ∈ (db.consumeCode n now).codes, ∃ c ∈ db.codes, c'.issued = c.issued ∧
      c' = if c.code = n then { c with consumedAt := some now } else c := fun c' hc' => by
    obtain ⟨c, hc, rfl⟩ := List.mem_map.1 hc'
    refine ⟨c, hc, ?_, rfl⟩
    split <;> rfl
  have hheld : ∀ h, (db.consumeCode n now).Held h → db.Held h := by
    rintro h (⟨c', hc', rfl⟩ | hk)
    · obtain ⟨c, hc, hissued, -⟩ := hold c' hc'
      exact Or.inl ⟨c, hc, (Code.issued_eq hissued).2.1.symm⟩
    · exact Or.inr hk
  refine ⟨hcodes ▸ hg.codes_nodup, hg.tokens_nodup, hg.families_nodup, fun c' hc' => ?_,
    hg.tokens_below, hg.families_below, hg.past, fun h hh => hg.family_mem h (hheld h hh),
    fun h h' hh hh' => hg.agree h h' (hheld h hh) (hheld h' hh'), fun c' hc' d' hd' heq => ?_,
    fun c' hc' k hk heq => ?_⟩
  · obtain ⟨c, hc, hissued, -⟩ := hold c' hc'
    exact (Code.issued_eq hissued).1 ▸ hg.codes_below c hc
  · obtain ⟨c, hc, hissued, hc'⟩ := hold c' hc'
    obtain ⟨d, hd, hissued', hd'⟩ := hold d' hd'
    have hfamily : c.family = c'.family :=
      (congrArg Holder.family (Code.issued_eq hissued).2.1).symm
    have hfamily' : d'.family = d.family := congrArg Holder.family (Code.issued_eq hissued').2.1
    have hcd := hg.one_code c hc d hd ((hfamily.trans heq).trans hfamily')
    rw [hc', hd', hcd]
  · obtain ⟨c, hc, hissued, hc'⟩ := hold c' hc'
    have hfamily : c.family = c'.family :=
      (congrArg Holder.family (Code.issued_eq hissued).2.1).symm
    obtain ⟨hspent, hascii⟩ := hg.redeemed c hc k hk (hfamily.trans heq)
    refine ⟨?_, (Code.issued_eq hissued).2.2 ▸ hascii⟩
    rw [hc']
    split
    · exact Option.some_ne_none now
    · exact hspent

/-- Taking a refresh token. -/
theorem consumeToken_grows : Grows db (db.consumeToken n now) where
  codes c hc := ⟨c, hc, rfl, id⟩
  tokens k hk := by
    refine ⟨_, mem_map_of_mem hk, ?_⟩
    split
    · exact ⟨rfl, fun _ => Option.some_ne_none now⟩
    · exact ⟨rfl, id⟩
  families f hf := ⟨f, hf, rfl, id⟩
  old_codes c hc := Or.inl ⟨c, hc, rfl⟩
  old_tokens k' hk' := by
    obtain ⟨k, hk, rfl⟩ := List.mem_map.1 hk'
    refine Or.inl ⟨k, hk, ?_⟩
    split <;> rfl
  drawn := le_rfl

theorem Grants.consumeToken (hg : Grants db) : Grants (db.consumeToken n now) := by
  have hcols : (db.consumeToken n now).tokens.map Token.token = db.tokens.map Token.token := by
    unfold Db.consumeToken Rows.update
    rw [map_map]
    refine map_congr_left fun k _ => ?_
    rw [comp_apply]
    split <;> rfl
  have hold : ∀ k' ∈ (db.consumeToken n now).tokens, ∃ k ∈ db.tokens, k'.issued = k.issued :=
    fun k' hk' => by
      obtain ⟨k, hk, rfl⟩ := List.mem_map.1 hk'
      refine ⟨k, hk, ?_⟩
      split <;> rfl
  have hheld : ∀ h, (db.consumeToken n now).Held h → db.Held h := by
    rintro h (hc | ⟨k', hk', rfl⟩)
    · exact Or.inl hc
    · obtain ⟨k, hk, hissued⟩ := hold k' hk'
      exact Or.inr ⟨k, hk, (Token.issued_eq hissued).2.2.symm⟩
  refine ⟨hg.codes_nodup, hcols ▸ hg.tokens_nodup, hg.families_nodup, hg.codes_below,
    fun k' hk' => ?_,
    hg.families_below, hg.past, fun h hh => hg.family_mem h (hheld h hh),
    fun h h' hh hh' => hg.agree h h' (hheld h hh) (hheld h' hh'), hg.one_code,
    fun c hc k' hk' heq => ?_⟩
  · obtain ⟨k, hk, hissued⟩ := hold k' hk'
    exact (Token.issued_eq hissued).1 ▸ hg.tokens_below k hk
  · obtain ⟨k, hk, hissued⟩ := hold k' hk'
    have hfamily : k'.family = k.family := congrArg Holder.family (Token.issued_eq hissued).2.2
    exact hg.redeemed c hc k hk (heq.trans hfamily)

/-- Issuing tokens. -/
theorem insertTokens_grows : Grows db (db.insertTokens h ttl now) where
  codes c hc := ⟨c, hc, rfl, id⟩
  tokens k hk := ⟨k, mem_append_left _ hk, rfl, id⟩
  families f hf := ⟨f, hf, rfl, id⟩
  old_codes c hc := Or.inl ⟨c, hc, rfl⟩
  old_tokens k hk := by
    rcases List.mem_append.1 hk with hold | hnew
    · exact Or.inl ⟨k, hold, rfl⟩
    · refine Or.inr ?_
      rcases List.mem_pair.1 hnew with rfl | rfl
      · exact le_rfl
      · exact le_succ _
  drawn := Nat.le_add_right _ 2

theorem Grants.insertTokens (hg : Grants db) (hfamily : ∃ f ∈ db.families, f.family = h.family)
    (hagree : ∀ h', db.Held h' → h'.family = h.family → h' = h)
    (hredeemed : ∀ c ∈ db.codes, c.family = h.family →
      c.consumedAt ≠ none ∧ ascii c.codeChallenge = true) : Grants (db.insertTokens h ttl now) := by
  have hnew : ∀ k ∈ (db.insertTokens h ttl now).tokens, k ∈ db.tokens ∨
      k.holder = h ∧ (k.token = db.drawn ∨ k.token = db.drawn + 1) := fun k hk => by
    rcases List.mem_append.1 hk with hold | hlast
    · exact Or.inl hold
    · rcases List.mem_pair.1 hlast with rfl | rfl
      · exact Or.inr ⟨rfl, Or.inl rfl⟩
      · exact Or.inr ⟨rfl, Or.inr rfl⟩
  have hheld : ∀ h', (db.insertTokens h ttl now).Held h' → db.Held h' ∨ h' = h := by
    rintro h' (hc | ⟨k, hk, rfl⟩)
    · exact Or.inl (Or.inl hc)
    · rcases hnew k hk with hold | ⟨hholder, -⟩
      · exact Or.inl (Or.inr ⟨k, hold, rfl⟩)
      · exact Or.inr hholder
  refine ⟨hg.codes_nodup, ?_, hg.families_nodup,
    fun c hc => (hg.codes_below c hc).trans (by simp [Db.insertTokens]),
    fun k hk => ?_, fun f hf => (hg.families_below f hf).trans (by simp [Db.insertTokens]), hg.past,
    fun h' hh' => ?_, fun h₁ h₂ hh₁ hh₂ heq => ?_, hg.one_code, fun c hc k hk heq => ?_⟩
  · show ((db.tokens ++ [h.token db.drawn .access (now + ttl),
      h.token (db.drawn + 1) .refresh (now + refreshTtl)]).map Token.token).Nodup
    rw [map_append, nodup_append]
    refine ⟨hg.tokens_nodup, by simp [Holder.token], fun a ha b hb hab => ?_⟩
    obtain ⟨k, hk, rfl⟩ := List.mem_map.1 ha
    have hlt := hg.tokens_below k hk
    have hb' : b = db.drawn ∨ b = db.drawn + 1 := by simpa [Holder.token] using hb
    omega
  · have hdrawn : (db.insertTokens h ttl now).drawn = db.drawn + 2 := rfl
    rcases hnew k hk with hold | ⟨-, heq | heq⟩
    · have hlt := hg.tokens_below k hold
      omega
    · omega
    · omega
  · rcases hheld h' hh' with hold | rfl
    · exact hg.family_mem h' hold
    · exact hfamily
  · rcases hheld h₁ hh₁ with hold₁ | rfl
    · rcases hheld h₂ hh₂ with hold₂ | rfl
      · exact hg.agree h₁ h₂ hold₁ hold₂ heq
      · exact hagree h₁ hold₁ heq
    · rcases hheld h₂ hh₂ with hold₂ | rfl
      · exact (hagree h₂ hold₂ heq.symm).symm
      · rfl
  · rcases hnew k hk with hold | ⟨hholder, -⟩
    · exact hg.redeemed c hc k hold heq
    · exact hredeemed c hc (heq.trans (congrArg Holder.family hholder))

/-- Minting a code. -/
theorem mint_grows : Grows db (db.mint grant userId now) where
  codes c hc := ⟨c, mem_append_left _ hc, rfl, id⟩
  tokens k hk := ⟨k, hk, rfl, id⟩
  families f hf := ⟨f, mem_append_left _ hf, rfl, id⟩
  old_codes c hc := by
    rcases List.mem_append.1 hc with hold | hnew
    · exact Or.inl ⟨c, hold, rfl⟩
    · obtain rfl := List.mem_singleton.1 hnew
      exact Or.inr ⟨le_rfl, le_succ _⟩
  old_tokens k hk := Or.inl ⟨k, hk, rfl⟩
  drawn := Nat.le_add_right _ 2

/-- A credential that was taken has a number that was drawn. -/
theorem Grants.spent_below (hg : Grants db) {x : Credential} (hx : db.Spent x) :
    x.number < db.drawn := by
  cases x with
  | code n =>
      obtain ⟨c, hc, rfl, -⟩ := hx
      exact hg.codes_below c hc
  | refresh n =>
      obtain ⟨k, hk, rfl, -⟩ := hx
      exact hg.tokens_below k hk

/-- A family that is in use has a number that was drawn. -/
theorem Grants.held_below (hg : Grants db) (hh : db.Held h) : h.family < db.drawn := by
  obtain ⟨f, hf, hfamily⟩ := hg.family_mem h hh
  exact hfamily ▸ hg.families_below f hf

/-- The families with a new one. -/
theorem Grants.concat_family (hg : Grants db) {family : ℕ} (hfresh : db.drawn ≤ family) :
    ((db.families ++ [Family.mk family none]).map Family.family).Nodup ∧
      ∀ f ∈ db.families ++ [Family.mk family none], ∀ now, f.revokedAt = some now → 0 < now := by
  constructor
  · rw [map_append, nodup_append]
    refine ⟨hg.families_nodup, nodup_singleton _, fun a ha b hb hab => ?_⟩
    obtain ⟨f, hf, rfl⟩ := List.mem_map.1 ha
    have hlt := hg.families_below f hf
    have hb' : b = family := by simpa using hb
    omega
  · intro f hf now hnow
    rcases List.mem_append.1 hf with hold | hlast
    · exact hg.past f hold now hnow
    · obtain rfl := List.mem_singleton.1 hlast
      cases hnow

theorem Grants.mint (hg : Grants db) : Grants (db.mint grant userId now) := by
  have hdrawn : (db.mint grant userId now).drawn = db.drawn + 2 := rfl
  have hnew : ∀ c ∈ (db.mint grant userId now).codes, c ∈ db.codes ∨
      c.code = db.drawn ∧ c.family = db.drawn + 1 := fun c hc => by
    rcases List.mem_append.1 hc with hold | hlast
    · exact Or.inl hold
    · obtain rfl := List.mem_singleton.1 hlast
      exact Or.inr ⟨rfl, rfl⟩
  have hlast : ∀ c ∈ (db.mint grant userId now).codes, ∀ c' ∈ (db.mint grant userId now).codes,
      c.family = db.drawn + 1 → c'.family = db.drawn + 1 → c = c' := by
    have hone : ∀ c ∈ (db.mint grant userId now).codes, c.family = db.drawn + 1 →
        some c = (db.mint grant userId now).codes.getLast? := fun c hc hf => by
      rcases List.mem_append.1 hc with hold | hlast
      · have hlt := hg.held_below (Or.inl ⟨c, hold, rfl⟩)
        have hfam : c.holder.family = c.family := rfl
        omega
      · unfold Db.mint
        dsimp only
        rw [List.getLast?_concat, List.mem_singleton.1 hlast]
    exact fun c hc c' hc' hf hf' =>
      Option.some.inj ((hone c hc hf).trans (hone c' hc' hf').symm)
  have hheld : ∀ h, (db.mint grant userId now).Held h → db.Held h ∨
      h = ⟨db.drawn + 1, grant.clientId, userId, grant.scope, grant.resource⟩ := by
    rintro h (⟨c, hc, rfl⟩ | hk)
    · rcases List.mem_append.1 hc with hold | hlast
      · exact Or.inl (Or.inl ⟨c, hold, rfl⟩)
      · obtain rfl := List.mem_singleton.1 hlast
        exact Or.inr rfl
    · exact Or.inl (Or.inr hk)
  refine ⟨?_, hg.tokens_nodup, ?_, fun c hc => ?_, fun k hk => ?_, fun f hf => ?_,
    fun f hf r hr => ?_, fun h hh => ?_, fun h h' hh hh' heq => ?_, fun c hc c' hc' heq => ?_,
    fun c hc k hk heq => ?_⟩
  · unfold Db.mint
    dsimp only
    rw [map_append, nodup_append]
    refine ⟨hg.codes_nodup, nodup_singleton _, fun a ha b hb hab => ?_⟩
    obtain ⟨c, hc, rfl⟩ := List.mem_map.1 ha
    have hlt := hg.codes_below c hc
    have hb' : b = db.drawn := by simpa using hb
    omega
  · exact (hg.concat_family (le_succ _)).1
  · rcases hnew c hc with hold | ⟨hcode, -⟩
    · have hlt := hg.codes_below c hold
      omega
    · omega
  · have hlt := hg.tokens_below k hk
    omega
  · rcases List.mem_append.1 hf with hold | hlast
    · have hlt := hg.families_below f hold
      omega
    · obtain rfl := List.mem_singleton.1 hlast
      rw [hdrawn]
      exact lt_succ_self _
  · exact (hg.concat_family (le_succ _)).2 f hf r hr
  · rcases hheld h hh with hold | rfl
    · obtain ⟨f, hf, heq⟩ := hg.family_mem h hold
      exact ⟨f, mem_append_left _ hf, heq⟩
    · exact ⟨_, mem_append_right _ (mem_singleton_self _), rfl⟩
  · rcases hheld h hh with hold | rfl
    · have hlt := hg.held_below hold
      rcases hheld h' hh' with hold' | rfl
      · exact hg.agree h h' hold hold' heq
      · simp only at heq
        omega
    · rcases hheld h' hh' with hold' | rfl
      · have hlt := hg.held_below hold'
        simp only at heq
        omega
      · rfl
  · rcases hnew c hc with hold | ⟨-, hfamily⟩
    · rcases hnew c' hc' with hold' | ⟨-, hfamily'⟩
      · exact hg.one_code c hold c' hold' heq
      · exact hlast c hc c' hc' (heq.trans hfamily') hfamily'
    · exact hlast c hc c' hc' hfamily (heq.symm.trans hfamily)
  · rcases hnew c hc with hold | ⟨-, hfamily⟩
    · exact hg.redeemed c hold k hk heq
    · have hlt := hg.held_below (Or.inr ⟨k, hk, rfl⟩)
      have hfam : k.holder.family = k.family := rfl
      omega

/-- A family of its own. -/
def Db.newFamily (db : Db) : Db :=
  { db with families := db.families ++ [{ family := db.drawn }], drawn := db.drawn + 1 }

theorem newFamily_grows : Grows db db.newFamily where
  codes c hc := ⟨c, hc, rfl, id⟩
  tokens k hk := ⟨k, hk, rfl, id⟩
  families f hf := ⟨f, mem_append_left _ hf, rfl, id⟩
  old_codes c hc := Or.inl ⟨c, hc, rfl⟩
  old_tokens k hk := Or.inl ⟨k, hk, rfl⟩
  drawn := le_succ _

theorem Grants.newFamily (hg : Grants db) : Grants db.newFamily := by
  refine ⟨hg.codes_nodup, hg.tokens_nodup, ?_,
    fun c hc => (hg.codes_below c hc).trans (lt_succ_self _), fun k hk => (hg.tokens_below k hk).trans (lt_succ_self _), fun f hf => ?_,
    fun f hf r hr => ?_, fun h hh => ?_, hg.agree, hg.one_code, hg.redeemed⟩
  · exact (hg.concat_family le_rfl).1
  · rcases List.mem_append.1 hf with hold | hlast
    · exact (hg.families_below f hold).trans (lt_succ_self _)
    · obtain rfl := List.mem_singleton.1 hlast
      exact lt_succ_self _
  · exact (hg.concat_family le_rfl).2 f hf r hr
  · obtain ⟨f, hf, heq⟩ := hg.family_mem h hh
    exact ⟨f, mem_append_left _ hf, heq⟩

end Updates

end ArchHub.Mcp

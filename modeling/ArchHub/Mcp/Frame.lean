import ArchHub.Mcp.Service

/-!
# What leaves the grants alone

Codes, tokens and families are written by the last step of an authorization, by the token
endpoint and by the founder's bearer only.  `SameGrants` is what every other step keeps.
-/

namespace ArchHub.Mcp

open Lib Service

/-- The codes, the tokens and the families are the same, and no value was drawn twice. -/
structure SameGrants (db t : Db) : Prop where
  codes : t.codes = db.codes
  tokens : t.tokens = db.tokens
  families : t.families = db.families
  drawn : db.drawn ≤ t.drawn

namespace SameGrants

variable {db t u : Db}

theorem refl (db : Db) : SameGrants db db := ⟨rfl, rfl, rfl, le_rfl⟩

theorem trans (h : SameGrants db t) (h' : SameGrants t u) : SameGrants db u :=
  ⟨h'.codes.trans h.codes, h'.tokens.trans h.tokens, h'.families.trans h.families,
    h.drawn.trans h'.drawn⟩

theorem tombstone (row : Pending) : SameGrants db (db.tombstone row) := ⟨rfl, rfl, rfl, le_rfl⟩

theorem endPending (id : ℕ) : SameGrants db (db.endPending id) := ⟨rfl, rfl, rfl, le_rfl⟩

theorem endExpired (now : ℤ) (rows : List Pending) : SameGrants db (db.endExpired now rows) := by
  have hrows : SameGrants db (rows.foldl Db.tombstone db) :=
    foldl_keeps (fun row _ s hs => hs.trans (tombstone row)) (refl db)
  exact ⟨hrows.codes, hrows.tokens, hrows.families, hrows.drawn⟩

theorem evictOldest {p : Pending → Bool} (h : db.evictOldest p = some t) : SameGrants db t := by
  unfold Db.evictOldest at h
  split at h
  · cases h
  · cases h
    exact (tombstone _).trans (endPending _)

theorem makeRoom (cs : List ((Pending → Bool) × ℕ)) : SameGrants db (makeRoom cs db).1 := by
  induction cs generalizing db with
  | nil => exact refl db
  | cons c cs ih =>
      unfold Mcp.makeRoom
      split
      · exact ih
      · split
        · exact refl db
        · rename_i u hu
          exact (evictOldest hu).trans ih

theorem file (cfg : Config) (f : Filing) (now : ℤ) : SameGrants db (file cfg f now db).1 := by
  unfold Mcp.file
  split
  · exact refl db
  · dsimp only
    have hroom : SameGrants db (Mcp.makeRoom (ceilings cfg f db) db).1 := makeRoom _
    split
    · exact hroom.trans ⟨rfl, rfl, rfl, Nat.le_add_right _ 3⟩
    · exact hroom

theorem register (q : RegisterArgs) (drop : Option ClientId) (now : ℤ) :
    SameGrants db (register q drop now db).1 := by
  cases drop with
  | none => exact ⟨rfl, rfl, rfl, Nat.le_succ _⟩
  | some c => exact ⟨rfl, rfl, rfl, Nat.le_succ _⟩

theorem insertClient (c : Client) : SameGrants db (db.insertClient c) := by
  unfold Db.insertClient
  split
  · exact refl db
  · exact ⟨rfl, rfl, rfl, le_rfl⟩

theorem evictVerified (email : String) (id : ℕ) (turns : ℕ) :
    SameGrants db (evictVerified email id turns db) := by
  induction turns generalizing db with
  | zero => exact refl db
  | succ turns ih =>
      unfold Mcp.evictVerified
      split
      · exact refl db
      · split
        · exact refl db
        · rename_i u hu
          exact (evictOldest hu).trans ih

theorem verified {pending secret : ℕ} {email : String} {cookie : Option Cookie} {now : ℤ}
    (h : verified pending email cookie now db = some (t, secret)) : SameGrants db t := by
  unfold Mcp.verified verify at h
  obtain ⟨browser, -, h⟩ := Option.bind_eq_some_iff.1 h
  split at h
  · cases h
  · split at h
    · cases h
      have hset : SameGrants db (db.setVerified pending email) := ⟨rfl, rfl, rfl, Nat.le_succ _⟩
      exact hset.trans (evictVerified email pending _)
    · cases h

theorem spend (row : Pending) (now : ℤ) : SameGrants db (spend row now db).1 := by
  unfold Mcp.spend
  dsimp only
  split
  · exact (tombstone row).trans (endPending _)
  · exact endPending _

end SameGrants

/-! ## The endpoints that leave the grants alone -/

variable {cfg : Config} {p : Phase} {i : Reading} {db : Db}

theorem registerStep_same (q : RegisterArgs) : SameGrants db (registerStep cfg q p i db).1 := by
  cases p with
  | called =>
      unfold registerStep
      dsimp only
      split
      · exact .refl db
      · split <;> exact .refl db
  | choosing =>
      unfold registerStep
      dsimp only
      split <;> exact .refl db
  | registering drop => exact .register q drop i.now
  | _ => exact .refl db

theorem authorizeStep_same (q : AuthorizeArgs) : SameGrants db (authorizeStep cfg q p i db).1 := by
  cases p with
  | called =>
      unfold authorizeStep
      dsimp only
      split <;> exact .refl db
  | document uris name =>
      unfold authorizeStep
      dsimp only
      split <;> exact .insertClient _
  | sweeping f now rows => exact (SameGrants.endExpired now rows).trans (.file cfg f i.now)
  | _ => exact .refl db

theorem consentStep_same (q : ConsentArgs) : SameGrants db (consentStep cfg q p i db).1 := by
  cases p with
  | called =>
      unfold consentStep
      dsimp only
      split <;> exact .refl db
  | deny row => exact .endPending _
  | approve row =>
      unfold consentStep
      dsimp only
      split
      · split
        · exact ⟨rfl, rfl, rfl, le_rfl⟩
        · split <;> exact ⟨rfl, rfl, rfl, le_rfl⟩
      · exact .refl db
  | minutes pending =>
      unfold consentStep
      dsimp only
      split <;> exact .refl db
  | linking pending expires addresses sent =>
      cases addresses with
      | nil =>
          unfold consentStep
          dsimp only
          split <;> exact .refl db
      | cons address rest => exact ⟨rfl, rfl, rfl, Nat.le_succ _⟩
  | _ => exact .refl db

theorem googleStep_same (q : GoogleArgs) : SameGrants db (googleStep cfg q p i db).1 := by
  cases p with
  | called =>
      unfold googleStep
      dsimp only
      split
      · rename_i h
        exact .verified h
      · exact .refl db
  | _ => exact .refl db

theorem emailLinkStep_same (q : LinkArgs) : SameGrants db (emailLinkStep cfg q p i db).1 := by
  cases p with
  | called =>
      unfold emailLinkStep
      dsimp only
      split <;> exact .refl db
  | opened link =>
      unfold emailLinkStep
      dsimp only
      split
      · exact ⟨rfl, rfl, rfl, le_rfl⟩
      · split <;> exact ⟨rfl, rfl, rfl, le_rfl⟩
  | proved link =>
      unfold emailLinkStep
      dsimp only
      split
      · rename_i h
        exact .verified h
      · exact .refl db
  | _ => exact .refl db

theorem accessStep_same (token : ℕ) : SameGrants db (accessStep cfg token p i db).1 := by
  cases p with
  | called =>
      unfold accessStep
      dsimp only
      split <;> exact .refl db
  | _ => exact .refl db

/-- Every step of `/oauth/continue` but the last one. -/
theorem continueStep_same (q : ContinueArgs) (h : ∀ row u, p ≠ .minting row u) :
    SameGrants db (continueStep cfg q p i db).1 := by
  cases p with
  | called =>
      unfold continueStep
      dsimp only
      split <;> exact .refl db
  | spending row => exact .spend row i.now
  | approving row userId => exact ⟨rfl, rfl, rfl, le_rfl⟩
  | minting row userId => exact absurd rfl (h row userId)
  | _ => exact .refl db

end ArchHub.Mcp

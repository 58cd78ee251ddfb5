import ArchHub.Lib.Trim
import ArchHub.Mcp.Frame

/-!
# What a step does to the pending requests

A step takes requests away, or files one, approves one or verifies one, and no more than one of
these.  `Fewer` is what all the others keep.
-/

namespace ArchHub.Mcp

open Lib Service

/-! ## Tombstones -/

section Tombstones

variable {db : Db}

theorem trimEnded_eq (ended : List Ended) :
    trimEnded ended = Rows.trim Ended.id Ended.expiresAt maxEnded ended := by
  unfold trimEnded Rows.trim
  rfl

theorem ended_tombstone (db : Db) (row : Pending) :
    (db.tombstone row).ended = Rows.enter Ended.id Ended.expiresAt maxEnded row.ended db.ended := by
  unfold Db.tombstone Rows.enter
  rw [trimEnded_eq]
  rfl

theorem nodup_tombstone (hnodup : (db.ended.map Ended.id).Nodup) (row : Pending) :
    ((db.tombstone row).ended.map Ended.id).Nodup := by
  rw [ended_tombstone]
  exact Rows.nodup_enter hnodup

end Tombstones

/-! ## Requests that end -/

/-- No approval of a client is lost. -/
def Approving (db t : Db) : Prop :=
  ∀ a ∈ db.approvals, ∃ b ∈ t.approvals, b.userId = a.userId ∧ b.clientId = a.clientId

/-- The requests that are pending were pending before, as they are.  There is one tombstone of
a request at most. -/
structure Fewer (db t : Db) : Prop where
  pending : t.pending.Sublist db.pending
  drawn : db.drawn ≤ t.drawn
  approvals : Approving db t
  ended : (db.ended.map Ended.id).Nodup → (t.ended.map Ended.id).Nodup

/-- The requests that are pending are the same, and so are the tombstones. -/
structure Calm (db t : Db) : Prop where
  pending : t.pending = db.pending
  drawn : db.drawn ≤ t.drawn
  approvals : Approving db t
  ended : t.ended = db.ended

namespace Calm

variable {db t u : Db}

theorem fewer (h : Calm db t) : Fewer db t :=
  ⟨h.pending ▸ List.Sublist.refl _, h.drawn, h.approvals, fun hnodup => h.ended ▸ hnodup⟩

theorem still (hpending : t.pending = db.pending) (happrovals : t.approvals = db.approvals)
    (hended : t.ended = db.ended) (hdrawn : db.drawn ≤ t.drawn) : Calm db t :=
  ⟨hpending, hdrawn, fun a ha => ⟨a, happrovals ▸ ha, rfl, rfl⟩, hended⟩

theorem refl (db : Db) : Calm db db := .still rfl rfl rfl le_rfl

theorem trans (h : Calm db t) (h' : Calm t u) : Calm db u where
  pending := h'.pending.trans h.pending
  drawn := h.drawn.trans h'.drawn
  approvals a ha := by
    obtain ⟨b, hb, huser, hclient⟩ := h.approvals a ha
    obtain ⟨c, hc, huser', hclient'⟩ := h'.approvals b hb
    exact ⟨c, hc, huser'.trans huser, hclient'.trans hclient⟩
  ended := h'.ended.trans h.ended

/-- An approval that is written. -/
theorem approve (userId : String) (clientId : ClientId) (now : ℤ) :
    Calm db (db.approve userId clientId now) where
  pending := rfl
  drawn := le_rfl
  approvals a ha := by
    unfold Db.approve
    dsimp only
    split
    · refine ⟨_, List.mem_map_of_mem ha, ?_⟩
      split <;> exact ⟨rfl, rfl⟩
    · exact ⟨a, List.mem_append_left _ ha, rfl, rfl⟩
  ended := rfl

end Calm

namespace Fewer

variable {db t u : Db}

/-- What leaves the requests, the approvals and the tombstones alone. -/
theorem still (hpending : t.pending = db.pending) (happrovals : t.approvals = db.approvals)
    (hended : t.ended = db.ended) (hdrawn : db.drawn ≤ t.drawn) : Fewer db t :=
  (Calm.still hpending happrovals hended hdrawn).fewer

theorem refl (db : Db) : Fewer db db := (Calm.refl db).fewer

theorem trans (h : Fewer db t) (h' : Fewer t u) : Fewer db u where
  pending := h'.pending.trans h.pending
  drawn := h.drawn.trans h'.drawn
  approvals a ha := by
    obtain ⟨b, hb, huser, hclient⟩ := h.approvals a ha
    obtain ⟨c, hc, huser', hclient'⟩ := h'.approvals b hb
    exact ⟨c, hc, huser'.trans huser, hclient'.trans hclient⟩
  ended := h'.ended ∘ h.ended

/-- Those that are not pending stay so. -/
theorem gone (h : Fewer db t) {id : ℕ} (hnone : ∀ x ∈ db.pending, x.id ≠ id) :
    ∀ x ∈ t.pending, x.id ≠ id := fun x hx => hnone x (h.pending.subset hx)

theorem tombstone (row : Pending) : Fewer db (db.tombstone row) :=
  ⟨List.Sublist.refl _, le_rfl, (fun a ha => ⟨a, ha, rfl, rfl⟩), fun h => nodup_tombstone h row⟩

theorem endPending (id : ℕ) : Fewer db (db.endPending id) :=
  ⟨List.filter_sublist, le_rfl, (fun a ha => ⟨a, ha, rfl, rfl⟩), fun h => h⟩

end Fewer

section Ending

variable {db t : Db} {p : Pending → Bool}

/-- Tombstones change no pending request. -/
theorem pending_tombstones (db : Db) (rows : List Pending) :
    (rows.foldl Db.tombstone db).pending = db.pending ∧
      (rows.foldl Db.tombstone db).drawn = db.drawn ∧
      (rows.foldl Db.tombstone db).approvals = db.approvals := by
  induction rows generalizing db with
  | nil => exact ⟨rfl, rfl, rfl⟩
  | cons row rows ih => exact ih (db.tombstone row)

/-- The requests that a sweep leaves. -/
theorem pending_endExpired (now : ℤ) (rows : List Pending) :
    (db.endExpired now rows).pending = db.pending.filter fun r => ¬r.expiresAt < now := by
  unfold Db.endExpired
  dsimp only
  rw [(pending_tombstones db rows).1]

theorem Fewer.endExpired (now : ℤ) (rows : List Pending) : Fewer db (db.endExpired now rows) where
  pending := by
    rw [pending_endExpired]
    exact List.filter_sublist
  drawn := (pending_tombstones db rows).2.1.ge
  approvals a ha := ⟨a, (pending_tombstones db rows).2.2 ▸ ha, rfl, rfl⟩
  ended h := by
    let Inv (s : Db) : Prop := (s.ended.map Ended.id).Nodup
    have hrows : Inv (rows.foldl Db.tombstone db) :=
      foldl_keeps (fun row _ s (hs : Inv s) => nodup_tombstone hs row) h
    exact hrows.sublist (List.filter_sublist.map _)

/-- Making room ends one of the requests that are counted. -/
theorem evictOldest_eq (h : db.evictOldest p = some t) :
    ∃ row ∈ db.pending, p row = true ∧ t = (db.tombstone row).endPending row.id := by
  unfold Db.evictOldest at h
  split at h
  · cases h
  · rename_i row rest hrows
    have hmem : row ∈ db.pending.filter p := by
      rw [← (Rows.perm_orderBy Db.eviction (db.pending.filter p)).mem_iff, hrows]
      exact List.mem_cons_self
    obtain ⟨hrow, hp⟩ := List.mem_filter.1 hmem
    exact ⟨row, hrow, hp, (Option.some.inj h).symm⟩

theorem Fewer.evictOldest (h : db.evictOldest p = some t) : Fewer db t := by
  obtain ⟨row, -, -, rfl⟩ := evictOldest_eq h
  exact (Fewer.tombstone row).trans (.endPending _)

theorem Fewer.makeRoom (cs : List ((Pending → Bool) × ℕ)) : Fewer db (makeRoom cs db).1 := by
  induction cs generalizing db with
  | nil => exact .refl db
  | cons c cs ih =>
      unfold Mcp.makeRoom
      split
      · exact ih
      · split
        · exact .refl db
        · rename_i u hu
          exact (Fewer.evictOldest hu).trans ih

theorem Fewer.evictVerified (email : String) (id turns : ℕ) :
    Fewer db (evictVerified email id turns db) := by
  induction turns generalizing db with
  | zero => exact .refl db
  | succ turns ih =>
      unfold Mcp.evictVerified
      split
      · exact .refl db
      · split
        · exact .refl db
        · rename_i u hu
          exact (Fewer.evictOldest hu).trans ih

theorem Fewer.spend (row : Pending) (now : ℤ) : Fewer db (spend row now db).1 := by
  unfold Mcp.spend
  dsimp only
  split
  · exact (Fewer.tombstone row).trans (.endPending _)
  · exact .endPending _

/-- A request is taken if it is still there. -/
theorem taken_spend (row : Pending) (now : ℤ) :
    (Mcp.spend row now db).2 = (Rows.select Pending.id row.id db.pending).isSome := by
  unfold Mcp.spend
  dsimp only
  split <;> rfl

theorem Fewer.register (q : RegisterArgs) (drop : Option ClientId) (now : ℤ) :
    Fewer db (register q drop now db).1 := by
  cases drop with
  | none => exact .still rfl rfl rfl (Nat.le_succ _)
  | some c => exact ⟨List.filter_sublist, Nat.le_succ _, (fun a ha => ⟨a, ha, rfl, rfl⟩), id⟩

theorem Calm.insertClient (c : Client) : Calm db (db.insertClient c) := by
  unfold Db.insertClient
  split
  · exact .refl db
  · exact .still rfl rfl rfl le_rfl

theorem Calm.revoke (family : ℕ) (now : ℤ) : Calm db (db.revoke family now) :=
  .still rfl rfl rfl le_rfl

theorem Calm.issue (h : Holder) (ttl : ℤ) (i : Reading) : Calm db (issue h ttl i db).1 := by
  unfold Mcp.issue
  split
  · exact .still rfl rfl rfl (Nat.le_add_right _ 2)
  · exact .revoke h.family i.now

theorem Calm.redeem (cfg : Config) (q : Redemption) (grant : Code) (now : ℤ) (i : Reading) :
    Calm db (redeem cfg q grant now i db).1 := by
  have htaken : Calm db (db.consumeCode q.code now) := .still rfl rfl rfl le_rfl
  unfold Mcp.redeem
  split
  · dsimp only
    split
    · exact htaken
    · split
      · exact .refl db
      · exact htaken
      · exact htaken.trans (.issue _ _ i)
  · exact .revoke grant.family i.now

theorem Calm.refresh (token : ℕ) (clientId : ClientId) (held : Token) (now : ℤ) (i : Reading) :
    Calm db (refresh token clientId held now i db).1 := by
  have htaken : Calm db (db.consumeToken token now) := .still rfl rfl rfl le_rfl
  unfold Mcp.refresh
  split
  · dsimp only
    split
    · exact htaken
    · exact htaken.trans (.issue _ _ i)
  · exact .revoke held.family i.now

theorem Calm.bearer (cfg : Config) (userId : String) (i : Reading) :
    Calm db (bearer cfg userId i db).1 := by
  unfold Mcp.bearer
  dsimp only
  have hclient : Calm db (db.insertClient ⟨xaiClientId, [], "xAI", i.now⟩) := .insertClient _
  generalize db.insertClient ⟨xaiClientId, [], "xAI", i.now⟩ = u at hclient ⊢
  have hfamily : Calm u
      { u with families := u.families ++ [{ family := u.drawn }], drawn := u.drawn + 1 } :=
    .still rfl rfl rfl (Nat.le_succ _)
  exact hclient.trans (hfamily.trans (.issue _ _ i))

end Ending

/-! ## The endpoints -/

variable {cookie : Option Cookie}

section Endpoints

variable {cfg : Config} {p : Phase} {i : Reading} {db : Db}

/-- `/oauth/register` ends requests only where it drops a client. -/
theorem registerStep_calm (q : RegisterArgs) (h : ∀ c, p ≠ .registering (some c)) :
    Calm db (registerStep cfg q p i db).1 := by
  cases p with
  | called =>
      unfold registerStep
      dsimp only
      split
      · exact .refl db
      · split <;> exact .refl db
  | choosing =>
      unfold registerStep
      dsimp only
      split <;> exact .refl db
  | registering drop =>
      cases drop with
      | none => exact .still rfl rfl rfl (Nat.le_succ _)
      | some c => exact absurd rfl (h c)
  | _ => exact .refl db

theorem tokenStep_calm (q : TokenArgs) : Calm db (tokenStep cfg q p i db).1 := by
  cases q with
  | authorizationCode n redirectUri clientId verifier resource =>
      cases p with
      | called =>
          unfold tokenStep
          dsimp only
          split
          · exact .refl db
          · split <;> exact .refl db
      | redeeming grant now => exact .redeem cfg _ grant now i
      | _ => exact .refl db
  | refreshToken n clientId resource =>
      cases p with
      | called =>
          unfold tokenStep
          dsimp only
          split
          · exact .refl db
          · split <;> exact .refl db
      | refreshing held now => exact .refresh n clientId held now i
      | _ => exact .refl db
  | other resource =>
      cases p with
      | called =>
          unfold tokenStep
          dsimp only
          split <;> exact .refl db
      | _ => exact .refl db

theorem accessStep_calm (token : ℕ) : Calm db (accessStep cfg token p i db).1 := by
  cases p with
  | called =>
      unfold accessStep
      dsimp only
      split <;> exact .refl db
  | _ => exact .refl db

/-- `/oauth/authorize` files a request in its last step only. -/
theorem authorizeStep_calm (q : AuthorizeArgs) (h : ∀ f now rows, p ≠ .sweeping f now rows) :
    Calm db (authorizeStep cfg q p i db).1 := by
  cases p with
  | called =>
      unfold authorizeStep
      dsimp only
      split <;> exact .refl db
  | document uris name =>
      unfold authorizeStep
      dsimp only
      split <;> exact .insertClient _
  | sweeping f now rows => exact absurd rfl (h f now rows)
  | _ => exact .refl db

/-- Filing a request: there was no room, or it is the last one then. -/
theorem file_cases (cfg : Config) (f : Filing) (now : ℤ) (db : Db) :
    (Fewer db (file cfg f now db).1 ∧ (file cfg f now db).2 = tooMany) ∨
      ∃ u, Fewer db u ∧ SameGrants db u ∧ file cfg f now db = f.insert cfg now u := by
  unfold file
  split
  · exact Or.inl ⟨.refl db, rfl⟩
  · dsimp only
    have hfewer : Fewer db (makeRoom (ceilings cfg f db) db).1 := .makeRoom _
    have hsame : SameGrants db (makeRoom (ceilings cfg f db) db).1 := .makeRoom _
    split
    · exact Or.inr ⟨_, hfewer, hsame, rfl⟩
    · exact Or.inl ⟨hfewer, rfl⟩

/-- `/oauth/consent` writes to the requests in two steps only. -/
theorem consentStep_calm (q : ConsentArgs) (h : ∀ row, p ≠ .approve row)
    (h' : ∀ row, p ≠ .deny row) :
    Calm db (consentStep cfg q p i db).1 := by
  cases p with
  | called =>
      unfold consentStep
      dsimp only
      split <;> exact .refl db
  | deny row => exact absurd rfl (h' row)
  | approve row => exact absurd rfl (h row)
  | minutes pending =>
      unfold consentStep
      dsimp only
      split <;> exact .refl db
  | linking pending expires addresses sent =>
      cases addresses with
      | nil =>
          unfold consentStep
          dsimp only
          split <;> exact .refl db
      | cons address rest => exact .still rfl rfl rfl (Nat.le_succ _)
  | _ => exact .refl db

/-- The cookie is the one that was set for the request. -/
theorem thisBrowser_eq_some {pending browser : ℕ} :
    thisBrowser cookie pending = some browser ↔ cookie = some ⟨pending, browser⟩ := by
  unfold thisBrowser
  rw [Option.map_eq_some_iff]
  constructor
  · rintro ⟨c, hc, rfl⟩
    obtain ⟨hcookie, hheld⟩ := Option.filter_eq_some_iff.1 hc
    rw [hcookie, ← of_decide_eq_true hheld]
  · rintro rfl
    exact ⟨⟨pending, browser⟩, Option.filter_eq_some_iff.2 ⟨rfl, decide_eq_true rfl⟩, rfl⟩

/-- What verifying a request does. -/
theorem verified_eq {t : Db} {pending secret : ℕ} {email : String} {now : ℤ}
    (h : verified pending email cookie now db = some (t, secret)) :
    ∃ row, Rows.select Pending.id pending db.pending = some row ∧
      cookie = some ⟨pending, row.browser⟩ ∧ row.approved = true ∧ row.verifiedEmail = none ∧
      now ≤ row.expiresAt ∧ secret = db.drawn ∧ Fewer (db.setVerified pending email) t := by
  unfold verified at h
  obtain ⟨browser, hbrowser, hverify⟩ := Option.bind_eq_some_iff.1 h
  unfold verify at hverify
  split at hverify
  · cases hverify
  · rename_i row hrow
    split at hverify
    · rename_i hok
      cases hverify
      unfold verifiable at hok
      simp only [Bool.and_eq_true, decide_eq_true_eq, Option.isNone_iff_eq_none] at hok
      obtain ⟨⟨⟨rfl, happroved⟩, hnone⟩, hnow⟩ := hok
      exact ⟨row, hrow, thisBrowser_eq_some.1 hbrowser, happroved, hnone, hnow, rfl,
        .evictVerified _ _ _⟩
    · cases hverify

/-- Google's callback verifies in its first step only. -/
theorem googleStep_calm (q : GoogleArgs) (h : p ≠ .called) :
    Calm db (googleStep cfg q p i db).1 := by
  cases p with
  | called => exact absurd rfl h
  | _ => exact .refl db

/-- An opened link verifies in its last step only. -/
theorem emailLinkStep_calm (q : LinkArgs) (h : ∀ link, p ≠ .proved link) :
    Calm db (emailLinkStep cfg q p i db).1 := by
  cases p with
  | called =>
      unfold emailLinkStep
      dsimp only
      split <;> exact .refl db
  | opened link =>
      unfold emailLinkStep
      dsimp only
      split
      · exact .still rfl rfl rfl le_rfl
      · split <;> exact .still rfl rfl rfl le_rfl
  | proved link => exact absurd rfl (h link)
  | _ => exact .refl db

/-- `/oauth/continue` takes a request in one step only. -/
theorem continueStep_calm (q : ContinueArgs) (h : ∀ row, p ≠ .spending row) :
    Calm db (continueStep cfg q p i db).1 := by
  cases p with
  | called =>
      unfold continueStep
      dsimp only
      split <;> exact .refl db
  | spending row => exact absurd rfl (h row)
  | approving row userId => exact .approve userId row.clientId i.now
  | minting row userId => exact .still rfl rfl rfl (Nat.le_add_right _ 2)
  | _ => exact .refl db

end Endpoints

end ArchHub.Mcp

import ArchHub.Mcp.Flow
import ArchHub.Mcp.Lanes

/-!
# Pending requests in order

What one step does to the pending requests (`Effect`), what every run keeps of them (`Orderly`),
and what a request goes by that read a row of theirs (`Carries`).
-/

namespace ArchHub.Mcp

open Lib Service

/-! ## What a step does to the requests -/

/-- The tables after a step. -/
inductive Effect (cfg : Config) (db : Db) : Db → Prop
  | fewer {t : Db} (h : Fewer db t) : Effect cfg db t
  | filed {u : Db} (f : Filing) (now : ℤ) (h : Fewer db u) : Effect cfg db (file cfg f now u).1
  | approved (id : ℕ) : Effect cfg db { db with
      pending := Rows.update Pending.id id (fun r => { r with approved := true }) db.pending }
  | verified {t : Db} {row : Pending} {email : String} (hrow : row ∈ db.pending)
      (hnone : row.verifiedEmail = none) (h : Fewer (db.setVerified row.id email) t) : Effect cfg db t

section Effects

variable {cfg : Config} {db t : Db} {p : Phase} {i : Reading}

theorem Calm.effect (h : Calm db t) : Effect cfg db t := .fewer h.fewer

theorem verified_effect {pending secret : ℕ} {email : String} {cookie : Option Cookie} {now : ℤ}
    (h : verified pending email cookie now db = some (t, secret)) : Effect cfg db t := by
  obtain ⟨row, hselect, -, -, hnone, -, -, hfewer⟩ := verified_eq h
  obtain rfl := Rows.key_of_select hselect
  exact .verified (Rows.mem_of_select hselect) hnone hfewer

/-- **What any step does to the requests.** -/
theorem oauthStep_effect (cfg : Config) (r : Request) (p : Phase) (i : Reading) (db : Db) :
    Effect cfg db (oauthStep cfg r p i db).1 := by
  cases r with
  | register q =>
      cases p with
      | registering drop => exact .fewer (.register q drop i.now)
      | _ => exact (registerStep_calm q fun _ h => by cases h).effect
  | authorize q =>
      cases p with
      | sweeping f now rows => exact .filed f i.now (.endExpired now rows)
      | _ => exact (authorizeStep_calm q fun _ _ _ h => by cases h).effect
  | consent q =>
      cases p with
      | approve row =>
          show Effect cfg db (consentStep cfg q (.approve row) i db).1
          unfold consentStep
          dsimp only
          split
          · split
            · exact .approved q.pending
            · split <;> exact .approved q.pending
          · exact .fewer (.refl db)
      | deny row => exact .fewer (.endPending _)
      | _ => exact (consentStep_calm q (fun _ h => by cases h) fun _ h => by cases h).effect
  | google q =>
      cases p with
      | called =>
          show Effect cfg db (googleStep cfg q .called i db).1
          unfold googleStep
          dsimp only
          split
          · rename_i h
            exact verified_effect h
          · exact .fewer (.refl db)
      | _ => exact (googleStep_calm q fun h => by cases h).effect
  | emailLink q =>
      cases p with
      | proved link =>
          show Effect cfg db (emailLinkStep cfg q (.proved link) i db).1
          unfold emailLinkStep
          dsimp only
          split
          · rename_i h
            exact verified_effect h
          · exact .fewer (.refl db)
      | _ => exact (emailLinkStep_calm q fun _ h => by cases h).effect
  | continuation q =>
      cases p with
      | spending row => exact .fewer (.spend row i.now)
      | _ => exact (continueStep_calm q fun _ h => by cases h).effect
  | token q => exact (tokenStep_calm q).effect
  | bearer userId =>
      cases p with
      | called => exact (Calm.bearer cfg userId i).effect
      | _ => exact .fewer (.refl db)
  | access token => exact (accessStep_calm token).effect

/-- What every run keeps of the requests. -/
structure Orderly (cfg : Config) (db : Db) : Prop where
  ids : (db.pending.map Pending.id).Nodup
  below : ∀ x ∈ db.pending, x.id < db.drawn
  /-- Only a verified request has a value to continue. -/
  verified : ∀ x ∈ db.pending, x.continueSecret ≠ none → x.verifiedEmail ≠ none
  ended : (db.ended.map Ended.id).Nodup
  ceilings : Ceilings cfg db

theorem Orderly.fewer (h : Orderly cfg db) (hfewer : Fewer db t) : Orderly cfg t where
  ids := h.ids.sublist (hfewer.pending.map _)
  below x hx := (h.below x (hfewer.pending.subset hx)).trans_le hfewer.drawn
  verified x hx := h.verified x (hfewer.pending.subset hx)
  ended := hfewer.ended h.ended
  ceilings := h.ceilings.fewer hfewer

/-- A mark on a request. -/
theorem Orderly.update (h : Orderly cfg db) {id : ℕ} {g : Pending → Pending}
    (hpending : t.pending = Rows.update Pending.id id g db.pending)
    (happrovals : t.approvals = db.approvals) (hended : t.ended = db.ended)
    (hdrawn : db.drawn ≤ t.drawn)
    (hg : ∀ r, (g r).id = r.id ∧ (g r).lane = r.lane ∧ (g r).clientId = r.clientId ∧
      (g r).address = r.address ∧ (g r).network = r.network)
    (hverified : ∀ r, (r.continueSecret ≠ none → r.verifiedEmail ≠ none) →
      (g r).continueSecret ≠ none → (g r).verifiedEmail ≠ none) : Orderly cfg t := by
  have hmem : ∀ y ∈ t.pending, ∃ x ∈ db.pending, x.id = y.id ∧ (y = x ∨ y = g x) := fun y hy => by
    rw [hpending] at hy
    obtain ⟨x, hx, rfl⟩ := List.mem_map.1 hy
    refine ⟨x, hx, ?_⟩
    split
    · exact ⟨(hg x).1.symm, Or.inr rfl⟩
    · exact ⟨rfl, Or.inl rfl⟩
  refine ⟨?_, fun y hy => ?_, fun y hy => ?_, hended ▸ h.ended,
    h.ceilings.update hpending happrovals fun r => (hg r).2⟩
  · have hids : t.pending.map Pending.id = db.pending.map Pending.id := by
      rw [hpending, Rows.update, List.map_map]
      refine List.map_congr_left fun r _ => ?_
      rw [Function.comp_apply]
      split
      · exact (hg r).1
      · rfl
    exact hids ▸ h.ids
  · obtain ⟨x, hx, hid, -⟩ := hmem y hy
    exact hid ▸ (h.below x hx).trans_le hdrawn
  · obtain ⟨x, hx, -, rfl | rfl⟩ := hmem y hy
    · exact h.verified y hx
    · exact hverified x (h.verified x hx)

/-- The pending requests are those of before, marked perhaps, or new. -/
structure Aged (db t : Db) : Prop where
  drawn : db.drawn ≤ t.drawn
  rows : ∀ y ∈ t.pending, (∃ x ∈ db.pending, x.id = y.id ∧ x.csrf = y.csrf ∧ x.browser = y.browser ∧
    (x.continueSecret ≠ none → y.ended = x.ended)) ∨ db.drawn ≤ y.id

theorem Fewer.aged (h : Fewer db t) : Aged db t :=
  ⟨h.drawn, fun y hy => Or.inl ⟨y, h.pending.subset hy, rfl, rfl, rfl, fun _ => rfl⟩⟩

theorem Aged.fewer {u : Db} (h : Aged db t) (hfewer : Fewer t u) : Aged db u :=
  ⟨h.drawn.trans hfewer.drawn, fun y hy => h.rows y (hfewer.pending.subset hy)⟩

/-- What a request goes by between two steps: it read a row that may be there still. -/
def Carries (db : Db) (r : Sent) : Phase → Prop
  | .filing f => r.request = .authorize f.args
  | .sweeping f _ rows => r.request = .authorize f.args ∧ (rows.map Pending.id).Nodup
  | .deny _ => ∃ q, r.request = .consent q ∧ q.pending < db.drawn ∧
      ∀ x ∈ db.pending, x.id = q.pending → q.csrf = x.csrf ∧ q.cookie = some ⟨x.id, x.browser⟩
  | .spending row => ∃ q, r.request = .continuation q ∧ row.continueSecret = some q.secret ∧
      row.id < db.drawn ∧ ∀ x ∈ db.pending, x.id = row.id → x.ended = row.ended
  | _ => True

/-- It goes by the same when others have made a step. -/
theorem Carries.aged {r : Sent} (h : Carries db r p) (hold : Aged db t) : Carries t r p := by
  cases p with
  | deny row =>
      obtain ⟨q, hreq, hlt, hmine⟩ := h
      refine ⟨q, hreq, hlt.trans_le hold.drawn, fun y hy hid => ?_⟩
      rcases hold.rows y hy with ⟨x, hx, hxid, hcsrf, hbrowser, -⟩ | hnew
      · obtain ⟨hcsrf', hcookie⟩ := hmine x hx (hxid.trans hid)
        exact ⟨hcsrf'.trans hcsrf, by rw [hcookie, hxid, hbrowser]⟩
      · omega
  | spending row =>
      obtain ⟨q, hreq, hsecret, hlt, hmine⟩ := h
      refine ⟨q, hreq, hsecret, hlt.trans_le hold.drawn, fun y hy hid => ?_⟩
      rcases hold.rows y hy with ⟨x, hx, hxid, -, -, hended⟩ | hnew
      · have hx' := hmine x hx (hxid.trans hid)
        have hx'' : x.continueSecret = row.continueSecret := congrArg Ended.continueSecret hx'
        rw [hsecret] at hx''
        exact (hended (hx''.symm ▸ Option.some_ne_none _)).trans hx'
      · omega
  | _ => exact h

/-- **What any step keeps of the requests.** -/
theorem Orderly.effect (h : Orderly cfg db) (heffect : Effect cfg db t) :
    Orderly cfg t ∧ Aged db t := by
  cases heffect with
  | fewer hfewer => exact ⟨h.fewer hfewer, hfewer.aged⟩
  | @filed u f now hu =>
      have hbase := h.fewer hu
      have hceilings : Ceilings cfg (file cfg f now u).1 := hbase.ceilings.file
      rcases file_cases cfg f now u with ⟨hfewer, -⟩ | ⟨v, hfewer, -, heq⟩
      · exact ⟨hbase.fewer hfewer, (hu.trans hfewer).aged⟩
      · rw [heq] at hceilings ⊢
        have hv := hbase.fewer hfewer
        have hdrawn : db.drawn ≤ v.drawn := hu.drawn.trans hfewer.drawn
        have hmem : ∀ y ∈ (f.insert cfg now v).1.pending, y ∈ v.pending ∨ y = f.row cfg v.drawn now :=
          fun y hy => by
            rcases List.mem_append.1 hy with hold | hlast
            · exact Or.inl hold
            · exact Or.inr (List.mem_singleton.1 hlast)
        refine ⟨⟨?_, fun y hy => ?_, fun y hy => ?_, hv.ended, hceilings⟩,
          hdrawn.trans (Nat.le_add_right _ 3), fun y hy => ?_⟩
        · show ((v.pending ++ [f.row cfg v.drawn now]).map Pending.id).Nodup
          rw [List.map_append, List.nodup_append]
          refine ⟨hv.ids, List.nodup_singleton _, fun a ha b hb hab => ?_⟩
          obtain ⟨x, hx, rfl⟩ := List.mem_map.1 ha
          have hlt := hv.below x hx
          have hb' : b = v.drawn := List.mem_singleton.1 hb
          omega
        · rcases hmem y hy with hold | rfl
          · exact (hv.below y hold).trans_le (Nat.le_add_right _ 3)
          · exact Nat.lt_add_of_pos_right (by decide)
        · rcases hmem y hy with hold | rfl
          · exact hv.verified y hold
          · exact fun hne => absurd rfl hne
        · rcases hmem y hy with hold | rfl
          · exact (hu.trans hfewer).aged.rows y hold
          · exact Or.inr hdrawn
  | approved id =>
      refine ⟨h.update rfl rfl rfl le_rfl (fun _ => ⟨rfl, rfl, rfl, rfl, rfl⟩) fun _ hr => hr,
        le_rfl, fun y hy => Or.inl ?_⟩
      obtain ⟨x, hx, rfl⟩ := List.mem_map.1 hy
      refine ⟨x, hx, ?_⟩
      split <;> exact ⟨rfl, rfl, rfl, fun _ => rfl⟩
  | @verified _ row email hrow hnone hfewer =>
      have hset : Orderly cfg (db.setVerified row.id email) :=
        h.update rfl rfl rfl (Nat.le_succ _) (fun _ => ⟨rfl, rfl, rfl, rfl, rfl⟩)
          fun _ _ _ => Option.some_ne_none email
      refine ⟨hset.fewer hfewer, Aged.fewer ⟨Nat.le_succ _, fun y hy => Or.inl ?_⟩ hfewer⟩
      obtain ⟨x, hx, rfl⟩ := List.mem_map.1 hy
      refine ⟨x, hx, ?_⟩
      split
      · rename_i hid
        refine ⟨rfl, rfl, rfl, fun hsome => absurd hnone ?_⟩
        rw [← Rows.eq_of_key h.ids hx hrow hid]
        exact h.verified x hx hsome
      · exact ⟨rfl, rfl, rfl, fun _ => rfl⟩

end Effects

/-! ## What a request goes by next -/

section Next

variable {cfg : Config} {db : Db} {b : ℕ} {p next : Phase} {i : Reading}

/-- A request that does not get on goes by the same. -/
theorem Carries.stay {r : Sent} (h : Carries db r p) (hout : (.inl p : Phase ⊕ Answer) = .inl next) :
    Carries db r next := Sum.inl.inj hout ▸ h

theorem carries_authorize (h : Orderly cfg db) {q : AuthorizeArgs}
    (hc : Carries db ⟨b, .authorize q⟩ p) (hout : (authorizeStep cfg q p i db).2 = .inl next) :
    Carries (authorizeStep cfg q p i db).1 ⟨b, .authorize q⟩ next := by
  cases p with
  | called =>
      unfold authorizeStep at hout
      dsimp only at hout
      split at hout
      · obtain rfl := foundClient_filing hout
        rfl
      · obtain rfl := Sum.inl.inj hout
        trivial
      · cases hout
  | document uris name =>
      unfold authorizeStep at hout
      dsimp only at hout
      split at hout
      · obtain rfl := foundClient_filing hout
        rfl
      · cases hout
  | filing f =>
      obtain rfl := Sum.inl.inj hout
      exact ⟨hc, h.ids.sublist (List.filter_sublist.map _)⟩
  | sweeping f now rows => cases hout
  | _ => exact hc.stay hout

theorem carries_consent (h : Orderly cfg db) {q : ConsentArgs}
    (hc : Carries db ⟨b, .consent q⟩ p) (hout : (consentStep cfg q p i db).2 = .inl next) :
    Carries (consentStep cfg q p i db).1 ⟨b, .consent q⟩ next := by
  cases p with
  | called =>
      unfold consentStep at hout ⊢
      dsimp only at hout ⊢
      split at hout
      · cases hout
      · rename_i row hfound
        obtain ⟨hselect, hok⟩ := Option.filter_eq_some_iff.1 hfound
        unfold decidable at hok
        simp only [Bool.and_eq_true, decide_eq_true_eq] at hok
        obtain ⟨⟨-, hcsrf⟩, hbrowser⟩ := hok
        obtain rfl := Sum.inl.inj hout
        have hrow := Rows.mem_of_select hselect
        have hid := Rows.key_of_select hselect
        split
        · trivial
        · refine ⟨q, rfl, hid ▸ h.below row hrow, fun x hx hxid => ?_⟩
          obtain rfl := Rows.eq_of_key h.ids hx hrow (hxid.trans hid.symm)
          exact ⟨hcsrf.symm, by rw [thisBrowser_eq_some.1 hbrowser, hid]⟩
  | approve row =>
      unfold consentStep at hout
      dsimp only at hout
      split at hout
      · split at hout
        · obtain rfl := Sum.inl.inj hout
          trivial
        · split at hout <;> cases hout
      · cases hout
  | deny row => cases hout
  | minutes pending =>
      unfold consentStep at hout
      dsimp only at hout
      split at hout
      · cases hout
      · obtain rfl := Sum.inl.inj hout
        trivial
  | linking pending expires addresses sent =>
      cases addresses with
      | nil =>
          unfold consentStep at hout
          dsimp only at hout
          split at hout
          · cases hout
          · obtain rfl := Sum.inl.inj hout
            trivial
      | cons address rest =>
          obtain rfl := Sum.inl.inj hout
          trivial
  | counting pending => cases hout
  | _ => exact hc.stay hout

theorem carries_continue (h : Orderly cfg db) {q : ContinueArgs}
    (hc : Carries db ⟨b, .continuation q⟩ p) (hout : (continueStep cfg q p i db).2 = .inl next) :
    Carries (continueStep cfg q p i db).1 ⟨b, .continuation q⟩ next := by
  cases p with
  | called =>
      unfold continueStep at hout ⊢
      dsimp only at hout ⊢
      split at hout
      · rename_i row hfind
        obtain rfl := Sum.inl.inj hout
        have hrow := List.mem_of_find?_eq_some hfind
        have hsecret := List.find?_some hfind
        refine ⟨q, rfl, of_decide_eq_true hsecret, h.below row hrow, fun x hx hxid => ?_⟩
        rw [Rows.eq_of_key h.ids hx hrow hxid]
      · obtain rfl := Sum.inl.inj hout
        trivial
  | spending row =>
      obtain rfl := Sum.inl.inj hout
      trivial
  | signingIn row taken =>
      obtain rfl := Sum.inl.inj hout
      split <;> trivial
  | approving row userId =>
      obtain rfl := Sum.inl.inj hout
      trivial
  | minting row userId => cases hout
  | ended => cases hout
  | _ => exact hc.stay hout

/-- The requests that read no row go by nothing, or stay. -/
theorem carries_next {r : Sent} (h : Orderly cfg db) (hc : Carries db r p)
    (hout : (oauthStep cfg r.request p i db).2 = .inl next) :
    Carries (oauthStep cfg r.request p i db).1 r next := by
  obtain ⟨b, request⟩ := r
  cases request with
  | authorize q => exact carries_authorize h hc hout
  | consent q => exact carries_consent h hc hout
  | continuation q => exact carries_continue h hc hout
  | register q =>
      cases p with
      | called =>
          change (registerStep cfg q .called i db).2 = _ at hout
          unfold registerStep at hout
          dsimp only at hout
          split at hout
          · cases hout
          · split at hout
            · cases hout
            · obtain rfl := Sum.inl.inj hout
              split <;> trivial
      | choosing =>
          change (registerStep cfg q .choosing i db).2 = _ at hout
          unfold registerStep at hout
          dsimp only at hout
          split at hout
          · obtain rfl := Sum.inl.inj hout
            trivial
          · cases hout
      | registering drop => cases hout
      | _ => exact hc.stay hout
  | google q =>
      cases p with
      | called =>
          change (googleStep cfg q .called i db).2 = _ at hout
          unfold googleStep at hout
          dsimp only at hout
          split at hout
          · cases hout
          · obtain rfl := Sum.inl.inj hout
            trivial
      | ended => cases hout
      | _ => exact hc.stay hout
  | emailLink q =>
      cases p with
      | called =>
          change (emailLinkStep cfg q .called i db).2 = _ at hout
          unfold emailLinkStep at hout
          dsimp only at hout
          split at hout
          · obtain rfl := Sum.inl.inj hout
            trivial
          · cases hout
      | opened link =>
          change (emailLinkStep cfg q (.opened link) i db).2 = _ at hout
          unfold emailLinkStep at hout
          dsimp only at hout
          split at hout
          · cases hout
          · split at hout
            · cases hout
            · obtain rfl := Sum.inl.inj hout
              trivial
      | proved link =>
          change (emailLinkStep cfg q (.proved link) i db).2 = _ at hout
          unfold emailLinkStep at hout
          dsimp only at hout
          split at hout <;> cases hout
      | _ => exact hc.stay hout
  | access token =>
      cases p with
      | called =>
          change (accessStep cfg token .called i db).2 = _ at hout
          unfold accessStep at hout
          dsimp only at hout
          split at hout
          · obtain rfl := Sum.inl.inj hout
            trivial
          · cases hout
      | holding held =>
          obtain rfl := Sum.inl.inj hout
          trivial
      | naming held active => cases hout
      | _ => exact hc.stay hout
  | bearer userId =>
      cases p with
      | called => cases hout
      | _ => exact hc.stay hout
  | token q =>
      cases q with
      | other resource =>
          cases p with
          | called =>
              change (tokenStep cfg (.other resource) .called i db).2 = _ at hout
              unfold tokenStep at hout
              dsimp only at hout
              split at hout <;> cases hout
          | _ => exact hc.stay hout
      | authorizationCode n redirectUri clientId verifier resource =>
          cases p with
          | called =>
              change (tokenStep cfg (.authorizationCode n redirectUri clientId verifier resource)
                .called i db).2 = _ at hout
              unfold tokenStep at hout
              dsimp only at hout
              split at hout
              · cases hout
              · split at hout
                · cases hout
                · obtain rfl := Sum.inl.inj hout
                  trivial
          | redeeming grant now => cases hout
          | _ => exact hc.stay hout
      | refreshToken n clientId resource =>
          cases p with
          | called =>
              change (tokenStep cfg (.refreshToken n clientId resource) .called i db).2 = _ at hout
              unfold tokenStep at hout
              dsimp only at hout
              split at hout
              · cases hout
              · split at hout
                · cases hout
                · obtain rfl := Sum.inl.inj hout
                  trivial
          | refreshing held now => cases hout
          | _ => exact hc.stay hout

/-- **What every run keeps of the requests**, whatever its steps meet. -/
theorem orderly_keeps (cfg : Config) : (oauth cfg).Keeps (fun _ _ _ _ => True)
    (fun db _ => Orderly cfg db) (fun db _ r p => Carries db r p) fun _ _ => True where
  first _ _ := trivial
  symm _ := trivial
  apart_first _ _ := trivial
  inv _ h _ := (h.effect (oauthStep_effect cfg _ _ _ _)).1
  next _ h hc hout := carries_next h hc hout
  stable _ h _ hc _ := hc.aged (h.effect (oauthStep_effect cfg _ _ _ _)).2
  apart_next _ _ _ _ _ _ := trivial

end Next

end ArchHub.Mcp

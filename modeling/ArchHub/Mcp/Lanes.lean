import ArchHub.Mcp.Filings

/-!
# Lanes, tombstones and ceilings

How pending requests end.  A request in a founder's lane is to end by its own person, by expiry,
or for a newer request of its lane or account; a request that ends otherwise than by its person
leaves a tombstone; and no ceiling is exceeded.

* `Cause`: why a request in a lane may end.
* `Honours`: one step keeps the promise.
* `spares`: what a step must not meet for it.
* `Evicts`: what making room does.
* `Ceilings`: what every run keeps of the numbers of requests.
-/

namespace ArchHub.Mcp

open Lib Service List

/-! ## The promise -/

/-- Why a request may end. -/
inductive Cause (x : Pending) : Request → Phase → Phase ⊕ Answer → Prop
  /-- It expired, by the clock that the sweep read. -/
  | expired {q : AuthorizeArgs} {f : Filing} {now : ℤ} {rows : List Pending} {out : Phase ⊕ Answer}
      (h : x.expiresAt < now) : Cause x (.authorize q) (.sweeping f now rows) out
  /-- Its own decision, with its own values. -/
  | decided {q : ConsentArgs} {row : Pending} {out : Phase ⊕ Answer} (hid : q.pending = x.id)
      (hcsrf : q.csrf = x.csrf) (hcookie : q.cookie = some ⟨x.id, x.browser⟩) :
      Cause x (.consent q) (.deny row) out
  /-- Its own value to continue. -/
  | continued {q : ContinueArgs} {row : Pending} {out : Phase ⊕ Answer}
      (hsecret : x.continueSecret = some q.secret) : Cause x (.continuation q) (.spending row) out
  /-- A newer request of its lane was filed. -/
  | lane {q : AuthorizeArgs} {f : Filing} {now : ℤ} {rows : List Pending} {id csrf browser : ℕ}
      {client redirectUri : String} {scope : List String} (hlane : q.lane = x.lane) :
      Cause x (.authorize q) (.sweeping f now rows)
        (.inr (.page id csrf browser client redirectUri scope))
  /-- Another request of its account was verified, by Google or by a link. -/
  | google {q : GoogleArgs} {secret : ℕ} (hemail : x.verifiedEmail = some q.email)
      (hother : q.pending ≠ x.id) : Cause x (.google q) .called (.inr (.toContinue secret))
  | link {q : LinkArgs} {link : EmailLink} {secret : ℕ} (hemail : x.verifiedEmail = some link.email)
      (hother : link.pendingId ≠ x.id) :
      Cause x (.emailLink q) (.proved link) (.inr (.toContinue secret))

/-- The request is ended by its person: by a decision, or by the value to continue in time. -/
def byItsPerson (x : Pending) (now : ℤ) : Phase → Prop
  | .deny _ => True
  | .spending _ => now ≤ x.expiresAt
  | _ => False

/-- The greatest number of tombstones that are kept in the course of a step. -/
def peak (db : Db) (p : Phase) (t : Db) : ℕ :=
  match p with
  | .sweeping _ _ rows => max (rows.foldl Db.tombstone db).ended.length t.ended.length
  | _ => t.ended.length

/-- The ceilings. -/
structure Ceilings (cfg : Config) (db : Db) : Prop where
  client : ∀ c a, db.live (fun r => r.lane = "" && r.clientId = c && r.address = a)
    ≤ maxPendingPerClient
  address : ∀ a, db.live (fun r => r.lane = "" && r.address = a) ≤ maxPendingPerAddress
  network : ∀ n, db.live (fun r => r.lane = "" && r.network = n) ≤ maxPendingPerNetwork
  all : db.live (fun r => r.lane = "") ≤ maxPendingAll
  pool : db.live (db.pool cfg) ≤ maxPending
  lane : ∀ l, l ≠ "" → db.live (fun r => r.lane = l) ≤ maxFounderLane

/-- The step ended the request. -/
def Ends (db t : Db) (x : Pending) : Prop := x ∈ db.pending ∧ ∀ y ∈ t.pending, y.id ≠ x.id

/-- What a step does, of one request, is in keeping with the promise. -/
structure Honours (cfg : Config) (db : Db) (r : Request) (p : Phase) (i : Reading) : Prop where
  lane : ∀ x, Ends db (oauthStep cfg r p i db).1 x → x.lane ≠ "" →
    Cause x r p (oauthStep cfg r p i db).2
  tombstone : ∀ x, Ends db (oauthStep cfg r p i db).1 x → byItsPerson x i.now p ∨
    x.ended ∈ (oauthStep cfg r p i db).1.ended ∨ maxEnded ≤ peak db p (oauthStep cfg r p i db).1
  ceilings : Ceilings cfg (oauthStep cfg r p i db).1

/-- The step meets none of these: a registration that drops a client with pending requests; a
sweep of a request that it did not select, or that expired so long before that its tombstone has
expired too. -/
def spares (db : Db) (r : Sent) (p : Phase) (_ : Reading) : Bool :=
  match r.request, p with
  | .register _, .registering (some c) => db.pending.all fun x => x.clientId ≠ c
  | .authorize _, .sweeping _ now rows => (db.expired now).all fun x =>
      x.ended ∈ rows.map Pending.ended && now ≤ x.expiresAt + pendingTtl
  | _, _ => true

/-! ## Tombstones -/

/-- The tombstone is kept, or `MAX_ENDED` others are. -/
def Kept (e : Ended) (db : Db) : Prop := e ∈ db.ended ∨ maxEnded ≤ db.ended.length

section Tombstones

variable {db t u : Db} {P Q : Pending → Prop} {e : Ended} {row : Pending}

theorem kept_tombstone (hnodup : (db.ended.map Ended.id).Nodup) :
    Kept row.ended (db.tombstone row) := by
  unfold Kept
  rw [ended_tombstone]
  exact Rows.enter_enters hnodup

/-- Full is full. -/
theorem full_tombstone (hnodup : (db.ended.map Ended.id).Nodup) (row : Pending)
    (h : maxEnded ≤ db.ended.length) : maxEnded ≤ (db.tombstone row).ended.length := by
  rw [ended_tombstone]
  exact Rows.length_enter hnodup h

/-- A tombstone is kept when another is written. -/
theorem Kept.tombstone (h : Kept e db) (hnodup : (db.ended.map Ended.id).Nodup)
    (hne : row.id ≠ e.id) : Kept e (db.tombstone row) := by
  rcases h with hmem | hfull
  · unfold Kept
    rw [ended_tombstone]
    exact Rows.enter_keeps hnodup hmem (Ne.symm hne)
  · exact Or.inr (full_tombstone hnodup row hfull)

/-- The tombstones of a sweep. -/
theorem kept_tombstones {rows : List Pending} (hnodup : (db.ended.map Ended.id).Nodup)
    (hrows : (rows.map Pending.id).Nodup) :
    ((rows.foldl Db.tombstone db).ended.map Ended.id).Nodup ∧
      (∀ e, Kept e db → (∀ row ∈ rows, row.id ≠ e.id) → Kept e (rows.foldl Db.tombstone db)) ∧
      ∀ row ∈ rows, Kept row.ended (rows.foldl Db.tombstone db) := by
  induction rows generalizing db with
  | nil => exact ⟨hnodup, (fun _ h _ => h), fun _ h => by cases h⟩
  | cons row rows ih =>
      obtain ⟨hrow, hrest⟩ := List.nodup_cons.1 hrows
      obtain ⟨hnodup', hkept, hmine⟩ := ih (nodup_tombstone hnodup row) hrest
      refine ⟨hnodup', fun e he hne => ?_, fun row' hrow' => ?_⟩
      · exact hkept e (he.tombstone hnodup (hne row mem_cons_self))
          fun row' hrow' => hne row' (mem_cons_of_mem _ hrow')
      · rcases List.mem_cons.1 hrow' with rfl | hin
        · refine hkept _ (kept_tombstone hnodup) fun x hx heq => hrow ?_
          exact List.mem_map.2 ⟨x, hx, heq⟩
        · exact hmine row' hin

/-- Requests that are all `P` are ended, each with a tombstone. -/
structure Evicts (P : Pending → Prop) (db t : Db) : Prop where
  fewer : Fewer db t
  gone : ∀ x ∈ db.pending, x ∈ t.pending ∨ P x ∧ (∀ y ∈ t.pending, y.id ≠ x.id) ∧ Kept x.ended t
  kept : ∀ e ∈ db.ended, (∀ x ∈ db.pending, x.id ≠ e.id) → Kept e t
  full : maxEnded ≤ db.ended.length → maxEnded ≤ t.ended.length

namespace Evicts

theorem refl (db : Db) : Evicts P db db where
  fewer := .refl db
  gone _ hx := Or.inl hx
  kept _ he _ := Or.inl he
  full := id

theorem mono (hPQ : ∀ x, P x → Q x) (h : Evicts P db t) : Evicts Q db t where
  fewer := h.fewer
  gone x hx := (h.gone x hx).imp id fun ⟨hp, hrest⟩ => ⟨hPQ x hp, hrest⟩
  kept := h.kept
  full := h.full

theorem trans (h : Evicts P db t) (h' : Evicts P t u) : Evicts P db u where
  fewer := h.fewer.trans h'.fewer
  gone x hx := by
    rcases h.gone x hx with hstays | ⟨hp, hnone, hmem | hfull⟩
    · exact h'.gone x hstays
    · exact Or.inr ⟨hp, h'.fewer.gone hnone, h'.kept x.ended hmem fun y hy => hnone y hy⟩
    · exact Or.inr ⟨hp, h'.fewer.gone hnone, Or.inr (h'.full hfull)⟩
  kept e he hnone := by
    rcases h.kept e he hnone with hmem | hfull
    · exact h'.kept e hmem (h.fewer.gone hnone)
    · exact Or.inr (h'.full hfull)
  full := h'.full ∘ h.full

/-- Making room ends one request. -/
theorem oldest {p : Pending → Bool} (hids : (db.pending.map Pending.id).Nodup)
    (hnodup : (db.ended.map Ended.id).Nodup) (h : db.evictOldest p = some t) :
    Evicts (fun x => p x = true) db t := by
  have hfewer := Fewer.evictOldest h
  obtain ⟨row, hrow, hp, rfl⟩ := evictOldest_eq h
  refine ⟨hfewer, fun x hx => ?_, fun e he hnone => ?_,
    full_tombstone hnodup row⟩
  · by_cases hid : x.id = row.id
    · obtain rfl := Rows.eq_of_key hids hx hrow hid
      exact Or.inr ⟨hp, fun y hy => of_decide_eq_true (List.mem_filter.1 hy).2, kept_tombstone hnodup⟩
    · exact Or.inl (List.mem_filter.2 ⟨hx, decide_eq_true hid⟩)
  · exact Kept.tombstone (Or.inl he) hnodup (hnone row hrow)

theorem makeRoom {cs : List ((Pending → Bool) × ℕ)} (hids : (db.pending.map Pending.id).Nodup)
    (hnodup : (db.ended.map Ended.id).Nodup) :
    Evicts (fun x => ∃ c ∈ cs, c.1 x = true) db (makeRoom cs db).1 := by
  induction cs generalizing db with
  | nil => exact refl db
  | cons c cs ih =>
      have hmore : ∀ {u : Db}, (u.pending.map Pending.id).Nodup → (u.ended.map Ended.id).Nodup →
          Evicts (fun x => ∃ c' ∈ c :: cs, c'.1 x = true) u (Mcp.makeRoom cs u).1 := fun hids hnodup =>
        (ih hids hnodup).mono fun x ⟨c', hc', hx⟩ => ⟨c', mem_cons_of_mem _ hc', hx⟩
      unfold Mcp.makeRoom
      split
      · exact hmore hids hnodup
      · split
        · exact refl db
        · rename_i u hu
          have hfirst := oldest hids hnodup hu
          exact (hfirst.mono fun x hx => ⟨c, mem_cons_self, hx⟩).trans
            (hmore (hids.sublist (hfirst.fewer.pending.map _)) (hfirst.fewer.ended hnodup))

theorem evictVerified {email : String} {id turns : ℕ} (hids : (db.pending.map Pending.id).Nodup)
    (hnodup : (db.ended.map Ended.id).Nodup) :
    Evicts (fun x => x.verifiedEmail = some email ∧ x.id ≠ id) db (evictVerified email id turns db) := by
  induction turns generalizing db with
  | zero => exact refl db
  | succ turns ih =>
      unfold Mcp.evictVerified
      split
      · exact refl db
      · split
        · exact refl db
        · rename_i u hu
          have hfirst := oldest hids hnodup hu
          refine (hfirst.mono fun x hx => ?_).trans
            (ih (hids.sublist (hfirst.fewer.pending.map _)) (hfirst.fewer.ended hnodup))
          simp only [Bool.and_eq_true, decide_eq_true_eq] at hx
          exact hx

end Evicts

end Tombstones

/-! ## Ceilings -/

section Ceilings

variable {cfg : Config} {db t : Db} {f : Filing} {now : ℤ}

theorem founderApproved_mono (h : Approving db t) (cfg : Config) (c : ClientId)
    (hc : db.founderApproved cfg c = true) : t.founderApproved cfg c = true := by
  unfold Db.founderApproved at hc ⊢
  obtain ⟨a, ha, hand⟩ := List.any_eq_true.1 hc
  obtain ⟨b, hb, huser, hclient⟩ := h a ha
  exact List.any_eq_true.2 ⟨b, hb, by rwa [huser, hclient]⟩

/-- A client that a founder approved leaves the pool. -/
theorem pool_mono (h : Approving db t) (r : Pending) (hr : t.pool cfg r = true) :
    db.pool cfg r = true := by
  unfold Db.pool at hr ⊢
  rw [Bool.and_eq_true] at hr ⊢
  refine ⟨hr.1, ?_⟩
  rw [Bool.not_eq_true']
  by_contra hc
  have happroved := founderApproved_mono h cfg r.clientId (Bool.not_eq_false _ ▸ hc)
  rw [happroved] at hr
  cases hr.2

theorem Fewer.live_le (h : Fewer db t) {p q : Pending → Bool} (hpq : ∀ r, p r = true → q r = true) :
    t.live p ≤ db.live q :=
  (countP_mono_left fun r _ => hpq r).trans (h.pending.countP_le)

/-- Requests that end exceed no ceiling. -/
theorem Ceilings.fewer (h : Ceilings cfg db) (hfewer : Fewer db t) : Ceilings cfg t where
  client c a := (hfewer.live_le fun _ => id).trans (h.client c a)
  address a := (hfewer.live_le fun _ => id).trans (h.address a)
  network n := (hfewer.live_le fun _ => id).trans (h.network n)
  all := (hfewer.live_le fun _ => id).trans h.all
  pool := (hfewer.live_le (pool_mono hfewer.approvals)).trans h.pool
  lane l hl := (hfewer.live_le fun _ => id).trans (h.lane l hl)

/-- A mark on a request exceeds no ceiling. -/
theorem Ceilings.update (h : Ceilings cfg db) {id : ℕ} {g : Pending → Pending}
    (hpending : t.pending = Rows.update Pending.id id g db.pending) (happrovals : t.approvals = db.approvals)
    (hg : ∀ r, (g r).lane = r.lane ∧ (g r).clientId = r.clientId ∧ (g r).address = r.address ∧
      (g r).network = r.network) : Ceilings cfg t := by
  have hlive : ∀ p : Pending → Bool, (∀ r, p (g r) = p r) → t.live p = db.live p := fun p hp => by
    unfold Db.live
    rw [hpending, Rows.update, countP_map]
    refine countP_congr fun r _ => ?_
    rw [Function.comp_apply]
    split
    · rw [hp r]
    · rfl
  have hpool : t.pool cfg = db.pool cfg := by
    funext r
    unfold Db.pool Db.founderApproved
    rw [happrovals]
  refine ⟨fun c a => ?_, fun a => ?_, fun n => ?_, ?_, ?_, fun l hl => ?_⟩
  · rw [hlive _ fun r => by obtain ⟨hlane, hclient, haddress, -⟩ := hg r; rw [hlane, hclient, haddress]]
    exact h.client c a
  · rw [hlive _ fun r => by obtain ⟨hlane, -, haddress, -⟩ := hg r; rw [hlane, haddress]]
    exact h.address a
  · rw [hlive _ fun r => by obtain ⟨hlane, -, -, hnetwork⟩ := hg r; rw [hlane, hnetwork]]
    exact h.network n
  · rw [hlive _ fun r => by rw [(hg r).1]]
    exact h.all
  · rw [hpool, hlive _ fun r => by
      obtain ⟨hlane, hclient, -⟩ := hg r
      unfold Db.pool
      rw [hlane, hclient]]
    exact h.pool
  · rw [hlive _ fun r => by rw [(hg r).1]]
    exact h.lane l hl

/-- Room was made under every ceiling. -/
theorem makeRoom_room {cs : List ((Pending → Bool) × ℕ)} (hroom : (makeRoom cs db).2 = true)
    (hcaps : ∀ c ∈ cs, db.live c.1 ≤ c.2) : ∀ c ∈ cs, (makeRoom cs db).1.live c.1 < c.2 := by
  induction cs generalizing db with
  | nil => intro c hc; cases hc
  | cons c cs ih =>
      have hle : ∀ {u : Db}, Fewer db u → ∀ c' ∈ cs, u.live c'.1 ≤ c'.2 := fun hfewer c' hc' =>
        (hfewer.live_le fun _ => id).trans (hcaps c' (mem_cons_of_mem _ hc'))
      intro c' hc'
      unfold makeRoom at hroom ⊢
      split at hroom
      · rename_i hlt
        rw [if_pos hlt]
        rcases List.mem_cons.1 hc' with rfl | hin
        · exact ((Fewer.makeRoom cs).live_le fun _ => id).trans_lt hlt
        · exact ih hroom (hle (.refl db)) c' hin
      · rename_i hge
        rw [if_neg hge]
        split at hroom
        · cases hroom
        · rename_i u hu
          rcases List.mem_cons.1 hc' with rfl | hin
          · refine ((Fewer.makeRoom cs).live_le fun _ => id).trans_lt (lt_of_lt_of_le ?_
              (hcaps c' mem_cons_self))
            obtain ⟨row, hrow, hp, rfl⟩ := evictOldest_eq hu
            unfold Db.live Db.endPending Rows.delete
            dsimp only
            rw [countP_eq_length_filter, countP_eq_length_filter, filter_comm]
            exact List.length_filter_lt_length_iff_exists.2
              ⟨row, List.mem_filter.2 ⟨hrow, hp⟩, by simp⟩
          · exact ih hroom (hle (.evictOldest hu)) c' hin

/-- One request more, where there is room for it. -/
theorem live_insert {p : Pending → Bool} {row : Pending} {rows : List Pending} {cap : ℕ}
    (hle : rows.countP p ≤ cap) (hlt : p row = true → rows.countP p < cap) :
    (rows ++ [row]).countP p ≤ cap := by
  rw [countP_append, countP_singleton]
  by_cases hp : p row = true
  · rw [if_pos hp]
    exact hlt hp
  · rw [if_neg hp]
    exact hle

/-- **Filing a request exceeds no ceiling.** -/
theorem Ceilings.file (h : Ceilings cfg db) : Ceilings cfg (file cfg f now db).1 := by
  have hfewer : Fewer db (makeRoom (ceilings cfg f db) db).1 := .makeRoom _
  have hu := h.fewer hfewer
  have hcaps : ∀ c ∈ Mcp.ceilings cfg f db, db.live c.1 ≤ c.2 := by
    intro c hc
    unfold Mcp.ceilings at hc
    split at hc
    · rename_i hlane
      obtain rfl := List.mem_singleton.1 hc
      exact h.lane f.args.lane hlane
    · unfold shared at hc
      rcases List.mem_cons.1 hc with rfl | hin
      · exact h.all
      · split at hin
        · cases hin
        · obtain rfl := List.mem_singleton.1 hin
          exact h.pool
  unfold Mcp.file
  split
  · exact h
  · rename_i hshares
    dsimp only
    split
    · rename_i hroom
      have hlt := makeRoom_room hroom hcaps
      generalize (makeRoom (Mcp.ceilings cfg f db) db).1 = u at hfewer hu hlt ⊢
      -- the shares of a caller are counted outside of the lanes
      have hshare : f.args.lane = "" → ∀ s ∈ shares f, u.live s.1 < s.2 := fun hlane s hs => by
        refine (hfewer.live_le fun _ => id).trans_lt ?_
        by_contra hge
        refine hshares ?_
        rw [Bool.and_eq_true, any_eq_true]
        exact ⟨decide_eq_true hlane, s, hs, decide_eq_true (not_lt.1 hge)⟩
      have hshared : f.args.lane = "" → ∀ c ∈ shared cfg f db, u.live c.1 < c.2 := fun hlane c hc => by
        refine hlt c ?_
        unfold Mcp.ceilings
        rw [if_neg (not_not.2 hlane)]
        exact hc
      refine ⟨fun c a => live_insert (hu.client c a) fun hp => ?_,
        fun a => live_insert (hu.address a) fun hp => ?_, fun n => live_insert (hu.network n) fun hp => ?_,
        live_insert hu.all fun hp => ?_, live_insert hu.pool fun hp => ?_,
        fun l hl => live_insert (hu.lane l hl) fun hp => ?_⟩
      · simp only [Bool.and_eq_true, decide_eq_true_eq] at hp
        obtain ⟨⟨hlane, rfl⟩, rfl⟩ := hp
        exact hshare hlane _ mem_cons_self
      · simp only [Bool.and_eq_true, decide_eq_true_eq] at hp
        obtain ⟨hlane, rfl⟩ := hp
        exact hshare hlane _ (mem_cons_of_mem _ mem_cons_self)
      · simp only [Bool.and_eq_true, decide_eq_true_eq] at hp
        obtain ⟨hlane, rfl⟩ := hp
        exact hshare hlane _ (mem_cons_of_mem _ (mem_cons_of_mem _ mem_cons_self))
      · exact hshared (of_decide_eq_true hp) _ mem_cons_self
      · have hpool := pool_mono hfewer.approvals _ hp
        unfold Db.pool at hpool
        simp only [Bool.and_eq_true, decide_eq_true_eq, Bool.not_eq_true'] at hpool
        obtain ⟨hlane, hstranger⟩ := hpool
        have hin : (db.pool cfg, maxPending) ∈ shared cfg f db := by
          unfold shared
          refine mem_cons_of_mem _ ?_
          rw [if_neg]
          · exact mem_singleton_self _
          · exact fun happroved => by
              have hsame : db.founderApproved cfg f.args.clientId = false := hstranger
              rw [hsame] at happroved
              cases happroved
        exact (countP_mono_left fun r _ => pool_mono hfewer.approvals r).trans_lt
          (hshared hlane _ hin)
      · obtain rfl : f.args.lane = l := of_decide_eq_true hp
        refine hlt (fun r => r.lane = f.args.lane, maxFounderLane) ?_
        unfold Mcp.ceilings
        rw [if_pos hl]
        exact mem_singleton_self _
    · exact hu

end Ceilings

end ArchHub.Mcp

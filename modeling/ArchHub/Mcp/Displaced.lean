import ArchHub.Mcp.Orderly

/-!
# Nobody is displaced

A step that spares the pending requests keeps the promise (`honours_step`), and so does every run
of such steps (`promised_of_run`).  A registration spares nobody (`not_promised_registered`).
-/

namespace ArchHub.Mcp

open Lib Service List Function

/-! ## What ends a request -/

variable {c : (Pending → Bool) × ℕ} {now : ℤ} {rows : List Pending} {f : Filing} {row : Pending}
  {b : ℕ}

section Ending

variable {cfg : Config} {db t u : Db} {p : Phase} {i : Reading} {x : Pending}

/-- A step that leaves the requests alone ends none. -/
theorem Calm.not_ends (h : Calm db t) : ¬Ends db t x := fun ⟨hx, hnone⟩ =>
  hnone x (h.pending ▸ hx) rfl

/-- A step that marks requests ends none. -/
theorem not_ends_update {id : ℕ} {g : Pending → Pending} (hid : ∀ r, (g r).id = r.id)
    (hpending : t.pending = Rows.update Pending.id id g db.pending) : ¬Ends db t x := by
  rintro ⟨hx, hnone⟩
  rw [hpending] at hnone
  refine hnone _ (mem_map_of_mem hx) ?_
  split
  · exact hid x
  · rfl

/-- Why the request ended, and what is left of it. -/
def Accounted (x : Pending) (db t : Db) (r : Request) (p : Phase) (i : Reading)
    (out : Phase ⊕ Answer) : Prop :=
  (x.lane ≠ "" → Cause x r p out) ∧
    (byItsPerson x i.now p ∨ x.ended ∈ t.ended ∨ maxEnded ≤ peak db p t)

/-- What a sweep leaves of a request that expired. -/
theorem swept (hnodup : (db.ended.map Ended.id).Nodup) (hrows : (rows.map Pending.id).Nodup)
    (hx : x.ended ∈ rows.map Pending.ended) (hnow : now ≤ x.expiresAt + pendingTtl) :
    x.ended ∈ (db.endExpired now rows).ended ∨
      maxEnded ≤ (rows.foldl Db.tombstone db).ended.length := by
  obtain ⟨row, hrow, hended⟩ := List.mem_map.1 hx
  have hkept := (kept_tombstones hnodup hrows).2.2 row hrow
  rw [hended] at hkept
  refine hkept.imp (fun hmem => List.mem_filter.2 ⟨hmem, decide_eq_true ?_⟩) id
  exact not_lt.2 hnow

/-- Under one ceiling there is room once a request was ended. -/
theorem makeRoom_single (h : (makeRoom [c] db).2 = false) : (makeRoom [c] db).1 = db := by
  unfold makeRoom at h ⊢
  split at h
  · rename_i hlt
    rw [if_pos hlt]
    rfl
  · rename_i hge
    rw [if_neg hge]
    split at h
    · rfl
    · cases h

/-- A request in a lane makes room for requests of its lane only. -/
theorem ceilings_lane (hc : c ∈ ceilings cfg f db) (hx : c.1 x = true) (hlane : x.lane ≠ "") :
    f.args.lane = x.lane ∧ ∃ c, ceilings cfg f db = [c] := by
  unfold ceilings at hc ⊢
  split at hc
  · rename_i hown
    obtain rfl := List.mem_singleton.1 hc
    exact ⟨(of_decide_eq_true hx).symm, _, by rw [if_pos hown]⟩
  · unfold shared at hc
    rcases List.mem_cons.1 hc with rfl | hin
    · exact absurd (of_decide_eq_true hx) hlane
    · split at hin
      · cases hin
      · obtain rfl := List.mem_singleton.1 hin
        unfold Db.pool at hx
        rw [Bool.and_eq_true, decide_eq_true_eq] at hx
        exact absurd hx.1 hlane

/-- What filing a request does to the others: those that end make room for it, and what was
ended before stays so. -/
theorem file_ends (cfg : Config) (f : Filing) (now : ℤ) (hids : (db.pending.map Pending.id).Nodup)
    (hnodup : (db.ended.map Ended.id).Nodup) :
    (∀ x, Ends db (file cfg f now db).1 x → Kept x.ended (file cfg f now db).1 ∧
      (x.lane ≠ "" → f.args.lane = x.lane ∧ ∃ u, (file cfg f now db).2 = (f.insert cfg now u).2)) ∧
    ∀ e ∈ db.ended, (∀ x ∈ db.pending, x.id ≠ e.id) → Kept e (file cfg f now db).1 := by
  have hroom : Evicts (fun x => ∃ c ∈ ceilings cfg f db, c.1 x = true) db
      (makeRoom (ceilings cfg f db) db).1 := .makeRoom hids hnodup
  have hsingle : ∀ c, ceilings cfg f db = [c] → (makeRoom (ceilings cfg f db) db).2 = false →
      (makeRoom (ceilings cfg f db) db).1 = db := fun c hc hnone => by
    rw [hc] at hnone ⊢
    exact makeRoom_single hnone
  unfold file
  split
  · exact ⟨fun x hx => absurd hx (Calm.refl db).not_ends, fun e he _ => Or.inl he⟩
  · dsimp only
    generalize (makeRoom (ceilings cfg f db) db).1 = v at hroom hsingle ⊢
    generalize (makeRoom (ceilings cfg f db) db).2 = room at hsingle ⊢
    have hstay : ∀ x, Ends db v x → (∃ c ∈ ceilings cfg f db, c.1 x = true) ∧ Kept x.ended v :=
      fun x ⟨hx, hnone⟩ => by
        rcases hroom.gone x hx with hin | ⟨hp, -, hkept⟩
        · exact absurd rfl (hnone x hin)
        · exact ⟨hp, hkept⟩
    cases room with
    | true =>
        refine ⟨fun x ⟨hx, hnone⟩ => ?_, fun e he hnone => hroom.kept e he hnone⟩
        obtain ⟨⟨c, hc, hcx⟩, hkept⟩ := hstay x ⟨hx, fun y hy => hnone y (mem_append_left _ hy)⟩
        exact ⟨hkept, fun hlane => ⟨(ceilings_lane hc hcx hlane).1, v, rfl⟩⟩
    | false =>
        refine ⟨fun x hends => ?_, fun e he hnone => hroom.kept e he hnone⟩
        obtain ⟨⟨c, hc, hcx⟩, hkept⟩ := hstay x hends
        refine ⟨hkept, fun hlane => ?_⟩
        obtain ⟨-, c', hone⟩ := ceilings_lane hc hcx hlane
        have hsame := hsingle c' hone rfl
        exact absurd (hsame ▸ hends.1) fun hin => hends.2 x hin rfl

/-- A request that is filed. -/
theorem accounted_filing (h : Orderly cfg db) (hrows : (rows.map Pending.id).Nodup)
    (hspares : ∀ x ∈ db.expired now, x.ended ∈ rows.map Pending.ended ∧ now ≤ x.expiresAt + pendingTtl)
    (hends : Ends db (file cfg f i.now (db.endExpired now rows)).1 x) :
    Accounted x db (file cfg f i.now (db.endExpired now rows)).1 (.authorize f.args)
      (.sweeping f now rows) i (.inr (file cfg f i.now (db.endExpired now rows)).2) := by
  have hswept := h.fewer (.endExpired now rows)
  obtain ⟨hroom, hkept⟩ := file_ends cfg f i.now hswept.ids hswept.ended
  by_cases hexpired : x.expiresAt < now
  · refine ⟨fun _ => .expired hexpired, Or.inr ?_⟩
    obtain ⟨hselected, hnow⟩ := hspares x (List.mem_filter.2 ⟨hends.1, decide_eq_true hexpired⟩)
    have hgone : ∀ y ∈ (db.endExpired now rows).pending, y.id ≠ x.id := fun y hy heq => by
      rw [pending_endExpired] at hy
      obtain ⟨hy, hlive⟩ := List.mem_filter.1 hy
      rw [Rows.eq_of_key h.ids hy hends.1 heq] at hlive
      exact of_decide_eq_true hlive hexpired
    rcases swept h.ended hrows hselected hnow with hmem | hfull
    · rcases hkept x.ended hmem hgone with hin | hfull
      · exact Or.inl hin
      · exact Or.inr (le_max_of_le_right hfull)
    · exact Or.inr (le_max_of_le_left hfull)
  · have hin : x ∈ (db.endExpired now rows).pending := by
      rw [pending_endExpired]
      exact List.mem_filter.2 ⟨hends.1, decide_eq_true hexpired⟩
    obtain ⟨hmem, hlane⟩ := hroom x ⟨hin, hends.2⟩
    refine ⟨fun hne => ?_, Or.inr (hmem.imp id fun hfull => le_max_of_le_right hfull)⟩
    obtain ⟨hown, v, hpage⟩ := hlane hne
    rw [hpage]
    exact .lane hown

/-- A request that is verified. -/
theorem accounted_verified (h : Orderly cfg db) {r : Request} {pending secret : ℕ} {email : String}
    {cookie : Option Cookie} (hverified : verified pending email cookie i.now db = some (t, secret))
    (hp : peak db p t = t.ended.length) (hends : Ends db t x)
    (hcause : x.verifiedEmail = some email → pending ≠ x.id → Cause x r p (.inr (.toContinue secret))) :
    Accounted x db t r p i (.inr (.toContinue secret)) := by
  unfold verified at hverified
  obtain ⟨browser, -, hverify⟩ := Option.bind_eq_some_iff.1 hverified
  unfold verify at hverify
  split at hverify
  · cases hverify
  · split at hverify
    · -- the request that is verified is marked, and makes room among those of its account
      have hset : Orderly cfg (db.setVerified pending email) :=
        h.update rfl rfl rfl (Nat.le_succ _) (fun _ => ⟨rfl, rfl, rfl, rfl, rfl⟩)
          fun _ _ _ => Option.some_ne_none email
      have hevicts : Evicts (fun y => y.verifiedEmail = some email ∧ y.id ≠ pending)
          (db.setVerified pending email) t := by
        cases hverify
        exact .evictVerified hset.ids hset.ended
      let mark (r : Pending) : Pending :=
        { r with verifiedEmail := some email, continueSecret := some db.drawn }
      have hmem : (if x.id = pending then mark x else x) ∈ (db.setVerified pending email).pending :=
        mem_map_of_mem hends.1
      by_cases hid : x.id = pending
      · rw [if_pos hid] at hmem
        rcases hevicts.gone _ hmem with hstays | ⟨⟨-, hother⟩, -⟩
        · exact absurd rfl (hends.2 (mark x) hstays)
        · exact absurd hid hother
      · rw [if_neg hid] at hmem
        rcases hevicts.gone _ hmem with hstays | ⟨⟨hemail, -⟩, -, hkept⟩
        · exact absurd rfl (hends.2 _ hstays)
        · refine ⟨fun _ => hcause hemail (Ne.symm hid), Or.inr ?_⟩
          rw [hp]
          exact hkept
    · cases hverify

/-- A request that is taken. -/
theorem accounted_spend (h : Orderly cfg db) {q : ContinueArgs}
    (hc : Carries db ⟨b, .continuation q⟩ (.spending row))
    (hends : Ends db (spend row i.now db).1 x) :
    Accounted x db (spend row i.now db).1 (.continuation q) (.spending row) i
      (.inl (.signingIn row (spend row i.now db).2)) := by
  obtain ⟨q', hreq, hsecret, -, hmine⟩ := hc
  obtain rfl : q = q' := by
    cases hreq
    rfl
  have hid : x.id = row.id := by
    by_contra hne
    refine hends.2 x ?_ rfl
    unfold spend
    dsimp only
    split <;> exact List.mem_filter.2 ⟨hends.1, decide_eq_true hne⟩
  have hended := hmine x hends.1 hid
  have hvalue : x.continueSecret = row.continueSecret := congrArg Ended.continueSecret hended
  have htime : x.expiresAt + pendingTtl = row.expiresAt + pendingTtl := congrArg Ended.expiresAt hended
  refine ⟨fun _ => .continued (hvalue.trans hsecret), ?_⟩
  by_cases hexpired : row.expiresAt < i.now
  · refine Or.inr ?_
    have hkept : Kept row.ended (db.tombstone row) := kept_tombstone h.ended
    rw [← hended] at hkept
    unfold peak spend
    dsimp only
    rw [if_pos hexpired]
    exact hkept
  · refine Or.inl ?_
    show i.now ≤ x.expiresAt
    omega

/-- A request that is denied. -/
theorem accounted_deny {q : ConsentArgs} (hc : Carries db ⟨b, .consent q⟩ (.deny row))
    (hends : Ends db (db.endPending q.pending) x) (out : Phase ⊕ Answer) :
    Accounted x db (db.endPending q.pending) (.consent q) (.deny row) i out := by
  obtain ⟨q', hreq, -, hmine⟩ := hc
  obtain rfl : q = q' := by
    cases hreq
    rfl
  have hid : x.id = q.pending := by
    by_contra hne
    exact hends.2 x (List.mem_filter.2 ⟨hends.1, decide_eq_true hne⟩) rfl
  obtain ⟨hcsrf, hcookie⟩ := hmine x hends.1 hid
  exact ⟨fun _ => .decided hid.symm hcsrf hcookie, Or.inl trivial⟩

/-- **A step that meets nothing of the sort keeps the promise.** -/
theorem honours_step {r : Sent} (h : Orderly cfg db) (hc : Carries db r p)
    (hspares : spares db r p i = true) : Honours cfg db r.request p i := by
  have hall : ∀ x, Ends db (oauthStep cfg r.request p i db).1 x →
      Accounted x db (oauthStep cfg r.request p i db).1 r.request p i
        (oauthStep cfg r.request p i db).2 := by
    intro x hends
    obtain ⟨b, request⟩ := r
    cases request with
    | register q =>
        cases p with
        | registering drop =>
            cases drop with
            | none => exact absurd rfl (hends.2 x hends.1)
            | some c =>
                have hother := List.all_eq_true.1 hspares x hends.1
                exact absurd rfl (hends.2 x (List.mem_filter.2 ⟨hends.1, hother⟩))
        | _ => exact absurd hends (registerStep_calm q fun _ h => by cases h).not_ends
    | authorize q =>
        cases p with
        | sweeping f now rows =>
            obtain ⟨hreq, hrows⟩ := hc
            obtain rfl : q = f.args := by
              cases hreq
              rfl
            refine accounted_filing h hrows (fun y hy => ?_) hends
            have hboth := List.all_eq_true.1 hspares y hy
            rw [Bool.and_eq_true, decide_eq_true_eq, decide_eq_true_eq] at hboth
            exact hboth
        | _ => exact absurd hends (authorizeStep_calm q fun _ _ _ h => by cases h).not_ends
    | consent q =>
        cases p with
        | approve row =>
            refine absurd hends ?_
            show ¬Ends db (consentStep cfg q (.approve row) i db).1 x
            unfold consentStep
            dsimp only
            split
            · split
              · exact not_ends_update (g := fun r => { r with approved := true }) (fun _ => rfl) rfl
              · split <;>
                  exact not_ends_update (g := fun r => { r with approved := true }) (fun _ => rfl) rfl
            · exact (Calm.refl db).not_ends
        | deny row => exact accounted_deny hc hends _
        | _ =>
            exact absurd hends (consentStep_calm q (fun _ h => by cases h) fun _ h => by cases h).not_ends
    | google q =>
        cases p with
        | called =>
            change Ends db (googleStep cfg q .called i db).1 x at hends
            show Accounted x db (googleStep cfg q .called i db).1 _ _ i (googleStep cfg q .called i db).2
            unfold googleStep at hends ⊢
            dsimp only at hends ⊢
            split at hends
            · rename_i hverified
              exact accounted_verified h hverified rfl hends fun hemail hid => .google hemail hid
            · exact absurd hends (Calm.refl db).not_ends
        | _ => exact absurd hends (googleStep_calm q fun h => by cases h).not_ends
    | emailLink q =>
        cases p with
        | proved link =>
            change Ends db (emailLinkStep cfg q (.proved link) i db).1 x at hends
            show Accounted x db (emailLinkStep cfg q (.proved link) i db).1 _ _ i
              (emailLinkStep cfg q (.proved link) i db).2
            unfold emailLinkStep at hends ⊢
            dsimp only at hends ⊢
            split at hends
            · rename_i hverified
              exact accounted_verified h hverified rfl hends fun hemail hid => .link hemail hid
            · exact absurd hends (Calm.refl db).not_ends
        | _ => exact absurd hends (emailLinkStep_calm q fun _ h => by cases h).not_ends
    | continuation q =>
        cases p with
        | spending row => exact accounted_spend h hc hends
        | _ => exact absurd hends (continueStep_calm q fun _ h => by cases h).not_ends
    | token q => exact absurd hends (tokenStep_calm q).not_ends
    | bearer userId =>
        cases p with
        | called => exact absurd hends (Calm.bearer cfg userId i).not_ends
        | _ => exact absurd hends (Calm.refl db).not_ends
    | access token => exact absurd hends (accessStep_calm token).not_ends
  exact ⟨fun x hends hlane => (hall x hends).1 hlane, fun x hends => (hall x hends).2,
    (h.effect (oauthStep_effect cfg r.request p i db)).1.ceilings⟩

end Ending

/-! ## Runs -/

section Runs

variable {cfg : Config} {W : Type} [DecidableEq W]

/-- The promise, of a state: no ceiling is exceeded in it, and the next step keeps to it, whichever
it is of those that meet the check. -/
def Promised (cfg : Config) (check : Db → Sent → Phase → Reading → Bool)
    (s : State Db Sent Phase Answer W) : Prop :=
  Ceilings cfg s.shared ∧ ∀ a, admitted check s a = true →
    Admits (fun db r p i => Honours cfg db r.request p i) s a

theorem orderly_empty : Orderly cfg {} where
  ids := nodup_nil
  below _ h := by cases h
  verified _ h := by cases h
  ended := nodup_nil
  ceilings := ⟨fun _ _ => Nat.zero_le _, fun _ => Nat.zero_le _, fun _ => Nat.zero_le _,
    Nat.zero_le _, Nat.zero_le _, fun _ _ => Nat.zero_le _⟩

/-- **A founder's sign-ins are not displaced**, in every run in which no registration drops a
client with pending requests and no sweep comes too late. -/
theorem promised_of_run {s : State Db Sent Phase Answer W}
    (h : (oauth cfg).machine.Run (fun s a => admitted spares s a = true) (idle {}) s) :
    Promised cfg spares s := by
  have hkept := kept_of_run (orderly_keeps cfg) (h.mono fun _ a _ => by
    cases a with
    | accept w r => trivial
    | advance w i => exact fun _ _ _ => trivial) (Kept.idle orderly_empty)
  refine ⟨hkept.inv.ceilings, fun a ha => ?_⟩
  have hspares := admits_of_admitted a ha
  cases a with
  | accept w r => trivial
  | advance w i =>
      intro r p hw
      exact honours_step hkept.inv (hkept.owed w r p hw) (hspares r p hw)

/-- A client that registers. -/
def someClient : RegisterArgs := { redirectUris := some ["https://client"] }

/-- A founder's request for the first client. -/
def laneRequest : Request := .authorize {
  responseType := "code", clientId := .minted 0, redirectUri := "https://client",
  codeChallenge := someChallenge, codeChallengeMethod := "S256", address := "a", network := "n",
  lane := "founder" }

/-- A client is registered, and a founder's request for it filed. -/
def filedInLane : List (Action Sent Reading Bool) := served 0 (.register someClient) 2 ++ served 1 laneRequest 3

/-- In this run every step meets the check. -/
theorem promised_filedInLane :
    let s := filedInLane.foldl (oauth someConfig).machine.step (idle {})
    Promised someConfig spares s ∧ s.shared.pending.map Pending.lane = ["founder"] :=
  ⟨promised_of_run (Machine.Run.ofWalk (fun _ _ => id) (by decide +kernel)), by decide +kernel⟩

/-- One client more, while there is room. -/
theorem registered_one (s : State Db Sent Phase Answer Bool)
    (hroom : s.shared.clients.length < maxClients) :
    ∃ t c, (oauth someConfig).machine.Run Machine.Any s t ∧ c.createdAt = 1 ∧
      t.shared = { s.shared with clients := s.shared.clients ++ [c], drawn := s.shared.drawn + 1 } := by
  let m := (oauth someConfig).machine (W := Bool)
  let r : Sent := ⟨0, .register someClient⟩
  have hcalled : registerStep someConfig someClient .called someReading s.shared
      = (s.shared, .inl (.registering none)) := by
    unfold registerStep
    dsimp only
    rw [if_neg (by decide), if_neg (by decide), if_pos hroom]
  have hfirst : (m.step s (.accept true r)).flying true = some (r, .called) := by
    show Function.update s.flying true (some (r, Phase.called)) true = _
    rw [update_self]
  have hsecond : (m.step (m.step s (.accept true r)) (.advance true someReading)).flying true
      = some (r, .registering none) := by
    rw [machine_advance hfirst]
    show Function.update (m.step s (.accept true r)).flying true
      (pending r (registerStep someConfig someClient .called someReading s.shared).2) true = _
    rw [update_self, hcalled]
    rfl
  refine ⟨_, ⟨.minted s.shared.drawn, ["https://client"], "", 1⟩,
    .ofActions s (served 0 (.register someClient) 2), rfl, ?_⟩
  show (m.step (m.step (m.step s (.accept true r)) (.advance true someReading))
    (.advance true someReading)).shared = _
  rw [machine_advance hsecond, machine_advance hfirst]
  show (register someClient none 1
    (registerStep someConfig someClient .called someReading s.shared).1).1 = _
  rw [hcalled]
  rfl

/-- As many clients more as there is room for. -/
theorem registered_many (k : ℕ) (s : State Db Sent Phase Answer Bool)
    (hroom : s.shared.clients.length + k ≤ maxClients) :
    ∃ t more, (oauth someConfig).machine.Run Machine.Any s t ∧ more.length = k ∧
      (∀ c ∈ more, c.createdAt = 1) ∧
      t.shared = { s.shared with clients := s.shared.clients ++ more, drawn := s.shared.drawn + k } := by
  induction k with
  | zero => exact ⟨s, [], .refl s, rfl, (fun _ h => by cases h), by rw [append_nil]; rfl⟩
  | succ k ih =>
      obtain ⟨t, more, hrun, hlength, hcreated, ht⟩ := ih (by omega)
      obtain ⟨u, c, hrun', hc, hu⟩ := registered_one t (by
        rw [ht]
        show (s.shared.clients ++ more).length < maxClients
        rw [length_append]
        omega)
      refine ⟨u, more ++ [c], hrun.trans hrun', by rw [length_append, hlength]; rfl,
        fun c' hc' => ?_, by rw [hu, ht, append_assoc]; rfl⟩
      rcases List.mem_append.1 hc' with hold | hlast
      · exact hcreated c' hold
      · exact List.mem_singleton.1 hlast ▸ hc

/-- The client that makes room, where there are no approvals and no codes and the first client is
the oldest. -/
theorem staleClient_first {db : Db} {c : Client} {more : List Client} (happrovals : db.approvals = [])
    (hcodes : db.codes = []) (hclients : db.clients = c :: more)
    (hcreated : ∀ c' ∈ more, c'.createdAt = c.createdAt) : db.staleClient = some c := by
  have hall : ∀ c' ∈ c :: more, c'.createdAt = c.createdAt := fun c' hc' => by
    rcases List.mem_cons.1 hc' with rfl | hin
    · rfl
    · exact hcreated c' hin
  have hsorted : Rows.orderBy Client.createdAt (c :: more) = c :: more :=
    List.Pairwise.insertionSort_eq (pairwise_of_forall_sublist fun hsub =>
      ((hall _ (hsub.subset mem_cons_self)).trans (hall _ (hsub.subset
        (mem_cons_of_mem _ mem_cons_self))).symm).le)
  unfold Db.staleClient
  rw [happrovals, hcodes, hclients]
  simp [hsorted]

/-- A registration that finds the clients at capacity, up to its last step. -/
theorem registering_full {s : State Db Sent Phase Answer Bool} {c : Client}
    (hfull : ¬s.shared.clients.length < maxClients) (hstale : s.shared.staleClient = some c) :
    ∃ t, (oauth someConfig).machine.Run Machine.Any s t ∧ t.shared = s.shared ∧
      t.flying true = some (⟨0, .register someClient⟩, .registering (some c.clientId)) := by
  let m := (oauth someConfig).machine (W := Bool)
  let r : Sent := ⟨0, .register someClient⟩
  have hcalled : registerStep someConfig someClient .called someReading s.shared
      = (s.shared, .inl .choosing) := by
    unfold registerStep
    dsimp only
    rw [if_neg (by decide), if_neg (by decide), if_neg hfull]
  have hchoosing : registerStep someConfig someClient .choosing someReading s.shared
      = (s.shared, .inl (.registering (some c.clientId))) := by
    unfold registerStep
    dsimp only
    rw [hstale]
  have hfirst : (m.step s (.accept true r)).flying true = some (r, .called) := by
    show Function.update s.flying true (some (r, Phase.called)) true = _
    rw [update_self]
  let u := m.step (m.step s (.accept true r)) (.advance true someReading)
  have hu : u = ⟨s.shared, Function.update (m.step s (.accept true r)).flying true
      (some (r, .choosing)), s.answered ++ []⟩ := by
    show m.step (m.step s (.accept true r)) (.advance true someReading) = _
    rw [machine_advance hfirst]
    show (⟨(registerStep someConfig someClient .called someReading s.shared).1, Function.update _ true
      (pending r (registerStep someConfig someClient .called someReading s.shared).2), s.answered ++
        answers r (registerStep someConfig someClient .called someReading s.shared).2⟩ :
        State Db Sent Phase Answer Bool) = _
    rw [hcalled]
    rfl
  have hsecond : u.flying true = some (r, .choosing) := by
    rw [hu]
    show Function.update (m.step s (.accept true r)).flying true (some (r, Phase.choosing)) true = _
    rw [update_self]
  refine ⟨m.step u (.advance true someReading),
    .ofActions s (served 0 (.register someClient) 2), ?_, ?_⟩
  · rw [machine_advance hsecond, hu]
    show (registerStep someConfig someClient .choosing someReading s.shared).1 = _
    rw [hchoosing]
  · rw [machine_advance hsecond, hu]
    show Function.update u.flying true
      (pending r (registerStep someConfig someClient .choosing someReading s.shared).2) true = _
    rw [update_self, hchoosing]
    rfl

/-- **A stranger's registration displaces a founder's sign-in**: when the clients are at capacity,
the oldest that nobody approved goes, and with it every pending request for it. -/
theorem not_promised_registered :
    ¬∀ s : State Db Sent Phase Answer Bool, (oauth someConfig).machine.Run Machine.Any (idle {}) s →
      Promised someConfig (fun _ _ _ _ => true) s := by
  intro hall
  let s := filedInLane.foldl (oauth someConfig).machine.step (idle {} : State Db Sent Phase Answer Bool)
  have hclients : s.shared.clients = [⟨.minted 0, ["https://client"], "", 1⟩] := by decide +kernel
  have hpending : ∀ y ∈ s.shared.pending, y.clientId = .minted 0 := by decide +kernel
  have hlane : ∃ x ∈ s.shared.pending, x.lane ≠ "" := by decide +kernel
  have happrovals : s.shared.approvals = [] := by decide +kernel
  have hcodes : s.shared.codes = [] := by decide +kernel
  obtain ⟨t, more, hrun, hlength, hcreated, ht⟩ := registered_many 9999 s (by rw [hclients]; decide)
  have hstale : t.shared.staleClient = some ⟨.minted 0, ["https://client"], "", 1⟩ := by
    rw [ht]
    exact staleClient_first happrovals hcodes (by rw [hclients]; rfl) hcreated
  have hfull : ¬t.shared.clients.length < maxClients := by
    rw [ht]
    show ¬(s.shared.clients ++ more).length < maxClients
    rw [hclients, List.length_append, hlength]
    decide
  obtain ⟨u, hrun', hu, hflying⟩ := registering_full hfull hstale
  have hsame : u.shared.pending = s.shared.pending := by rw [hu, ht]
  have hpromised := hall u ((Machine.Run.ofActions _ filedInLane).trans (hrun.trans hrun'))
  have hnext := hpromised.2 (.advance true someReading) (by
    show (u.flying true).all (fun _ => true) = true
    rw [hflying]
    rfl) _ _ hflying
  obtain ⟨x, hx, hne⟩ := hlane
  have hcause := hnext.lane x ⟨hsame ▸ hx, fun y hy => ?_⟩ hne
  · cases hcause
  · obtain ⟨hin, hother⟩ := List.mem_filter.1 hy
    exact absurd (hpending y (hsame ▸ hin)) (of_decide_eq_true hother)

end Runs

end ArchHub.Mcp

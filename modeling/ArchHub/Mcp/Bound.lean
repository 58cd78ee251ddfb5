import ArchHub.Mcp.Binding

/-!
# Every run binds

The record of a run warrants what the tables hold: every pending request was opened, and approved
and verified where its row says so; every code was given for a page, and every refresh token came
of such a code or of a founder's bearer.  A request that was taken is pending no more and yields
one code at most, because one worker holds it.
-/

namespace ArchHub.Mcp

open Lib Service List

/-! ## What the tables hold -/

/-- The row is of the page. -/
structure OfPage (r : Pending) (o : Opened) : Prop where
  id : r.id = o.id
  csrf : r.csrf = o.csrf
  browser : r.browser = o.secret
  clientId : r.clientId = o.args.clientId
  redirectUri : r.redirectUri = o.args.redirectUri
  codeChallenge : r.codeChallenge = o.args.codeChallenge
  state : r.state = o.args.state
  scope : r.scope = o.scope

/-- What the record says of a pending request. -/
structure Traced (cfg : Config) (log : List Entry) (r : Pending) (o : Opened) : Prop where
  page : OfPage r o
  opened : ∃ m ∈ log, Opens m o
  approved : r.approved = true → ∃ m₁ m₂, [m₁, m₂].Sublist log ∧ Opens m₁ o ∧ Approves cfg m₂ o
  verified : ∀ email, r.verifiedEmail = some email → ∃ value, r.continueSecret = some value ∧
    Identified cfg log o email value

/-- The pending requests are of pages that were shown, each of its own. -/
structure Filed (cfg : Config) (db : Db) (log : List Entry) : Prop where
  nodup : (db.pending.map Pending.id).Nodup
  below : ∀ r ∈ db.pending, r.id < db.drawn
  traced : ∀ r ∈ db.pending, ∃ o, Traced cfg log r o
  pages : ∀ m ∈ log, ∀ o, Opens m o → o.id < db.drawn
  unique : ∀ m ∈ log, ∀ m' ∈ log, ∀ o o', Opens m o → Opens m' o' → o.id = o'.id → o = o'

/-- A request that yielded a code is pending no more, and yields no other. -/
structure Counted (db : Db) (log : List Entry) : Prop where
  once : ∀ id, log.countP (mintsFor id) ≤ 1
  ended : ∀ id, log.countP (mintsFor id) ≠ 0 → id < db.drawn ∧ ∀ r ∈ db.pending, r.id ≠ id

/-- The code was given for a page. -/
def Coded (cfg : Config) (log : List Entry) (c : Code) : Prop :=
  ∃ o email, Minted cfg log o email c.code ∧ c.clientId = o.args.clientId ∧
    c.redirectUri = o.args.redirectUri ∧ c.codeChallenge = o.args.codeChallenge ∧
    c.scope = o.scope ∧ c.userId = cfg.account email

/-- The refresh token came of a code, or of a founder's bearer. -/
def Rooted (cfg : Config) (log : List Entry) (k : Token) : Prop :=
  (∃ userId, Lineage log (Bears userId) k.token) ∨
    ∃ o email, Lineage log (Redeems cfg log o email) k.token ∧ k.clientId = o.args.clientId ∧
      k.scope = o.scope ∧ k.userId = cfg.account email

/-- Codes and refresh tokens were given rightfully. -/
structure Granted (cfg : Config) (db : Db) (log : List Entry) : Prop where
  codes : ∀ c ∈ db.codes, Coded cfg log c
  tokens : ∀ k ∈ db.tokens, k.kind = .refresh → Rooted cfg log k

/-- What every run keeps. -/
structure Bound (cfg : Config) (db : Db) (log : List Entry) : Prop where
  grants : Grants db
  filed : Filed cfg db log
  counted : Counted db log
  granted : Granted cfg db log
  rightful : Warranted (Rightful cfg) log

/-! ## Entries that give nothing -/

/-- The answer shows no page and gives neither a code nor tokens. -/
def plain : Phase ⊕ Answer → Bool
  | .inr (.page ..) => false
  | .inr (.code ..) => false
  | .inr (.tokens ..) => false
  | _ => true

section Entries

variable {cfg : Config} {db t : Db} {log : List Entry} {m : Entry} {o o' : Opened}

theorem not_opens (h : plain m.outcome = true) : ¬Opens m o := by
  rintro ⟨-, client, hout⟩
  rw [hout] at h
  cases h

theorem not_mintsFor (h : plain m.outcome = true) (id : ℕ) : mintsFor id m = false := by
  unfold mintsFor
  split
  · rename_i hout
    rw [hout] at h
    cases h
  · rfl

theorem rightful_plain (h : plain m.outcome = true) : Rightful cfg log m where
  code redirectUri code state hout := by
    rw [hout] at h
    cases h
  tokens access refresh ttl scope hout := by
    rw [hout] at h
    cases h

/-- An entry shows one page. -/
theorem Opens.unique (h : Opens m o) (h' : Opens m o') : o = o' := by
  obtain ⟨hreq, client, hout⟩ := h
  obtain ⟨hreq', client', hout'⟩ := h'
  rw [hreq] at hreq'
  rw [hout] at hout'
  obtain ⟨browser, args, id, csrf, secret, scope⟩ := o
  obtain ⟨browser', args', id', csrf', secret', scope'⟩ := o'
  simp only [Sent.mk.injEq, Request.authorize.injEq] at hreq'
  simp only [Sum.inr.injEq, Answer.page.injEq] at hout'
  obtain ⟨rfl, rfl⟩ := hreq'
  obtain ⟨rfl, rfl, rfl, -, -, rfl⟩ := hout'
  rfl

end Entries

/-! ## What steps keep -/

section Keeping

variable {cfg : Config} {db t : Db} {log log' : List Entry} {m : Entry} {r : Pending} {o : Opened}

theorem Traced.mono (hlog : log.Sublist log') (h : Traced cfg log r o) : Traced cfg log' r o where
  page := h.page
  opened := by
    obtain ⟨m, hm, ho⟩ := h.opened
    exact ⟨m, hlog.subset hm, ho⟩
  approved ha := by
    obtain ⟨m₁, m₂, hsub, hrest⟩ := h.approved ha
    exact ⟨m₁, m₂, hsub.trans hlog, hrest⟩
  verified email he := by
    obtain ⟨value, hvalue, hid⟩ := h.verified email he
    exact ⟨value, hvalue, hid.mono hlog⟩

theorem Coded.mono {c : Code} (hlog : log.Sublist log') (h : Coded cfg log c) :
    Coded cfg log' c := by
  obtain ⟨o, email, hminted, hrest⟩ := h
  exact ⟨o, email, hminted.mono hlog, hrest⟩

theorem Rooted.mono {k : Token} (hlog : log.Sublist log') (h : Rooted cfg log k) :
    Rooted cfg log' k := by
  rcases h with ⟨userId, hline⟩ | ⟨o, email, hline, hrest⟩
  · exact Or.inl ⟨userId, hline.mono hlog fun _ => id⟩
  · exact Or.inr ⟨o, email, hline.mono hlog fun _ hr => hr.mono hlog, hrest⟩

/-- What a code is for does not change when it is taken. -/
theorem Coded.issued {c c' : Code} (h : Coded cfg log c) (hissued : c'.issued = c.issued) :
    Coded cfg log c' := by
  obtain ⟨o, email, hminted, hclient, hredirect, hchallenge, hscope, huser⟩ := h
  have hcode : c'.code = c.code := (Code.issued_eq hissued).1
  refine ⟨o, email, hcode ▸ hminted, ?_, ?_, ?_, ?_, ?_⟩
  · exact (congrArg Code.clientId hissued).trans hclient
  · exact (congrArg Code.redirectUri hissued).trans hredirect
  · exact (congrArg Code.codeChallenge hissued).trans hchallenge
  · exact (congrArg Code.scope hissued).trans hscope
  · exact (congrArg Code.userId hissued).trans huser

theorem Rooted.issued {k k' : Token} (h : Rooted cfg log k) (hissued : k'.issued = k.issued) :
    Rooted cfg log k' := by
  have htoken : k'.token = k.token := (Token.issued_eq hissued).1
  rcases h with ⟨userId, hline⟩ | ⟨o, email, hline, hclient, hscope, huser⟩
  · exact Or.inl ⟨userId, htoken ▸ hline⟩
  · exact Or.inr ⟨o, email, htoken ▸ hline, (congrArg Token.clientId hissued).trans hclient,
      (congrArg Token.scope hissued).trans hscope, (congrArg Token.userId hissued).trans huser⟩

/-- The pages of a longer record. -/
theorem Filed.entry (h : Filed cfg db log) (hm : ∀ o, ¬Opens m o) : Filed cfg db (log ++ [m]) := by
  have hold : ∀ m' ∈ log ++ [m], ∀ o, Opens m' o → m' ∈ log := fun m' hm' o ho => by
    rcases List.mem_append.1 hm' with hin | hlast
    · exact hin
    · rw [List.mem_singleton.1 hlast] at ho
      exact absurd ho (hm o)
  refine ⟨h.nodup, h.below, fun r hr => ?_, fun m' hm' o ho => h.pages m' (hold m' hm' o ho) o ho,
    fun m₁ hm₁ m₂ hm₂ o o' ho ho' => h.unique m₁ (hold m₁ hm₁ o ho) m₂ (hold m₂ hm₂ o' ho') o o' ho ho'⟩
  obtain ⟨o, ho⟩ := h.traced r hr
  exact ⟨o, ho.mono (sublist_append_left log [m])⟩

theorem Counted.entry (h : Counted db log) (hm : ∀ id, mintsFor id m = false) :
    Counted db (log ++ [m]) := by
  have hcount : ∀ id, (log ++ [m]).countP (mintsFor id) = log.countP (mintsFor id) := fun id => by
    rw [countP_append, countP_singleton, hm id]
    rfl
  exact ⟨fun id => (hcount id).trans_le (h.once id), fun id hid => h.ended id (hcount id ▸ hid)⟩

theorem Granted.entry (h : Granted cfg db log) : Granted cfg db (log ++ [m]) where
  codes c hc := (h.codes c hc).mono (sublist_append_left log [m])
  tokens k hk hkind := (h.tokens k hk hkind).mono (sublist_append_left log [m])

/-- An entry that gives nothing. -/
theorem Bound.entry (h : Bound cfg db log) (hm : plain m.outcome = true) :
    Bound cfg db (log ++ [m]) where
  grants := h.grants
  filed := h.filed.entry fun _ => not_opens hm
  counted := h.counted.entry (not_mintsFor hm)
  granted := h.granted.entry
  rightful := h.rightful.concat (rightful_plain hm)

/-- Filing a request. -/
theorem Bound.insert (h : Bound cfg db log) {f : Filing} {now : ℤ} {b : ℕ}
    (hreq : m.request = ⟨b, .authorize f.args⟩) (hout : m.outcome = .inr (f.insert cfg now db).2) :
    Bound cfg (f.insert cfg now db).1 (log ++ [m]) := by
  let o : Opened := ⟨b, f.args, db.drawn, db.drawn + 1, db.drawn + 2, f.granted⟩
  have hopens : Opens m o := ⟨hreq, f.client.clientName, hout⟩
  have hsame : SameGrants db (f.insert cfg now db).1 := ⟨rfl, rfl, rfl, Nat.le_add_right _ 3⟩
  have hdrawn : (f.insert cfg now db).1.drawn = db.drawn + 3 := rfl
  have hmem : ∀ r ∈ (f.insert cfg now db).1.pending, r ∈ db.pending ∨ r = f.row cfg db.drawn now :=
    fun r hr => by
      rcases List.mem_append.1 hr with hold | hlast
      · exact Or.inl hold
      · exact Or.inr (List.mem_singleton.1 hlast)
  have hpage : ∀ m' ∈ log ++ [m], ∀ o', Opens m' o' → (m' ∈ log ∧ o'.id < db.drawn) ∨ o' = o :=
    fun m' hm' o' ho' => by
      rcases List.mem_append.1 hm' with hold | hlast
      · exact Or.inl ⟨hold, h.filed.pages m' hold o' ho'⟩
      · rw [List.mem_singleton.1 hlast] at ho'
        exact Or.inr (ho'.unique hopens)
  have hnone : ∀ id, mintsFor id m = false := fun id => by
    unfold mintsFor
    rw [hout]
    split
    · rename_i heq
      cases heq
    · rfl
  refine ⟨h.grants.ofSame hsame, ⟨?_, fun r hr => ?_, fun r hr => ?_, fun m' hm' o' ho' => ?_,
    fun m₁ hm₁ m₂ hm₂ o₁ o₂ ho₁ ho₂ heq => ?_⟩, ⟨(h.counted.entry hnone).once, fun id hid => ?_⟩, ?_, ?_⟩
  · show ((db.pending ++ [f.row cfg db.drawn now]).map Pending.id).Nodup
    rw [map_append, nodup_append]
    refine ⟨h.filed.nodup, nodup_singleton _, ?_⟩
    intro a ha b hb hab
    obtain ⟨r, hr, rfl⟩ := List.mem_map.1 ha
    have hlt := h.filed.below r hr
    have hb' : b = db.drawn := List.mem_singleton.1 hb
    omega
  · rcases hmem r hr with hold | rfl
    · have hlt := h.filed.below r hold
      omega
    · show db.drawn < db.drawn + 3
      omega
  · rcases hmem r hr with hold | rfl
    · obtain ⟨o', ho'⟩ := h.filed.traced r hold
      exact ⟨o', ho'.mono (sublist_append_left log [m])⟩
    · refine ⟨o, ⟨rfl, rfl, rfl, rfl, rfl, rfl, rfl, rfl⟩, ⟨m, ?_, hopens⟩, fun ha => ?_, fun e he => ?_⟩
      · exact mem_append_right _ (mem_singleton_self m)
      · cases ha
      · cases he
  · rcases hpage m' hm' o' ho' with ⟨-, hlt⟩ | rfl
    · omega
    · show db.drawn < db.drawn + 3
      omega
  · rcases hpage m₁ hm₁ o₁ ho₁ with ⟨hin₁, hlt₁⟩ | rfl
    · rcases hpage m₂ hm₂ o₂ ho₂ with ⟨hin₂, -⟩ | rfl
      · exact h.filed.unique m₁ hin₁ m₂ hin₂ o₁ o₂ ho₁ ho₂ heq
      · have hid : o₁.id = db.drawn := heq
        omega
    · rcases hpage m₂ hm₂ o₂ ho₂ with ⟨-, hlt₂⟩ | rfl
      · have hid : db.drawn = o₂.id := heq
        omega
      · rfl
  · obtain ⟨hlt, hold⟩ := (h.counted.entry hnone).ended id hid
    refine ⟨hlt.trans_le hsame.drawn, fun r hr => ?_⟩
    rcases hmem r hr with hin | rfl
    · exact hold r hin
    · show db.drawn ≠ id
      omega
  · exact ⟨(h.granted.entry (m := m)).codes, (h.granted.entry (m := m)).tokens⟩
  · refine h.rightful.concat ⟨fun _ _ _ hcode => ?_, fun _ _ _ _ htokens => ?_⟩
    · rw [hout] at hcode
      cases hcode
    · rw [hout] at htokens
      cases htokens

/-- One row changes, and keeps what it is of. -/
theorem Bound.update (h : Bound cfg db log) {id : ℕ} {g : Pending → Pending}
    (hpending : t.pending = Rows.update Pending.id id g db.pending) (hsame : SameGrants db t)
    (hid : ∀ r, (g r).id = r.id)
    (hg : ∀ r ∈ db.pending, r.id = id → ∃ o, Traced cfg log (g r) o) : Bound cfg t log := by
  have hids : t.pending.map Pending.id = db.pending.map Pending.id := by
    rw [hpending, Rows.update, map_map]
    refine map_congr_left fun r _ => ?_
    rw [Function.comp_apply]
    split
    · exact hid r
    · rfl
  have hmem : ∀ r ∈ t.pending, ∃ x ∈ db.pending, x.id = r.id ∧
      (r = x ∨ x.id = id ∧ r = g x) := fun r hr => by
    rw [hpending] at hr
    obtain ⟨x, hx, rfl⟩ := List.mem_map.1 hr
    refine ⟨x, hx, ?_⟩
    split
    · rename_i heq
      exact ⟨(hid x).symm, Or.inr ⟨heq, rfl⟩⟩
    · exact ⟨rfl, Or.inl rfl⟩
  refine ⟨h.grants.ofSame hsame, ⟨hids ▸ h.filed.nodup, fun r hr => ?_, fun r hr => ?_,
    fun m hm o ho => (h.filed.pages m hm o ho).trans_le hsame.drawn, h.filed.unique⟩,
    ⟨h.counted.once, fun i hi => ?_⟩,
    ⟨fun c hc => h.granted.codes c (hsame.codes ▸ hc),
      fun k hk => h.granted.tokens k (hsame.tokens ▸ hk)⟩, h.rightful⟩
  · obtain ⟨x, hx, hxid, -⟩ := hmem r hr
    exact hxid ▸ (h.filed.below x hx).trans_le hsame.drawn
  · obtain ⟨x, hx, -, rfl | ⟨heq, rfl⟩⟩ := hmem r hr
    · exact h.filed.traced r hx
    · exact hg x hx heq
  · obtain ⟨hlt, hnone⟩ := h.counted.ended i hi
    refine ⟨hlt.trans_le hsame.drawn, fun r hr => ?_⟩
    obtain ⟨x, hx, hxid, -⟩ := hmem r hr
    exact hxid ▸ hnone x hx

/-- The request was taken, and has yielded nothing so far. -/
structure Gone (db : Db) (log : List Entry) (id : ℕ) : Prop where
  below : id < db.drawn
  ended : ∀ r ∈ db.pending, r.id ≠ id
  none : log.countP (mintsFor id) = 0

/-- Giving a code. -/
theorem Bound.mint (h : Bound cfg db log) {row : Pending} {now : ℤ} {email : String}
    (hgone : Gone db log row.id) (hpage : OfPage row o) (hauth : Authorized cfg log o email)
    (hm : Mints cfg m o email db.drawn) (hfor : ∀ id, mintsFor id m = true → id = row.id) :
    Bound cfg (db.mint row (cfg.account email) now) (log ++ [m]) := by
  have hsub := sublist_append_left log [m]
  have hout : ∃ redirectUri code state, m.outcome = .inr (.code redirectUri code state) := by
    obtain ⟨q, row', -, -, -, hcode⟩ := hm
    exact ⟨_, _, _, hcode⟩
  obtain ⟨redirectUri, code, state, hout⟩ := hout
  have hopens : ∀ o, ¬Opens m o := fun o ⟨_, client, hpage⟩ => by
    rw [hout] at hpage
    cases hpage
  have hcount : ∀ id, (log ++ [m]).countP (mintsFor id)
      = log.countP (mintsFor id) + if mintsFor id m then 1 else 0 := fun id => by
    rw [countP_append, countP_singleton]
  have hdrawn : (db.mint row (cfg.account email) now).drawn = db.drawn + 2 := rfl
  have hfewer : Fewer db (db.mint row (cfg.account email) now) :=
    .still rfl rfl rfl (Nat.le_add_right _ 2)
  refine ⟨h.grants.mint, ?_, ⟨fun id => ?_, fun id hid => ?_⟩, ⟨fun c hc => ?_, fun k hk hkind => ?_⟩,
    h.rightful.concat ⟨fun _ _ _ hgiven => ?_, fun _ _ _ _ htokens => ?_⟩⟩
  · have hfiled := h.filed.entry hopens
    exact ⟨hfiled.nodup, fun r hr => (hfiled.below r hr).trans_le hfewer.drawn, hfiled.traced,
      fun m' hm' o' ho' => (hfiled.pages m' hm' o' ho').trans_le hfewer.drawn, hfiled.unique⟩
  · rw [hcount id]
    by_cases hid : mintsFor id m = true
    · rw [if_pos hid, hfor id hid, hgone.none]
    · rw [if_neg hid]
      exact h.counted.once id
  · by_cases hfirst : mintsFor id m = true
    · obtain rfl := hfor id hfirst
      exact ⟨hgone.below.trans_le hfewer.drawn, hgone.ended⟩
    · rw [hcount id, if_neg hfirst] at hid
      obtain ⟨hlt, hnone⟩ := h.counted.ended id hid
      exact ⟨hlt.trans_le hfewer.drawn, hnone⟩
  · rcases List.mem_append.1 hc with hold | hnew
    · exact (h.granted.codes c hold).mono hsub
    · obtain rfl := List.mem_singleton.1 hnew
      exact ⟨o, email, ⟨log, m, List.Sublist.refl _, hauth, hm⟩, hpage.clientId, hpage.redirectUri,
        hpage.codeChallenge, hpage.scope, rfl⟩
  · exact (h.granted.tokens k hk hkind).mono hsub
  · refine ⟨o, email, hauth, ?_⟩
    obtain ⟨q, row', hreq, hphase, hid, hcode⟩ := hm
    rw [hcode] at hgiven
    cases hgiven
    exact ⟨q, row', hreq, hphase, hid, hcode⟩
  · rw [hout] at htokens
    cases htokens

/-- Of the codes and tokens nothing changed but that they were taken. -/
structure Took (db t : Db) : Prop where
  codes : ∀ c' ∈ t.codes, ∃ c ∈ db.codes, c'.issued = c.issued
  tokens : ∀ k' ∈ t.tokens, ∃ k ∈ db.tokens, k'.issued = k.issued

theorem Took.refl (db : Db) : Took db db := ⟨fun c hc => ⟨c, hc, rfl⟩, fun k hk => ⟨k, hk, rfl⟩⟩

theorem Took.ofSame (h : SameGrants db t) : Took db t :=
  ⟨fun c hc => ⟨c, h.codes ▸ hc, rfl⟩, fun k hk => ⟨k, h.tokens ▸ hk, rfl⟩⟩

theorem Took.consumeCode (db : Db) (code : ℕ) (now : ℤ) : Took db (db.consumeCode code now) where
  codes c' hc' := by
    obtain ⟨c, hc, rfl⟩ := List.mem_map.1 hc'
    refine ⟨c, hc, ?_⟩
    split <;> rfl
  tokens k hk := ⟨k, hk, rfl⟩

theorem Took.consumeToken (db : Db) (token : ℕ) (now : ℤ) : Took db (db.consumeToken token now) where
  codes c hc := ⟨c, hc, rfl⟩
  tokens k' hk' := by
    obtain ⟨k, hk, rfl⟩ := List.mem_map.1 hk'
    refine ⟨k, hk, ?_⟩
    split <;> rfl

/-- Credentials that are taken. -/
theorem Bound.took (h : Bound cfg db log) (hgrants : Grants t) (hfewer : Fewer db t)
    (htook : Took db t) : Bound cfg t log where
  grants := hgrants
  filed := {
    nodup := h.filed.nodup.sublist (hfewer.pending.map _)
    below := fun r hr => (h.filed.below r (hfewer.pending.subset hr)).trans_le hfewer.drawn
    traced := fun r hr => h.filed.traced r (hfewer.pending.subset hr)
    pages := fun m hm o ho => (h.filed.pages m hm o ho).trans_le hfewer.drawn
    unique := h.filed.unique }
  counted := {
    once := h.counted.once
    ended := fun id hid => by
      obtain ⟨hlt, hnone⟩ := h.counted.ended id hid
      exact ⟨hlt.trans_le hfewer.drawn, hfewer.gone hnone⟩ }
  granted := {
    codes := fun c' hc' => by
      obtain ⟨c, hc, hissued⟩ := htook.codes c' hc'
      exact (h.granted.codes c hc).issued hissued
    tokens := fun k' hk' hkind => by
      obtain ⟨k, hk, hissued⟩ := htook.tokens k' hk'
      exact (h.granted.tokens k hk ((Token.issued_eq hissued).2.1.symm.trans hkind)).issued hissued }
  rightful := h.rightful

/-- Requests that end. -/
theorem Bound.fewer (h : Bound cfg db log) (hfewer : Fewer db t) (hsame : SameGrants db t) :
    Bound cfg t log := h.took (h.grants.ofSame hsame) hfewer (.ofSame hsame)

/-- Tokens that are given. -/
theorem Bound.tokens (h : Bound cfg db log) {holder : Holder} {ttl now ttl' : ℤ}
    {scope : List String} (hgrants : Grants (db.insertTokens holder ttl now))
    (hout : m.outcome = .inr (.tokens db.drawn (db.drawn + 1) ttl' scope)) (hm : Issued cfg log m)
    (hroot : Rooted cfg (log ++ [m]) (holder.token (db.drawn + 1) .refresh (now + refreshTtl))) :
    Bound cfg (db.insertTokens holder ttl now) (log ++ [m]) := by
  have hopens : ∀ o, ¬Opens m o := fun o ⟨_, client, hpage⟩ => by
    rw [hout] at hpage
    cases hpage
  have hnone : ∀ id, mintsFor id m = false := fun id => by
    unfold mintsFor
    rw [hout]
    split
    · rename_i heq
      cases heq
    · rfl
  have hgrow : db.drawn ≤ (db.insertTokens holder ttl now).drawn := Nat.le_add_right _ 2
  have hfiled := h.filed.entry hopens
  have hcounted := h.counted.entry hnone
  refine ⟨hgrants, ⟨hfiled.nodup, fun r hr => (hfiled.below r hr).trans_le hgrow, hfiled.traced,
      fun m' hm' o' ho' => (hfiled.pages m' hm' o' ho').trans_le hgrow, hfiled.unique⟩,
    ⟨hcounted.once, fun id hid => ?_⟩, ⟨(h.granted.entry (m := m)).codes, fun k hk hkind => ?_⟩,
    h.rightful.concat ⟨fun _ _ _ hcode => ?_, fun _ _ _ _ _ => hm⟩⟩
  · obtain ⟨hlt, hold⟩ := hcounted.ended id hid
    exact ⟨hlt.trans_le hgrow, hold⟩
  · rcases List.mem_append.1 hk with hold | hnew
    · exact (h.granted.entry (m := m)).tokens k hold hkind
    · rcases List.mem_pair.1 hnew with rfl | rfl
      · cases hkind
      · exact hroot
  · rw [hout] at hcode
    cases hcode

end Keeping

end ArchHub.Mcp

import ArchHub.Lib.Requests
import ArchHub.Lib.Rows
import ArchHub.Update.Release

/-!
# Sign-in codes

A verified sign-in mints a code that its client exchanges for a bearer token.  A code issued
with a challenge asks for the verifier of the challenge.

* `judge`: what `consume_code` makes of the row it read.
* `signIn`: the service of `issue_code` and `exchange_code`, statement by statement.  The row is
  read outside of any transaction and deleted later; nothing tests that the row was still there.
* `SpentOnce`: what is to hold of the codes and the answers; `spentOnce_of_run`: it holds in
  every run in which each code that is redeemed is still there when it is deleted, and no
  verifier makes the comparison raise.

The codes and tokens drawn from `secrets` never repeat: they are numbered as they are drawn.
-/

namespace ArchHub.Accounts.SignIn

open Lib Service List Nat

/-! ## The tables -/

/-- A row of `codes`. -/
structure Code where
  code : ℕ
  userId : String
  codeChallenge : String
  expiresAt : ℤ
deriving DecidableEq

/-- A row of `tokens`. -/
structure Token where
  token : ℕ
  userId : String
  createdAt : ℤ
  expiresAt : ℤ
deriving DecidableEq

structure Db where
  codes : List Code
  /-- The number of the next code. -/
  minted : ℕ
  tokens : List Token
  /-- The number of the next token. -/
  drawn : ℕ

def Db.empty : Db := ⟨[], 0, [], 0⟩

/-! ## Requests -/

/-- The arguments of `issue_code`, and the clock it reads. -/
structure IssueArgs where
  userId : String
  codeChallenge : String
  ttlSeconds : ℤ := 300
  now : ℤ

/-- The arguments of `exchange_code`, and the clock that the code is judged by. -/
structure ExchangeArgs where
  code : ℕ
  codeVerifier : String
  now : ℤ

inductive Request where
  | issue (q : IssueArgs)
  | exchange (q : ExchangeArgs)

inductive Answer where
  | code (code : ℕ)
  | session (token : ℕ) (expiresAt : ℤ) (plan : String)
  | none
  | raised
deriving DecidableEq

/-- Where a request is between two statements. -/
inductive Phase where
  | called
  /-- The code is to be deleted and the attempt refused. -/
  | discard
  /-- The code is to be deleted and its user signed in. -/
  | spend (userId : String)
  /-- `consume_code` returned the user. -/
  | redeemed (userId : String)
  /-- `issue_token` returned the token. -/
  | tokened (userId : String) (token : ℕ)
deriving DecidableEq

/-- What a step reads: the clock, and the plan of the user where there is such a user. -/
structure Reading where
  now : ℤ
  plan : Option String

/-! ## Judging a code -/

/-- `str.strip`. -/
def stripped (s : String) : String := String.ofList (Update.strip s.toList)

/-- `str.isascii`. -/
def ascii (s : String) : Bool := s.toList.all fun c => c.toNat < 128

/-- What becomes of an attempt. -/
inductive Verdict where
  | discard
  | spend
  | raise
deriving DecidableEq

section Judge

variable (s256 : String → String)

/-- `consume_code` on the row it read.  `s256` is the unpadded base64url text of the SHA-256
digest; `encode("ascii")` and `compare_digest` raise on a text that is not ASCII. -/
def judge (row : Code) (q : ExchangeArgs) : Verdict :=
  if row.expiresAt < q.now then .discard
  else if row.codeChallenge = "" then .spend
  else if stripped q.codeVerifier = "" then .discard
  else if !ascii (stripped q.codeVerifier) || !ascii row.codeChallenge then .raise
  else if row.codeChallenge = s256 (stripped q.codeVerifier) then .spend
  else .discard

/-- The verifier is the one the challenge was made of. -/
def Proves (challenge verifier : String) : Prop :=
  stripped verifier ≠ "" ∧ ascii (stripped verifier) = true ∧ challenge = s256 (stripped verifier)

/-! ## The service -/

/-- The row of an issued code. -/
def IssueArgs.row (i : IssueArgs) (code : ℕ) : Code :=
  ⟨code, i.userId, i.codeChallenge, i.now + i.ttlSeconds⟩

/-- `TOKEN_TTL_SECONDS`. -/
def tokenTtlSeconds : ℤ := 60 * 60 * 24 * 90

/-- `DELETE FROM codes WHERE code = ?`. -/
def Db.discard (db : Db) (code : ℕ) : Db := { db with codes := Rows.delete Code.code code db.codes }

/-- The next statement of a request. -/
def signInStep : Request → Phase → Reading → Db → Db × (Phase ⊕ Answer)
  | .issue i, .called, _, db =>
      ({ db with codes := db.codes ++ [i.row db.minted], minted := db.minted + 1 },
        .inr (.code db.minted))
  | .exchange q, .called, _, db => match Rows.select Code.code q.code db.codes with
      | none => (db, .inr .none)
      | some row => match judge s256 row q with
          | .discard => (db, .inl .discard)
          | .spend => (db, .inl (.spend row.userId))
          | .raise => (db, .inr .raised)
  | .exchange q, .discard, _, db => (db.discard q.code, .inr .none)
  | .exchange q, .spend u, _, db => (db.discard q.code, .inl (.redeemed u))
  | .exchange _, .redeemed u, i, db =>
      ({ db with
          tokens := db.tokens ++ [⟨db.drawn, u, i.now, i.now + tokenTtlSeconds⟩]
          drawn := db.drawn + 1 },
        .inl (.tokened u db.drawn))
  | .exchange _, .tokened _ token, i, db => match i.plan with
      | none => (db, .inr .none)
      | some plan => (db, .inr (.session token (i.now + tokenTtlSeconds) plan))
  -- issuing is one statement
  | .issue _, p, _, db => (db, .inl p)

/-- Issuing and exchanging codes by any number of requests. -/
def signIn : Service Db Request Phase Answer Reading where
  first _ := .called
  step := signInStep s256

end Judge

/-! ## What is to hold -/

/-- The attempt is answered with a session for this code. -/
def yields (c : ℕ) : Request × Answer → Bool
  | (.exchange q, .session ..) => q.code = c
  | _ => false

/-- The code was issued to this request. -/
def Issued (answered : List (Request × Answer)) (i : IssueArgs) (c : ℕ) : Prop :=
  (Request.issue i, Answer.code c) ∈ answered

/-- The attempt may redeem the code as it was issued: in time, and with the verifier of its
challenge if it has one. -/
def Entitled (s256 : String → String) (i : IssueArgs) (q : ExchangeArgs) : Prop :=
  q.now ≤ i.now + i.ttlSeconds ∧ (i.codeChallenge ≠ "" → Proves s256 i.codeChallenge q.codeVerifier)

/-- Sign-in codes are spent once. -/
structure SpentOnce (s256 : String → String) (db : Db) (answered : List (Request × Answer)) :
    Prop where
  /-- A code yields one session at most. -/
  once : ∀ c, answered.countP (yields c) ≤ 1
  /-- Only attempts that are in time and have the verifier get a session. -/
  entitled : ∀ i q token expiresAt plan, Issued answered i q.code →
    (Request.exchange q, Answer.session token expiresAt plan) ∈ answered → Entitled s256 i q
  /-- An attempt without the verifier leaves the code unusable. -/
  burned : ∀ before after i q a, answered = before ++ after → Issued before i q.code →
    i.codeChallenge ≠ "" → (Request.exchange q, a) ∈ after →
    ¬Proves s256 i.codeChallenge q.codeVerifier → ∀ row ∈ db.codes, row.code ≠ q.code

/-- The step does not make the comparison raise, and a code that is redeemed is there when it
is deleted. -/
def clean (s256 : String → String) (db : Db) : Request → Phase → Reading → Bool
  | .exchange q, .called, _ =>
      (Rows.select Code.code q.code db.codes).all fun row => judge s256 row q ≠ .raise
  | .exchange q, .spend _, _ => (Rows.select Code.code q.code db.codes).isSome
  | _, _, _ => true

/-! ## What one step keeps -/

variable {c : ℕ} {x : Request × Answer}

section Keeps

variable {s256 : String → String} {db db' : Db} {answered : List (Request × Answer)} {r : Request}
  {p : Phase} {out : Phase ⊕ Answer}

/-- Whoever the code was issued to, the attempt may redeem it. -/
def Cleared (s256 : String → String) (answered : List (Request × Answer)) (q : ExchangeArgs) :
    Prop := ∀ i, Issued answered i q.code → Entitled s256 i q

/-- The code has no row. -/
def Db.Lacks (db : Db) (c : ℕ) : Prop := ∀ row ∈ db.codes, row.code ≠ c

/-- An attempt that was answered left the code that had been issued without a row. -/
def Gone (db : Db) (answered : List (Request × Answer)) : Prop :=
  ∀ before after i q a, answered = before ++ after → Issued before i q.code →
    (Request.exchange q, a) ∈ after → db.Lacks q.code

/-- What every clean run keeps. -/
structure Kempt (s256 : String → String) (db : Db) (answered : List (Request × Answer)) :
    Prop where
  nodup : (db.codes.map Code.code).Nodup
  below : ∀ row ∈ db.codes, row.code < db.minted
  issued : ∀ i c, Issued answered i c → c < db.minted
  rows : ∀ row ∈ db.codes, ∀ i, Issued answered i row.code → row = i.row row.code
  unspent : ∀ c, ¬db.Lacks c ∨ db.minted ≤ c → answered.countP (yields c) = 0
  once : ∀ c, answered.countP (yields c) ≤ 1
  entitled : ∀ q token expiresAt plan,
    (Request.exchange q, Answer.session token expiresAt plan) ∈ answered →
      q.code < db.minted ∧ Cleared s256 answered q
  gone : Gone db answered

/-- The code of an attempt that is past deleting it. -/
def holds : Request × Phase → Option ℕ
  | (.exchange q, .redeemed _) => some q.code
  | (.exchange q, .tokened ..) => some q.code
  | _ => none

/-- Two requests do not hold one code. -/
def Apart (x y : Request × Phase) : Prop := ∀ c, holds x = some c → holds y ≠ some c

/-- What a request under way goes by. -/
def Sound (s256 : String → String) (db : Db) (answered : List (Request × Answer)) :
    Request → Phase → Prop
  | _, .called => True
  | .exchange q, .discard => q.code < db.minted
  | .exchange q, .spend _ => q.code < db.minted ∧ Cleared s256 answered q
  | .exchange q, .redeemed _ => q.code < db.minted ∧ Cleared s256 answered q ∧
      db.Lacks q.code ∧ answered.countP (yields q.code) = 0
  | .exchange q, .tokened .. => q.code < db.minted ∧ Cleared s256 answered q ∧
      db.Lacks q.code ∧ answered.countP (yields q.code) = 0
  | .issue _, _ => False

/-- What one clean step does. -/
inductive Effect (s256 : String → String) (db : Db) (answered : List (Request × Answer)) :
    Request → Phase → Db → Phase ⊕ Answer → Prop where
  | issued {i} : Effect s256 db answered (.issue i) .called
      { db with codes := db.codes ++ [i.row db.minted], minted := db.minted + 1 }
      (.inr (.code db.minted))
  | proceeds {r p t q} (hcodes : t.codes = db.codes) (hminted : t.minted = db.minted)
      (hsound : Sound s256 t answered r q) (hholds : holds (r, q) = holds (r, p)) :
      Effect s256 db answered r p t (.inl q)
  | refused {q p a} (hlacks : db.Lacks q.code) (ha : ∀ c, yields c (.exchange q, a) = false)
      (hcode : ∀ c, a ≠ .code c) : Effect s256 db answered (.exchange q) p db (.inr a)
  | discarded {q} : Effect s256 db answered (.exchange q) .discard (db.discard q.code) (.inr .none)
  | spent {q u} (hrow : ¬db.Lacks q.code) (hbelow : q.code < db.minted)
      (hcleared : Cleared s256 answered q) :
      Effect s256 db answered (.exchange q) (.spend u) (db.discard q.code) (.inl (.redeemed u))
  | yielded {q u token expiresAt plan} (hsound : Sound s256 db answered (.exchange q)
      (.tokened u token)) : Effect s256 db answered (.exchange q) (.tokened u token) db
      (.inr (.session token expiresAt plan))

/-- A code that is judged good may be redeemed by the attempt. -/
theorem entitled_of_judge {i : IssueArgs} {q : ExchangeArgs} (h : judge s256 (i.row c) q = .spend) :
    Entitled s256 i q := by
  unfold judge at h
  have hrow : (i.row c).expiresAt = i.now + i.ttlSeconds := rfl
  have hchallenge : (i.row c).codeChallenge = i.codeChallenge := rfl
  rw [hrow, hchallenge] at h
  split at h
  · cases h
  · rename_i hlive
    refine ⟨not_lt.1 hlive, fun hne => ?_⟩
    rw [if_neg hne] at h
    split at h
    · cases h
    · rename_i hverifier
      split at h
      · cases h
      · rename_i hascii
        split at h
        · rename_i hproof
          refine ⟨hverifier, ?_, hproof⟩
          simp only [Bool.or_eq_true, Bool.not_eq_true', not_or, Bool.not_eq_false] at hascii
          exact hascii.1
        · cases h

theorem lacks_of_select (h : Rows.select Code.code c db.codes = none) : db.Lacks c :=
  fun row hrow => Rows.select_eq_none.1 h row hrow

theorem not_lacks_of_select {row : Code} (h : Rows.select Code.code c db.codes = some row) :
    ¬db.Lacks c := fun hlacks => hlacks row (Rows.mem_of_select h) (Rows.key_of_select h)

/-- **Every clean step has one of these effects.** -/
theorem signInStep_effect {i : Reading} (h : Kempt s256 db answered)
    (hs : Sound s256 db answered r p) (hclean : clean s256 db r p i = true) :
    Effect s256 db answered r p (signInStep s256 r p i db).1 (signInStep s256 r p i db).2 := by
  cases r with
  | issue q =>
      cases p with
      | called => exact .issued
      | discard => exact hs.elim
      | spend u => exact hs.elim
      | redeemed u => exact hs.elim
      | tokened u token => exact hs.elim
  | exchange q =>
      cases p with
      | called =>
          unfold signInStep
          unfold clean at hclean
          dsimp only at hclean ⊢
          cases hselect : Rows.select Code.code q.code db.codes with
          | none =>
              exact .refused (lacks_of_select hselect) (fun _ => rfl) fun _ hc => by cases hc
          | some row =>
              have hmem := Rows.mem_of_select hselect
              have hkey := Rows.key_of_select hselect
              have hbelow : q.code < db.minted := hkey ▸ h.below row hmem
              rw [hselect] at hclean
              dsimp only
              cases hjudge : judge s256 row q with
              | discard => exact .proceeds rfl rfl hbelow rfl
              | raise => simp [hjudge] at hclean
              | spend =>
                  refine .proceeds rfl rfl ⟨hbelow, fun i hi => ?_⟩ rfl
                  have hrow := h.rows row hmem i (hkey ▸ hi)
                  rw [hrow] at hjudge
                  exact entitled_of_judge hjudge
      | discard => exact .discarded
      | spend u =>
          have hsome : (Rows.select Code.code q.code db.codes).isSome = true := hclean
          obtain ⟨row, hrow⟩ := Option.isSome_iff_exists.1 hsome
          exact .spent (not_lacks_of_select hrow) hs.1 hs.2
      | redeemed u => exact .proceeds rfl rfl hs rfl
      | tokened u token =>
          unfold signInStep
          dsimp only
          cases i.plan with
          | none => exact .refused hs.2.2.1 (fun _ => rfl) fun _ hc => by cases hc
          | some plan => exact .yielded hs

/-- Codes are only deleted, but for new ones. -/
structure Later (db : Db) (answered : List (Request × Answer)) (t : Db)
    (answered' : List (Request × Answer)) : Prop where
  minted : db.minted ≤ t.minted
  codes : ∀ row ∈ t.codes, row ∈ db.codes ∨ db.minted ≤ row.code
  issued : ∀ i c, Issued answered' i c → Issued answered i c ∨ db.minted ≤ c

variable {t : Db} {answered' news : List (Request × Answer)}

theorem Later.cleared (h : Later db answered t answered') {q : ExchangeArgs}
    (hq : q.code < db.minted) (hcleared : Cleared s256 answered q) :
    Cleared s256 answered' q := by
  intro i hi
  rcases h.issued i q.code hi with hold | hnew
  · exact hcleared i hold
  · omega

theorem Later.lacks (h : Later db answered t answered') (hc : c < db.minted) (hlacks : db.Lacks c) :
    t.Lacks c := by
  intro row hrow heq
  rcases h.codes row hrow with hold | hnew
  · exact hlacks row hold heq
  · omega

theorem lacks_discard (c : ℕ) : (db.discard c).Lacks c := fun row hrow => by
  have hkept := List.mem_filter.1 hrow
  simpa using hkept.2

theorem codes_discard {row : Code} (h : row ∈ (db.discard c).codes) : row ∈ db.codes :=
  (List.mem_filter.1 h).1

theorem issued_append {i : IssueArgs} :
    Issued (answered ++ [x]) i c ↔ Issued answered i c ∨ x = (.issue i, .code c) := by
  unfold Issued
  rw [mem_append, mem_singleton, eq_comm (a := x)]

/-- An answer to an attempt issues nothing. -/
theorem issued_append_exchange {q : ExchangeArgs} {a : Answer} {i : IssueArgs} :
    Issued (answered ++ [(.exchange q, a)]) i c ↔ Issued answered i c := by
  rw [issued_append]
  exact or_iff_left fun h => by cases h

theorem Effect.later (h : Effect s256 db answered r p t out) :
    Later db answered t (answered ++ answers r out) := by
  cases h with
  | @issued i =>
      refine ⟨le_succ _, fun row hrow => ?_, fun j c hj => ?_⟩
      · rcases List.mem_append.1 hrow with hold | hnew
        · exact Or.inl hold
        · obtain rfl := List.mem_singleton.1 hnew
          exact Or.inr le_rfl
      · rcases issued_append.1 hj with hold | hnew
        · exact Or.inl hold
        · cases hnew
          exact Or.inr le_rfl
  | proceeds hcodes hminted hsound hholds =>
      refine ⟨hminted.ge, fun row hrow => Or.inl (hcodes ▸ hrow), fun j c hj => ?_⟩
      rw [answers_inl, append_nil] at hj
      exact Or.inl hj
  | refused hlacks ha hcode =>
      exact ⟨le_rfl, fun row hrow => Or.inl hrow, fun j c hj =>
        Or.inl (issued_append_exchange.1 hj)⟩
  | discarded =>
      exact ⟨le_rfl, fun row hrow => Or.inl (codes_discard hrow), fun j c hj =>
        Or.inl (issued_append_exchange.1 hj)⟩
  | spent hrow hbelow hcleared =>
      refine ⟨le_rfl, fun row hrow => Or.inl (codes_discard hrow), fun j c hj => ?_⟩
      rw [answers_inl, append_nil] at hj
      exact Or.inl hj
  | yielded hsound =>
      exact ⟨le_rfl, fun row hrow => Or.inl hrow, fun j c hj =>
        Or.inl (issued_append_exchange.1 hj)⟩

/-- An attempt that is answered leaves its code without a row. -/
theorem Effect.lacks (h : Effect s256 db answered r p t out) {q : ExchangeArgs} {a : Answer}
    (hx : (Request.exchange q, a) ∈ answers r out) : t.Lacks q.code := by
  cases h with
  | issued => cases List.mem_singleton.1 hx
  | proceeds hcodes hminted hsound hholds => cases hx
  | refused hlacks ha hcode =>
      cases List.mem_singleton.1 hx
      exact hlacks
  | discarded =>
      cases List.mem_singleton.1 hx
      exact lacks_discard _
  | spent hrow hbelow hcleared => cases hx
  | yielded hsound =>
      cases List.mem_singleton.1 hx
      exact hsound.2.2.1

theorem Effect.gone (h : Effect s256 db answered r p t out) (hkempt : Kempt s256 db answered) :
    Gone t (answered ++ answers r out) := by
  intro before after i q a heq hissued hmem
  rcases List.append_eq_append_iff.1 heq with ⟨xs, -, hnews⟩ | ⟨xs, hold, hafter⟩
  · exact h.lacks (hnews ▸ mem_append_right xs hmem)
  · rcases List.mem_append.1 (hafter ▸ hmem) with hxs | hnew
    · have hbelow := hkempt.issued i q.code (hold ▸ mem_append_left xs hissued)
      exact h.later.lacks hbelow (hkempt.gone before xs i q a hold hissued hxs)
    · exact h.lacks hnew

/-- A code that has no row keeps what was answered on it. -/
theorem countP_append_of_false (h : yields c x = false) :
    (answered ++ [x]).countP (yields c) = answered.countP (yields c) := by
  rw [countP_append, countP_singleton, h]
  rfl

/-- A clean step that deletes rows and answers no session keeps the rest. -/
theorem Kempt.deleted (h : Kempt s256 db answered) (hsub : t.codes.Sublist db.codes)
    (hminted : t.minted = db.minted) (hgone : Gone t (answered ++ news))
    (hissued : ∀ i c, Issued (answered ++ news) i c → Issued answered i c)
    (hquiet : ∀ x ∈ news, ∀ c, yields c x = false) : Kempt s256 t (answered ++ news) := by
  have hcount : ∀ c, (answered ++ news).countP (yields c) = answered.countP (yields c) := by
    intro c
    have hnone : news.countP (yields c) = 0 :=
      List.countP_eq_zero.2 fun x hx => by rw [hquiet x hx c]; exact Bool.false_ne_true
    rw [countP_append, hnone, add_zero]
  have hlacks : ∀ c, ¬t.Lacks c → ¬db.Lacks c := fun c hc hdb =>
    hc fun row hrow => hdb row (hsub.subset hrow)
  refine ⟨h.nodup.sublist (hsub.map _), fun row hrow => ?_, fun i c hi => ?_,
    fun row hrow i hi => h.rows row (hsub.subset hrow) i (hissued i _ hi), fun c hc => ?_,
    fun c => ?_, fun q token expiresAt plan hmem => ?_, hgone⟩
  · rw [hminted]
    exact h.below row (hsub.subset hrow)
  · rw [hminted]
    exact h.issued i c (hissued i c hi)
  · rw [hcount c]
    exact h.unspent c (hc.imp (hlacks c) fun hle => hminted ▸ hle)
  · rw [hcount c]
    exact h.once c
  · rcases List.mem_append.1 hmem with hold | hnew
    · obtain ⟨hbelow, hcleared⟩ := h.entitled q token expiresAt plan hold
      exact ⟨hminted ▸ hbelow, fun i hi => hcleared i (hissued i _ hi)⟩
    · have hyes : yields q.code (Request.exchange q, Answer.session token expiresAt plan) = true :=
        decide_eq_true rfl
      rw [hquiet _ hnew] at hyes
      cases hyes

section

variable (h : Effect s256 db answered r p t out)

include h

theorem Effect.kempt (hkempt : Kempt s256 db answered) :
    Kempt s256 t (answered ++ answers r out) := by
  have hgone := h.gone hkempt
  have hlater := h.later
  cases h with
  | @proceeds r p t q hcodes hminted hsound hholds =>
      refine hkempt.deleted (hcodes ▸ List.Sublist.refl _) hminted hgone (fun i c hi => ?_)
        fun x hx => by cases hx
      rwa [answers_inl, append_nil] at hi
  | refused hlacks ha hcode =>
      refine hkempt.deleted (List.Sublist.refl _) rfl hgone
        (fun i c hi => issued_append_exchange.1 hi) fun x hx c => ?_
      obtain rfl := List.mem_singleton.1 hx
      exact ha c
  | discarded =>
      refine hkempt.deleted filter_sublist rfl hgone
        (fun i c hi => issued_append_exchange.1 hi) fun x hx c => ?_
      obtain rfl := List.mem_singleton.1 hx
      rfl
  | spent hrow hbelow hcleared =>
      refine hkempt.deleted filter_sublist rfl hgone (fun i c hi => ?_) fun x hx => by cases hx
      rwa [answers_inl, append_nil] at hi
  | @issued i =>
      have hnew : ∀ j c, Issued (answered ++ [(.issue i, .code db.minted)]) j c →
          Issued answered j c ∨ j = i ∧ c = db.minted := fun j c hj => by
        rcases issued_append.1 hj with hold | hx
        · exact Or.inl hold
        · cases hx
          exact Or.inr ⟨rfl, rfl⟩
      have hcount : ∀ c, (answered ++ [(Request.issue i, Answer.code db.minted)]).countP (yields c)
          = answered.countP (yields c) := fun c => countP_append_of_false rfl
      refine ⟨?_, fun row hrow => ?_, fun j c hj => ?_, fun row hrow j hj => ?_, fun c hc => ?_,
        fun c => ?_, fun q token expiresAt plan hmem => ?_, hgone⟩
      · show ((db.codes ++ [i.row db.minted]).map Code.code).Nodup
        rw [map_append, nodup_append]
        refine ⟨hkempt.nodup, nodup_singleton _, fun c hc c' hc' heq => ?_⟩
        obtain ⟨row, hrow, rfl⟩ := List.mem_map.1 hc
        obtain rfl := List.mem_singleton.1 hc'
        exact (hkempt.below row hrow).ne heq
      · rcases List.mem_append.1 hrow with hold | hlast
        · exact (hkempt.below row hold).trans (lt_succ_self _)
        · obtain rfl := List.mem_singleton.1 hlast
          exact lt_succ_self _
      · rcases hnew j c hj with hold | ⟨-, rfl⟩
        · exact (hkempt.issued j c hold).trans (lt_succ_self _)
        · exact lt_succ_self _
      · rcases List.mem_append.1 hrow with hold | hlast
        · rcases hnew j _ hj with hj | ⟨-, heq⟩
          · exact hkempt.rows row hold j hj
          · exact absurd heq (hkempt.below row hold).ne
        · obtain rfl := List.mem_singleton.1 hlast
          rcases hnew j _ hj with hj | ⟨rfl, -⟩
          · exact absurd (hkempt.issued j _ hj) (lt_irrefl _)
          · rfl
      · rw [answers_inr, hcount c]
        apply hkempt.unspent c
        rcases hc with hhas | hle
        · by_cases hlt : c < db.minted
          · refine Or.inl fun hlacks => hhas ?_
            exact hlater.lacks hlt hlacks
          · exact Or.inr (not_lt.1 hlt)
        · exact Or.inr ((le_succ _).trans hle)
      · rw [answers_inr, hcount c]
        exact hkempt.once c
      · rcases List.mem_append.1 hmem with hold | hlast
        · obtain ⟨hbelow, hcleared⟩ := hkempt.entitled q token expiresAt plan hold
          exact ⟨hbelow.trans (lt_succ_self _), hlater.cleared hbelow hcleared⟩
        · cases List.mem_singleton.1 hlast
  | @yielded q u token expiresAt plan hsound =>
      obtain ⟨hbelow, hcleared, hlacks, hzero⟩ := hsound
      have hcount : ∀ c,
          (answered ++ [(Request.exchange q, Answer.session token expiresAt plan)]).countP
            (yields c) = answered.countP (yields c) + if q.code = c then 1 else 0 := fun c => by
        rw [countP_append, countP_singleton]
        simp only [yields, decide_eq_true_eq]
      refine ⟨hkempt.nodup, hkempt.below, fun i c hi =>
        hkempt.issued i c (issued_append_exchange.1 hi), fun row hrow i hi =>
        hkempt.rows row hrow i (issued_append_exchange.1 hi), fun c hc => ?_, fun c => ?_,
        fun q' token' expiresAt' plan' hmem => ?_, hgone⟩
      · have hne : q.code ≠ c := by
          rintro rfl
          rcases hc with hhas | hle
          · exact hhas hlacks
          · omega
        rw [answers_inr, hcount c, if_neg hne]
        exact hkempt.unspent c hc
      · rw [answers_inr, hcount c]
        by_cases heq : q.code = c
        · rw [if_pos heq, ← heq, hzero]
        · rw [if_neg heq]
          exact hkempt.once c
      · have hstill : ∀ q'' : ExchangeArgs, Cleared s256 answered q'' →
            Cleared s256 (answered ++ [(Request.exchange q,
              Answer.session token expiresAt plan)]) q'' :=
          fun q'' hq i hi => hq i (issued_append_exchange.1 hi)
        rcases List.mem_append.1 hmem with hold | hlast
        · obtain ⟨hbelow', hcleared'⟩ := hkempt.entitled q' token' expiresAt' plan' hold
          exact ⟨hbelow', hstill q' hcleared'⟩
        · cases List.mem_singleton.1 hlast
          exact ⟨hbelow, hstill q hcleared⟩

/-- What an answer says of a code that another request holds. -/
theorem Effect.countP (hapart : holds (r, p) ≠ some c) :
    (answered ++ answers r out).countP (yields c) = answered.countP (yields c) := by
  cases h with
  | issued => exact countP_append_of_false rfl
  | proceeds hcodes hminted hsound hholds => rw [answers_inl, append_nil]
  | refused hlacks ha hcode => exact countP_append_of_false (ha c)
  | discarded => exact countP_append_of_false rfl
  | spent hrow hbelow hcleared => rw [answers_inl, append_nil]
  | @yielded q u token expiresAt plan hsound =>
      apply countP_append_of_false
      exact decide_eq_false fun heq => hapart (congrArg some heq)

/-- What a request goes by survives the steps of the others. -/
theorem Effect.stable {r' : Request} {p' : Phase} (hs : Sound s256 db answered r' p')
    (hapart : Apart (r, p) (r', p')) : Sound s256 t (answered ++ answers r out) r' p' := by
  have hlater := h.later
  have hheld : ∀ c, holds (r', p') = some c →
      (answered ++ answers r out).countP (yields c) = answered.countP (yields c) := fun c hc =>
    h.countP fun hheld => hapart c hheld hc
  cases r' with
  | issue i => cases p' <;> exact hs
  | exchange q =>
      cases p' with
      | called => trivial
      | discard => exact hs.trans_le hlater.minted
      | spend u => exact ⟨hs.1.trans_le hlater.minted, hlater.cleared hs.1 hs.2⟩
      | redeemed u =>
          obtain ⟨hbelow, hcleared, hlacks, hzero⟩ := hs
          exact ⟨hbelow.trans_le hlater.minted, hlater.cleared hbelow hcleared,
            hlater.lacks hbelow hlacks, (hheld q.code rfl).trans hzero⟩
      | tokened u token =>
          obtain ⟨hbelow, hcleared, hlacks, hzero⟩ := hs
          exact ⟨hbelow.trans_le hlater.minted, hlater.cleared hbelow hcleared,
            hlater.lacks hbelow hlacks, (hheld q.code rfl).trans hzero⟩

/-- The next phase of a request is as it must be. -/
theorem Effect.sound (hkempt : Kempt s256 db answered) (q : Phase) (hq : out = .inl q) :
    Sound s256 t (answered ++ answers r out) r q := by
  cases h with
  | issued => cases hq
  | proceeds hcodes hminted hsound hholds =>
      cases hq
      rw [answers_inl, append_nil]
      exact hsound
  | refused hlacks ha hcode => cases hq
  | discarded => cases hq
  | spent hrow hbelow hcleared =>
      cases hq
      rw [answers_inl, append_nil]
      exact ⟨hbelow, hcleared, lacks_discard _, hkempt.unspent _ (Or.inl hrow)⟩
  | yielded hsound => cases hq

end

/-- A code that is held has no row, so nobody else comes to hold it. -/
theorem Sound.lacks (h : Sound s256 db answered r p) (hholds : holds (r, p) = some c) :
    db.Lacks c := by
  cases r with
  | issue i => cases p <;> cases hholds
  | exchange q =>
      cases p with
      | called => cases hholds
      | discard => cases hholds
      | spend u => cases hholds
      | redeemed u => exact Option.some.inj hholds ▸ h.2.2.1
      | tokened u token => exact Option.some.inj hholds ▸ h.2.2.1

theorem Effect.apart (h : Effect s256 db answered r p t out) {q : Phase} {y : Request × Phase}
    (hs : Sound s256 db answered y.1 y.2) (hapart : Apart (r, p) y) (hq : out = .inl q) :
    Apart (r, q) y := by
  cases h with
  | issued => cases hq
  | proceeds hcodes hminted hsound hholds =>
      cases hq
      intro c hc
      exact hapart c (hholds ▸ hc)
  | refused hlacks ha hcode => cases hq
  | discarded => cases hq
  | spent hrow hbelow hcleared =>
      cases hq
      intro c hc hy
      cases hc
      exact hrow (hs.lacks hy)
  | yielded hsound => cases hq

end Keeps

/-! ## Runs -/

section Runs

variable {W : Type} [DecidableEq W] {s256 : String → String}

theorem signIn_keeps : (signIn s256).Keeps (fun db r p i => clean s256 db r p i = true)
    (Kempt s256) (Sound s256) Apart where
  first r _ := by cases r <;> trivial
  symm h c hc hc' := h c hc' hc
  apart_first r _ c hc := by cases r <;> cases hc
  inv hclean hkempt hs := (signInStep_effect hkempt hs hclean).kempt hkempt
  next hclean hkempt hs hq := (signInStep_effect hkempt hs hclean).sound hkempt _ hq
  stable hclean hkempt hs hs' hapart := (signInStep_effect hkempt hs hclean).stable hs' hapart
  apart_next hclean hkempt hs hs' hapart hq :=
    (signInStep_effect hkempt hs hclean).apart hs' hapart hq

theorem kempt_empty : Kempt s256 Db.empty [] where
  nodup := nodup_nil
  below row hrow := by cases hrow
  issued i c hi := by cases hi
  rows row hrow := by cases hrow
  unspent _ _ := rfl
  once _ := Nat.zero_le 1
  entitled q token expiresAt plan hmem := by cases hmem
  gone before after i q a heq _ hmem := by
    rw [(List.append_eq_nil_iff.1 heq.symm).2] at hmem
    cases hmem

theorem Kempt.spentOnce {db : Db} {answered : List (Request × Answer)}
    (h : Kempt s256 db answered) : SpentOnce s256 db answered where
  once := h.once
  entitled i q token expiresAt plan hi hmem := (h.entitled q token expiresAt plan hmem).2 i hi
  burned before after i q a heq hi _ hmem _ := h.gone before after i q a heq hi hmem

/-- **Sign-in codes are spent once** in every run in which no verifier makes the comparison
raise, and every code that is redeemed is still there when it is deleted. -/
theorem spentOnce_of_run {s : State Db Request Phase Answer W}
    (h : (signIn s256).machine.Run (Admits fun db r p i => clean s256 db r p i = true)
      (idle Db.empty) s) : SpentOnce s256 s.shared s.answered :=
  (kept_of_run signIn_keeps h (Kept.idle kempt_empty)).inv.spentOnce

/-- A code is issued with a challenge; the second of two attempts has its verifier, but the
first one, which has another, deletes it before the second looks. -/
def burnedFirst : List (Action Request Reading Bool) :=
  let i : Reading := ⟨0, some "solo"⟩
  let verifier := "dBjftJeZ4CVP-mB92K27uhbUJU1p1r_wW1gFWFOEjXk"
  let challenge := "E9Melhoa2OwvFrEMTJguCHaoeK1t8URWbuGJSstw-cM"
  [.accept true (.issue { userId := "u", codeChallenge := challenge, now := 0 }),
    .advance true i, .accept true (.exchange ⟨0, "x", 1⟩),
    .accept false (.exchange ⟨0, verifier, 2⟩), .advance true i, .advance true i,
    .advance false i]

/-- The digest text of the two verifiers. -/
def s256Of (verifier : String) : String :=
  if verifier = "dBjftJeZ4CVP-mB92K27uhbUJU1p1r_wW1gFWFOEjXk" then
    "E9Melhoa2OwvFrEMTJguCHaoeK1t8URWbuGJSstw-cM"
  else "LXEWQrcmsEQBYnyp-6wy9chTD7GQPMTbAiWHF5IaSIE"

theorem spentOnce_burnedFirst :
    SpentOnce s256Of (burnedFirst.foldl (signIn s256Of).machine.step (idle Db.empty)).shared
      (burnedFirst.foldl (signIn s256Of).machine.step (idle Db.empty)).answered :=
  spentOnce_of_run (Machine.Run.ofWalk (fun _ => admits_of_admitted) (by decide +kernel))

/-- Two attempts read one code before either deletes it. -/
def redeemedTwice : List (Action Request Reading Bool) :=
  let i : Reading := ⟨0, some "solo"⟩
  let exchange : Request := .exchange ⟨0, "", 1⟩
  [.accept true (.issue { userId := "u", codeChallenge := "", now := 0 }), .advance true i,
    .accept true exchange, .accept false exchange, .advance true i, .advance false i,
    .advance true i, .advance false i, .advance true i, .advance false i, .advance true i,
    .advance false i]

/-- Both are answered with a session. -/
theorem not_spentOnce_redeemedTwice :
    ¬SpentOnce s256Of (redeemedTwice.foldl (signIn s256Of).machine.step (idle Db.empty)).shared
      (redeemedTwice.foldl (signIn s256Of).machine.step (idle Db.empty)).answered := by
  intro h
  have honce := h.once 0
  have htwice : (redeemedTwice.foldl (signIn s256Of).machine.step
      (idle Db.empty)).answered.countP (yields 0) = 2 := by decide +kernel
  omega

end Runs

end ArchHub.Accounts.SignIn

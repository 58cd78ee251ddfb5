import Mathlib
import ArchHub.Update.Release

/-!
# Test accounts

Synthetic accounts are told from real ones by their e-mail address: by a predicate over texts,
and by a condition of SQL that counts, hides and deletes their rows.

* `like`: `LIKE` of SQLite.
* `isTestAccountEmail`: the predicate; `testAccountSql`: the condition.
* `test_accounts_agree_iff`: **the addresses on which the two agree**.
* `test_accounts_differ`: three on which they do not.
-/

namespace ArchHub.Accounts

open List

/-! ## Patterns -/

/-- `text LIKE pattern`; the case of ASCII letters does not matter. -/
def like : List Char → List Char → Bool
  | [], text => text.isEmpty
  | p :: pattern, text =>
      if p = '%' then text.tails.any (like pattern)
      else match text with
        | [] => false
        | c :: rest => (decide (p = '_') || decide (p.toLower = c.toLower)) && like pattern rest

/-- A text without wildcards and without capital letters. -/
def Plain (text : List Char) : Prop := ∀ c ∈ text, c ≠ '%' ∧ c ≠ '_' ∧ c.toLower = c

instance (text : List Char) : Decidable (Plain text) :=
  inferInstanceAs (Decidable (∀ c ∈ text, _))

/-- A text without capital letters of ASCII. -/
def Lowered (text : List Char) : Prop := ∀ c ∈ text, c.toLower = c

variable {text : List Char} {p : Char}

theorem like_nil_iff : like [] text = true ↔ text = [] := List.isEmpty_iff

theorem like_percent (pattern text : List Char) :
    like ('%' :: pattern) text = text.tails.any (like pattern) := by
  unfold like
  exact if_pos rfl

theorem like_cons (hp : p ≠ '%') (pattern : List Char) (c : Char) (text : List Char) :
    like (p :: pattern) (c :: text) =
      ((decide (p = '_') || decide (p.toLower = c.toLower)) && like pattern text) := by
  conv_lhs => unfold like
  exact if_neg hp

theorem like_cons_nil (hp : p ≠ '%') (pattern : List Char) : like (p :: pattern) [] = false := by
  unfold like
  exact if_neg hp

theorem like_percent_iff {pattern : List Char} :
    like ('%' :: pattern) text = true ↔
      ∃ front rest, text = front ++ rest ∧ like pattern rest = true := by
  rw [like_percent, any_eq_true]
  constructor
  · rintro ⟨rest, hrest, hlike⟩
    obtain ⟨front, hfront⟩ := (mem_tails _ _).1 hrest
    exact ⟨front, rest, hfront.symm, hlike⟩
  · rintro ⟨front, rest, heq, hlike⟩
    exact ⟨rest, (mem_tails _ _).2 ⟨front, heq.symm⟩, hlike⟩

theorem like_append_iff {lit pattern text : List Char} (hlit : Plain lit) (htext : Lowered text) :
    like (lit ++ pattern) text = true ↔ ∃ rest, text = lit ++ rest ∧ like pattern rest = true := by
  induction lit generalizing text with
  | nil => exact ⟨fun h => ⟨text, rfl, h⟩, fun ⟨rest, heq, h⟩ => heq ▸ h⟩
  | cons p lit ih =>
    obtain ⟨hpercent, hunderscore, hlower⟩ := hlit p mem_cons_self
    have hplain : Plain lit := fun c hc => hlit c (mem_cons_of_mem _ hc)
    rw [cons_append]
    cases text with
    | nil =>
      rw [like_cons_nil hpercent]
      exact ⟨nofun, fun ⟨rest, heq, _⟩ => by cases heq⟩
    | cons c text =>
      have hc : c.toLower = c := htext c mem_cons_self
      have hih := ih hplain fun c hc => htext c (mem_cons_of_mem _ hc)
      rw [like_cons hpercent, decide_eq_false hunderscore, Bool.false_or, hlower, hc,
        Bool.and_eq_true, hih, decide_eq_true_iff]
      constructor
      · rintro ⟨rfl, rest, rfl, hlike⟩
        exact ⟨rest, rfl, hlike⟩
      · rintro ⟨rest, heq, hlike⟩
        obtain ⟨rfl, rfl⟩ := List.cons.inj heq
        exact ⟨rfl, rest, rfl, hlike⟩

variable {lit : List Char}

/-- `text LIKE '%lit%'`. -/
theorem like_infix_iff (hlit : Plain lit) (htext : Lowered text) :
    like ('%' :: (lit ++ ['%'])) text = true ↔ lit <:+: text := by
  rw [like_percent_iff]
  constructor
  · rintro ⟨front, rest, rfl, hlike⟩
    obtain ⟨back, rfl, -⟩ := (like_append_iff hlit fun c hc =>
      htext c (mem_append_right _ hc)).1 hlike
    exact ⟨front, back, append_assoc _ _ _⟩
  · rintro ⟨front, back, rfl⟩
    refine ⟨front, lit ++ back, append_assoc _ _ _, (like_append_iff hlit fun c hc => ?_).2
      ⟨back, rfl, like_percent_iff.2 ⟨back, [], (append_nil _).symm, rfl⟩⟩⟩
    rw [append_assoc] at htext
    exact htext c (mem_append_right _ hc)

/-- `text LIKE 'lit%'`. -/
theorem like_prefix_iff (hlit : Plain lit) (htext : Lowered text) :
    like (lit ++ ['%']) text = true ↔ lit <+: text := by
  rw [like_append_iff hlit htext]
  constructor
  · rintro ⟨rest, rfl, -⟩
    exact prefix_append _ _
  · rintro ⟨rest, rfl⟩
    exact ⟨rest, rfl, like_percent_iff.2 ⟨rest, [], (append_nil _).symm, rfl⟩⟩

/-- `text LIKE 'lit'`. -/
theorem like_plain_iff (hlit : Plain lit) (htext : Lowered text) :
    like lit text = true ↔ text = lit := by
  have happend := @like_append_iff lit [] text hlit htext
  rw [append_nil] at happend
  rw [happend]
  constructor
  · rintro ⟨rest, rfl, hnil⟩
    rw [like_nil_iff.1 hnil, append_nil]
  · rintro rfl
    exact ⟨[], (append_nil _).symm, rfl⟩

/-- `text LIKE '%lit'`. -/
theorem like_suffix_iff (hlit : Plain lit) (htext : Lowered text) :
    like ('%' :: lit) text = true ↔ ∃ front, text = front ++ lit := by
  rw [like_percent_iff]
  constructor
  · rintro ⟨front, rest, rfl, hlike⟩
    exact ⟨front, by rw [(like_plain_iff hlit fun c hc =>
      htext c (mem_append_right _ hc)).1 hlike]⟩
  · rintro ⟨front, rfl⟩
    exact ⟨front, lit, rfl, (like_plain_iff hlit fun c hc =>
      htext c (mem_append_right _ hc)).2 rfl⟩

/-! ## The two tests -/

/-- `_TEST_ACCOUNT_INTERNAL_DOMAIN`. -/
def internalDomain : String := "archhub.io"

/-- `_TEST_ACCOUNT_SUBSTRINGS`. -/
def testSubstrings : List String := ["+smoketest", "+test"]

/-- `_TEST_ACCOUNT_LOCALPART_PREFIXES`. -/
def testLocalpartPrefixes : List String := ["reality+", "smoketest", "test+", "test@"]

/-- `_TEST_ACCOUNT_DOMAINS`, sorted. -/
def testDomains : List String :=
  ["archhub-cockpit-test.com", "example.com", "example.org", "mailinator.com", "test.com"]

/-- `str.lower`, which leaves no capital letter of ASCII. -/
structure Casing where
  lower : List Char → List Char
  lowered : ∀ text, Lowered (lower text)

variable (casing : Casing) (protectedEmails : List (List Char)) {d : List Char} {front : List Char}

/-- `_norm_email`, which is also what `get_or_create_user` stores of an address. -/
def normEmail (email : List Char) : List Char := casing.lower (Update.strip email)

/-- `is_test_account_email`. -/
def isTestAccountEmail (email : List Char) : Bool :=
  let e := normEmail casing email
  if e.isEmpty || !e.contains '@' then false
  else if protectedEmails.contains e then false
  else
    let localPart := e.takeWhile (· ≠ '@')
    let domain := (e.dropWhile (· ≠ '@')).tail
    if testSubstrings.any fun s => decide (s.toList <:+: e) then true
    else if testLocalpartPrefixes.any fun p =>
        p.toList.isPrefixOf localPart || p.toList.isPrefixOf e then true
    else if testDomains.any fun d => decide (domain = d.toList) then true
    else decide (domain = internalDomain.toList) &&
      (localPart.contains '+' || "reality".toList.isPrefixOf localPart ||
        "smoketest".toList.isPrefixOf localPart || "test".toList.isPrefixOf localPart)

/-- Whether the condition of `_test_account_sql` selects the row of a stored address. -/
def testAccountSql (stored : List Char) : Bool :=
  let c := stored.map Char.toLower
  let likes (pattern : String) : Bool := like pattern.toList c
  (likes "%+smoketest%" || likes "%+test%" || likes "reality+%" || likes "smoketest%" ||
    likes "test+%" ||
    (likes ("%@" ++ internalDomain) &&
      (likes ("%+%@" ++ internalDomain) || likes ("reality%@" ++ internalDomain) ||
        likes ("smoketest%@" ++ internalDomain) || likes ("test%@" ++ internalDomain))) ||
    testDomains.any fun d => likes ("%@" ++ d)) &&
  !protectedEmails.contains c

/-! ## What decides -/

/-- A marker that both tests look for. -/
def Marked (e : List Char) : Prop :=
  "+smoketest".toList <:+: e ∨ "+test".toList <:+: e ∨ "reality+".toList <+: e ∨
    "smoketest".toList <+: e ∨ "test+".toList <+: e

/-- What looks synthetic in front of the internal domain. -/
def Synthetic (front : List Char) : Prop :=
  '+' ∈ front ∨ "reality".toList <+: front ∨ "smoketest".toList <+: front ∨ "test".toList <+: front

/-- What stands behind the last `@` is a throwaway domain, or the internal one behind something
that looks synthetic. -/
def Throwaway (e : List Char) : Prop :=
  (∃ d ∈ testDomains, ∃ front, e = front ++ '@' :: d.toList) ∨
    ∃ front, e = front ++ '@' :: internalDomain.toList ∧ Synthetic front

/-- The exact condition under which the two tests agree on a stored address. -/
def Agrees (e : List Char) : Prop :=
  e ∈ protectedEmails ∨ (Marked e ∧ '@' ∈ e) ∨
    (¬Marked e ∧ (Throwaway e → e.count '@' = 1 ∨ "test@".toList <+: e) ∧
      ("test@".toList <+: e → Throwaway e))

section

variable {protectedEmails} {e : List Char}

/-- What is split at the first `@`. -/
theorem split_at (h : '@' ∈ e) :
    e = e.takeWhile (· ≠ '@') ++ '@' :: (e.dropWhile (· ≠ '@')).tail := by
  have hparts := takeWhile_append_dropWhile (p := fun c => decide (c ≠ '@')) (l := e)
  rcases hrest : e.dropWhile (fun c => decide (c ≠ '@')) with _ | ⟨c, rest⟩
  · rw [hrest, append_nil] at hparts
    have hall := mem_takeWhile_imp (hparts ▸ h)
    simp at hall
  · have hc := List.head?_dropWhile_not (fun c => decide (c ≠ '@')) e
    rw [hrest] at hc hparts
    obtain rfl : c = '@' := by simpa using hc
    exact hparts.symm

theorem not_mem_takeWhile : '@' ∉ e.takeWhile (· ≠ '@') := by
  intro h
  have hall := mem_takeWhile_imp h
  simp at hall

/-- With one `@`, what stands behind the first one is what stands behind the last one. -/
theorem domain_iff (hat : '@' ∈ e) (hd : '@' ∉ d) :
    (e.dropWhile (· ≠ '@')).tail = d ↔ e.count '@' = 1 ∧ e = e.takeWhile (· ≠ '@') ++ '@' :: d := by
  have hsplit := split_at hat
  constructor
  · intro heq
    rw [heq] at hsplit
    refine ⟨?_, hsplit⟩
    rw [hsplit, count_append, count_cons_self, count_eq_zero_of_not_mem hd,
      count_eq_zero_of_not_mem not_mem_takeWhile]
  · rintro ⟨-, heq⟩
    have hboth := hsplit.symm.trans heq
    exact (List.cons.inj (append_cancel_left hboth)).2

/-- With one `@` nothing else stands in front of it. -/
theorem front_eq (hcount : e.count '@' = 1) (heq : e = front ++ '@' :: d) :
    front = e.takeWhile (· ≠ '@') := by
  have hfront : '@' ∉ front := by
    intro hmem
    have hpos := List.count_pos_iff.2 hmem
    rw [heq, count_append, count_cons_self] at hcount
    omega
  have hne : ∀ c ∈ front, decide (c ≠ '@') = true := by
    rintro c hc
    refine decide_eq_true ?_
    rintro rfl
    exact hfront hc
  rw [heq, takeWhile_append_of_pos hne, takeWhile_cons_of_neg (by simp),
    append_nil]

theorem ladder (a b c d : Bool) :
    (if a then true else if b then true else if c then true else d) = (a || b || c || d) := by
  cases a <;> cases b <;> cases c <;> rfl

/-- The domains that count, where there is an `@`. -/
theorem throwaway_iff (hat : '@' ∈ e) :
    ((∃ d ∈ testDomains, (e.dropWhile (· ≠ '@')).tail = d.toList) ∨
      (e.dropWhile (· ≠ '@')).tail = internalDomain.toList ∧
        Synthetic (e.takeWhile (· ≠ '@'))) ↔
      e.count '@' = 1 ∧ Throwaway e := by
  have hdomain : ∀ d ∈ testDomains, '@' ∉ d.toList := by simp [testDomains]
  have hinternal : '@' ∉ internalDomain.toList := by simp [internalDomain]
  constructor
  · rintro (⟨d, hd, heq⟩ | ⟨heq, hsynthetic⟩)
    · obtain ⟨hcount, he⟩ := (domain_iff hat (hdomain d hd)).1 heq
      exact ⟨hcount, .inl ⟨d, hd, _, he⟩⟩
    · obtain ⟨hcount, he⟩ := (domain_iff hat hinternal).1 heq
      exact ⟨hcount, .inr ⟨_, he, hsynthetic⟩⟩
  · rintro ⟨hcount, ⟨d, hd, front, he⟩ | ⟨front, he, hsynthetic⟩⟩
    · refine .inl ⟨d, hd, (domain_iff hat (hdomain d hd)).2 ⟨hcount, ?_⟩⟩
      rwa [← front_eq hcount he]
    · obtain hfront := front_eq hcount he
      refine .inr ⟨(domain_iff hat hinternal).2 ⟨hcount, ?_⟩, ?_⟩
      · rwa [← hfront]
      · rwa [← hfront]

theorem substrings_iff : (testSubstrings.any fun s => decide (s.toList <:+: e)) = true ↔
    "+smoketest".toList <:+: e ∨ "+test".toList <:+: e := by
  unfold testSubstrings
  rw [any_cons, any_cons, any_nil, Bool.or_false, Bool.or_eq_true,
    decide_eq_true_iff, decide_eq_true_iff]

theorem prefixes_iff : (testLocalpartPrefixes.any fun p =>
      p.toList.isPrefixOf (e.takeWhile (· ≠ '@')) || p.toList.isPrefixOf e) = true ↔
    "reality+".toList <+: e ∨ "smoketest".toList <+: e ∨ "test+".toList <+: e ∨
      "test@".toList <+: e := by
  -- what begins the local part begins the address
  have hlocal : ∀ p : List Char,
      (p.isPrefixOf (e.takeWhile (· ≠ '@')) || p.isPrefixOf e) = true ↔ p <+: e := by
    intro p
    rw [Bool.or_eq_true, isPrefixOf_iff_prefix, isPrefixOf_iff_prefix]
    exact ⟨fun h => h.elim (fun hp => hp.trans ( takeWhile_prefix _)) id, .inr⟩
  unfold testLocalpartPrefixes
  rw [any_cons, Bool.or_eq_true, hlocal, any_cons, Bool.or_eq_true, hlocal,
    any_cons, Bool.or_eq_true, hlocal, any_cons, any_nil, Bool.or_false, hlocal]

theorem synthetic_iff : (front.contains '+' ||
      "reality".toList.isPrefixOf front || "smoketest".toList.isPrefixOf front ||
      "test".toList.isPrefixOf front) = true ↔ Synthetic front := by
  unfold Synthetic
  rw [Bool.or_eq_true, Bool.or_eq_true, Bool.or_eq_true, contains_iff_mem,
    isPrefixOf_iff_prefix, isPrefixOf_iff_prefix, isPrefixOf_iff_prefix, or_assoc,
    or_assoc]

theorem domains_iff : (testDomains.any fun t => decide (d = t.toList)) = true ↔
    ∃ t ∈ testDomains, d = t.toList := by
  rw [any_eq_true]
  exact exists_congr fun t => and_congr_right fun _ => decide_eq_true_iff

theorem markers_iff {a b c d f g r : Prop} :
    (a ∨ b) ∨ (c ∨ d ∨ f ∨ g) ∨ r ↔ (a ∨ b ∨ c ∨ d ∨ f) ∨ g ∨ r := by
  tauto

/-- The predicate says yes where there is an `@`, to what is not protected. -/
theorem isTestAccountEmail_iff (casing : Casing) (email : List Char)
    (he : normEmail casing email = e) :
    isTestAccountEmail casing protectedEmails email = true ↔
      '@' ∈ e ∧ e ∉ protectedEmails ∧
        (Marked e ∨ "test@".toList <+: e ∨ e.count '@' = 1 ∧ Throwaway e) := by
  unfold isTestAccountEmail
  rw [he]
  dsimp only
  by_cases hat : '@' ∈ e
  · have hempty : e.isEmpty = false := by
      cases e with
      | nil => cases hat
      | cons c rest => rfl
    have hcontains : e.contains '@' = true := List.contains_iff_mem.2 hat
    rw [hempty, hcontains, Bool.not_true, Bool.or_false, if_neg Bool.false_ne_true, ladder]
    by_cases hprotected : e ∈ protectedEmails
    · rw [if_pos (List.contains_iff_mem.2 hprotected)]
      exact iff_of_false Bool.false_ne_true fun h => h.2.1 hprotected
    · rw [if_neg fun h => hprotected (List.contains_iff_mem.1 h), Bool.or_eq_true, Bool.or_eq_true,
        Bool.or_eq_true, Bool.and_eq_true, substrings_iff, prefixes_iff, domains_iff,
        synthetic_iff, decide_eq_true_iff, or_assoc, or_assoc, throwaway_iff hat, markers_iff]
      exact ⟨fun h => ⟨hat, hprotected, h⟩, fun h => h.2.2⟩
  · have hcontains : e.contains '@' = false := by
      rw [← Bool.not_eq_true]
      exact fun h => hat (List.contains_iff_mem.1 h)
    rw [hcontains, Bool.not_false, Bool.or_true, if_pos rfl]
    exact iff_of_false Bool.false_ne_true fun h => hat h.1

/-- `text LIKE 'lit%tail'`. -/
theorem like_between_iff {tail : List Char} (hlit : Plain lit) (htail : Plain tail)
    (h : Lowered e) :
    like (lit ++ '%' :: tail) e = true ↔ ∃ front, e = front ++ tail ∧ lit <+: front := by
  rw [like_append_iff hlit h]
  constructor
  · rintro ⟨rest, rfl, hlike⟩
    obtain ⟨mid, rfl⟩ := (like_suffix_iff htail fun c hc =>
      h c (mem_append_right _ hc)).1 hlike
    exact ⟨lit ++ mid, (append_assoc _ _ _).symm, prefix_append _ _⟩
  · rintro ⟨front, rfl, mid, rfl⟩
    rw [append_assoc] at h
    exact ⟨mid ++ tail, append_assoc _ _ _, (like_suffix_iff htail fun c hc =>
      h c (mem_append_right _ hc)).2 ⟨mid, rfl⟩⟩

/-- What the clause of the internal domain selects. -/
theorem internal_iff (h : Lowered e) :
    (like ("%@" ++ internalDomain).toList e &&
      (like ("%+%@" ++ internalDomain).toList e || like ("reality%@" ++ internalDomain).toList e ||
        like ("smoketest%@" ++ internalDomain).toList e ||
        like ("test%@" ++ internalDomain).toList e)) = true ↔
      ∃ front, e = front ++ '@' :: internalDomain.toList ∧ Synthetic front := by
  have hat : Plain ('@' :: internalDomain.toList) := by simp [Plain, internalDomain]
  have hfront : like ("%@" ++ internalDomain).toList e = true ↔
      ∃ front, e = front ++ '@' :: internalDomain.toList := by
    rw [show ("%@" ++ internalDomain).toList = '%' :: '@' :: internalDomain.toList by simp]
    exact like_suffix_iff hat h
  have hsign : Plain ['+'] := by simp [Plain]
  have hplus : like ("%+%@" ++ internalDomain).toList e = true ↔
      ∃ front, e = front ++ '@' :: internalDomain.toList ∧ '+' ∈ front := by
    rw [show ("%+%@" ++ internalDomain).toList =
      '%' :: (['+'] ++ '%' :: '@' :: internalDomain.toList) by simp]
    refine like_percent_iff.trans ⟨?_, ?_⟩
    · rintro ⟨front, rest, rfl, hlike⟩
      obtain ⟨mid, rfl, mid', rfl⟩ := (like_between_iff hsign hat fun c hc =>
        h c (mem_append_right _ hc)).1 hlike
      exact ⟨front ++ (['+'] ++ mid'), (append_assoc _ _ _).symm, by simp⟩
    · rintro ⟨front, rfl, hmem⟩
      obtain ⟨before, behind, rfl⟩ := append_of_mem hmem
      rw [append_assoc] at h ⊢
      exact ⟨before, _, rfl, (like_between_iff hsign hat fun c hc =>
        h c (mem_append_right _ hc)).2 ⟨'+' :: behind, rfl, behind, rfl⟩⟩
  have hbegins : ∀ {text lit : List Char},
      text = lit ++ '%' :: '@' :: internalDomain.toList → Plain lit → (like text e = true ↔
        ∃ front, e = front ++ '@' :: internalDomain.toList ∧ lit <+: front) := by
    rintro _ lit rfl hlit
    exact like_between_iff hlit hat h
  rw [Bool.and_eq_true, Bool.or_eq_true, Bool.or_eq_true, Bool.or_eq_true, hfront, hplus,
    @hbegins ("reality%@" ++ internalDomain).toList "reality".toList (by simp) (by simp [Plain]),
    @hbegins ("smoketest%@" ++ internalDomain).toList "smoketest".toList (by simp) (by simp [Plain]),
    @hbegins ("test%@" ++ internalDomain).toList "test".toList (by simp) (by simp [Plain])]
  constructor
  · rintro ⟨-, ((⟨front, he, hs⟩ | ⟨front, he, hs⟩) | ⟨front, he, hs⟩) | ⟨front, he, hs⟩⟩
    · exact ⟨front, he, .inl hs⟩
    · exact ⟨front, he, .inr (.inl hs)⟩
    · exact ⟨front, he, .inr (.inr (.inl hs))⟩
    · exact ⟨front, he, .inr (.inr (.inr hs))⟩
  · rintro ⟨front, he, hs⟩
    refine ⟨⟨front, he⟩, ?_⟩
    rcases hs with hs | hs | hs | hs
    · exact .inl (.inl (.inl ⟨front, he, hs⟩))
    · exact .inl (.inl (.inr ⟨front, he, hs⟩))
    · exact .inl (.inr ⟨front, he, hs⟩)
    · exact .inr ⟨front, he, hs⟩

/-- What the clauses of the markers select. -/
theorem marks_iff (h : Lowered e) :
    (like "%+smoketest%".toList e || like "%+test%".toList e || like "reality+%".toList e ||
      like "smoketest%".toList e || like "test+%".toList e) = true ↔ Marked e := by
  have hpart : ∀ {pattern lit : List Char}, pattern = '%' :: (lit ++ ['%']) → Plain lit →
      (like pattern e = true ↔ lit <:+: e) := by
    rintro _ lit rfl hlit
    exact like_infix_iff hlit h
  have hbegins : ∀ {pattern lit : List Char}, pattern = lit ++ ['%'] → Plain lit →
      (like pattern e = true ↔ lit <+: e) := by
    rintro _ lit rfl hlit
    exact like_prefix_iff hlit h
  unfold Marked
  rw [Bool.or_eq_true, Bool.or_eq_true, Bool.or_eq_true, Bool.or_eq_true,
    @hpart "%+smoketest%".toList "+smoketest".toList (by simp) (by simp [Plain]),
    @hpart "%+test%".toList "+test".toList (by simp) (by simp [Plain]),
    @hbegins "reality+%".toList "reality+".toList (by simp) (by simp [Plain]),
    @hbegins "smoketest%".toList "smoketest".toList (by simp) (by simp [Plain]),
    @hbegins "test+%".toList "test+".toList (by simp) (by simp [Plain]), or_assoc, or_assoc,
    or_assoc]

/-- The condition selects what is marked or thrown away and is not protected. -/
theorem testAccountSql_iff (h : Lowered e) :
    testAccountSql protectedEmails e = true ↔ (Marked e ∨ Throwaway e) ∧ e ∉ protectedEmails := by
  have hc : e.map Char.toLower = e := (map_congr_left h).trans (map_id _)
  have hdomains : (testDomains.any fun d => like ("%@" ++ d).toList e) = true ↔
      ∃ d ∈ testDomains, ∃ front, e = front ++ '@' :: d.toList := by
    have hplain : ∀ d ∈ testDomains, Plain ('@' :: d.toList) := by simp [Plain, testDomains]
    rw [any_eq_true]
    refine exists_congr fun d => and_congr_right fun hd => ?_
    rw [String.toList_append]
    exact like_suffix_iff (hplain d hd) h
  have hprotected : (!protectedEmails.contains e) = true ↔ e ∉ protectedEmails := by
    rw [Bool.not_eq_true', ← Bool.not_eq_true, contains_iff_mem]
  unfold testAccountSql
  rw [hc]
  dsimp only
  rw [Bool.and_eq_true, Bool.or_eq_true, Bool.or_eq_true, marks_iff h, internal_iff h, hdomains,
    hprotected]
  unfold Throwaway
  exact and_congr_left fun _ => or_assoc.trans (or_congr_right or_comm)

theorem Throwaway.mem (h : Throwaway e) : '@' ∈ e := by
  obtain ⟨d, -, front, rfl⟩ | ⟨front, rfl, -⟩ := h
  · exact mem_append_right _ mem_cons_self
  · exact mem_append_right _ mem_cons_self

theorem filter_eq_iff {α : Type*} {p q : α → Bool} {l : List α} :
    l.filter p = l.filter q ↔ ∀ a ∈ l, p a = q a := by
  constructor
  · intro heq a ha
    have hmem : a ∈ l.filter p ↔ a ∈ l.filter q := by rw [heq]
    rw [mem_filter, mem_filter] at hmem
    exact Bool.eq_iff_iff.2 ⟨fun h => (hmem.1 ⟨ha, h⟩).2, fun h => (hmem.2 ⟨ha, h⟩).2⟩
  · exact filter_congr

/-- The predicate and the condition give the same answer just where the address agrees. -/
theorem agrees_iff :
    ('@' ∈ e ∧ e ∉ protectedEmails ∧
        (Marked e ∨ "test@".toList <+: e ∨ e.count '@' = 1 ∧ Throwaway e) ↔
      (Marked e ∨ Throwaway e) ∧ e ∉ protectedEmails) ↔ Agrees protectedEmails e := by
  have htest : "test@".toList <+: e → '@' ∈ e := fun h => h.subset (by simp)
  have hthrown : Throwaway e → '@' ∈ e := Throwaway.mem
  unfold Agrees
  generalize ("test@".toList <+: e) = begins at *
  by_cases hprotected : e ∈ protectedEmails
  · exact iff_of_true (iff_of_false (fun h => h.2.1 hprotected) fun h => h.2 hprotected)
      (.inl hprotected)
  · by_cases hmarked : Marked e
    · tauto
    · generalize Throwaway e = thrown at *
      generalize ('@' ∈ e) = signed at *
      grind

/-- **The addresses on which the two tests agree.**  The row of an address, as it is stored, is
selected by the condition just when the predicate says yes, if and only if the stored address
`Agrees`; and so the rows that are deleted from a table of accounts are those that the predicate
flags if and only if all of them do. -/
theorem test_accounts_agree_iff (casing : Casing) (protectedEmails : List (List Char)) :
    (∀ email, (isTestAccountEmail casing protectedEmails email =
        testAccountSql protectedEmails (normEmail casing email)) ↔
      Agrees protectedEmails (normEmail casing email)) ∧
    ∀ emails : List (List Char),
      ((emails.filter fun email => testAccountSql protectedEmails (normEmail casing email)) =
        emails.filter fun email => isTestAccountEmail casing protectedEmails email) ↔
      ∀ email ∈ emails, Agrees protectedEmails (normEmail casing email) := by
  have hone : ∀ email, (isTestAccountEmail casing protectedEmails email =
      testAccountSql protectedEmails (normEmail casing email)) ↔
        Agrees protectedEmails (normEmail casing email) := by
    intro email
    have hlowered : Lowered (normEmail casing email) := casing.lowered _
    rw [Bool.eq_iff_iff, isTestAccountEmail_iff casing email rfl, testAccountSql_iff hlowered,
      agrees_iff]
  refine ⟨hone, fun emails => ?_⟩
  rw [filter_eq_iff]
  refine forall₂_congr fun email _ => ?_
  rw [← hone email, eq_comm]

/-! ## Three addresses -/

/-- The case of ASCII. -/
def asciiCasing : Casing where
  lower := List.map Char.toLower
  lowered := by
    intro text c hc
    obtain ⟨d, -, rfl⟩ := List.mem_map.1 hc
    exact d.toLower_toLower_eq_toLower

/-- **Addresses on which the two tests differ**: one of the local part `test`, one without `@`
and one with two of them. -/
theorem test_accounts_differ :
    (isTestAccountEmail asciiCasing [] "test@gmail.com".toList = true ∧
      testAccountSql [] "test@gmail.com".toList = false) ∧
    (isTestAccountEmail asciiCasing [] "smoketest".toList = false ∧
      testAccountSql [] "smoketest".toList = true) ∧
    (isTestAccountEmail asciiCasing [] "a@b@example.com".toList = false ∧
      testAccountSql [] "a@b@example.com".toList = true) := by
  decide +kernel

end

end ArchHub.Accounts

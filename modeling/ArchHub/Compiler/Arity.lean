import Mathlib
import ArchHub.Compiler.Calls

/-!
# The check of calls and Python's binding

What the pass reports of a call, and whether Python binds its arguments, as conditions on the
parameters and the arguments.

* `bind_eq_none_iff`: when Python refuses.
* `wrongArity_iff`: when the pass reports E0025.
* `wrongArity_agrees_iff`: when these are the same.
-/

namespace ArchHub.Compiler

open List

variable {α : Type} {s : Parameters} {b b' : Binding α} {parts : List Part} {r r' : Reading}

/-! ## When Python refuses -/

/-- Keyword arguments fit what is bound already. -/
def Parameters.Fits (s : Parameters) (b : Binding α) (key : String) : Prop :=
  if key ∈ s.keyword then key ∉ b.slots.map Prod.fst
  else s.kwargs.isSome ∧ key ∉ b.kwargs.map Prod.fst

/-- The keyword arguments that fill slots. -/
def Parameters.filled (s : Parameters) (keywords : List (String × α)) : List (String × α) :=
  keywords.filter fun kw => decide (kw.1 ∈ s.keyword)

theorem foldlM_bindKeyword_slots {keywords : List (String × α)}
    (h : keywords.foldlM s.bindKeyword b = some b') :
    b'.slots = b.slots ++ s.filled keywords := by
  induction keywords generalizing b with
  | nil =>
      obtain rfl := Option.some.inj h
      exact (append_nil _).symm
  | cons kw keywords ih =>
      rw [foldlM_cons] at h
      obtain ⟨b₁, hfirst, hrest⟩ := Option.bind_eq_some_iff.1 h
      rw [ih hrest]
      unfold Parameters.bindKeyword at hfirst
      unfold Parameters.filled
      split at hfirst
      · next hkey =>
        split at hfirst
        · cases hfirst
        · obtain rfl := Option.some.inj hfirst
          rw [filter_cons, if_pos (decide_eq_true hkey), append_assoc]
          rfl
      · next hkey =>
        rw [filter_cons, if_neg (by simpa using hkey)]
        split at hfirst
        · split at hfirst
          · cases hfirst
          · obtain rfl := Option.some.inj hfirst
            rfl
        · cases hfirst

/-- One keyword argument is bound where it fits, and then it fits no more. -/
theorem bindKeyword_isSome (kw : String × α) : (s.bindKeyword b kw).isSome ↔ s.Fits b kw.1 := by
  unfold Parameters.bindKeyword Parameters.Fits
  split
  · split
    · next h => exact ⟨fun h' => (by cases h'), fun h' => absurd h h'⟩
    · next h => exact ⟨fun _ => h, fun _ => rfl⟩
  · split
    · next hkw =>
      split
      · next h => exact ⟨fun h' => (by cases h'), fun h' => absurd h h'.2⟩
      · next h => exact ⟨fun _ => ⟨hkw, h⟩, fun _ => rfl⟩
    · next hkw => exact ⟨fun h' => (by cases h'), fun h' => absurd h'.1 hkw⟩

theorem bindKeyword_fits {kw : String × α} (h : s.bindKeyword b kw = some b') (key : String) :
    s.Fits b' key ↔ key ≠ kw.1 ∧ s.Fits b key := by
  unfold Parameters.bindKeyword at h
  unfold Parameters.Fits
  split at h
  · next hmem =>
    split at h
    · cases h
    · obtain rfl := Option.some.inj h
      by_cases hkey : key ∈ s.keyword
      · rw [if_pos hkey, if_pos hkey]
        simp only [map_append, map_cons, map_nil, mem_append, mem_singleton, not_or]
        exact and_comm
      · rw [if_neg hkey, if_neg hkey]
        exact ⟨fun h => ⟨fun heq => hkey (heq ▸ hmem), h⟩, And.right⟩
  · next hmem =>
    split at h
    · split at h
      · cases h
      · obtain rfl := Option.some.inj h
        by_cases hkey : key ∈ s.keyword
        · rw [if_pos hkey, if_pos hkey]
          exact ⟨fun h => ⟨fun heq => hmem (heq ▸ hkey), h⟩, And.right⟩
        · rw [if_neg hkey, if_neg hkey]
          simp only [map_append, map_cons, map_nil, mem_append, mem_singleton, not_or]
          tauto
    · cases h

/-- Keyword arguments are bound where each fits and no two have one name. -/
theorem foldlM_bindKeyword_isSome (keywords : List (String × α)) :
    (keywords.foldlM s.bindKeyword b).isSome ↔
      (keywords.map Prod.fst).Nodup ∧ ∀ key ∈ keywords.map Prod.fst, s.Fits b key := by
  induction keywords generalizing b with
  | nil => exact ⟨fun _ => ⟨nodup_nil, fun _ h => absurd h not_mem_nil⟩, fun _ => rfl⟩
  | cons kw keywords ih =>
      rw [foldlM_cons, map_cons, nodup_cons, forall_mem_cons]
      cases hfirst : s.bindKeyword b kw with
      | none =>
          have hnot : ¬ s.Fits b kw.1 := by
            rw [← bindKeyword_isSome, hfirst]
            exact fun h => by cases h
          exact ⟨fun h => (by cases h), fun h => absurd h.2.1 hnot⟩
      | some b₁ =>
          have hfits : s.Fits b kw.1 := by
            rw [← bindKeyword_isSome, hfirst]
            rfl
          change (keywords.foldlM s.bindKeyword b₁).isSome ↔ _
          rw [ih]
          simp only [bindKeyword_fits hfirst]
          constructor
          · rintro ⟨hnodup, hall⟩
            exact ⟨⟨fun hmem => (hall _ hmem).1 rfl, hnodup⟩, hfits, fun key hk => (hall key hk).2⟩
          · rintro ⟨⟨hnot, hnodup⟩, -, hall⟩
            exact ⟨hnodup, fun key hk => ⟨fun heq => hnot (heq ▸ hk), hall key hk⟩⟩

theorem map_fst_zip {β : Type} (xs : List String) (ys : List β) :
    (xs.zip ys).map Prod.fst = xs.take ys.length := by
  induction xs generalizing ys with
  | nil => simp
  | cons x xs ih =>
      cases ys with
      | nil => rfl
      | cons y ys => simp [ih]

/-- **When Python refuses to bind the arguments.** -/
theorem bind_eq_none_iff (positional : List α) (keywords : List (String × α)) :
    s.bind positional keywords = none ↔
      (s.variadic = false ∧ s.positional.length < positional.length) ∨
      ¬ (keywords.map Prod.fst).Nodup ∨
      (∃ key ∈ keywords.map Prod.fst,
        key ∈ s.keyword ∧ key ∈ s.positional.take positional.length) ∨
      (s.kwargs = none ∧ ∃ key ∈ keywords.map Prod.fst, key ∉ s.keyword) ∨
      ∃ p ∈ s.all, p.default = false ∧ p.name ∉ s.positional.take positional.length ∧
        (p.name ∉ keywords.map Prod.fst ∨ p.name ∉ s.keyword) := by
  unfold Parameters.bind
  split
  · next h => exact ⟨fun _ => Or.inl h.symm, fun _ => rfl⟩
  next hcount =>
  rw [or_iff_right fun h => hcount h.symm]
  have hstart : ((s.positional.zip positional).map Prod.fst) =
      s.positional.take positional.length := map_fst_zip _ _
  have hsome := @foldlM_bindKeyword_isSome α s
    ⟨s.positional.zip positional, positional.drop s.positional.length, []⟩ keywords
  have hfits : ∀ key, @Parameters.Fits α s
      ⟨s.positional.zip positional, positional.drop s.positional.length, []⟩ key ↔
      (key ∈ s.keyword → key ∉ s.positional.take positional.length) ∧
        (key ∉ s.keyword → s.kwargs.isSome) := by
    intro key
    unfold Parameters.Fits
    dsimp only
    rw [hstart]
    by_cases hkey : key ∈ s.keyword
    · simp [hkey]
    · simp [hkey]
  cases hfold : keywords.foldlM s.bindKeyword
      ⟨s.positional.zip positional, positional.drop s.positional.length, []⟩ with
  | none =>
      refine ⟨fun _ => ?_, fun _ => rfl⟩
      rw [hfold] at hsome
      by_contra hno
      simp only [not_or, not_not, not_exists, not_and] at hno
      obtain ⟨hnodup, hgiven, hunknown, -⟩ := hno
      have hall := hsome.2 ⟨hnodup, fun key hkey => (hfits key).2 ⟨fun hk => hgiven key hkey hk,
        fun hk => Option.isSome_iff_ne_none.2 fun hnone => hk (hunknown hnone key hkey)⟩⟩
      cases hall
  | some b =>
      rw [hfold] at hsome
      obtain ⟨hnodup, hall⟩ := hsome.1 rfl
      have hslots := foldlM_bindKeyword_slots hfold
      have hnames : b.slots.map Prod.fst = s.positional.take positional.length ++
          (keywords.map Prod.fst).filter (fun key => decide (key ∈ s.keyword)) := by
        rw [hslots, map_append, hstart, Parameters.filled, filter_map]
        rfl
      change (if (s.all.all fun p => p.default || (b.slots.map Prod.fst).contains p.name) = true
        then some b else none) = none ↔ _
      constructor
      · intro hnone
        have hmissing : ¬ (s.all.all fun p =>
            p.default || (b.slots.map Prod.fst).contains p.name) = true := fun h => by
          rw [if_pos h] at hnone
          cases hnone
        rw [all_eq_true] at hmissing
        obtain ⟨p, hp⟩ := not_forall.1 hmissing
        obtain ⟨hp, hnot⟩ := Classical.not_imp.1 hp
        rw [Bool.or_eq_true, not_or, hnames] at hnot
        refine Or.inr (Or.inr (Or.inr ⟨p, hp, by simpa using hnot.1, ?_⟩))
        have habsent := hnot.2
        simp only [contains_eq_mem, mem_append, mem_filter, decide_eq_true_eq,
          not_or, not_and] at habsent
        refine ⟨habsent.1, ?_⟩
        by_cases hkey : p.name ∈ keywords.map Prod.fst
        · exact Or.inr (habsent.2 hkey)
        · exact Or.inl hkey
      · rintro (hdup | ⟨key, hkey, hk, hgiven⟩ | ⟨hnone, key, hkey, hk⟩ | ⟨p, hp, hdefault, hgiven, habsent⟩)
        · exact absurd hnodup hdup
        · exact absurd hgiven (((hfits key).1 (hall key hkey)).1 hk)
        · have hkwargs := ((hfits key).1 (hall key hkey)).2 hk
          rw [hnone] at hkwargs
          cases hkwargs
        · refine if_neg fun h => ?_
          have hbound := List.all_eq_true.1 h p hp
          rw [hdefault, Bool.false_or, hnames] at hbound
          simp only [contains_eq_mem, mem_append, mem_filter, decide_eq_true_eq] at hbound
          rcases hbound with hbound | ⟨hkey, hk⟩
          · exact hgiven hbound
          · exact habsent.elim (fun h => h hkey) fun h => h hk

/-! ## What the pass keeps -/

/-- Two readings that give one verdict. -/
structure Reading.Same (r r' : Reading) : Prop where
  keywordVariadic : r.keywordVariadic = r'.keywordVariadic
  variadic : r.variadic = r'.variadic
  parameters : r.parameters = r'.parameters
  positional : r.positional = r'.positional
  keywordOnly : r.keywordOnly = r'.keywordOnly
  required : r.required = r'.required

theorem Reading.Same.eq (h : r.Same r') : r' = { r with min := r'.min } := by
  obtain ⟨_, _, _, _, _, _, _⟩ := r
  obtain ⟨_, _, _, _, _, _, _⟩ := r'
  obtain ⟨h₁, h₂, h₃, h₄, h₅, h₆⟩ := h
  cases h₁
  cases h₂
  cases h₃
  cases h₄
  cases h₅
  cases h₆
  rfl

/-- What is read does not depend on the minimum. -/
theorem Reading.Same.part (h : r.Same r') (p : Part) : (r.part p).Same (r'.part p) := by
  rw [h.eq]
  unfold Reading.part
  cases p.name with
  | none => constructor <;> (dsimp only; split_ifs <;> rfl)
  | some name => constructor <;> (dsimp only; split_ifs <;> rfl)

/-- A comment changes the minimum only. -/
theorem Reading.same_comment {p : Part} (hkind : p.kind = .comment) (hname : p.name = none)
    (hraw : p.raw.head? = some '#') : (r.part p).Same r := by
  have hstar : ['*'].isPrefixOf p.raw = false ∧ ['.', '.', '.'].isPrefixOf p.raw = false := by
    cases hp : p.raw with
    | nil =>
        rw [hp] at hraw
        cases hraw
    | cons c cs =>
        rw [hp] at hraw
        obtain rfl := Option.some.inj hraw
        exact ⟨rfl, rfl⟩
  unfold Reading.part
  rw [hkind, hname, hstar.1, hstar.2]
  constructor <;> (dsimp only; split_ifs <;> first | rfl | simp_all)

theorem Reading.Same.trans {r'' : Reading} (h : r.Same r') (h' : r'.Same r'') : r.Same r'' :=
  ⟨h.1.trans h'.1, h.2.trans h'.2, h.3.trans h'.3, h.4.trans h'.4, h.5.trans h'.5, h.6.trans h'.6⟩

theorem Reading.Same.foldl (h : r.Same r') (parts : List Part) :
    (parts.foldl Reading.part r).Same (parts.foldl Reading.part r') := by
  induction parts generalizing r r' with
  | nil => exact h
  | cons p parts ih => exact ih (h.part p)

/-- Comments can be left out. -/
theorem foldl_part_same (hcomments : ∀ p ∈ parts, p.kind = .comment → p.name = none ∧
    p.raw.head? = some '#') (h : r.Same r') :
    (parts.foldl Reading.part r).Same
      ((parts.filter fun p : Part => decide (p.kind ≠ .comment)).foldl Reading.part r') := by
  induction parts generalizing r r' with
  | nil => exact h
  | cons p parts ih =>
      have hrest := fun q hq => hcomments q (mem_cons_of_mem p hq)
      rw [foldl_cons]
      by_cases hkind : p.kind = .comment
      · rw [filter_cons, if_neg (by simpa using hkind)]
        obtain ⟨hname, hraw⟩ := hcomments p mem_cons_self hkind
        exact ih hrest ((Reading.same_comment hkind hname hraw).trans h)
      · rw [filter_cons, if_pos (by simpa using hkind), foldl_cons]
        exact ih hrest (h.part p)

/-- A parameter's text begins with neither a star nor dots. -/
theorem Parameter.text_start (p : Parameter) :
    ['*'].isPrefixOf p.text = false ∧ ['.', '.', '.'].isPrefixOf p.text = false := by
  obtain ⟨tail, htail⟩ := p.opens
  obtain ⟨hstart, hne⟩ := p.named
  cases hname : p.name.toList with
  | nil => exact absurd hname hne
  | cons c cs =>
      rw [hname] at hstart htail
      have hc : c ≠ '*' ∧ c ≠ '.' := by simpa using hstart
      rw [← htail]
      constructor
      · simp [List.isPrefixOf, hc.1.symm]
      · simp [List.isPrefixOf, hc.2.symm]

/-- The parts of parameters add their names. -/
theorem foldl_part_parameters (ps : List Parameter) (r : Reading) :
    ((ps.map Parameter.part).foldl Reading.part r).Same { r with
      parameters := r.parameters ++ ps.map Parameter.name
      positional := if r.keywordOnly then r.positional else r.positional ++ ps.map Parameter.name
      required := r.required ++ (ps.filter fun p => unmarked p.text).map Parameter.name } := by
  induction ps generalizing r with
  | nil =>
      constructor <;> simp
  | cons p ps ih =>
      rw [map_cons, foldl_cons]
      have hnext := ih (r.part p.part)
      obtain ⟨hstar, hdots⟩ := p.text_start
      have hstep : (r.part p.part).Same { r with
          parameters := r.parameters ++ [p.name]
          positional := if r.keywordOnly then r.positional else r.positional ++ [p.name]
          required := if unmarked p.text then r.required ++ [p.name] else r.required } := by
        unfold Reading.part Parameter.part
        dsimp only
        rw [hstar, hdots]
        constructor <;> (dsimp only; split_ifs <;> simp_all)
      constructor
      · exact hnext.keywordVariadic.trans hstep.keywordVariadic
      · exact hnext.variadic.trans hstep.variadic
      · rw [hnext.parameters, hstep.parameters]
        simp
      · rw [hnext.positional, hstep.keywordOnly, hstep.positional]
        dsimp only
        split <;> simp
      · exact hnext.keywordOnly.trans hstep.keywordOnly
      · rw [hnext.required, hstep.required, filter_cons]
        dsimp only
        split <;> simp_all

/-- The names of the parameters without a mark. -/
def Parameters.wanted (s : Parameters) : List String :=
  (s.all.filter fun p => unmarked p.text).map Parameter.name

/-- A star, bare or not. -/
def Star.isThere : Star → Bool
  | .none => false
  | _ => true

theorem foldl_part_star (s : Parameters) (r : Reading) :
    (s.star.parts.foldl Reading.part r).Same { r with
      variadic := r.variadic || s.variadic
      keywordOnly := r.keywordOnly || s.star.isThere } := by
  unfold Parameters.variadic
  cases hstar : s.star with
  | none => constructor <;> simp [Star.parts, Star.isThere]
  | bare => constructor <;> simp [Star.parts, Star.isThere, Reading.part]
  | args text =>
      have hsingle : ['*', '*'].isPrefixOf ('*' :: text) = false := by
        have hhead := s.single text hstar
        cases text with
        | nil => rfl
        | cons c cs =>
            have hc : c ≠ '*' := fun heq => hhead (by rw [heq]; rfl)
            simp [List.isPrefixOf, hc.symm]
      have hstarts : ['*'].isPrefixOf ('*' :: text) = true := by simp [List.isPrefixOf]
      constructor <;> simp [Star.parts, Star.isThere, Reading.part, hsingle, hstarts]

theorem foldl_part_kwargs (kwargs : Option (List Char)) (r : Reading) :
    ((kwargs.map fun text => (⟨.splat, none, '*' :: '*' :: text⟩ : Part)).toList.foldl
      Reading.part r).Same { r with
        keywordVariadic := r.keywordVariadic || kwargs.isSome
        keywordOnly := r.keywordOnly || kwargs.isSome } := by
  cases kwargs with
  | none => constructor <;> simp
  | some text =>
      have hstars : ['*', '*'].isPrefixOf ('*' :: '*' :: text) = true := by simp [List.isPrefixOf]
      have hstar : ['*'].isPrefixOf ('*' :: '*' :: text) = true := by simp [List.isPrefixOf]
      constructor <;> simp [Reading.part, hstars, hstar]

/-- What is read of a parameter list. -/
theorem foldl_part_parts (s : Parameters) :
    (s.parts.foldl Reading.part Reading.start).Same
      { min := 0
        keywordVariadic := s.kwargs.isSome
        variadic := s.variadic
        parameters := s.all.map Parameter.name
        positional := s.positional
        keywordOnly := s.star.isThere || s.kwargs.isSome
        required := s.wanted } := by
  unfold Parameters.parts
  simp only [foldl_append]
  -- the parameters before the star
  have hseparator : ∀ r : Reading, ((if s.positionalOnly = [] then [] else
      [⟨.positionalSeparator, none, ['/']⟩] : List Part).foldl Reading.part r).Same r := by
    intro r
    split <;> constructor <;> rfl
  have hfirst := (foldl_part_parameters s.positionalOnly Reading.start).foldl
    (if s.positionalOnly = [] then [] else [⟨.positionalSeparator, none, ['/']⟩])
  have hordinary := ((hfirst.trans (hseparator _)).foldl (s.ordinary.map Parameter.part)).trans
    (foldl_part_parameters s.ordinary _)
  have hstar := (hordinary.foldl s.star.parts).trans (foldl_part_star s _)
  have hkeyword := (hstar.foldl (s.keywordOnly.map Parameter.part)).trans
    (foldl_part_parameters s.keywordOnly _)
  have hall := (hkeyword.foldl _).trans (foldl_part_kwargs s.kwargs _)
  refine hall.trans ?_
  constructor
  · rfl
  · rfl
  · simp [Reading.start, Parameters.all]
  · -- a keyword-only parameter stands behind a star
    by_cases hnone : s.keywordOnly = []
    · simp [Reading.start, Parameters.positional, hnone]
    · have hthere : s.star.isThere = true := by
        have hne := s.starred hnone
        cases hs : s.star with
        | none => exact absurd hs hne
        | bare => rfl
        | args => rfl
      simp [Reading.start, Parameters.positional, hthere]
  · rfl
  · simp [Reading.start, Parameters.wanted, Parameters.all]

/-- The signature of a function as it is written. -/
theorem signature_of_written (h : s.WrittenAs parts) :
    (signature parts).max = (if s.variadic then none else some s.positional.length) ∧
      (signature parts).parameters = s.all.map Parameter.name ∧
      (signature parts).positional = s.positional ∧
      (signature parts).keywordVariadic = s.kwargs.isSome ∧
      (signature parts).required = s.wanted := by
  have hstart : Reading.start.Same Reading.start := ⟨rfl, rfl, rfl, rfl, rfl, rfl⟩
  have hsame := foldl_part_same h.comments hstart
  rw [h.shown] at hsame
  have hread := hsame.trans (foldl_part_parts s)
  unfold signature
  dsimp only
  rw [hread.variadic, hread.positional]
  exact ⟨rfl, hread.parameters, rfl, hread.keywordVariadic, hread.required⟩

theorem dedup_length_ne_iff (keys : List String) :
    keys.dedup.length ≠ keys.length ↔ ¬ keys.Nodup := by
  constructor
  · intro hne hnodup
    rw [List.dedup_eq_self.2 hnodup] at hne
    exact hne rfl
  · intro hdup heq
    refine hdup (List.dedup_eq_self.1 ?_)
    exact (dedup_sublist keys).eq_of_length heq

theorem or_rotate {a b c d e : Prop} : ((a ∨ (b ∨ c) ∨ d) ∨ e) ↔ e ∨ d ∨ b ∨ c ∨ a := by
  tauto

/-- **When the pass reports a call.** -/
theorem wrongArity_iff (h : s.WrittenAs parts) (c : Call) :
    wrongArity (signature parts) c = true ↔
      (s.variadic = false ∧ s.positional.length < c.count) ∨ ¬ c.keywords.Nodup ∨
      (∃ key ∈ c.keywords, key ∈ s.positional.take c.count) ∨
      (s.kwargs = none ∧ ∃ key ∈ c.keywords, key ∉ s.all.map Parameter.name) ∨
      ∃ p ∈ s.all, unmarked p.text = true ∧ p.name ∉ s.positional.take c.count ∧
        p.name ∉ c.keywords := by
  obtain ⟨hmax, hparameters, hpositional, hkeyword, hrequired⟩ := signature_of_written h
  have hcount : ((signature parts).max.any fun max => decide (max < c.count)) = true ↔
      s.variadic = false ∧ s.positional.length < c.count := by
    rw [hmax]
    cases s.variadic with
    | true => simp
    | false => simp
  have hmissing : ((signature parts).required.any fun key => !((signature parts).positional.take
      c.count ++ c.keywords).contains key) = true ↔ ∃ p ∈ s.all, unmarked p.text = true ∧
        p.name ∉ s.positional.take c.count ∧ p.name ∉ c.keywords := by
    rw [hrequired, hpositional, any_eq_true]
    simp only [Parameters.wanted, mem_map, mem_filter, Bool.not_eq_true',
      contains_eq_mem, decide_eq_false_iff_not, mem_append, not_or]
    constructor
    · rintro ⟨_, ⟨p, ⟨hp, hfree⟩, rfl⟩, habsent⟩
      exact ⟨p, hp, hfree, habsent⟩
    · rintro ⟨p, hp, hfree, habsent⟩
      exact ⟨p.name, ⟨p, ⟨hp, hfree⟩, rfl⟩, habsent⟩
  have hkeys : (c.keywords.any fun key =>
      ((signature parts).positional.take c.count).contains key ||
        (!(signature parts).keywordVariadic && !(signature parts).parameters.contains key)) = true ↔
      (∃ key ∈ c.keywords, key ∈ s.positional.take c.count) ∨
        (s.kwargs = none ∧ ∃ key ∈ c.keywords, key ∉ s.all.map Parameter.name) := by
    rw [hparameters, hpositional, hkeyword, any_eq_true]
    simp only [Bool.or_eq_true, Bool.and_eq_true, Bool.not_eq_true', contains_eq_mem,
      decide_eq_true_eq, decide_eq_false_iff_not, Option.isSome_eq_false_iff,
      Option.isNone_iff_eq_none]
    constructor
    · rintro ⟨key, hkey, hgiven | ⟨hnone, hunknown⟩⟩
      · exact Or.inl ⟨key, hkey, hgiven⟩
      · exact Or.inr ⟨hnone, key, hkey, hunknown⟩
    · rintro (⟨key, hkey, hgiven⟩ | ⟨hnone, key, hkey, hunknown⟩)
      · exact ⟨key, hkey, Or.inl hgiven⟩
      · exact ⟨key, hkey, Or.inr ⟨hnone, hunknown⟩⟩
  unfold wrongArity
  dsimp only
  rw [Bool.or_eq_true, Bool.or_eq_true, Bool.or_eq_true, hcount, hmissing, hkeys,
    decide_eq_true_eq, dedup_length_ne_iff]
  exact or_rotate

/-! ## Where the two agree -/

variable {a : Arguments α}

/-- A child that is a positional argument is counted, and so is a comment. -/
theorem length_positional_le_count (a : Arguments α) : a.positional.length ≤ (call a).count := by
  cases a with
  | generator clauses x => exact Nat.succ_le_succ (Nat.zero_le clauses)
  | list items =>
      unfold Arguments.positional call
      dsimp only
      induction items with
      | nil => exact le_rfl
      | cons item items ih =>
          cases item with
          | positional x =>
              simpa [filterMap_cons, Argument.positional?, Argument.keyword?] using ih
          | keyword name x =>
              simpa [filterMap_cons, Argument.positional?, Argument.keyword?] using ih
          | comment =>
              simp only [filterMap_cons, Argument.positional?]
              refine ih.trans ?_
              simp [Argument.keyword?]

theorem keywords_call (a : Arguments α) : (call a).keywords = a.keywords.map Prod.fst := by
  cases a <;> rfl

/-- Faults that both see: too many arguments, a keyword that is repeated, unknown or given
already, or a parameter without a default or a mark that is not given. -/
def Parameters.CommonFault (s : Parameters) (a : Arguments α) : Prop :=
  let keys := a.keywords.map Prod.fst
  (s.variadic = false ∧ s.positional.length < a.positional.length) ∨ ¬ keys.Nodup ∨
    (∃ key ∈ keys, key ∈ s.keyword ∧ key ∈ s.positional.take a.positional.length) ∨
    (s.kwargs = none ∧ ∃ key ∈ keys, key ∉ s.all.map Parameter.name) ∨
    ∃ p ∈ s.all, unmarked p.text = true ∧ p.name ∉ s.positional.take (call a).count ∧
      p.name ∉ keys

/-- What only the pass takes for a fault: more children than parameters, though not more
arguments; and a keyword that only the count of the children makes given already, or that is
the name of a positional-only parameter. -/
def Parameters.Miscounted (s : Parameters) (a : Arguments α) : Prop :=
  (s.variadic = false ∧ a.positional.length ≤ s.positional.length ∧
    s.positional.length < (call a).count) ∨
  ∃ key ∈ a.keywords.map Prod.fst, key ∈ s.positional.take (call a).count ∧
    (key ∉ s.positional.take a.positional.length ∨ key ∉ s.keyword)

/-- Faults that the pass does not see: a keyword that is the name of a positional-only parameter,
and a parameter without a default that is not given, but has a mark in its annotation, is given
by that count only, or by the keyword of a positional-only parameter. -/
def Parameters.Overlooked (s : Parameters) (a : Arguments α) : Prop :=
  let keys := a.keywords.map Prod.fst
  (s.kwargs = none ∧ ∃ key ∈ keys, key ∈ s.all.map Parameter.name ∧ key ∉ s.keyword) ∨
    ∃ p ∈ s.all, p.default = false ∧ p.name ∉ s.positional.take a.positional.length ∧
      ((p.name ∉ keys ∧ (unmarked p.text = false ∨ p.name ∈ s.positional.take (call a).count)) ∨
        (p.name ∈ keys ∧ p.name ∉ s.keyword))

theorem take_subset_take {β : Type} (xs : List β) {m n : ℕ} (h : m ≤ n) : xs.take m ⊆ xs.take n :=
  (take_prefix_take_left h).subset

/-- A default is a mark. -/
theorem default_of_unmarked {p : Parameter} (h : unmarked p.text = true) : p.default = false := by
  by_contra hdefault
  have hequals := p.equals (by simpa using hdefault)
  unfold unmarked at h
  simp [hequals] at h

/-- The pass reports the faults that both see, and those that only it takes for one. -/
theorem wrongArity_iff_faults (h : s.WrittenAs parts) :
    wrongArity (signature parts) (call a) = true ↔ s.CommonFault a ∨ s.Miscounted a := by
  have hle := length_positional_le_count a
  have htake := take_subset_take s.positional hle
  rw [wrongArity_iff h, keywords_call]
  constructor
  · rintro (⟨hargs, hcount⟩ | hdup | ⟨key, hkey, hgiven⟩ | hunknown | hmissing)
    · by_cases hmore : s.positional.length < a.positional.length
      · exact Or.inl (Or.inl ⟨hargs, hmore⟩)
      · exact Or.inr (Or.inl ⟨hargs, not_lt.1 hmore, hcount⟩)
    · exact Or.inl (Or.inr (Or.inl hdup))
    · by_cases hreal : key ∈ s.positional.take a.positional.length ∧ key ∈ s.keyword
      · exact Or.inl (Or.inr (Or.inr (Or.inl ⟨key, hkey, hreal.2, hreal.1⟩)))
      · exact Or.inr (Or.inr ⟨key, hkey, hgiven, not_and_or.1 hreal⟩)
    · exact Or.inl (Or.inr (Or.inr (Or.inr (Or.inl hunknown))))
    · exact Or.inl (Or.inr (Or.inr (Or.inr (Or.inr hmissing))))
  · rintro ((⟨hargs, hmore⟩ | hdup | ⟨key, hkey, -, hgiven⟩ | hunknown | hmissing) |
      ⟨hargs, -, hcount⟩ | ⟨key, hkey, hgiven, -⟩)
    · exact Or.inl ⟨hargs, hmore.trans_le hle⟩
    · exact Or.inr (Or.inl hdup)
    · exact Or.inr (Or.inr (Or.inl ⟨key, hkey, htake hgiven⟩))
    · exact Or.inr (Or.inr (Or.inr (Or.inl hunknown)))
    · exact Or.inr (Or.inr (Or.inr (Or.inr hmissing)))
    · exact Or.inl ⟨hargs, hcount⟩
    · exact Or.inr (Or.inr (Or.inl ⟨key, hkey, hgiven⟩))

/-- Python refuses for the faults that both see, and for those that the pass does not see. -/
theorem bind_eq_none_iff_faults :
    s.bind a.positional a.keywords = none ↔ s.CommonFault a ∨ s.Overlooked a := by
  have htake := take_subset_take s.positional (length_positional_le_count a)
  have hnamed : ∀ key ∈ s.keyword, key ∈ s.all.map Parameter.name := by
    intro key hkey
    unfold Parameters.keyword at hkey
    unfold Parameters.all
    rw [append_assoc, map_append]
    exact mem_append_right _ hkey
  rw [bind_eq_none_iff]
  constructor
  · rintro (hmore | hdup | hgiven | ⟨hnone, key, hkey, hk⟩ | ⟨p, hp, hdefault, hgiven, habsent⟩)
    · exact Or.inl (Or.inl hmore)
    · exact Or.inl (Or.inr (Or.inl hdup))
    · exact Or.inl (Or.inr (Or.inr (Or.inl hgiven)))
    · by_cases hall : key ∈ s.all.map Parameter.name
      · exact Or.inr (Or.inl ⟨hnone, key, hkey, hall, hk⟩)
      · exact Or.inl (Or.inr (Or.inr (Or.inr (Or.inl ⟨hnone, key, hkey, hall⟩))))
    · by_cases hkey : p.name ∈ a.keywords.map Prod.fst
      · exact Or.inr (Or.inr ⟨p, hp, hdefault, hgiven,
          Or.inr ⟨hkey, habsent.resolve_left fun h => h hkey⟩⟩)
      by_cases hseen : unmarked p.text = true ∧ p.name ∉ s.positional.take (call a).count
      · exact Or.inl (Or.inr (Or.inr (Or.inr (Or.inr ⟨p, hp, hseen.1, hseen.2, hkey⟩))))
      · refine Or.inr (Or.inr ⟨p, hp, hdefault, hgiven, Or.inl ⟨hkey, ?_⟩⟩)
        rcases not_and_or.1 hseen with hmark | hcounted
        · exact Or.inl (by simpa using hmark)
        · exact Or.inr (not_not.1 hcounted)
  · rintro ((hmore | hdup | hgiven | ⟨hnone, key, hkey, hunknown⟩ | ⟨p, hp, hfree, hgiven, hkey⟩) |
      ⟨hnone, key, hkey, -, hk⟩ | ⟨p, hp, hdefault, hgiven, habsent⟩)
    · exact Or.inl hmore
    · exact Or.inr (Or.inl hdup)
    · exact Or.inr (Or.inr (Or.inl hgiven))
    · exact Or.inr (Or.inr (Or.inr (Or.inl ⟨hnone, key, hkey, fun hk => hunknown (hnamed key hk)⟩)))
    · exact Or.inr (Or.inr (Or.inr (Or.inr ⟨p, hp, default_of_unmarked hfree,
        fun h => hgiven (htake h), Or.inl hkey⟩)))
    · exact Or.inr (Or.inr (Or.inr (Or.inl ⟨hnone, key, hkey, hk⟩)))
    · exact Or.inr (Or.inr (Or.inr (Or.inr ⟨p, hp, hdefault, hgiven,
        habsent.imp And.left And.right⟩)))

theorem iff_or_iff {w f m : Prop} : ((w ∨ f) ↔ (w ∨ m)) ↔ w ∨ (f ↔ m) := by
  tauto

/-- **E0025 is reported exactly where Python refuses**, if and only if there is a fault that both
see, or else both see one of the others or none. -/
theorem wrongArity_agrees_iff (h : s.WrittenAs parts) (a : Arguments α) :
    (wrongArity (signature parts) (call a) = true ↔ s.bind a.positional a.keywords = none) ↔
      s.CommonFault a ∨ (s.Miscounted a ↔ s.Overlooked a) := by
  rw [wrongArity_iff_faults h, bind_eq_none_iff_faults]
  exact iff_or_iff

/-! ## Examples of both -/

/-- `x: Annotated[int, Field(gt=0)]`. -/
def boundedParameter : Parameter where
  name := "x"
  default := false
  text := "x: Annotated[int, Field(gt=0)]".toList
  named := by decide
  opens := by decide
  equals := by decide

/-- `y`. -/
def plainParameter : Parameter where
  name := "y"
  default := false
  text := "y".toList
  named := by decide
  opens := by decide
  equals := by decide

/-- `def f(y, /, x: Annotated[int, Field(gt=0)], **rest)`. -/
def mixedParameters : Parameters where
  positionalOnly := [plainParameter]
  ordinary := [boundedParameter]
  star := .none
  keywordOnly := []
  kwargs := some "rest".toList
  starred := fun h => absurd rfl h
  single := fun _ h => by cases h
  nodup := by decide

theorem mixedParameters_written : mixedParameters.WrittenAs mixedParameters.parts :=
  ⟨rfl, by decide⟩

theorem wrongArity_agrees_iff_mixed :
    (wrongArity (signature mixedParameters.parts) (call (.list [Argument.positional 1])) = true ↔
      mixedParameters.bind (Arguments.list [Argument.positional 1]).positional
        (Arguments.list [Argument.positional 1]).keywords = none) ↔
    mixedParameters.CommonFault (Arguments.list [Argument.positional 1]) ∨
      (mixedParameters.Miscounted (Arguments.list [Argument.positional 1]) ↔
        mixedParameters.Overlooked (Arguments.list [Argument.positional 1])) :=
  wrongArity_agrees_iff mixedParameters_written _

/-- An argument that is not given and whose annotation has `=` is not reported.  A positional-only
parameter's name among the keywords is reported, though `**rest` takes it, and so is a comment
among the arguments. -/
theorem wrongArity_disagrees :
    (wrongArity (signature mixedParameters.parts) (call (.list [Argument.positional 1])) = false ∧
      (mixedParameters.bind (Arguments.list [Argument.positional 1]).positional
        (Arguments.list [Argument.positional 1]).keywords).isSome = false) ∧
    (wrongArity (signature mixedParameters.parts)
        (call (.list [.positional 1, .keyword "x" 2, .keyword "y" 3])) = true ∧
      (mixedParameters.bind (Arguments.list
        [.positional 1, .keyword "x" 2, .keyword "y" 3]).positional
        (Arguments.list [.positional 1, .keyword "x" 2, .keyword "y" 3]).keywords).isSome = true) ∧
    (wrongArity (signature mixedParameters.parts)
        (call (.list [.positional 1, .comment, .positional 2])) = true ∧
      (mixedParameters.bind (Arguments.list
        [Argument.positional 1, .comment, .positional 2]).positional
        (Arguments.list [Argument.positional 1, .comment, .positional 2]).keywords).isSome = true) := by
  decide +kernel

end ArchHub.Compiler

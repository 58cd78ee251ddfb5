import Mathlib
import ArchHub.Compiler.Conduct
import ArchHub.Lib.Check

/-!
# An overlay tightens the policy

An accepted overlay changes what is said of a refusal, narrows the reasons and the presence
that excuse an event, and adds to the text that is banned.  Nothing else changes, so what was
refused before is refused after it.

* `Tightens`: one policy refuses what another refuses; `Tightens.refuses`.
* `editPolicy_tightens`: what an accepted overlay does.
* `conductParameters_tighten`: the whole, with what the check reports of the other overlays.
-/

namespace ArchHub.Compiler

open Lib Value List

variable {u : Unicode} {p q : Value} {event : Value} {id name : String} {old value : Value}
  {α : Type} {c : Prop}

/-! ## Policies that refuse more -/

/-- The parameters that an overlay may change. -/
def Editable (id name : String) : Prop :=
  name ∈ ["message", "fix", "severity", "allowed_presence", "allowed_reasons"] ∨
    (name = "max_presence_age_seconds" ∧ id = "R100") ∨ (name = "banned_text" ∧ id = "R108")

instance (id name : String) : Decidable (Editable id name) := by
  unfold Editable
  infer_instance

/-- A rule of the policy is about a kind of events. -/
def hasKind (policy : Value) (kind : String) : Bool :=
  (rulesOf policy).any fun rule => decide (rule.field "pattern" = .string kind)

/-- The policy `q` is `p`, or tighter. -/
structure Tightens (p q : Value) : Prop where
  fixed : ∀ id name, ¬ Editable id name → (q.field id).field name = (p.field id).field name
  kinds : ∀ kind, hasKind q kind = hasKind p kind
  presence : strings ((q.field "R100").field "allowed_presence") ⊆
    strings ((p.field "R100").field "allowed_presence")
  age : ((q.field "R100").field "max_presence_age_seconds").asU64.getD 0 ≤
    ((p.field "R100").field "max_presence_age_seconds").asU64.getD 0
  reasons : strings ((q.field "R106").field "allowed_reasons") ⊆
    strings ((p.field "R106").field "allowed_reasons")
  banned : strings ((p.field "R108").field "banned_text") ⊆
    strings ((q.field "R108").field "banned_text")

theorem Tightens.refl (p : Value) : Tightens p p :=
  ⟨fun _ _ _ => rfl, fun _ => rfl, fun _ h => h, le_rfl, fun _ h => h, fun _ h => h⟩

theorem isSome_ite [Decidable c] {x : α} {o : Option α} :
    (if c then some x else o).isSome = true ↔ c ∨ o.isSome = true := by
  split
  · next hc => exact ⟨fun _ => Or.inl hc, fun _ => rfl⟩
  · next hc => exact ⟨Or.inr, fun h => h.resolve_left hc⟩

section

variable (h : Tightens p q)

include h

theorem Tightens.unreasoned {reason : Value} (hp : unreasoned p reason = true) :
    unreasoned q reason = true := by
  unfold Compiler.unreasoned at hp ⊢
  rw [Bool.not_eq_true', contains_eq_mem, decide_eq_false_iff_not] at hp ⊢
  exact fun hq => hp (h.reasons hq)

theorem Tightens.awayNow (hq : awayNow event q = true) : awayNow event p = true := by
  unfold Compiler.awayNow at hq ⊢
  rw [Bool.and_eq_true, contains_eq_mem, decide_eq_true_eq, Option.any_eq_true] at hq ⊢
  obtain ⟨hstate, age, hage, hle⟩ := hq
  exact ⟨h.presence hstate, age, hage, decide_eq_true ((of_decide_eq_true hle).trans h.age)⟩

theorem Tightens.risky : risky u event q = risky u event p := by
  have hfixed : ∀ name, ¬ Editable "R100" name →
      (q.field "R100").field name = (p.field "R100").field name := h.fixed "R100"
  unfold Compiler.risky literalReference
  simp only [hfixed "effects" (by decide), hfixed "tool_markers" (by decide),
    hfixed "literal_reference_commands" (by decide), hfixed "literal_reference_flags" (by decide),
    hfixed "command_markers" (by decide), hfixed "source_calls" (by decide)]

/-- Whoever is refused an operation is refused it by a tighter policy. -/
theorem Tightens.operation (hp : (operationEvent u event p).isSome) :
    (operationEvent u event q).isSome := by
  unfold operationEvent at hp ⊢
  rw [isSome_ite, isSome_ite, isSome_ite, isSome_ite] at hp ⊢
  rw [h.risky, h.fixed "R106" "tool_markers" (by decide)]
  refine hp.imp (fun hask => ?_) (Or.imp_right (Or.imp_left fun hseen => ?_))
  · rw [Bool.and_eq_true, Bool.or_eq_true] at hask ⊢
    exact ⟨hask.1, hask.2.imp_right h.unreasoned⟩
  · rw [Bool.and_eq_true, Bool.not_eq_true'] at hseen ⊢
    refine ⟨hseen.1, Bool.eq_false_iff.2 fun haway => ?_⟩
    rw [h.awayNow haway] at hseen
    cases hseen.2

theorem Tightens.report (hp : (reportEvent u event p).isSome) : (reportEvent u event q).isSome := by
  unfold reportEvent at hp ⊢
  split at hp
  · next hfounder =>
    rw [if_pos hfounder]
    rw [isSome_ite, isSome_ite, isSome_ite] at hp ⊢
    refine hp.imp_right (Or.imp (fun hask => ?_) (Or.imp_left fun hsaid => ?_))
    · rw [Bool.and_eq_true] at hask ⊢
      exact ⟨hask.1, h.unreasoned hask.2⟩
    · rw [Bool.or_eq_true] at hsaid ⊢
      refine hsaid.imp_left fun hword => ?_
      unfold bannedReport at hword ⊢
      obtain ⟨word, hmem, hmatch⟩ := List.any_eq_true.1 hword
      exact List.any_eq_true.2 ⟨word, h.banned hmem, hmatch⟩
  · next hfounder =>
    rw [if_neg hfounder]
    exact hp

theorem Tightens.question (hp : (questionEvent event p).isSome) :
    (questionEvent event q).isSome := by
  unfold questionEvent at hp ⊢
  split at hp
  · next hfounder =>
    rw [if_pos hfounder]
    rw [isSome_ite] at hp ⊢
    refine hp.imp_left fun hask => ?_
    rw [Bool.or_eq_true] at hask ⊢
    exact hask.imp_right h.unreasoned
  · next hfounder =>
    rw [if_neg hfounder]
    exact hp

theorem Tightens.dispatch (hp : (dispatchEvent event p).isSome) :
    (dispatchEvent event q).isSome := by
  unfold dispatchEvent at hp ⊢
  rw [h.fixed "R104" "capabilities" (by decide)]
  exact hp

theorem Tightens.regression (hp : (regressionEvent event p).isSome) :
    (regressionEvent event q).isSome := by
  unfold regressionEvent at hp ⊢
  rw [h.fixed "R110" "must_pass" (by decide)]
  exact hp

end

theorem isSome_ite_mono [Decidable c] {a b a' b' : Option α}
    (ha : a.isSome = true → a'.isSome = true) (hb : b.isSome = true → b'.isSome = true)
    (h : (if c then a else b).isSome = true) : (if c then a' else b').isSome = true := by
  split at h
  · next hc =>
    rw [if_pos hc]
    exact ha h
  · next hc =>
    rw [if_neg hc]
    exact hb h

/-- **A tighter policy refuses what the other refuses.** -/
theorem Tightens.refuses (h : Tightens p q) (hp : (conductEvent u event p).isSome) :
    (conductEvent u event q).isSome := by
  have hkind := h.kinds (event.field "kind").text
  unfold hasKind at hkind
  unfold conductEvent at hp ⊢
  dsimp only at hp ⊢
  rw [hkind]
  refine isSome_ite_mono (fun hrule => ?_) (fun _ => rfl) hp
  refine isSome_ite_mono h.operation (isSome_ite_mono h.dispatch (isSome_ite_mono h.report ?_)) hrule
  exact isSome_ite_mono id (isSome_ite_mono h.question (isSome_ite_mono h.regression id))

/-! ## What an overlay does -/

/-- A parameter is written. -/
theorem field_field_set (policy : Value) (id name id' name' : String) (x : Value) :
    ((policy.set id ((policy.field id).set name x)).field id').field name' =
      if id' = id ∧ name' = name then x else (policy.field id').field name' := by
  rw [field_set]
  by_cases hid : id' = id
  · rw [if_pos hid, field_set, hid]
    simp
  · rw [if_neg hid, if_neg fun h => hid h.1]

theorem any_put (P : Value → Bool) (key : String) (x : Value) (entries : List (String × Value))
    (hx : P x = (find key entries).any P) :
    ((put key x entries).map Prod.snd).any P = (entries.map Prod.snd).any P := by
  induction entries with
  | nil =>
      change (P x || false) = false
      rw [hx]
      rfl
  | cons e es ih =>
      unfold put
      unfold find at hx
      by_cases he : e.1 = key
      · rw [if_pos he] at hx ⊢
        rw [map_cons, map_cons, any_cons, any_cons, hx]
        rfl
      · rw [if_neg he] at hx ⊢
        rw [map_cons, map_cons, any_cons, any_cons, ih hx]

/-- A rule keeps its kind where another of its parameters is written. -/
theorem hasKind_set (policy : Value) (id name : String) (x : Value) (hname : name ≠ "pattern")
    (kind : String) :
    hasKind (policy.set id ((policy.field id).set name x)) kind = hasKind policy kind := by
  have hput : ∀ entries : List (String × Value), policy.field id = (find id entries).getD null →
      ((put id ((policy.field id).set name x) entries).map Prod.snd).any
        (fun rule => decide (rule.field "pattern" = .string kind)) =
      (entries.map Prod.snd).any fun rule => decide (rule.field "pattern" = .string kind) := by
    intro entries hfind
    refine any_put _ _ _ _ ?_
    rw [field_set, if_neg hname.symm, hfind]
    cases find id entries with
    | none => exact decide_eq_false fun hnull => Value.noConfusion hnull
    | some old => rfl
  cases policy with
  | object entries => exact hput entries rfl
  | null => exact hput [] rfl
  | bool => exact hput [] rfl
  | number => exact hput [] rfl
  | string => exact hput [] rfl
  | array => exact hput [] rfl

theorem Editable.ne_pattern (h : Editable id name) : name ≠ "pattern" := by
  rintro rfl
  simp [Editable] at h

theorem editable_of_allowed (h : allowed id name old value = true) : Editable id name := by
  unfold allowed at h
  split at h
  · next hname => rcases hname with rfl | rfl <;> simp [Editable]
  split at h
  · next hname => simp [Editable, hname]
  split at h
  · next hname => exact Or.inr (Or.inl hname)
  split at h
  · next hname => rcases hname with rfl | rfl <;> simp [Editable]
  split at h
  · next hname => exact Or.inr (Or.inr hname)
  · cases h

theorem mem_strings {v : Value} {s : String} :
    s ∈ strings v ↔ ∃ xs, v = .array xs ∧ .string s ∈ xs := by
  unfold strings
  constructor
  · intro h
    obtain ⟨x, hx, hs⟩ := List.mem_filterMap.1 h
    cases v with
    | array xs =>
        cases x with
        | string t =>
            obtain rfl := Option.some.inj hs
            exact ⟨xs, rfl, hx⟩
        | _ => cases hs
    | _ => cases hx
  · rintro ⟨xs, rfl, hx⟩
    exact List.mem_filterMap.2 ⟨_, hx, rfl⟩

/-- An accepted list of presences or reasons is part of the compiled one. -/
theorem strings_subset_of_allowed (hname : name = "allowed_presence" ∨ name = "allowed_reasons")
    (h : allowed id name old value = true) : strings value ⊆ strings old := by
  have hall : (value.asArray.any fun xs => !xs.isEmpty && xs.all fun v =>
      old.asArray.any fun base => base.contains v) = true := by
    unfold allowed at h
    rcases hname with rfl | rfl <;> simpa using h
  obtain ⟨xs, hxs, hin⟩ := (Option.any_eq_true _ _).1 hall
  rw [Bool.and_eq_true, all_eq_true] at hin
  intro s hs
  obtain ⟨ys, rfl, hmem⟩ := mem_strings.1 hs
  obtain rfl := Option.some.inj hxs
  obtain ⟨base, hbase, hcontains⟩ := (Option.any_eq_true _ _).1 (hin.2 _ hmem)
  cases old with
  | array zs =>
      obtain rfl := Option.some.inj hbase
      exact mem_strings.2 ⟨_, rfl, by simpa using hcontains⟩
  | _ => cases hbase

/-- Banned text is only added. -/
theorem strings_subset_edited (old value : Value) :
    strings old ⊆ strings (edited "banned_text" old value) := by
  have hfold : ∀ (items xs : List Value), xs ⊆ items.foldl
      (fun xs item => if xs.contains item then xs else xs ++ [item]) xs := by
    intro items
    induction items with
    | nil => exact fun xs => List.Subset.refl xs
    | cons item items ih =>
        intro xs
        refine List.Subset.trans ?_ (ih _)
        dsimp only
        split
        · exact List.Subset.refl xs
        · exact subset_append_left xs [item]
  intro s hs
  obtain ⟨xs, rfl, hmem⟩ := mem_strings.1 hs
  unfold edited
  rw [if_pos rfl]
  exact mem_strings.2 ⟨_, rfl, hfold _ _ hmem⟩

/-- A policy has the compiled parameters, but for the cases that must pass. -/
theorem Authority.field (hp : Authority p) (hname : name ≠ "must_pass") :
    (p.field id).field name = (conduct.field id).field name := by
  cases hp with
  | compiled => rfl
  | @released manifest _ h =>
      unfold mergeMustPass at h
      split at h
      · cases h
      · split at h
        · cases h
        · obtain rfl := Except.ok.inj h
          rw [field_field_set, if_neg fun heq => hname heq.2]

/-- One accepted parameter. -/
theorem editParameter_tightens (hp : Authority p) (h : Tightens p q) {entry : String × Value}
    {t : Value} (ht : editParameter id (conduct.field id) q entry = .ok t) : Tightens p t := by
  obtain ⟨name, value⟩ := entry
  unfold editParameter at ht
  split at ht
  · cases ht
  next old hold =>
  split at ht
  · obtain rfl := Except.ok.inj ht
    exact h
  split at ht
  next hallowed =>
    obtain rfl := Except.ok.inj ht
    have hedit := editable_of_allowed hallowed
    dsimp only at hold hallowed ⊢
    have hfield : (conduct.field id).field name = old :=
      congrArg (fun o : Option Value => o.getD null) hold
    have hne : name ≠ "must_pass" := by
      rintro rfl
      simp [Editable] at hedit
    have hsame : (p.field id).field name = old := (hp.field hne).trans hfield
    constructor
    · intro id' name' hnot
      rw [field_field_set, if_neg]
      · exact h.fixed id' name' hnot
      · rintro ⟨rfl, rfl⟩
        exact hnot hedit
    · intro kind
      rw [hasKind_set _ _ _ _ hedit.ne_pattern]
      exact h.kinds kind
    · rw [field_field_set]
      split
      · next heq =>
        obtain ⟨rfl, rfl⟩ := heq
        rw [hsame]
        exact strings_subset_of_allowed (Or.inl rfl) hallowed
      · exact h.presence
    · rw [field_field_set]
      split
      · next heq =>
        obtain ⟨rfl, rfl⟩ := heq
        rw [hsame]
        have hle : (value.asU64.any fun v => decide (v ≤ old.asU64.getD 0)) = true := by
          simpa [allowed] using hallowed
        obtain ⟨v, hv, hvle⟩ := (Option.any_eq_true _ _).1 hle
        unfold edited
        rw [if_neg (by decide), hv]
        exact of_decide_eq_true hvle
      · exact h.age
    · rw [field_field_set]
      split
      · next heq =>
        obtain ⟨rfl, rfl⟩ := heq
        rw [hsame]
        exact strings_subset_of_allowed (Or.inr rfl) hallowed
      · exact h.reasons
    · rw [field_field_set]
      split
      · next heq =>
        obtain ⟨rfl, rfl⟩ := heq
        exact List.Subset.trans h.banned (strings_subset_edited _ _)
      · exact h.banned
  · cases ht

/-- **An accepted overlay tightens the policy.** -/
theorem editPolicy_tightens (hp : Authority p) {overlay : Value}
    (h : editPolicy p overlay = .ok q) : Tightens p q := by
  unfold editPolicy at h
  split at h
  · next entries =>
    refine Check.foldlM_keeps (fun b entry b' hb hrule => ?_) (Tightens.refl p) h
    unfold editRule at hrule
    dsimp only at hrule
    split at hrule
    · split at hrule
      · exact Check.foldlM_keeps (fun _ _ _ ht hparameter =>
          editParameter_tightens hp ht hparameter) hb hrule
      · cases hrule
    · cases hrule
  · cases h

/-! ## Overlays -/

/-- What is reported of an overlay that is not accepted. -/
def weakening (host : Host) (context : Value) (message : String) : Diagnostic :=
  error host "E0102" ((fileNames context).headD "COMMIT_EDITMSG") message
    "edit only typed conduct parameters; mandatory authority cannot be weakened"

/-- **An overlay can only tighten**: where it is accepted, what was refused is refused still.
Where it is not, the policy stays, and the check reports it, unless the context names no
registered intent and author, which is all that is reported then. -/
theorem conductParameters_tighten (host : Host) {policy : Value} (hp : Authority policy)
    (overlay : Value) :
    ((conductParameters policy overlay).1 = .ok () → ∀ event,
      (conductEvent host.toUnicode event policy).isSome →
        (conductEvent host.toUnicode event (conductParameters policy overlay).2).isSome) ∧
    ∀ message, (conductParameters policy overlay).1 = .error message →
      (conductParameters policy overlay).2 = policy ∧
      ∀ context sources rules, (Value.field rules "machine_rules").field "conduct" = policy →
        overlayOf context = some overlay →
        if (registered rules context).isSome then
          weakening host context message ∈ checkWithAuthority host context sources rules
        else (checkWithAuthority host context sources rules).image Diagnostic.code = {"E0100"} := by
  unfold conductParameters
  cases hedit : editPolicy policy overlay with
  | ok q =>
      refine ⟨fun _ event => (editPolicy_tightens hp hedit).refuses, fun message h => ?_⟩
      cases h
  | error text =>
      refine ⟨fun h => (by cases h), fun message h => ⟨rfl, ?_⟩⟩
      obtain rfl := Except.error.inj h
      intro context sources rules hpolicy hoverlay
      unfold checkWithAuthority conductAuthority
      cases hentry : registered rules context with
      | none =>
          rw [if_neg (by decide)]
          exact Finset.image_singleton _ _
      | some entry =>
          rw [if_pos Option.isSome_some, hoverlay, hpolicy]
          dsimp only
          unfold conductParameters
          rw [hedit]
          exact List.mem_toFinset.2 (List.mem_append_left _ (List.mem_append_left _
            List.mem_cons_self))

/-- A compiler that reads nothing but ASCII. -/
def Host.plain : Host where
  lower := List.map Char.toLower
  alphanumeric := Char.isAlphanum
  explain _ := none
  languageName _ := "text"
  parse _ := none
  others _ _ _ _ := []

/-- An overlay of one parameter. -/
def overlayWith (id name : String) (x : Value) : Value :=
  .object [(id, .object [(name, x)])]

/-- A context that brings an overlay. -/
def contextWith (overlay : Value) (intent author : String) : Value :=
  .object [("author", .string author), ("intent", .string intent),
    ("machine_rule_parameters", .object [("conduct", overlay)])]

/-- Rules with one intent. -/
def rulesWith (policy : Value) : Value :=
  .object [("intents", .object [("fix", .null)]), ("machine_rules", .object [("conduct", policy)])]

theorem conductParameters_tighten_age :
    let overlay := overlayWith "R100" "max_presence_age_seconds" (.number (.nat 0))
    let event := Value.object [("effect", .string "screen"), ("kind", .string "operation")]
    (conductParameters conduct overlay).1 = .ok () ∧
      (conductEvent Host.plain.toUnicode event (conductParameters conduct overlay).2).isSome ∧
      weakening Host.plain (contextWith (overlayWith "R110" "must_pass" (.array [])) "fix" "me")
          "invalid or weakening conduct parameter `R110.must_pass`" ∈
        checkWithAuthority Host.plain
          (contextWith (overlayWith "R110" "must_pass" (.array [])) "fix" "me") []
          (rulesWith conduct) := by
  intro overlay event
  refine ⟨by decide +kernel, ?_, ?_⟩
  · exact (conductParameters_tighten Host.plain Authority.compiled overlay).1 (by decide +kernel)
      event (by decide +kernel)
  · exact ((conductParameters_tighten Host.plain Authority.compiled
      (overlayWith "R110" "must_pass" (.array []))).2
      "invalid or weakening conduct parameter `R110.must_pass`" (by decide +kernel)).2
      (contextWith (overlayWith "R110" "must_pass" (.array [])) "fix" "me") []
      (rulesWith conduct) rfl rfl

/-- Where no intent is named, an overlay that is not accepted is not reported. -/
theorem weakening_not_reported :
    let overlay := overlayWith "R100" "max_presence_age_seconds" (.number (.nat 999))
    (conductParameters conduct overlay).1 ≠ .ok () ∧
      ∀ d ∈ checkWithAuthority Host.plain (contextWith overlay "" "me") [] (rulesWith conduct),
        d.code ≠ "E0102" := by
  decide +kernel

end ArchHub.Compiler

import Mathlib
import ArchHub.Cloud.Scan
import ArchHub.Cloud.Routes

/-!
# Secrets at rest

The replica stores references to secrets, never the secrets: `_fragment_has_secret`
stands before every write.  It looks at the text, the triple and the values of
`extra`.  The other columns of a row are written as they come, and so are the keys
in `extra`; `patch_fragment` writes `extra` without a look at it.

* `Row.texts`: all that a row stores.
* `Fragment.unscanned`, `Patch.unscanned`: what is written without a look.
* `no_secret_at_rest`: in every sequence of upserts, patches and deltas that carry no
  secret where the gate does not look, no row has one.
-/

namespace ArchHub.Cloud

open Lib List

variable (host : Host)

/-! ## What a row stores -/

/-- The texts in the columns of a row, its id apart. -/
def Row.texts (r : Row) : List String :=
  [r.kind, r.text, r.scope, r.visibility, r.ownerUser, r.confidence, r.hlc, r.createdAt,
    r.updatedAt] ++ r.subject.toList ++ r.predicate.toList ++ r.object.toList ++
    r.projectId.toList ++ r.firmId.toList ++ r.validFrom.toList ++ r.validUntil.toList ++
    r.provenance.texts ++ r.extra.texts

/-- The scanner reports none of the texts. -/
def Clean (ss : List String) : Prop := ∀ s ∈ ss, host.secretLike s = false

/-- **No bare secret at rest**: the scanner reports no text of any row. -/
def NoSecretAtRest (c : Databases) : Prop :=
  EveryRow (fun _ fid row => Clean host (fid :: row.texts)) c

/-! ## What is written without a look -/

/-- The columns of a fragment that the gate does not look at, the id and the owner
apart, and the keys in its `extra`. -/
def Fragment.unscanned (frag : Fragment) : List String :=
  frag.kind.toList ++ frag.scope.toList ++ frag.visibility.toList ++ frag.projectId.toList ++
    frag.firmId.toList ++ frag.confidence.toList ++ frag.provenance.texts ++
    frag.validFrom.toList ++ frag.validUntil.toList ++ frag.extra.names ++ frag.hlc.toList

/-- The fields of a patch that the gate looks at. -/
def Patch.scanned (p : Patch) : List String :=
  p.text.toList ++ p.subject.toList ++ p.predicate.toList ++ p.object.toList

/-- The fields of a patch that the gate does not look at. -/
def Patch.unscanned (p : Patch) : List String :=
  p.scope.toList ++ p.visibility.toList ++ p.confidence.toList ++ p.validUntil.toList ++
    p.extra.toList.flatMap Value.texts ++ p.hlc.toList

/-! ## Calls -/

/-- A write to a replica. -/
inductive Call
  | upsert (user tick stamp : String) (frag : Fragment)
  | patch (user tick stamp fid : String) (fields : Patch)
  | applyDelta (o : Opened) (clock : Clock) (delta : Delta)

/-- The databases after a call; one that raises changes nothing. -/
def perform (c : Databases) : Call → Databases
  | .upsert user tick stamp frag => match upsertFragment host user tick stamp frag c with
    | .ok (c', _) => c'
    | .error _ => c
  | .patch user tick stamp fid fields => match patchFragment host user tick stamp fid fields c with
    | .ok (c', _) => c'
    | .error _ => c
  | .applyDelta o clock delta => (applyDelta host o clock delta c).1

/-- The characters of `_hlc_now()` and of `strftime('%Y-%m-%dT%H:%M:%fZ')`. -/
def clockChar (c : Char) : Bool :=
  c.isDigit || ('a' ≤ c && c ≤ 'f') || "-.:TZ".toList.contains c

/-- A text the server's clock writes. -/
def clockText (s : String) : Bool := s.toList.all clockChar

/-- The times of a call are texts of the server's clock. -/
def Call.Timed : Call → Prop
  | .upsert _ tick stamp _ => clockText tick ∧ clockText stamp
  | .patch _ tick stamp _ _ => clockText tick ∧ clockText stamp
  | .applyDelta _ clock _ => (∀ route, clockText (clock.tick route)) ∧ clockText clock.stamp

/-- What a call writes without a look carries no secret. -/
def Call.Careful : Call → Prop
  | .upsert user _ _ frag => fragmentHasSecret host frag = none →
      Clean host (user :: (frag.id.toList ++ frag.unscanned))
  | .patch _ _ _ _ fields => Clean host fields.scanned → Clean host fields.unscanned
  | .applyDelta o _ delta => ∀ fid frag route target, Lands host o delta fid frag route target →
      Clean host (fid :: target.owner frag :: frag.unscanned)

variable {host} {s stamp hlc : String} {x : Option String} {frag : Fragment} {r : Row}
  {c : Databases} {ss : List String} {d owner fid user tick : String} {v : Value}

/-! ## Clean texts -/

@[simp] theorem clean_nil : Clean host [] := fun _ h => by cases h

@[simp] theorem clean_cons :
    Clean host (s :: ss) ↔ host.secretLike s = false ∧ Clean host ss := forall_mem_cons

@[simp] theorem clean_append {ts : List String} :
    Clean host (ss ++ ts) ↔ Clean host ss ∧ Clean host ts := forall_mem_append

theorem clean_orElse (hx : Clean host x.toList) (hd : host.secretLike d = false) :
    host.secretLike (orElse x d) = false := by
  unfold orElse
  split
  · split
    · exact hd
    · exact hx _ (by simp)
  · exact hd

theorem clean_getD (hx : Clean host x.toList) (hd : host.secretLike d = false) :
    host.secretLike (x.getD d) = false := by
  cases x with
  | none => exact hd
  | some s => exact hx s (by simp)

theorem clean_or {y : Option String} (hx : Clean host x.toList) (hy : Clean host y.toList) :
    Clean host (x.or y).toList := by
  cases x with
  | none => simpa using hy
  | some s => simpa using hx

theorem isSecretLike_iff : isSecretLike host x = false ↔ Clean host x.toList := by
  cases x <;> simp [isSecretLike]

theorem clean_strings : isSecretAnywhere host v = false ↔ Clean host v.strings := by
  rw [isSecretAnywhere_eq, any_eq_false]
  exact forall₂_congr fun s _ => Bool.eq_false_iff.symm

theorem clean_orEmpty (hstrings : v ≠ .none → Clean host v.strings) (hnames : Clean host v.names) :
    Clean host (orEmpty v).texts := by
  unfold orEmpty
  split
  · next htrue =>
    refine clean_append.2 ⟨hstrings ?_, hnames⟩
    rintro rfl
    cases htrue
  · exact clean_nil

/-- What the gate looks at. -/
theorem scanned_of_gate (h : fragmentHasSecret host frag = none) :
    Clean host frag.text.toList ∧ Clean host frag.subject.toList ∧ Clean host frag.object.toList ∧
      Clean host frag.predicate.toList ∧ (frag.extra ≠ .none → Clean host frag.extra.strings) := by
  unfold fragmentHasSecret at h
  dsimp only at h
  split_ifs at h with htext hsubject hobject hpredicate hnone _ hextra
  all_goals refine ⟨isSecretLike_iff.1 (Bool.eq_false_iff.2 htext), isSecretLike_iff.1
    (Bool.eq_false_iff.2 hsubject), isSecretLike_iff.1 (Bool.eq_false_iff.2 hobject),
    isSecretLike_iff.1 (Bool.eq_false_iff.2 hpredicate), fun hne => ?_⟩
  · exact absurd hnone hne
  · exact clean_strings.1 (Bool.eq_false_iff.2 hextra)

/-! ## What a write leaves -/

/-- The scanner reports nothing that the code writes of its own: its defaults, the
ids it gives. -/
theorem clean_unmarked (h : unmarked s = true) : host.scanning.secretLike s = false := by
  rw [scanning_secretLike]
  exact not_bareSecret h

theorem not_mark_of_clockChar {c : Char} (h : clockChar c = true) : c ∉ markLetters := by
  have hletters : ∀ c ∈ markLetters, clockChar c = false := by
    simp [markLetters, clockChar]
  intro hletter
  rw [hletters c hletter] at h
  cases h

/-- The scanner reports no text of the clock. -/
theorem clean_clock (h : clockText s = true) : host.scanning.secretLike s = false := by
  refine clean_unmarked (List.all_eq_true.2 fun c hc => ?_)
  rw [Bool.not_eq_true', Bool.eq_false_iff, Ne, contains_iff_mem]
  exact not_mark_of_clockChar (List.all_eq_true.1 h c hc)

/-- The scanner reports no id that `upsert_fragment` gives. -/
theorem clean_rowid (n : ℕ) : host.scanning.secretLike ("mf-" ++ toString n) = false := by
  refine clean_unmarked (List.all_eq_true.2 fun c hc => ?_)
  rw [Bool.not_eq_true', Bool.eq_false_iff, Ne, contains_iff_mem]
  rw [String.toList_append, mem_append] at hc
  rcases hc with hc | hc
  · have hmark : ∀ c ∈ "mf-".toList, c ∉ markLetters := by simp [markLetters]
    exact hmark c hc
  · rw [Nat.toString_eq_repr, Nat.toList_repr] at hc
    refine not_mark_of_clockChar ?_
    simp [clockChar, Nat.isDigit_of_mem_toDigits (by decide) (by decide) hc]

/-- A fragment that the gate lets through is inserted as a clean row where it carries no
secret in the columns the gate does not look at. -/
theorem clean_ofFragment (hgate : fragmentHasSecret host.scanning frag = none)
    (hfrag : Clean host.scanning frag.unscanned) (howner : host.scanning.secretLike owner = false)
    (hstamp : clockText stamp = true) (hhlc : host.scanning.secretLike hlc = false) :
    Clean host.scanning (Row.ofFragment owner stamp hlc frag).texts := by
  obtain ⟨htext, hsubject, hobject, hpredicate, hextra⟩ := scanned_of_gate hgate
  simp only [Fragment.unscanned, clean_append, and_assoc] at hfrag
  obtain ⟨hkind, hscope, hvisibility, hproject, hfirm, hconfidence, hprovenance, hfrom, huntil,
    hnames, -⟩ := hfrag
  have hstrings : Clean host.scanning frag.provenance.strings ∧
      Clean host.scanning frag.provenance.names := clean_append.1 hprovenance
  have hstamp' : host.scanning.secretLike stamp = false := clean_clock hstamp
  simp only [Row.texts, Row.ofFragment, clean_append, clean_cons, clean_nil, and_true, and_assoc]
  exact ⟨clean_orElse hkind (clean_unmarked (by decide)),
    clean_orElse htext (clean_unmarked (by decide)),
    clean_orElse hscope (clean_unmarked (by decide)),
    clean_orElse hvisibility (clean_unmarked (by decide)), howner,
    clean_orElse hconfidence (clean_unmarked (by decide)), hhlc, hstamp', hstamp', hsubject,
    hpredicate, hobject, hproject, hfirm, hfrom, huntil, clean_orEmpty (fun _ => hstrings.1)
      hstrings.2, clean_orEmpty hextra hnames⟩

/-- A row written over by a clean row is clean. -/
theorem clean_merged (hr : Clean host r.texts)
    (hfrag : Clean host (Row.ofFragment owner stamp hlc frag).texts) :
    Clean host (Row.merged owner stamp hlc r frag).texts := by
  simp only [Row.texts, Row.merged, Row.ofFragment, clean_append, clean_cons, clean_nil, and_true,
    and_assoc] at *
  tauto

theorem clean_replaced (hr : Clean host r.texts)
    (hfrag : Clean host (Row.ofFragment r.ownerUser stamp hlc frag).texts) :
    Clean host (Row.replaced stamp hlc r frag).texts := by
  simp only [Row.texts, Row.replaced, Row.ofFragment, clean_append, clean_cons, clean_nil, and_true,
    and_assoc] at *
  tauto

theorem clean_patched {p : Patch} (hr : Clean host r.texts) (hscanned : Clean host p.scanned)
    (hunscanned : Clean host p.unscanned) (hstamp : host.secretLike stamp = false)
    (hhlc : host.secretLike hlc = false) : Clean host (Row.patched stamp hlc r p).texts := by
  simp only [Patch.scanned, Patch.unscanned, clean_append, and_assoc] at hscanned hunscanned
  obtain ⟨htext, hsubject, hpredicate, hobject⟩ := hscanned
  obtain ⟨hscope, hvisibility, hconfidence, huntil, hgiven, -⟩ := hunscanned
  simp only [Row.texts, clean_append, clean_cons, clean_nil, and_true, and_assoc] at hr
  obtain ⟨hkind, htext', hscope', hvisibility', howner, hconfidence', -, hcreated, -, hsubject',
    hpredicate', hobject', hproject, hfirm, hfrom, huntil', hprovenance, hextra'⟩ := hr
  have hextra : Clean host ((p.extra.filter Value.isDict).getD r.extra).texts := by
    cases hx : p.extra.filter Value.isDict with
    | none => exact hextra'
    | some v =>
        intro s hs
        refine hgiven s (List.mem_flatMap.2 ⟨v, ?_, hs⟩)
        exact Option.mem_toList.2 (Option.filter_eq_some_iff.1 hx).1
  simp only [Row.texts, Row.patched, clean_append, clean_cons, clean_nil, and_true, and_assoc]
  exact ⟨hkind, clean_getD htext htext', clean_getD hscope hscope',
    clean_getD hvisibility hvisibility', howner, clean_getD hconfidence hconfidence', hhlc,
    hcreated, hstamp, clean_or hsubject hsubject', clean_or hpredicate hpredicate',
    clean_or hobject hobject', hproject, hfirm, hfrom, clean_or huntil huntil', hprovenance, hextra⟩

/-! ## What a call leaves -/

/-- A replica whose table has one more clean row. -/
theorem noSecret_set {p : Place} {row : Row} (hc : NoSecretAtRest host c)
    (hrow : Clean host (fid :: row.texts)) :
    NoSecretAtRest host (c.set p (raiseTo hlc { c.replica p with
      fragments := (c.replica p).fragments.set fid row })) := by
  refine EveryRow.set hc ?_
  intro k r hr
  have hfragments : (raiseTo hlc { c.replica p with
      fragments := (c.replica p).fragments.set fid row }).fragments =
        (c.replica p).fragments.set fid row := by
    unfold raiseTo
    split <;> rfl
  rw [hfragments, Dict.get?_set] at hr
  split at hr
  · next hk =>
    rw [hk, ← Option.some.inj hr]
    exact hrow
  · exact hc p k r hr

section

variable (hc : NoSecretAtRest host.scanning c)

include hc

theorem noSecret_upsert (htick : clockText tick = true) (hstamp : clockText stamp = true)
    (hcall : (Call.upsert user tick stamp frag).Careful host.scanning) :
    NoSecretAtRest host.scanning (perform host.scanning c (.upsert user tick stamp frag)) := by
  unfold perform upsertFragment
  dsimp only
  cases hgate : fragmentHasSecret host.scanning frag with
  | some reason => exact hc
  | none =>
      have hclean := hcall hgate
      simp only [clean_cons, clean_append] at hclean
      obtain ⟨huser, hid, hfrag⟩ := hclean
      have hhlc : host.scanning.secretLike (orElse frag.hlc tick) = false := by
        refine clean_orElse ?_ (clean_clock htick)
        simp only [Fragment.unscanned, clean_append] at hfrag
        exact hfrag.2
      have hfresh : ∀ owner, host.scanning.secretLike owner = false →
          Clean host.scanning (Row.ofFragment owner stamp (orElse frag.hlc tick) frag).texts :=
        fun owner howner => clean_ofFragment hgate hfrag howner hstamp hhlc
      dsimp only
      cases hgiven : given frag.id with
      | none =>
          dsimp only
          split
          · next c' _ h =>
            split at h
            · cases h
            · rw [← (Prod.mk.inj (Except.ok.inj h)).1]
              exact noSecret_set hc (clean_cons.2 ⟨clean_rowid _, hfresh user huser⟩)
          · exact hc
      | some fid =>
          have hfid : host.scanning.secretLike fid = false :=
            hid fid (Option.mem_toList.2 (Option.filter_eq_some_iff.1 hgiven).1)
          refine noSecret_set hc (clean_cons.2 ⟨hfid, ?_⟩)
          cases hheld : ((c.replica (.own user)).fragments.get? fid) with
          | none => exact hfresh user huser
          | some held =>
              have hheld' := (clean_cons.1 (hc (.own user) fid held hheld)).2
              have howner : host.scanning.secretLike held.ownerUser = false :=
                hheld' _ (by simp [Row.texts])
              exact clean_replaced hheld' (hfresh _ howner)

theorem noSecret_patch {fields : Patch} (htick : clockText tick = true)
    (hstamp : clockText stamp = true)
    (hcall : (Call.patch user tick stamp fid fields).Careful host.scanning) :
    NoSecretAtRest host.scanning (perform host.scanning c (.patch user tick stamp fid fields)) := by
  unfold perform patchFragment
  dsimp only
  cases hheld : (c.replica (.own user)).fragments.get? fid with
  | none => exact hc
  | some row =>
      dsimp only
      split_ifs with htext hsubject hpredicate hobject
      any_goals exact hc
      have hscanned : Clean host.scanning fields.scanned := by
        simp only [Patch.scanned, clean_append, and_assoc]
        exact ⟨isSecretLike_iff.1 (Bool.eq_false_iff.2 htext),
          isSecretLike_iff.1 (Bool.eq_false_iff.2 hsubject),
          isSecretLike_iff.1 (Bool.eq_false_iff.2 hpredicate),
          isSecretLike_iff.1 (Bool.eq_false_iff.2 hobject)⟩
      have hunscanned := hcall hscanned
      have hhlc : host.scanning.secretLike (orElse fields.hlc tick) = false := by
        refine clean_orElse ?_ (clean_clock htick)
        simp only [Patch.unscanned, clean_append] at hunscanned
        exact hunscanned.2
      obtain ⟨hfid, hrow⟩ := clean_cons.1 (hc (.own user) fid row hheld)
      exact noSecret_set hc (clean_cons.2
        ⟨hfid, clean_patched hrow hscanned hunscanned (clean_clock hstamp) hhlc⟩)

theorem noSecret_applyDelta {o : Opened} {clock : Clock} {delta : Delta}
    (htick : ∀ route, clockText (clock.tick route) = true) (hstamp : clockText clock.stamp = true)
    (hcall : (Call.applyDelta o clock delta).Careful host.scanning) :
    NoSecretAtRest host.scanning (perform host.scanning c (.applyDelta o clock delta)) := by
  refine applyDelta_rows hc ?_
  intro fid frag route target hland
  have hclean := hcall fid frag route target hland
  simp only [clean_cons] at hclean
  obtain ⟨hfid, howner, hfrag⟩ := hclean
  have hgate : fragmentHasSecret host.scanning frag = none := by
    have hid := hland.2.1.1
    unfold takenId at hid
    split at hid
    · cases hid
    · next h => exact h
  have hhlc : host.scanning.secretLike (orElse frag.hlc (clock.tick route)) = false := by
    refine clean_orElse ?_ (clean_clock (htick route))
    simp only [Fragment.unscanned, clean_append] at hfrag
    exact hfrag.2
  have hfresh := clean_ofFragment hgate hfrag howner hstamp hhlc
  refine ⟨clean_cons.2 ⟨hfid, hfresh⟩, fun r hr => ?_⟩
  exact clean_cons.2 ⟨hfid, clean_merged (clean_cons.1 hr).2 hfresh⟩

/-- A call that carries no secret where the gate does not look leaves none. -/
theorem noSecret_perform {call : Call} (htimed : call.Timed) (hcall : call.Careful host.scanning) :
    NoSecretAtRest host.scanning (perform host.scanning c call) := by
  cases call with
  | upsert user tick stamp frag => exact noSecret_upsert hc htimed.1 htimed.2 hcall
  | patch user tick stamp fid fields => exact noSecret_patch hc htimed.1 htimed.2 hcall
  | applyDelta o clock delta => exact noSecret_applyDelta hc htimed.1 htimed.2 hcall

end

/-- **No bare secret at rest**, after any sequence of upserts, patches and deltas that
carry none in the columns the gate does not look at. -/
theorem no_secret_at_rest (host : Host) (calls : List Call) (htimed : ∀ call ∈ calls, call.Timed)
    (hcareful : ∀ call ∈ calls, call.Careful host.scanning) :
    NoSecretAtRest host.scanning (calls.foldl (perform host.scanning) Dict.empty) := by
  refine foldl_keeps ?_ EveryRow.empty
  intro call hmem c hc
  exact noSecret_perform hc (htimed call hmem) (hcareful call hmem)

/-! ## Runs -/

/-- A fragment with its text only. -/
def plainNote : Fragment :=
  { Fragment.bare with id := some "x", text := some "note", hlc := some "1" }

/-- A fragment whose provenance carries a key. -/
def keyInProvenance : Fragment :=
  { plainNote with provenance := .dict [("via", .str "sk-abcdefgh")] }

/-- A patch of the text, and of `extra`. -/
def patchOf (extra : Option Value) : Patch :=
  ⟨some "note", none, none, none, none, none, none, none, extra, none⟩

/-- A patch whose `extra` carries a key. -/
def keyInExtra : Patch := patchOf (some (.dict [("body", .str "sk-abcdefgh")]))

/-- A delta of one fragment, for the user `u`. -/
def deltaOf (frag : Fragment) : Call := .applyDelta solo ⟨fun _ => "5", "6"⟩ ⟨[some frag], []⟩

/-- An upsert, a patch and a delta. -/
theorem no_secret_at_rest_plain :
    NoSecretAtRest Host.plain.scanning
      ([Call.upsert "u" "1" "2" plainNote, .patch "u" "3" "4" "x" (patchOf none),
        deltaOf plainNote].foldl (perform Host.plain.scanning) Dict.empty) := by
  have hnote : Clean Host.plain.scanning ("x" :: "u" :: plainNote.unscanned) := by
    unfold Clean
    decide +kernel
  refine no_secret_at_rest Host.plain _ ?_ ?_
  · simp only [List.forall_mem_cons, deltaOf, Call.Timed]
    refine ⟨by decide +kernel, by decide +kernel, ⟨fun _ => by decide +kernel, by decide +kernel⟩,
      fun _ h => by cases h⟩
  · simp only [List.forall_mem_cons, deltaOf, Call.Careful]
    refine ⟨fun _ => ?_, fun _ => ?_, ?_, fun _ h => by cases h⟩
    · simp only [clean_cons] at hnote
      simpa [plainNote, clean_cons, Fragment.bare] using ⟨hnote.2.1, hnote.1, hnote.2.2⟩
    · simp [Patch.unscanned, patchOf]
    · intro fid frag route target hland
      obtain rfl : frag = plainNote := by simpa using hland.1
      obtain ⟨-, ⟨hid, hroute⟩, htarget⟩ := hland
      have hscope : sharedScope (routedScope Host.plain.scanning plainNote) = false := by
        decide +kernel
      have hhere : route = .here := by
        simp only [routeOf, hscope, Bool.and_false, Bool.false_eq_true, if_false] at hroute
        exact (Option.some.inj hroute).symm
      have hx : fid = "x" := by
        have htaken : takenId Host.plain.scanning plainNote = some "x" := by decide +kernel
        exact Option.some.inj (hid.symm.trans htaken)
      rw [hhere] at htarget
      cases htarget
      rw [hx]
      exact hnote

/-- A row that stores a text the scanner reports. -/
theorem not_noSecret (p : Place) (fid s : String)
    (h : ((c.replica p).fragments.get? fid).any (fun row => row.texts.contains s) = true)
    (hsecret : bareSecret host s = true) : ¬ NoSecretAtRest host.scanning c := by
  intro hc
  cases hrow : (c.replica p).fragments.get? fid with
  | none =>
      rw [hrow] at h
      cases h
  | some row =>
      rw [hrow, Option.any_some, contains_iff_mem] at h
      have hclean := (clean_cons.1 (hc p fid row hrow)).2 s h
      rw [scanning_secretLike, hsecret] at hclean
      cases hclean

/-- Each of the three writes stores a key where the gate does not look. -/
theorem secret_stored :
    ¬ NoSecretAtRest Host.plain.scanning (perform Host.plain.scanning Dict.empty
        (.upsert "u" "1" "2" keyInProvenance)) ∧
      ¬ NoSecretAtRest Host.plain.scanning (perform Host.plain.scanning Dict.empty
        (deltaOf keyInProvenance)) ∧
      ¬ NoSecretAtRest Host.plain.scanning ([Call.upsert "u" "1" "2" plainNote,
        .patch "u" "3" "4" "x" keyInExtra].foldl (perform Host.plain.scanning) Dict.empty) := by
  have hkey : bareSecret Host.plain "sk-abcdefgh" = true := by decide +kernel
  refine ⟨not_noSecret (.own "u") "x" "sk-abcdefgh" ?_ hkey,
    not_noSecret (.own "u") "x" "sk-abcdefgh" ?_ hkey,
    not_noSecret (.own "u") "x" "sk-abcdefgh" ?_ hkey⟩
  all_goals decide +kernel

end ArchHub.Cloud

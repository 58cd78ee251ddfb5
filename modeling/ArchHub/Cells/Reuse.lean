import Mathlib
import ArchHub.Lib.Transition
import ArchHub.Cells.Projection

/-!
# What the relation projection cache may be asked

Requests open a scope, read relations in it, capture what is kept and seed it again,
between commits to the store and in any order.

* `requests`: the calls, over a store and the scope of a request.
* `Kept`: what is kept was found in a snapshot that was read in the scope.
* `Honest`: no mapping that is read has the address that another mapping of the same
  revision had, and a seeding names the cells that changed.
* `projections_transparent`: in a run of such calls a read gives what the walk gives; and
  in any run a bounded cache is within its limits.
-/

namespace ArchHub.Cells

open Lib List

/-! ## Requests -/

/-- A store, and what there is of a request. -/
structure Requests where
  store : Store
  /-- The stores there were. -/
  published : List Store
  scope : Option Scope
  /-- The limits that the scope was opened with. -/
  limits : Option ℤ × Option ℤ
  /-- How many scopes have joined the one that is open. -/
  depth : ℕ
  /-- The snapshots for which the scope may keep something. -/
  read : List Snapshot
  /-- What was captured, and for which snapshot. -/
  captured : List (Snapshot × Reuse)

/-- A new store, and no request. -/
def Requests.new : Requests := ⟨.empty, [.empty], none, (none, none), 0, [], []⟩

/-- What is done. -/
inductive Request
  | commit (refusal : Option CellError) (expected : ℕ) (create replace : List Cell)
  | enter (maxBytes maxEntries : Option ℤ)
  | leave
  | read (sizes : Sizes) (s : Snapshot) (root : String) (budget : ℤ) (retain : Bool)
  | capture (s : Snapshot) (roots : List String)
  | fingerprint (sizes : Sizes) (batch : Batch)
  | seed (sizes : Sizes) (s : Snapshot) (call : Seeding)

/-- The calls of requests. -/
def requests (sha256 : List Piece → String) : Machine Requests Request where
  step w
    | .commit refusal expected create replace =>
        match w.store.commit refusal expected create replace with
        | .ok t => { w with store := t, published := t :: w.published }
        | .error _ => w
    | .enter maxBytes maxEntries =>
        match w.scope with
        | some _ => { w with depth := w.depth + 1 }
        | none =>
            match relationProjectionScope maxBytes maxEntries with
            | .ok scope => { w with scope := some scope, limits := (maxBytes, maxEntries), read := [] }
            | .error _ => w
    | .leave =>
        match w.depth with
        | 0 => { w with scope := none, read := [] }
        | depth + 1 => { w with depth := depth }
    | .read sizes s root budget retain =>
        { w with
          scope := (readRelationIn sizes w.scope s root budget retain).2
          read := if retain then s :: w.read else w.read }
    | .capture s roots =>
        match captureRelationProjections w.scope s roots with
        | (.ok found, scope) =>
            { w with scope := scope, captured := found.map (fun e => (s, e)) ++ w.captured }
        | (.error _, scope) => { w with scope := scope }
    | .fingerprint sizes batch =>
        { w with scope := (relationProjectionFingerprint sha256 sizes w.scope batch).2 }
    | .seed sizes s call =>
        { w with
          scope := (seedRelationProjections sha256 sizes w.scope s call).2
          read := s :: w.read }

/-- No other mapping of the revision had the address of this one. -/
def Fresh (w : Requests) (s : Snapshot) : Prop :=
  ∀ t ∈ w.read, t.revision = s.revision → t.address = s.address → t.cells = s.cells

/-- A mapping that is read is not taken for another, and a seeding names the cells that
changed. -/
def Honest (w : Requests) : Request → Prop
  | .read _ s _ _ retain => retain = true → Fresh w s
  | .capture s _ => Fresh w s
  | .seed _ s call => Fresh w s ∧
      (call.target = call.source + 1 → s.revision = call.target → ∀ e ∈ call.batch.entries,
        e.sourceRevision = call.source ∨ e.sourceRevision = call.target →
          ∃ t, (t, e) ∈ w.captured ∧ (∀ id, t.cells id ≠ s.cells id → id ∈ call.changed) ∧
            ∀ id, (t.cells id).isSome → (s.cells id).isSome)
  | _ => True

/-! ## What is kept is genuine -/

/-- An entry is what a walk of these cells finds. -/
def Genuine (cells : Lookup) (e : Reuse) : Prop :=
  (cells e.root).isSome ∧ ∃ budget fuel,
    projectionWalk cells budget fuel [] e.root = .ok ⟨e.members, e.steps, e.sources⟩

/-- Everything a cache holds has some property. -/
def Holds (P : Key → Reuse → Prop) (cache : ProjectionCache) : Prop :=
  ∀ key e, cache.get? key = some e → P key e

/-- An entry was found in one of some snapshots. -/
def Found (read : List Snapshot) (key : Key) (e : Reuse) : Prop :=
  ∃ t ∈ read, t.key e.root = key ∧ Genuine t.cells e

/-- What is kept was found in a snapshot that was read. -/
def Kept (read : List Snapshot) : ProjectionCache → Prop := Holds (Found read)

variable {sizes : Sizes} {cache : ProjectionCache} {key key' : Key} {e e' : Reuse}
  {read read' : List Snapshot} {s t : Snapshot} {root : String} {budget : ℤ} {changed : List String}
  {cells : Lookup}

/-- **A genuine entry answers as the walk does.** -/
theorem Genuine.answers (h : Genuine cells e) (hbudget : ¬ budget < 1) :
    readUncached cells e.root budget =
      if budget < e.steps then
        .error (.budgetExceeded "relation projection exceeded chain cells" budget)
      else .ok e.members := by
  obtain ⟨hroot, _, _, hwalk⟩ := h
  unfold readUncached readRelationWalk
  have hthere : ¬ (cells e.root).isNone := by
    rw [Bool.not_eq_true, Option.isNone_eq_false_iff]
    exact hroot
  rw [if_neg hbudget, if_neg hthere, projectionWalk_budget hwalk]
  have hsteps : budget.toNat < e.steps ↔ budget < e.steps := by omega
  by_cases hlt : budget < e.steps
  · rw [if_pos (hsteps.2 hlt), if_pos hlt]
    rfl
  · rw [if_neg (fun hn => hlt (hsteps.1 hn)), if_neg hlt]
    rfl

/-- What a walk finds is genuine. -/
theorem genuine_of_walk {w : Walked} (revision : ℕ)
    (h : readRelationWalk cells root budget = .ok w) :
    Genuine cells ⟨revision, root, w.members, w.steps, w.sources⟩ := by
  unfold readRelationWalk at h
  split at h
  · cases h
  · next hroot => exact ⟨by simpa [Option.isSome_iff_ne_none] using hroot, _, _, h⟩

/-- **An entry stays genuine** where none of its cells changes and no cell is gone. -/
theorem Genuine.transfer (h : Genuine t.cells e)
    (hkept : ∀ id, (t.cells id).isSome → (s.cells id).isSome)
    (hchanged : ∀ id, t.cells id ≠ s.cells id → id ∈ changed)
    (hchecked : ∀ c ∈ e.sources, c.id ∈ changed → s.cells c.id = some c) : Genuine s.cells e := by
  obtain ⟨hroot, budget, fuel, hwalk⟩ := h
  refine ⟨hkept _ hroot, budget, fuel, projectionWalk_transfer t.keyed hkept hwalk fun c hc => ?_⟩
  by_cases hmem : c.id ∈ changed
  · exact hchecked c hc hmem
  · have hsame : t.cells c.id = s.cells c.id := not_not.1 fun hne => hmem (hchanged _ hne)
    rw [← hsame]
    exact sources_held t.keyed hwalk c hc

namespace ProjectionCache

@[simp] theorem get?_touch (cache : ProjectionCache) (key key' : Key) :
    (cache.touch key).get? key' = cache.get? key' := by
  cases cache with
  | plain held => rfl
  | bounded newest held => exact Bounded.get?_touch held key key'

variable {held' : Bounded Key Reuse} {newest newest' : Option ℕ} {held : Bounded Key Reuse}
  {revision : ℕ}

theorem window_held (h : window newest held revision = some (newest', held'))
    (hget : held'.get? key = some e) : held.get? key = some e := by
  unfold window at h
  split at h
  · cases h
    exact Bounded.held_of_dropAll hget
  · split at h
    · cases h
    · cases h
      exact hget

/-- A cache holds what is stored and what it held. -/
theorem held_of_store (h : (cache.store sizes key e).get? key' = some e') :
    key' = key ∧ e' = e ∨ cache.get? key' = some e' := by
  cases cache with
  | plain held =>
      replace h : (held.set key e).get? key' = some e' := h
      rw [Dict.get?_set] at h
      split at h
      · next hkey => exact Or.inl ⟨hkey, (Option.some.inj h).symm⟩
      · exact Or.inr h
  | bounded newest held =>
      unfold store at h
      dsimp only at h
      split at h
      · exact Or.inr h
      · next newest' held' hwindow =>
        refine (Bounded.held_of_put h).imp_right fun hget => ?_
        exact window_held hwindow hget

/-- The limits of a cache. -/
def limits : ProjectionCache → Option (ℕ × ℕ)
  | .plain _ => none
  | .bounded _ held => some (held.maxBytes, held.maxEntries)

@[simp] theorem limits_touch (cache : ProjectionCache) (key : Key) :
    (cache.touch key).limits = cache.limits := by
  cases cache <;> rfl

theorem window_limits (h : window newest held revision = some (newest', held')) :
    held'.maxBytes = held.maxBytes ∧ held'.maxEntries = held.maxEntries := by
  unfold window at h
  split at h
  · cases h
    exact ⟨rfl, rfl⟩
  · split at h
    · cases h
    · cases h
      exact ⟨rfl, rfl⟩

@[simp] theorem limits_store (sizes : Sizes) (key : Key) (e : Reuse) (cache : ProjectionCache) :
    (cache.store sizes key e).limits = cache.limits := by
  cases cache with
  | plain held => rfl
  | bounded newest held =>
      unfold store
      dsimp only
      split
      · rfl
      · next newest' held' hwindow =>
        obtain ⟨hbytes, hentries⟩ := window_limits hwindow
        obtain ⟨hputEntries, hputBytes⟩ :=
          Bounded.limits_put held' key e (entryCost sizes key e)
        unfold limits
        dsimp only
        rw [hputEntries, hputBytes, hbytes, hentries]

end ProjectionCache

variable {P : Key → Reuse → Prop} {source target : ℕ}

namespace Holds

theorem touch (h : Holds P cache) (key : Key) : Holds P (cache.touch key) := by
  intro key' e hget
  rw [ProjectionCache.get?_touch] at hget
  exact h key' e hget

theorem store (h : Holds P cache) (hP : P key e) : Holds P (cache.store sizes key e) := by
  intro key' e' hget
  rcases ProjectionCache.held_of_store hget with ⟨rfl, rfl⟩ | hget
  · exact hP
  · exact h key' e' hget

end Holds

namespace Kept

theorem mono (h : Kept read cache) (hsub : read ⊆ read') : Kept read' cache := by
  intro key e hget
  obtain ⟨t, ht, hkey⟩ := h key e hget
  exact ⟨t, hsub ht, hkey⟩

/-- What is found for a snapshot that is not taken for another is genuine there. -/
theorem genuine (h : Kept read cache)
    (hfresh : ∀ t ∈ read, t.revision = s.revision → t.address = s.address → t.cells = s.cells)
    (hget : cache.get? (s.key root) = some e) : e.root = root ∧ Genuine s.cells e := by
  obtain ⟨t, ht, hkey, hgenuine⟩ := h _ e hget
  unfold Snapshot.key at hkey
  simp only [Prod.mk.injEq] at hkey
  obtain ⟨hrevision, haddress, hroot⟩ := hkey
  rw [hfresh t ht hrevision haddress] at hgenuine
  exact ⟨hroot, hgenuine⟩

end Kept

/-! ## The calls -/

theorem fingerprint_cache {sha256 : List Piece → String} {scope : Scope} {batch : Batch} :
    ∃ after, (relationProjectionFingerprint sha256 sizes (some scope) batch).2 = some after ∧
      after.cache = scope.cache := by
  unfold relationProjectionFingerprint
  split
  · exact ⟨scope, rfl, rfl⟩
  · exact ⟨_, rfl, rfl⟩

theorem fingerprint_none {sha256 : List Piece → String} {batch : Batch} :
    (relationProjectionFingerprint sha256 sizes none batch).2 = none := by
  unfold relationProjectionFingerprint
  split <;> rfl

theorem fingerprintMatches_cache {sha256 : List Piece → String} {scope : Scope} {batch : Batch}
    {expected : String} :
    (fingerprintMatches sha256 sizes scope batch expected).2.cache = scope.cache := by
  unfold fingerprintMatches
  split
  · rfl
  · obtain ⟨after, hafter, hcache⟩ := @fingerprint_cache sizes sha256 scope batch
    cases heq : relationProjectionFingerprint sha256 sizes (some scope) batch with
    | mk result scope' =>
        rw [heq] at hafter
        replace hafter : scope' = some after := hafter
        rw [hafter]
        cases result with
        | error err => exact hcache
        | ok fingerprint => exact hcache

/-- What is captured was kept, and nothing else happens to the cache. -/
theorem captureLoop_spec (roots : List String) (cache : ProjectionCache) :
    (∀ key, (captureLoop s roots cache).2.get? key = cache.get? key) ∧
      (captureLoop s roots cache).2.limits = cache.limits ∧
      ∀ e ∈ (captureLoop s roots cache).1, ∃ root, cache.get? (s.key root) = some e := by
  induction roots generalizing cache with
  | nil => exact ⟨fun _ => rfl, rfl, fun _ he => nomatch he⟩
  | cons root roots ih =>
      obtain ⟨hget, hlimits, hfound⟩ := ih (cache.touch (s.key root))
      have hrest : ∀ e ∈ (captureLoop s roots (cache.touch (s.key root))).1,
          ∃ root, cache.get? (s.key root) = some e := by
        intro e he
        obtain ⟨root', hroot'⟩ := hfound e he
        exact ⟨root', (ProjectionCache.get?_touch _ _ _).symm.trans hroot'⟩
      unfold captureLoop
      dsimp only
      split
      · next e he =>
        refine ⟨fun key => (hget key).trans (ProjectionCache.get?_touch _ _ _),
          hlimits.trans (ProjectionCache.limits_touch _ _), fun e' he' => ?_⟩
        rcases List.mem_cons.1 he' with rfl | he'
        · exact ⟨root, he⟩
        · exact hrest e' he'
      · exact ⟨fun key => (hget key).trans (ProjectionCache.get?_touch _ _ _),
          hlimits.trans (ProjectionCache.limits_touch _ _), hrest⟩

/-- What a seeding stores has passed its checks. -/
theorem seedLoop_holds {seen : List String} {es : List Reuse} (h : Holds P cache)
    (hpasses : ∀ e ∈ es, e.sourceRevision = source ∨ e.sourceRevision = target →
      (∀ c ∈ e.sources, c.id ∈ changed → s.cells c.id = some c) → P (s.key e.root) e) :
    Holds P (seedLoop sizes s source target changed seen es cache).2 := by
  induction es generalizing seen cache with
  | nil => exact h
  | cons e es ih =>
      unfold seedLoop
      split
      · exact h
      · next hdrift =>
        split
        · exact h
        · next hchecked =>
          dsimp only
          split
          · exact h.touch _
          · have hthis : P (s.key e.root) e := by
              refine hpasses e mem_cons_self ?_ fun c hc hmem => ?_
              · by_contra hne
                exact hdrift (Or.inl (not_or.1 hne))
              · by_contra hne
                exact hchecked ⟨c, hc, hmem, hne⟩
            exact ih ((h.touch (s.key e.root)).store hthis)
              fun e' he' => hpasses e' (mem_cons_of_mem _ he')

theorem seedLoop_limits (seen : List String) (es : List Reuse) (cache : ProjectionCache) :
    (seedLoop sizes s source target changed seen es cache).2.limits = cache.limits := by
  induction es generalizing seen cache with
  | nil => rfl
  | cons e es ih =>
      unfold seedLoop
      split
      · rfl
      · split
        · rfl
        · dsimp only
          split
          · exact ProjectionCache.limits_touch _ _
          · exact (ih _ _).trans
              ((ProjectionCache.limits_store _ _ _ _).trans (ProjectionCache.limits_touch _ _))

/-! ## What every call keeps -/

variable {sha256 : List Piece → String} {w : Requests} {a : Request}

/-- The cache of a scope keeps what was read, and captures are genuine. -/
structure Faithful (w : Requests) : Prop where
  kept : ∀ scope, w.scope = some scope → Kept w.read scope.cache
  captured : ∀ t e, (t, e) ∈ w.captured → Genuine t.cells e

/-- A bounded cache has the limits that the scope was opened with. -/
def Limited (w : Requests) : Prop :=
  ∀ scope, w.scope = some scope → match scope.cache.limits with
    | none => w.limits = (none, none)
    | some (bytes, entries) => w.limits = (some (bytes : ℤ), some (entries : ℤ))

theorem Limited.of_cache {scope scope' : Scope} {w' : Requests} (h : Limited w)
    (hscope : w.scope = some scope) (hscope' : w'.scope = some scope')
    (hcache : scope'.cache.limits = scope.cache.limits) (hlimits : w'.limits = w.limits) :
    Limited w' := by
  intro found hfound
  rw [hscope'] at hfound
  rw [← Option.some.inj hfound, hcache, hlimits]
  exact h scope hscope

theorem relationProjectionScope_ok {maxBytes maxEntries : Option ℤ} {scope : Scope}
    (h : relationProjectionScope maxBytes maxEntries = .ok scope) :
    (∀ key, scope.cache.get? key = none) ∧ match scope.cache.limits with
      | none => (maxBytes, maxEntries) = (none, none)
      | some (bytes, entries) => (maxBytes, maxEntries) = (some (bytes : ℤ), some (entries : ℤ)) := by
  unfold relationProjectionScope at h
  split at h
  · cases h
    exact ⟨fun _ => rfl, rfl⟩
  · next bytes entries =>
    split at h
    · cases h
    · next hlimits =>
      cases h
      refine ⟨fun _ => rfl, ?_⟩
      have hbytes : ((bytes.toNat : ℕ) : ℤ) = bytes := by omega
      have hentries : ((entries.toNat : ℕ) : ℤ) = entries := by omega
      show (some bytes, some entries) = (some ((bytes.toNat : ℕ) : ℤ), some ((entries.toNat : ℕ) : ℤ))
      rw [hbytes, hentries]
  · cases h

/-- A read in a scope keeps what it walks. -/
theorem readRelationIn_scope {scope : Scope} (retain : Bool) :
    ∃ scope', (readRelationIn sizes (some scope) s root budget retain).2 = some scope' ∧
      scope'.cache.limits = scope.cache.limits ∧
      ∀ P, Holds P scope.cache →
        (retain = true → ∀ walked, readRelationWalk s.cells root budget = .ok walked →
          P (s.key root) ⟨s.revision, root, walked.members, walked.steps, walked.sources⟩) →
        Holds P scope'.cache := by
  unfold readRelationIn
  split
  · exact ⟨scope, rfl, rfl, fun _ h _ => h⟩
  · cases retain with
    | false => exact ⟨scope, rfl, rfl, fun _ h _ => h⟩
    | true =>
        dsimp only
        split
        · next hnone => cases hnone
        · next open' hopen =>
          cases hopen
          split
          · exact ⟨_, rfl, ProjectionCache.limits_touch _ _, fun _ h _ => h.touch _⟩
          · split
            · exact ⟨scope, rfl, rfl, fun _ h _ => h⟩
            · next walked hwalk =>
              exact ⟨_, rfl, ProjectionCache.limits_store _ _ _ _,
                fun _ h hwalked => h.store (hwalked rfl walked hwalk)⟩

theorem readRelationIn_none (retain : Bool) :
    readRelationIn sizes none s root budget retain = (readUncached s.cells root budget, none) := by
  unfold readRelationIn readUncached
  split
  · rfl
  · cases retain <;> rfl

/-- **One read.** -/
theorem readRelationIn_eq {scope : Option Scope} {retain : Bool}
    (hkept : ∀ open', scope = some open' → Kept read open'.cache)
    (hfresh : retain = true → ∀ t ∈ read, t.revision = s.revision → t.address = s.address →
      t.cells = s.cells) :
    (readRelationIn sizes scope s root budget retain).1 = readUncached s.cells root budget := by
  cases scope with
  | none => rw [readRelationIn_none]
  | some scope =>
      unfold readRelationIn
      by_cases hbudget : budget < 1
      · unfold readUncached
        rw [if_pos hbudget, if_pos hbudget]
      · rw [if_neg hbudget]
        cases retain with
        | false =>
            unfold readUncached
            rw [if_neg hbudget]
            rfl
        | true =>
            rw [if_pos rfl]
            dsimp only
            cases hget : scope.cache.get? (s.key root) with
            | some cached =>
                obtain ⟨hroot, hgenuine⟩ := (hkept scope rfl).genuine (hfresh rfl) hget
                dsimp only
                rw [← hgenuine.answers hbudget, hroot]
            | none =>
                unfold readUncached
                rw [if_neg hbudget]
                cases readRelationWalk s.cells root budget <;> rfl

/-- A seeding leaves the cache, or is what its loop makes of it. -/
theorem seed_cases {scope found : Scope} {call : Seeding}
    (hfound : (seedRelationProjections sha256 sizes (some scope) s call).2 = some found) :
    found.cache = scope.cache ∨ call.target = call.source + 1 ∧ s.revision = call.target ∧
      found.cache = (seedLoop sizes s call.source call.target call.changed [] call.batch.entries
        scope.cache).2 := by
  unfold seedRelationProjections at hfound
  dsimp only at hfound
  split at hfound
  · cases hfound
    exact Or.inl rfl
  · next hrevision =>
    rw [not_or, not_not, not_not] at hrevision
    have hcache := @fingerprintMatches_cache sizes sha256 scope call.batch call.fingerprint
    cases hmatches : fingerprintMatches sha256 sizes scope call.batch call.fingerprint with
    | mk result after =>
        rw [hmatches] at hcache hfound
        replace hcache : after.cache = scope.cache := hcache
        rw [← hcache]
        cases result with
        | error err =>
            cases hfound
            exact Or.inl rfl
        | ok same =>
            cases same with
            | false =>
                cases hfound
                exact Or.inl rfl
            | true =>
                dsimp only at hfound
                split at hfound
                · cases hfound
                  exact Or.inl rfl
                · cases hfound
                  exact Or.inr ⟨hrevision.1, hrevision.2, rfl⟩

theorem faithful_step (ha : Honest w a) (h : Faithful w) :
    Faithful ((requests sha256).step w a) := by
  cases a with
  | commit refusal expected create replace =>
      dsimp only [requests]
      split <;> exact ⟨h.kept, h.captured⟩
  | enter maxBytes maxEntries =>
      dsimp only [requests]
      split
      · exact ⟨h.kept, h.captured⟩
      · split
        · next hok =>
          refine ⟨fun found hfound => ?_, h.captured⟩
          cases hfound
          intro key e hget
          rw [(relationProjectionScope_ok hok).1 key] at hget
          cases hget
        · exact h
  | leave =>
      dsimp only [requests]
      split
      · exact ⟨(fun _ hfound => nomatch hfound), h.captured⟩
      · exact ⟨h.kept, h.captured⟩
  | read sizes s root budget retain =>
      refine ⟨fun found hfound => ?_, h.captured⟩
      cases hscope : w.scope with
      | none =>
          replace hfound : (readRelationIn sizes w.scope s root budget retain).2 = some found := hfound
          rw [hscope, readRelationIn_none] at hfound
          cases hfound
      | some scope =>
          obtain ⟨scope', hscope', -, hkept⟩ :=
            @readRelationIn_scope sizes s root budget scope retain
          replace hfound : (readRelationIn sizes w.scope s root budget retain).2 = some found := hfound
          rw [hscope, hscope'] at hfound
          cases hfound
          have hmono : Kept (if retain then s :: w.read else w.read) scope.cache :=
            (h.kept scope hscope).mono (by split <;> simp)
          refine hkept _ hmono fun hretain walked hwalk => ?_
          have hread : s ∈ if retain then s :: w.read else w.read := by
            rw [if_pos hretain]
            exact mem_cons_self
          exact ⟨s, hread, rfl, genuine_of_walk s.revision hwalk⟩
  | capture s roots =>
      dsimp only [requests]
      cases hscope : w.scope with
      | none => exact ⟨(fun _ hfound => nomatch hfound), h.captured⟩
      | some scope =>
          obtain ⟨hget, -, hfound⟩ := captureLoop_spec (s := s) roots.eraseDups scope.cache
          have hkept := h.kept scope hscope
          refine ⟨fun found hopen => ?_, fun t e hmem => ?_⟩
          · cases hopen
            intro key e he
            exact hkept key e ((hget key).symm.trans he)
          · rcases List.mem_append.1 hmem with hmem | hmem
            · obtain ⟨e', he', heq⟩ := List.mem_map.1 hmem
              cases heq
              obtain ⟨root, hroot⟩ := hfound e he'
              exact (hkept.genuine ha hroot).2
            · exact h.captured t e hmem
  | fingerprint sizes batch =>
      refine ⟨fun found hfound => ?_, h.captured⟩
      replace hfound : (relationProjectionFingerprint sha256 sizes w.scope batch).2 = some found :=
        hfound
      cases hscope : w.scope with
      | none =>
          rw [hscope, fingerprint_none] at hfound
          cases hfound
      | some scope =>
          obtain ⟨after, hafter, hcache⟩ := @fingerprint_cache sizes sha256 scope batch
          rw [hscope, hafter] at hfound
          cases hfound
          rw [hcache]
          exact h.kept scope hscope
  | seed sizes s call =>
      obtain ⟨hfresh, hnames⟩ := ha
      refine ⟨fun found hfound => ?_, h.captured⟩
      replace hfound : (seedRelationProjections sha256 sizes w.scope s call).2 = some found := hfound
      cases hscope : w.scope with
      | none =>
          rw [hscope] at hfound
          cases hfound
      | some scope =>
          rw [hscope] at hfound
          have hkept : Kept (s :: w.read) scope.cache :=
            (h.kept scope hscope).mono (subset_cons_self s w.read)
          rcases seed_cases hfound with hcache | ⟨htarget, hrevision, hcache⟩
          · rw [hcache]
            exact hkept
          · rw [hcache]
            refine seedLoop_holds hkept fun e he hin hchecked => ?_
            obtain ⟨t, hcaptured, hchanged, hthere⟩ := hnames htarget hrevision e he hin
            exact ⟨s, mem_cons_self, rfl,
              (h.captured t e hcaptured).transfer hthere hchanged hchecked⟩

theorem limited_step (h : Limited w) : Limited ((requests sha256).step w a) := by
  cases a with
  | commit refusal expected create replace =>
      dsimp only [requests]
      split <;> exact h
  | enter maxBytes maxEntries =>
      dsimp only [requests]
      split
      · exact h
      · split
        · next hok =>
          intro found hfound
          cases hfound
          exact (relationProjectionScope_ok hok).2
        · exact h
  | leave =>
      dsimp only [requests]
      split
      · exact fun _ hfound => nomatch hfound
      · exact h
  | read sizes s root budget retain =>
      cases hscope : w.scope with
      | none =>
          intro found hfound
          replace hfound : (readRelationIn sizes w.scope s root budget retain).2 = some found := hfound
          rw [hscope, readRelationIn_none] at hfound
          cases hfound
      | some scope =>
          obtain ⟨scope', hscope', hlimits, -⟩ :=
            @readRelationIn_scope sizes s root budget scope retain
          rw [← hscope] at hscope'
          exact h.of_cache hscope hscope' hlimits rfl
  | capture s roots =>
      dsimp only [requests]
      cases hscope : w.scope with
      | none => exact fun _ hfound => nomatch hfound
      | some scope =>
          exact h.of_cache hscope rfl (captureLoop_spec (s := s) roots.eraseDups scope.cache).2.1 rfl
  | fingerprint sizes batch =>
      cases hscope : w.scope with
      | none =>
          intro found hfound
          replace hfound : (relationProjectionFingerprint sha256 sizes w.scope batch).2 = some found :=
            hfound
          rw [hscope, fingerprint_none] at hfound
          cases hfound
      | some scope =>
          obtain ⟨after, hafter, hcache⟩ := @fingerprint_cache sizes sha256 scope batch
          rw [← hscope] at hafter
          exact h.of_cache hscope hafter (congrArg ProjectionCache.limits hcache) rfl
  | seed sizes s call =>
      cases hscope : w.scope with
      | none =>
          intro found hfound
          replace hfound : (seedRelationProjections sha256 sizes w.scope s call).2 = some found := hfound
          rw [hscope] at hfound
          cases hfound
      | some scope =>
          intro found hfound
          replace hfound : (seedRelationProjections sha256 sizes w.scope s call).2 = some found := hfound
          rw [hscope] at hfound
          have hlimits : found.cache.limits = scope.cache.limits := by
            rcases seed_cases hfound with hcache | ⟨-, -, hcache⟩
            · rw [hcache]
            · rw [hcache]
              exact seedLoop_limits _ _ _
          rw [hlimits]
          exact h scope hscope

/-! ## The cache is transparent -/

/-- A bounded cache is within the limits that its scope was opened with, and the bytes it
retains are the sum of what the entries it holds cost. -/
def WithinLimits (w : Requests) : Prop :=
  ∀ scope newest held, w.scope = some scope → scope.cache = .bounded newest held →
    ∃ bytes entries : ℤ, w.limits = (some bytes, some entries) ∧
      (held.ledger.entries.size : ℤ) ≤ entries ∧ held.ledger.retained ≤ bytes ∧
      (∀ key, key ∈ held.ledger.costs.keys ↔ key ∈ held.ledger.entries.keys) ∧
      held.ledger.retained = (held.ledger.costs.values.sum : ℕ)

theorem Limited.within (h : Limited w) : WithinLimits w := by
  intro scope newest held hscope hcache
  have hlimits := h scope hscope
  rw [hcache] at hlimits
  exact ⟨held.maxBytes, held.maxEntries, hlimits, Int.ofNat_le.2 held.within.1, held.within.2,
    held.mem_costs_iff, held.retained_eq⟩

/-- A mapping of no objects' sizes. -/
def Sizes.zero : Sizes := ⟨fun _ => 0, fun _ => 0, fun _ => 0, fun _ => 0, fun _ => 0, fun _ => 0⟩

/-- Cells under their identities, at one address and of one revision. -/
def stagedAt (cells : List Cell) : Snapshot where
  revision := 3
  address := 140
  cells := cellOf cells
  keyed id c h := by simpa using List.find?_some h

/-- A relation that is staged without a member. -/
def stagedEmpty : Snapshot := stagedAt [nullCell, ⟨"relation", nullId, nullId, []⟩]

/-- The relation, staged anew with one. -/
def stagedFull : Snapshot :=
  stagedAt [nullCell, ⟨"relation", "incidence", nullId, []⟩, ⟨"incidence", nullId, nullId, []⟩]

/-- A scope in which the first was read. -/
def afterEmpty : Requests :=
  [Request.enter none none, .read .zero stagedEmpty "relation" 10 true].foldl
    (requests fun _ => "").step .new

/-- A bounded scope in which the first was read. -/
def boundedEmpty : Requests :=
  [Request.enter (some 4000) (some 2), .read .zero stagedEmpty "relation" 10 true].foldl
    (requests fun _ => "").step .new

end ArchHub.Cells

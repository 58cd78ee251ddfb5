import Mathlib
import ArchHub.Cloud.Routes

/-!
# Rejected fragments

`apply_delta` takes a fragment of a shared scope before it knows whether the route that it is
gathered for can be applied: a community that the caller is no member of, or a key that names no
file, is found out afterwards.

* `Opened.accepts`: the fragments that are accepted.
* `Opened.late`: those that are taken first and rejected after.
* `applyDelta_kept`: what a delta leaves is what its accepted fragments alone leave, but for the
  watermark.
* `rejected_unseen_iff`: **when the rejected fragments change nothing**.
-/

namespace ArchHub.Cloud

open Lib List

variable (host : Host)

/-! ## Which fragments are accepted -/

/-- A route that can be applied. -/
def Opened.usable (o : Opened) : Route → Bool
  | .here => true
  | .firm key => (safeKey host key).isOk
  | .community key => key ∈ o.communityKeys && (safeKey host key).isOk

/-- The route that an entry is taken for. -/
def Opened.taken (o : Opened) : Option Fragment → Option Route
  | none => none
  | some frag => (takenId host frag).bind fun _ => routeOf host o frag

/-- An entry that is accepted. -/
def Opened.accepts (o : Opened) (e : Option Fragment) : Bool := (o.taken host e).any (o.usable host)

/-- An entry that is taken, and rejected when its route is applied. -/
def Opened.late (o : Opened) (e : Option Fragment) : Bool :=
  (o.taken host e).any fun route => !o.usable host route

/-- A delta with its accepted fragments only. -/
def Delta.kept (o : Opened) (delta : Delta) : Delta :=
  { delta with fragments := delta.fragments.filter (o.accepts host) }

/-- The clock of an entry. -/
def hlcOf (tick : String) (e : Option Fragment) : String := orElse (e.bind Fragment.hlc) tick

/-- A replica without its watermark. -/
def BrainReplica.unmarked (r : BrainReplica) : BrainReplica := { r with lastHlc := none }

/-- **The rejected fragments change nothing**: what is returned and what is stored are as if they
had not been sent, apart from the list of the rejected ones. -/
structure Unseen (o : Opened) (clock : Clock) (delta : Delta) (c : Databases) : Prop where
  accepted : (applyDelta host o clock delta c).2.accepted =
    (applyDelta host o clock (delta.kept host o) c).2.accepted
  rows : ∀ p, ((applyDelta host o clock delta c).1.replica p).unmarked =
    ((applyDelta host o clock (delta.kept host o) c).1.replica p).unmarked
  firmKeys : (applyDelta host o clock delta c).2.firmKeys =
    (applyDelta host o clock (delta.kept host o) c).2.firmKeys
  communityKeys : (applyDelta host o clock delta c).2.communityKeys =
    (applyDelta host o clock (delta.kept host o) c).2.communityKeys
  watermark : (applyDelta host o clock delta c).2.newHlc =
    (applyDelta host o clock (delta.kept host o) c).2.newHlc

/-- **Every fragment is accepted or rejected**: the count and the list. -/
structure Accounted (o : Opened) (clock : Clock) (delta : Delta) (c : Databases) : Prop where
  accepted : (applyDelta host o clock delta c).2.accepted =
    delta.fragments.countP (o.accepts host)
  rejected : (applyDelta host o clock delta c).2.rejected.length =
    delta.fragments.countP fun e => !o.accepts host e

variable {host} {route : Route}

/-! ## Routes -/

/-- The routes that can be applied, of those that were gathered. -/
def usableRoutes (usable : String → Bool) (routes : Dict String (List Fragment)) :
    Dict String (List Fragment) := routes.filter fun e => usable e.1

theorem filter_put {usable : String → Bool} {k : String} {v : List Fragment}
    (es : List (String × List Fragment)) :
    (Assoc.put es k v).filter (fun e => usable e.1) =
      if usable k then Assoc.put (es.filter fun e => usable e.1) k v
      else es.filter fun e => usable e.1 := by
  induction es with
  | nil => by_cases hk : usable k = true <;> simp [Assoc.put, hk]
  | cons e es ih =>
    by_cases heq : e.1 = k
    · subst heq
      by_cases hk : usable e.1 = true <;> simp [Assoc.put, hk]
    · rw [Assoc.put, if_neg heq, filter_cons, filter_cons, ih]
      by_cases hk : usable k = true
      · rw [if_pos hk, if_pos hk]
        by_cases he : usable e.1 = true
        · rw [if_pos he, if_pos he, Assoc.put, if_neg heq]
        · rw [if_neg he, if_neg he]
      · rw [if_neg hk, if_neg hk]

/-- A fragment that is gathered for a route that can be applied, or for another one. -/
theorem usableRoutes_append {usable : String → Bool} {k : String} {frag : Fragment}
    (routes : Dict String (List Fragment)) :
    usableRoutes usable (append routes k frag) =
      if usable k then append (usableRoutes usable routes) k frag else usableRoutes usable routes := by
  have hget : usable k = true → (usableRoutes usable routes).get? k = routes.get? k := by
    intro hk
    have hfilter := Dict.get?_filter_key usable routes k
    rw [if_pos hk] at hfilter
    exact hfilter
  by_cases hk : usable k = true
  · rw [if_pos hk]
    refine Dict.ext ?_
    unfold append
    rw [hget hk]
    exact (filter_put routes.entries).trans (if_pos hk)
  · rw [if_neg hk]
    exact Dict.ext ((filter_put routes.entries).trans (if_neg hk))

/-- How many fragments were gathered for routes that cannot be applied. -/
def lost (usable : String → Bool) (es : List (String × List Fragment)) : ℕ :=
  ((es.filter fun e => !usable e.1).map fun e => e.2.length).sum

theorem lost_cons (usable : String → Bool) (e : String × List Fragment)
    (es : List (String × List Fragment)) :
    lost usable (e :: es) = (if usable e.1 then 0 else e.2.length) + lost usable es := by
  unfold lost
  by_cases he : usable e.1 = true
  · rw [filter_cons_of_neg (by simpa using he), if_pos he, Nat.zero_add]
  · rw [filter_cons_of_pos (by simpa using he), if_neg he, map_cons, sum_cons]

/-- One more fragment is gathered. -/
theorem lost_put (usable : String → Bool) (k : String) (frag : Fragment)
    (es : List (String × List Fragment)) :
    lost usable (Assoc.put es k ((Assoc.find es k).getD [] ++ [frag])) =
      lost usable es + if usable k then 0 else 1 := by
  induction es with
  | nil =>
    rw [Assoc.put, lost_cons]
    by_cases hk : usable k = true <;> simp [hk, lost]
  | cons e es ih =>
    rw [Assoc.find_cons, Assoc.put, lost_cons]
    by_cases heq : e.1 = k
    · subst heq
      rw [if_pos rfl, if_pos rfl, lost_cons]
      by_cases hk : usable e.1 = true
      · simp [hk]
      · simp [hk]
        omega
    · rw [if_neg heq, if_neg heq, lost_cons, ih]
      omega

/-! ## One fragment -/

/-- The firm routes that can be applied. -/
def firmUsable (host : Host) (key : String) : Bool := (safeKey host key).isOk

/-- The community routes that can be applied. -/
def communityUsable (host : Host) (o : Opened) (key : String) : Bool :=
  key ∈ o.communityKeys && (safeKey host key).isOk

/-- What `apply_delta` does with a fragment that it takes, by its route. -/
def absorbTaken (o : Opened) (tick stamp : String) (m : Merge) (frag : Fragment) (fid : String) :
    Route → Merge
  | .here => absorbHere o stamp m frag fid (orElse frag.hlc tick)
  | .firm key =>
      { m.take (orElse frag.hlc tick) with firmRoutes := append m.firmRoutes key frag }
  | .community key =>
      { m.take (orElse frag.hlc tick) with communityRoutes := append m.communityRoutes key frag }

theorem taken_eq_some {o : Opened} {e : Option Fragment} (h : o.taken host e = some route) :
    ∃ frag fid, e = some frag ∧ takenId host frag = some fid ∧ routeOf host o frag = some route := by
  cases e with
  | none => cases h
  | some frag =>
    obtain ⟨fid, hid, hroute⟩ := Option.bind_eq_some_iff.1 h
    exact ⟨frag, fid, rfl, hid, hroute⟩

theorem absorb_taken {o : Opened} {frag : Fragment} {fid : String}
    (hid : takenId host frag = some fid) (hroute : routeOf host o frag = some route)
    (tick stamp : String) (m : Merge) :
    absorb host o tick stamp m (some frag) = absorbTaken o tick stamp m frag fid route := by
  rcases absorb_cases host o tick stamp m frag with
    ⟨hnone | hnone, -⟩ | ⟨fid', hid', hroute', h⟩ | ⟨fid', k, hid', hroute', -, h⟩ |
      ⟨fid', k, hid', hroute', h⟩
  · rw [hid] at hnone
    cases hnone
  · rw [hroute] at hnone
    cases hnone
  all_goals
    rw [hid] at hid'
    rw [hroute] at hroute'
    cases hid'
    cases hroute'
    exact h

theorem absorb_rejected {o : Opened} {e : Option Fragment} (h : o.taken host e = none)
    (tick stamp : String) (m : Merge) :
    ∃ id reason, absorb host o tick stamp m e = m.reject id reason := by
  cases e with
  | none => exact ⟨none, _, rfl⟩
  | some frag =>
    have hnone : ∀ {fid route}, takenId host frag = some fid →
        routeOf host o frag = some route → False := by
      intro fid route hid hroute
      have htaken : o.taken host (some frag) = some route := by
        unfold Opened.taken
        dsimp only
        rw [hid, hroute]
        rfl
      rw [h] at htaken
      cases htaken
    rcases absorb_cases host o tick stamp m frag with
      ⟨-, hreject⟩ | ⟨fid, hid, hroute, -⟩ | ⟨fid, k, hid, hroute, -, -⟩ | ⟨fid, k, hid, hroute, -⟩
    · exact hreject
    · exact absurd hroute fun h => hnone hid h
    · exact absurd hroute fun h => hnone hid h
    · exact absurd hroute fun h => hnone hid h

/-! ## All fragments -/

/-- What the transaction has gathered out of some entries, next to what it would have gathered out
of the accepted ones. -/
structure Lockstep (host : Host) (o : Opened) (m m' : Merge) : Prop where
  table : m.table = m'.table
  firmRoutes : m'.firmRoutes = usableRoutes (firmUsable host) m.firmRoutes
  communityRoutes : m'.communityRoutes = usableRoutes (communityUsable host o) m.communityRoutes

theorem Lockstep.step {o : Opened} {m m' : Merge} (h : Lockstep host o m m') (tick stamp : String)
    (e : Option Fragment) : Lockstep host o (absorb host o tick stamp m e)
      (if o.accepts host e then absorb host o tick stamp m' e else m') := by
  unfold Opened.accepts
  cases htaken : o.taken host e with
  | none =>
    obtain ⟨id, reason, hreject⟩ := absorb_rejected htaken tick stamp m
    rw [hreject]
    show Lockstep host o (m.reject id reason) m'
    exact ⟨h.table, h.firmRoutes, h.communityRoutes⟩
  | some route =>
    obtain ⟨frag, fid, rfl, hid, hroute⟩ := taken_eq_some htaken
    rw [absorb_taken hid hroute, absorb_taken hid hroute]
    cases route with
    | here =>
      exact
        { table := congrArg (writeRow (o.owner frag) stamp fid (orElse frag.hlc tick) frag) h.table
          firmRoutes := h.firmRoutes
          communityRoutes := h.communityRoutes }
    | firm k =>
      have happend := @usableRoutes_append (firmUsable host) k frag m.firmRoutes
      by_cases hk : firmUsable host k = true
      · rw [if_pos hk, ← h.firmRoutes] at happend
        rw [if_pos (show (some (Route.firm k)).any (o.usable host) = true from hk)]
        exact ⟨h.table, happend.symm, h.communityRoutes⟩
      · rw [if_neg hk, ← h.firmRoutes] at happend
        rw [if_neg (show ¬(some (Route.firm k)).any (o.usable host) = true from hk)]
        exact ⟨h.table, happend.symm, h.communityRoutes⟩
    | community k =>
      have happend := @usableRoutes_append (communityUsable host o) k frag m.communityRoutes
      by_cases hk : communityUsable host o k = true
      · rw [if_pos hk, ← h.communityRoutes] at happend
        rw [if_pos (show (some (Route.community k)).any (o.usable host) = true from hk)]
        exact ⟨h.table, h.firmRoutes, happend.symm⟩
      · rw [if_neg hk, ← h.communityRoutes] at happend
        rw [if_neg (show ¬(some (Route.community k)).any (o.usable host) = true from hk)]
        exact ⟨h.table, h.firmRoutes, happend.symm⟩

/-- The transaction gathers out of all entries what it gathers out of the accepted ones, and what
is lost afterwards. -/
theorem Lockstep.run {o : Opened} {m m' : Merge} (h : Lockstep host o m m') (tick stamp : String)
    (es : List (Option Fragment)) : Lockstep host o (es.foldl (absorb host o tick stamp) m)
      ((es.filter (o.accepts host)).foldl (absorb host o tick stamp) m') := by
  induction es generalizing m m' with
  | nil => exact h
  | cons e es ih =>
    have hstep := h.step tick stamp e
    rw [foldl_cons, filter_cons]
    by_cases he : o.accepts host e = true
    · rw [if_pos he] at hstep ⊢
      exact ih hstep
    · rw [if_neg he] at hstep ⊢
      exact ih hstep

/-- How many fragments the transaction has counted, and where they are. -/
structure Counted (host : Host) (o : Opened) (m : Merge) (es : List (Option Fragment)) : Prop where
  accepted : m.accepted = es.countP (o.accepts host) + es.countP (o.late host)
  rejected : m.rejected.length + es.countP (o.late host) = es.countP fun e => !o.accepts host e
  gathered : lost (firmUsable host) m.firmRoutes.entries +
    lost (communityUsable host o) m.communityRoutes.entries = es.countP (o.late host)

/-- An entry that is taken is accepted, or rejected later. -/
theorem accepts_of_taken {o : Opened} {e : Option Fragment} (h : o.taken host e = some route) :
    o.accepts host e = o.usable host route ∧ o.late host e = !o.usable host route := by
  unfold Opened.accepts Opened.late
  rw [h]
  exact ⟨rfl, rfl⟩

theorem accepts_of_not_taken {o : Opened} {e : Option Fragment} (h : o.taken host e = none) :
    o.accepts host e = false ∧ o.late host e = false := by
  unfold Opened.accepts Opened.late
  rw [h]
  exact ⟨rfl, rfl⟩

theorem Counted.step {o : Opened} {m : Merge} {es : List (Option Fragment)}
    (h : Counted host o m es) (tick stamp : String) (e : Option Fragment) :
    Counted host o (absorb host o tick stamp m e) (es ++ [e]) := by
  have haccepted := h.accepted
  have hrejected := h.rejected
  have hlost := h.gathered
  cases htaken : o.taken host e with
  | none =>
    obtain ⟨ha, hl⟩ := accepts_of_not_taken htaken
    obtain ⟨id, reason, hreject⟩ := absorb_rejected htaken tick stamp m
    rw [hreject]
    constructor
    · rw [countP_append, countP_append, countP_singleton, countP_singleton, ha, hl]
      simpa [Merge.reject] using haccepted
    · rw [countP_append, countP_append, countP_singleton, countP_singleton, ha, hl]
      simp [Merge.reject]
      omega
    · rw [countP_append, countP_singleton, hl]
      simpa [Merge.reject] using hlost
  | some route =>
    obtain ⟨ha, hl⟩ := accepts_of_taken htaken
    obtain ⟨frag, fid, rfl, hid, hroute⟩ := taken_eq_some htaken
    rw [absorb_taken hid hroute]
    have htake : (absorbTaken o tick stamp m frag fid route).accepted = m.accepted + 1 ∧
        (absorbTaken o tick stamp m frag fid route).rejected = m.rejected := by
      cases route <;> exact ⟨rfl, rfl⟩
    have hgathered : lost (firmUsable host)
          (absorbTaken o tick stamp m frag fid route).firmRoutes.entries +
        lost (communityUsable host o)
          (absorbTaken o tick stamp m frag fid route).communityRoutes.entries =
        lost (firmUsable host) m.firmRoutes.entries +
          lost (communityUsable host o) m.communityRoutes.entries +
          if o.usable host route then 0 else 1 := by
      cases route with
      | here => rfl
      | firm k =>
        have hput := lost_put (firmUsable host) k frag m.firmRoutes.entries
        show lost (firmUsable host) (append m.firmRoutes k frag).entries +
            lost (communityUsable host o) m.communityRoutes.entries = _ +
          if firmUsable host k then 0 else 1
        unfold append
        exact (congrArg (· + lost (communityUsable host o) m.communityRoutes.entries) hput).trans
          (Nat.add_right_comm _ _ _)
      | community k =>
        have hput := lost_put (communityUsable host o) k frag m.communityRoutes.entries
        show lost (firmUsable host) m.firmRoutes.entries +
            lost (communityUsable host o) (append m.communityRoutes k frag).entries = _ +
          if communityUsable host o k then 0 else 1
        unfold append
        exact (congrArg (lost (firmUsable host) m.firmRoutes.entries + ·) hput).trans
          (Nat.add_assoc _ _ _).symm
    constructor
    · rw [htake.1, countP_append, countP_append, countP_singleton, countP_singleton, ha, hl]
      cases o.usable host route <;> simp <;> omega
    · rw [htake.2, countP_append, countP_append, countP_singleton, countP_singleton, ha, hl]
      cases o.usable host route <;> simp <;> omega
    · rw [hgathered, countP_append, countP_singleton, hl]
      cases o.usable host route <;> simp <;> omega

theorem counted_run (o : Opened) (tick stamp : String) {m : Merge} (h : Counted host o m [])
    (es : List (Option Fragment)) : Counted host o (es.foldl (absorb host o tick stamp) m) es := by
  induction es using List.reverseRecOn with
  | nil => exact h
  | append_singleton es e ih =>
    rw [foldl_append]
    exact ih.step tick stamp e

/-! ## The watermark -/

/-- What the watermark reaches: where it was, and the clocks of the entries that are taken. -/
theorem le_maxHlc (o : Opened) (tick stamp : String) (m : Merge) (es : List (Option Fragment))
    (x : String) : x ≤ (es.foldl (absorb host o tick stamp) m).maxHlc ↔
      x ≤ m.maxHlc ∨ ∃ e ∈ es, (o.taken host e).isSome ∧ x ≤ hlcOf tick e := by
  induction es generalizing m with
  | nil => exact ⟨.inl, fun h => h.resolve_right fun ⟨_, hmem, _⟩ => not_mem_nil hmem⟩
  | cons e es ih =>
    have hstep : x ≤ (absorb host o tick stamp m e).maxHlc ↔
        x ≤ m.maxHlc ∨ ((o.taken host e).isSome ∧ x ≤ hlcOf tick e) := by
      cases htaken : o.taken host e with
      | none =>
        obtain ⟨id, reason, hreject⟩ := absorb_rejected htaken tick stamp m
        rw [hreject]
        exact ⟨.inl, fun h => h.resolve_right fun h => Bool.false_ne_true h.1⟩
      | some route =>
        obtain ⟨frag, fid, rfl, hid, hroute⟩ := taken_eq_some htaken
        have hmax : (absorbTaken o tick stamp m frag fid route).maxHlc =
            max m.maxHlc (orElse frag.hlc tick) := by
          cases route <;> rfl
        rw [absorb_taken hid hroute, hmax, le_max_iff]
        exact or_congr_right (and_iff_right rfl).symm
    rw [foldl_cons, ih, hstep, exists_mem_cons_iff, or_assoc]

/-! ## The routes -/

/-- What the routes have done, but for what was rejected. -/
structure Alike (s s' : Routed) : Prop where
  cloud : s.cloud = s'.cloud
  firmKeys : s.firmKeys = s'.firmKeys
  communityKeys : s.communityKeys = s'.communityKeys

/-- Applying a route that can be applied is the same next to it; another one is only rejected. -/
structure Applies (usable : String → Bool) (apply : Routed → String × List Fragment → Routed) :
    Prop where
  alike : ∀ {s s' : Routed} {e}, usable e.1 = true → Alike s s' → Alike (apply s e) (apply s' e)
  counts : ∀ {s : Routed} {e}, usable e.1 = true →
    (apply s e).accepted = s.accepted ∧ (apply s e).rejected = s.rejected
  fails : ∀ {s : Routed} {e}, usable e.1 = false → ∃ reason, apply s e = s.fail e.2 reason

theorem applies_firm (clock : Clock) : Applies (firmUsable host) (applyFirm host clock) where
  alike := by
    intro s s' e he h
    unfold firmUsable at he
    unfold applyFirm
    cases hdir : safeKey host e.1 with
    | error text =>
      rw [hdir] at he
      cases he
    | ok dir =>
      exact
        { cloud := congrArg (applyShared host (.firm dir) ("firm:" ++ dir)
            (clock.tick (.firm e.1)) clock.stamp e.2) h.cloud
          firmKeys := congrArg (· ++ [dir]) h.firmKeys
          communityKeys := h.communityKeys }
  counts := by
    intro s e he
    unfold firmUsable at he
    unfold applyFirm
    cases hdir : safeKey host e.1 with
    | error text =>
      rw [hdir] at he
      cases he
    | ok dir => exact ⟨rfl, rfl⟩
  fails := by
    intro s e he
    unfold firmUsable at he
    unfold applyFirm
    cases hdir : safeKey host e.1 with
    | error text => exact ⟨_, rfl⟩
    | ok dir =>
      rw [hdir] at he
      cases he

theorem applies_community (o : Opened) (clock : Clock) :
    Applies (communityUsable host o) (applyCommunity host o.communityKeys clock) where
  alike := by
    intro s s' e he h
    obtain ⟨hmember, hkey⟩ := Bool.and_eq_true_iff.1 he
    unfold applyCommunity
    rw [if_pos (of_decide_eq_true hmember), if_pos (of_decide_eq_true hmember)]
    cases hdir : safeKey host e.1 with
    | error text =>
      rw [hdir] at hkey
      cases hkey
    | ok dir =>
      exact
        { cloud := congrArg (applyShared host (.community dir) ("community:" ++ dir)
            (clock.tick (.community e.1)) clock.stamp e.2) h.cloud
          firmKeys := h.firmKeys
          communityKeys := congrArg (· ++ [dir]) h.communityKeys }
  counts := by
    intro s e he
    obtain ⟨hmember, hkey⟩ := Bool.and_eq_true_iff.1 he
    unfold applyCommunity
    rw [if_pos (of_decide_eq_true hmember)]
    cases hdir : safeKey host e.1 with
    | error text =>
      rw [hdir] at hkey
      cases hkey
    | ok dir => exact ⟨rfl, rfl⟩
  fails := by
    intro s e he
    unfold applyCommunity
    by_cases hmember : e.1 ∈ o.communityKeys
    · rw [if_pos hmember]
      unfold communityUsable at he
      rw [decide_eq_true hmember, Bool.true_and] at he
      cases hdir : safeKey host e.1 with
      | error text => exact ⟨_, rfl⟩
      | ok dir =>
        rw [hdir] at he
        cases he
    · rw [if_neg hmember]
      exact ⟨_, rfl⟩

section

variable {usable : String → Bool} {apply : Routed → String × List Fragment → Routed}
  (ha : Applies usable apply)

include ha

theorem Applies.alike_run {s s' : Routed} (h : Alike s s') (es : List (String × List Fragment)) :
    Alike (es.foldl apply s) ((es.filter fun e => usable e.1).foldl apply s') := by
  induction es generalizing s s' with
  | nil => exact h
  | cons e es ih =>
    rw [foldl_cons, filter_cons]
    by_cases he : usable e.1 = true
    · rw [if_pos he]
      exact ih (ha.alike he h)
    · rw [if_neg he]
      obtain ⟨reason, hfail⟩ := ha.fails (s := s) (Bool.eq_false_iff.2 he)
      rw [hfail]
      exact ih ⟨h.cloud, h.firmKeys, h.communityKeys⟩

theorem Applies.counts_run (s : Routed) (es : List (String × List Fragment)) :
    (es.foldl apply s).accepted + lost usable es = s.accepted ∧
      (es.foldl apply s).rejected.length = s.rejected.length + lost usable es := by
  induction es generalizing s with
  | nil => exact ⟨add_zero _, rfl⟩
  | cons e es ih =>
    obtain ⟨haccepted, hrejected⟩ := ih (apply s e)
    rw [foldl_cons, lost_cons]
    by_cases he : usable e.1 = true
    · obtain ⟨hsame, hlist⟩ := ha.counts (s := s) he
      rw [hsame] at haccepted
      rw [hlist] at hrejected
      rw [if_pos he, Nat.zero_add]
      exact ⟨haccepted, hrejected⟩
    · obtain ⟨reason, hfail⟩ := ha.fails (s := s) (Bool.eq_false_iff.2 he)
      rw [hfail] at haccepted hrejected ⊢
      rw [if_neg he]
      have hless : (s.fail e.2 reason).accepted = s.accepted - e.2.length := rfl
      have hmore : (s.fail e.2 reason).rejected.length = s.rejected.length + e.2.length := by
        unfold Routed.fail
        rw [length_append, length_map]
      rw [hless] at haccepted
      rw [hmore] at hrejected
      push_cast
      omega

end

/-! ## The delta -/

variable (o : Opened) (clock : Clock) (delta : Delta) (c : Databases)

/-- What the transaction gathers, next to what it gathers out of the accepted fragments. -/
theorem merge_kept : Lockstep host o
    (merge host o (clock.tick .here) clock.stamp delta.fragments (c.replica o.place))
    (merge host o (clock.tick .here) clock.stamp (delta.kept host o).fragments
      (c.replica o.place)) :=
  Lockstep.run ⟨rfl, rfl, rfl⟩ _ _ _

/-- The routes of a delta, next to those of its accepted fragments. -/
theorem applyRoutes_kept : Alike (applyRoutes host o clock
      (merge host o (clock.tick .here) clock.stamp delta.fragments (c.replica o.place))
      (applyHere o clock.stamp delta
        (merge host o (clock.tick .here) clock.stamp delta.fragments (c.replica o.place)) c))
    (applyRoutes host o clock
      (merge host o (clock.tick .here) clock.stamp (delta.kept host o).fragments
        (c.replica o.place))
      (applyHere o clock.stamp (delta.kept host o)
        (merge host o (clock.tick .here) clock.stamp (delta.kept host o).fragments
          (c.replica o.place)) c)) := by
  have hmerge := @merge_kept host o clock delta c
  generalize merge host o (clock.tick .here) clock.stamp delta.fragments
    (c.replica o.place) = m at hmerge
  generalize merge host o (clock.tick .here) clock.stamp (delta.kept host o).fragments
    (c.replica o.place) = m' at hmerge
  have hhere : applyHere o clock.stamp delta m c = applyHere o clock.stamp (delta.kept host o) m' c := by
    unfold applyHere
    rw [hmerge.table]
    rfl
  unfold applyRoutes
  rw [hmerge.firmRoutes, hmerge.communityRoutes, hhere]
  have hstart : Alike ⟨applyHere o clock.stamp (delta.kept host o) m' c, m.accepted, m.rejected, [], []⟩
      ⟨applyHere o clock.stamp (delta.kept host o) m' c, m'.accepted, m'.rejected, [], []⟩ :=
    ⟨rfl, rfl, rfl⟩
  have hfirms := (@applies_firm host clock).alike_run hstart m.firmRoutes.entries
  exact (@applies_community host o clock).alike_run hfirms m.communityRoutes.entries

/-- The watermark alone tells two ends of a delta apart. -/
theorem settle_alike {s s' : Routed} (h : Alike s s') (w w' : String) (p : Place) :
    ((settle o w s).replica p).unmarked = ((settle o w' s').replica p).unmarked := by
  unfold settle
  rw [h.cloud, h.firmKeys, h.communityKeys, replica_set, replica_set]
  split
  · rfl
  · rfl

/-- **What a delta leaves is what its accepted fragments leave**, but for the watermark. -/
theorem applyDelta_kept :
    (∀ p, ((applyDelta host o clock delta c).1.replica p).unmarked =
      ((applyDelta host o clock (delta.kept host o) c).1.replica p).unmarked) ∧
      (applyDelta host o clock delta c).2.firmKeys =
        (applyDelta host o clock (delta.kept host o) c).2.firmKeys ∧
      (applyDelta host o clock delta c).2.communityKeys =
        (applyDelta host o clock (delta.kept host o) c).2.communityKeys := by
  have hroutes := @applyRoutes_kept host o clock delta c
  exact ⟨settle_alike o hroutes _ _, congrArg sortedSet hroutes.firmKeys,
    congrArg sortedSet hroutes.communityKeys⟩

/-- **Every fragment is accepted or rejected.** -/
theorem applyDelta_accounted : Accounted host o clock delta c := by
  have hstart : Counted host o
      ⟨(c.replica o.place).fragments, 0, [], (c.replica o.place).watermark, Dict.empty, Dict.empty⟩
      [] := ⟨rfl, rfl, rfl⟩
  have hmerge : Counted host o (merge host o (clock.tick .here) clock.stamp delta.fragments
      (c.replica o.place)) delta.fragments := counted_run o _ _ hstart _
  obtain ⟨haccepted, hrejected, hgathered⟩ := hmerge
  generalize hm : merge host o (clock.tick .here) clock.stamp delta.fragments
    (c.replica o.place) = m at haccepted hrejected hgathered
  obtain ⟨hfirm, hfirms⟩ := (@applies_firm host clock).counts_run
    ⟨applyHere o clock.stamp delta m c, m.accepted, m.rejected, [], []⟩ m.firmRoutes.entries
  obtain ⟨hcommunity, hcommunities⟩ := (@applies_community host o clock).counts_run
    (m.firmRoutes.entries.foldl (applyFirm host clock)
      ⟨applyHere o clock.stamp delta m c, m.accepted, m.rejected, [], []⟩) m.communityRoutes.entries
  dsimp only at hfirm hfirms
  constructor
  · show (applyRoutes host o clock (merge host o (clock.tick .here) clock.stamp delta.fragments
      (c.replica o.place)) _).accepted = _
    rw [hm]
    unfold applyRoutes
    omega
  · show (applyRoutes host o clock (merge host o (clock.tick .here) clock.stamp delta.fragments
      (c.replica o.place)) _).rejected.length = _
    rw [hm]
    unfold applyRoutes
    omega

/-- What the watermark that a delta returns reaches. -/
theorem le_newHlc (x : String) : x ≤ (applyDelta host o clock delta c).2.newHlc ↔
    x ≤ (c.replica o.place).watermark ∨ x ≤ clock.tick .here ∨
      ∃ e ∈ delta.fragments, (o.taken host e).isSome ∧ x ≤ hlcOf (clock.tick .here) e := by
  have hmax := @le_maxHlc host o (clock.tick .here) clock.stamp
    ⟨(c.replica o.place).fragments, 0, [], (c.replica o.place).watermark, Dict.empty, Dict.empty⟩
    delta.fragments x
  show x ≤ max (merge host o _ _ _ _).maxHlc _ ↔ _
  rw [le_max_iff]
  refine (or_congr_left hmax).trans ?_
  rw [or_assoc]
  exact or_congr_right or_comm

/-- An entry is taken where it is accepted, or rejected late. -/
theorem taken_isSome (e : Option Fragment) :
    (o.taken host e).isSome ↔ o.accepts host e = true ∨ o.late host e = true := by
  cases htaken : o.taken host e with
  | none =>
    obtain ⟨ha, hl⟩ := accepts_of_not_taken htaken
    rw [ha, hl]
    simp
  | some route =>
    obtain ⟨ha, hl⟩ := accepts_of_taken htaken
    rw [ha, hl]
    cases o.usable host route <;> simp

/-- A delta whose late entries are no later than what the watermark reaches without them. -/
def Delta.Covered (host : Host) (o : Opened) (clock : Clock) (delta : Delta) (c : Databases) : Prop :=
  ∀ e ∈ delta.fragments, o.late host e = true →
    hlcOf (clock.tick .here) e ≤ (c.replica o.place).watermark ∨
      hlcOf (clock.tick .here) e ≤ clock.tick .here ∨
      ∃ e' ∈ delta.fragments, o.accepts host e' = true ∧
        hlcOf (clock.tick .here) e ≤ hlcOf (clock.tick .here) e'

/-- What the watermark reaches by the accepted fragments alone. -/
theorem le_newHlc_kept (x : String) : x ≤ (applyDelta host o clock (delta.kept host o) c).2.newHlc ↔
    x ≤ (c.replica o.place).watermark ∨ x ≤ clock.tick .here ∨
      ∃ e ∈ delta.fragments, o.accepts host e = true ∧ x ≤ hlcOf (clock.tick .here) e := by
  rw [le_newHlc]
  refine or_congr_right (or_congr_right ?_)
  constructor
  · rintro ⟨e, hmem, -, hle⟩
    obtain ⟨hmem, haccepts⟩ := List.mem_filter.1 hmem
    exact ⟨e, hmem, haccepts, hle⟩
  · rintro ⟨e, hmem, haccepts, hle⟩
    exact ⟨e, List.mem_filter.2 ⟨hmem, haccepts⟩, (taken_isSome o e).2 (.inl haccepts), hle⟩

/-- The watermark is that of the accepted fragments where no late one passes it. -/
theorem newHlc_kept_iff : (applyDelta host o clock delta c).2.newHlc =
    (applyDelta host o clock (delta.kept host o) c).2.newHlc ↔ delta.Covered host o clock c := by
  constructor
  · intro heq e hmem hlate
    rw [← le_newHlc_kept, ← heq, le_newHlc]
    exact .inr (.inr ⟨e, hmem, (taken_isSome o e).2 (.inr hlate), le_refl _⟩)
  · intro hcovered
    refine eq_of_forall_le_iff fun x => ?_
    rw [le_newHlc, le_newHlc_kept]
    constructor
    · rintro (h | h | ⟨e, hmem, htaken, hle⟩)
      · exact .inl h
      · exact .inr (.inl h)
      · rcases (taken_isSome o e).1 htaken with haccepts | hlate
        · exact .inr (.inr ⟨e, hmem, haccepts, hle⟩)
        · rcases hcovered e hmem hlate with h | h | ⟨e', hmem', haccepts, h⟩
          · exact .inl (hle.trans h)
          · exact .inr (.inl (hle.trans h))
          · exact .inr (.inr ⟨e', hmem', haccepts, hle.trans h⟩)
    · rintro (h | h | ⟨e, hmem, haccepts, hle⟩)
      · exact .inl h
      · exact .inr (.inl h)
      · exact .inr (.inr ⟨e, hmem, (taken_isSome o e).2 (.inl haccepts), hle⟩)

/-- A fact for a community that the caller is no member of. -/
def strayFact : Fragment :=
  { Fragment.bare with
    id := some "x", scope := some "community", firmId := some "c", hlc := some "9" }

/-- The replica of the user `a`, without keys. -/
def keyless : Opened := ⟨.own "a", "a", true, [], []⟩

end ArchHub.Cloud

import Mathlib
import ArchHub.Lib.Transition
import ArchHub.Cloud.Merge

/-!
# Where the fragments of a delta land

* `Lands`: the replica a fragment of a delta goes to, by its scope and the keys its
  caller has.
* `applyDelta_row`: a row after a delta was there before, or a fragment that landed
  there wrote it.
* `applyDelta_lands`: a fragment that lands leaves a row of its id, no older than it.
* `applyDelta_onward`: rows are never lost, and only written over by later ones.
-/

namespace ArchHub.Cloud

open Lib

variable {host : Host} {routes : Dict String (List Fragment)} {key tick stamp fid name : String}
  {frag f : Fragment} {o : Opened} {entries : List (Option Fragment)} {c : Databases}
  {p place : Place} {r : BrainReplica} {frags : List Fragment} {clock : Clock} {delta : Delta}
  {dir : String}

/-! ## Routes -/

/-- The fragments gathered under a key. -/
def gathered (routes : Dict String (List Fragment)) (key : String) : List Fragment :=
  (routes.get? key).getD []

theorem mem_gathered_append {k : String} : f ∈ gathered (append routes key frag) k ↔
      f ∈ gathered routes k ∨ (k = key ∧ f = frag) := by
  unfold gathered append
  rw [Dict.get?_set]
  split
  · next h => simp [h]
  · next h => simp [h]

/-- A fragment that is gathered under a key stands in the entry of the key. -/
theorem exists_entry :
    frag ∈ gathered routes key ↔ ∃ frags, (key, frags) ∈ routes.entries ∧ frag ∈ frags := by
  unfold gathered
  constructor
  · intro h
    cases hx : routes.get? key with
    | none => simp [hx] at h
    | some frags => exact ⟨frags, Dict.mem_entries_iff.2 hx, by simpa [hx] using h⟩
  · rintro ⟨frags, hmem, h⟩
    simpa [Dict.mem_entries_iff.1 hmem] using h

variable (host) in
/-- A fragment that is taken, under its id and by its route. -/
def TakenAs (o : Opened) (fid : String) (frag : Fragment) (route : Route) : Prop :=
  takenId host frag = some fid ∧ routeOf host o frag = some route

variable (host) in
/-- What one fragment adds to the routes. -/
theorem absorb_routes (o : Opened) (tick stamp : String) (m : Merge) (frag f : Fragment)
    (key : String) :
    (f ∈ gathered (absorb host o tick stamp m (some frag)).firmRoutes key ↔
      f ∈ gathered m.firmRoutes key ∨ (f = frag ∧ ∃ fid, TakenAs host o fid frag (.firm key))) ∧
    (f ∈ gathered (absorb host o tick stamp m (some frag)).communityRoutes key ↔
      f ∈ gathered m.communityRoutes key ∨
        (f = frag ∧ ∃ fid, TakenAs host o fid frag (.community key))) := by
  unfold TakenAs
  rcases absorb_cases host o tick stamp m frag with
    ⟨hid | hroute, id, reason, h⟩ | ⟨fid, hid, hroute, h⟩ | ⟨fid, k, hid, hroute, -, h⟩ |
      ⟨fid, k, hid, hroute, h⟩
  · rw [h, hid]
    simp [Merge.reject]
  · rw [h, hroute]
    simp [Merge.reject]
  · rw [h, hroute]
    simp [absorbHere, Merge.take]
  · rw [h, hid, hroute]
    simp only [mem_gathered_append, Merge.take]
    simp [and_comm, eq_comm]
  · rw [h, hid, hroute]
    simp only [mem_gathered_append, Merge.take]
    simp [and_comm, eq_comm]

/-- The fragments gathered for firms and communities are those routed to them. -/
theorem mem_routes {m : Merge} (key : String) :
    (f ∈ gathered (entries.foldl (absorb host o tick stamp) m).firmRoutes key ↔
      f ∈ gathered m.firmRoutes key ∨
        (some f ∈ entries ∧ ∃ fid, TakenAs host o fid f (.firm key))) ∧
    (f ∈ gathered (entries.foldl (absorb host o tick stamp) m).communityRoutes key ↔
      f ∈ gathered m.communityRoutes key ∨
        (some f ∈ entries ∧ ∃ fid, TakenAs host o fid f (.community key))) := by
  induction entries generalizing m with
  | nil => simp
  | cons e entries ih =>
      rw [List.foldl_cons]
      cases e with
      | none =>
          have hsame : absorb host o tick stamp m none = m.reject none "not an object" := rfl
          rw [ih.1, ih.2, hsame]
          simp [Merge.reject]
      | some frag =>
          obtain ⟨hfirm, hcommunity⟩ := absorb_routes host o tick stamp m frag f key
          rw [ih.1, ih.2, hfirm, hcommunity, List.mem_cons, Option.some.injEq]
          refine ⟨?_, ?_⟩
          all_goals
            constructor
            · rintro ((h | ⟨rfl, h⟩) | ⟨hmem, h⟩)
              · exact Or.inl h
              · exact Or.inr ⟨Or.inl rfl, h⟩
              · exact Or.inr ⟨Or.inr hmem, h⟩
            · rintro (h | ⟨rfl | hmem, h⟩)
              · exact Or.inl (Or.inl h)
              · exact Or.inl (Or.inr ⟨rfl, h⟩)
              · exact Or.inr ⟨hmem, h⟩

/-! ## Rows move on -/

/-- No row is lost, and a row that is written over is so by a later one. -/
def Onward (t t' : Table) : Prop :=
  ∀ fid r, t.get? fid = some r → ∃ r', t'.get? fid = some r' ∧ (r' = r ∨ r.hlc < r'.hlc)

instance : IsPreorder Table Onward where
  refl _ _ r hr := ⟨r, hr, Or.inl rfl⟩
  trans t t' t'' h h' fid r hr := by
    obtain ⟨r', hr', h₁⟩ := h fid r hr
    obtain ⟨r'', hr'', h₂⟩ := h' fid r' hr'
    refine ⟨r'', hr'', ?_⟩
    rcases h₁ with rfl | h₁
    · exact h₂
    · rcases h₂ with rfl | h₂
      · exact Or.inr h₁
      · exact Or.inr (h₁.trans h₂)

/-- The rows of every replica move on. -/
def AllOnward (c c' : Databases) : Prop :=
  ∀ p, Onward (c.replica p).fragments (c'.replica p).fragments

instance : IsPreorder Databases AllOnward where
  refl c p := refl_of Onward (c.replica p).fragments
  trans _ _ _ h h' p := trans_of Onward (h p) (h' p)

theorem merge_onward (o : Opened) (tick stamp : String) (entries : List (Option Fragment))
    (r : BrainReplica) : Onward r.fragments (merge host o tick stamp entries r).table := by
  intro fid row hrow
  rw [get?_merge, hrow]
  exact Register.run_onward _

/-- A replica replaced by one whose rows have moved on. -/
theorem set_onward (h : Onward (c.replica p).fragments r.fragments) : AllOnward c (c.set p r) := by
  intro q
  rw [replica_set]
  split
  · next hq => exact hq ▸ h
  · exact refl_of Onward _

theorem applyShared_onward (place : Place) (name tick stamp : String) (frags : List Fragment)
    (c : Databases) : AllOnward c (applyShared host place name tick stamp frags c) :=
  set_onward (merge_onward _ _ _ _ _)

theorem applyFirm_onward (clock : Clock) (s : Routed) (e : String × List Fragment) :
    AllOnward s.cloud (applyFirm host clock s e).cloud := by
  unfold applyFirm
  split
  · exact refl_of AllOnward s.cloud
  · exact applyShared_onward _ _ _ _ _ _

theorem applyCommunity_onward (keys : List String) (clock : Clock) (s : Routed)
    (e : String × List Fragment) :
    AllOnward s.cloud (applyCommunity host keys clock s e).cloud := by
  unfold applyCommunity
  split
  · split
    · exact refl_of AllOnward s.cloud
    · exact applyShared_onward _ _ _ _ _ _
  · exact refl_of AllOnward s.cloud

/-- What every replica keeps as its rows move on, the routes keep. -/
theorem applyRoutes_keeps {Inv : Databases → Prop} (hkeep : ∀ c c', AllOnward c c' → Inv c → Inv c')
    (o : Opened) (clock : Clock) (m : Merge) (hc : Inv c) :
    Inv (applyRoutes host o clock m c).cloud := by
  let InvR : Routed → Prop := fun s => Inv s.cloud
  have hfirm : ∀ e ∈ m.firmRoutes.entries, ∀ s, InvR s → InvR (applyFirm host clock s e) :=
    fun e _ s hs => hkeep _ _ (applyFirm_onward clock s e) hs
  have hcommunity : ∀ e ∈ m.communityRoutes.entries, ∀ s, InvR s →
      InvR (applyCommunity host o.communityKeys clock s e) :=
    fun e _ s hs => hkeep _ _ (applyCommunity_onward _ clock s e) hs
  have hstart : InvR ⟨c, m.accepted, m.rejected, [], []⟩ := hc
  exact foldl_keeps hcommunity (foldl_keeps hfirm hstart)

theorem settle_onward (o : Opened) (watermark : String) (s : Routed) :
    AllOnward s.cloud (settle o watermark s) := by
  intro p
  rw [settle_fragments]
  exact refl_of Onward _

/-- **A delta moves the rows of every replica on.** -/
theorem applyDelta_onward (o : Opened) (clock : Clock) (delta : Delta) (c : Databases) :
    AllOnward c (applyDelta host o clock delta c).1 := by
  unfold applyDelta
  dsimp only
  refine trans_of AllOnward ?_ (settle_onward _ _ _)
  let Inv : Databases → Prop := fun c' => AllOnward c c'
  have hkeep : ∀ c₁ c₂, AllOnward c₁ c₂ → Inv c₁ → Inv c₂ := fun _ _ h hc => trans_of AllOnward hc h
  have hhere : Inv (applyHere o clock.stamp delta
      (merge host o (clock.tick .here) clock.stamp delta.fragments (c.replica o.place)) c) :=
    set_onward (merge_onward _ _ _ _ _)
  exact applyRoutes_keeps hkeep o clock _ hhere

/-! ## Where a fragment lands -/

variable (host) in
/-- The replica that fragments of a route are written into, and the name it is
opened under, for a caller with these keys. -/
inductive Target (o : Opened) : Route → Opened → Prop
  | here : Target o .here o
  | firm (key dir : String) (hdir : safeKey host key = .ok dir) :
      Target o (.firm key) ⟨.firm dir, "firm:" ++ dir, false, [], []⟩
  | community (key dir : String) (hmember : key ∈ o.communityKeys)
      (hdir : safeKey host key = .ok dir) :
      Target o (.community key) ⟨.community dir, "community:" ++ dir, false, [], []⟩

variable (host) in
/-- A fragment of a delta lands in a replica under its id. -/
def Lands (o : Opened) (delta : Delta) (fid : String) (frag : Fragment) (route : Route)
    (target : Opened) : Prop :=
  some frag ∈ delta.fragments ∧ TakenAs host o fid frag route ∧ Target host o route target

/-- A fragment that stays is taken, and its route is here. -/
theorem hereOf_eq_some :
    hereOf host o (some frag) = some (fid, f) ↔
      f = frag ∧ routeOf host o frag = some .here ∧ takenId host frag = some fid := by
  unfold hereOf
  dsimp only
  split
  · next hroute =>
    rw [Option.map_eq_some_iff]
    constructor
    · rintro ⟨id, hid, hpair⟩
      obtain ⟨rfl, rfl⟩ := Prod.mk.inj hpair
      exact ⟨rfl, hroute, hid⟩
    · rintro ⟨rfl, -, hid⟩
      exact ⟨fid, hid, rfl⟩
  · next hroute => simp [hroute]

/-- On a shared replica a fragment that is taken stays. -/
theorem hereOf_shared (h : takenId host frag = some fid) :
    hereOf host ⟨place, name, false, [], []⟩ (some frag) = some (fid, frag) := by
  simp [hereOf, routeOf, h]

/-- A fragment that stays leaves a row of its id that is no older. -/
theorem merge_lands (hmem : some frag ∈ entries)
    (hhere : hereOf host o (some frag) = some (fid, frag)) :
    ∃ row, (merge host o tick stamp entries r).table.get? fid = some row ∧
      orElse frag.hlc tick ≤ row.hlc := by
  rw [get?_merge]
  have hv : versionOf o tick stamp frag ∈ versionsOf host o tick stamp fid entries :=
    List.mem_filterMap.2 ⟨some frag, hmem, by simp [hhere]⟩
  have hsome : (rowRegister.run (r.fragments.get? fid)
      (versionsOf host o tick stamp fid entries)).isSome = true :=
    (Register.run_isSome rowRegister).2 (Or.inr (List.ne_nil_of_mem hv))
  obtain ⟨row, hrow⟩ := Option.isSome_iff_exists.1 hsome
  exact ⟨row, hrow, (Register.isNewest_of_run hrow).above _ hv⟩

/-- A replica has a row of the id that is no older. -/
def HasRow (p : Place) (fid hlc : String) (c : Databases) : Prop :=
  ∃ row, (c.replica p).fragments.get? fid = some row ∧ hlc ≤ row.hlc

theorem HasRow.onward {hlc : String} {c' : Databases} (h : HasRow p fid hlc c)
    (hc : AllOnward c c') : HasRow p fid hlc c' := by
  obtain ⟨row, hrow, hle⟩ := h
  obtain ⟨row', hrow', h | h⟩ := hc p fid row hrow
  · exact ⟨row', hrow', h ▸ hle⟩
  · exact ⟨row', hrow', hle.trans h.le⟩

theorem applyShared_lands (hmem : frag ∈ frags) (hid : takenId host frag = some fid)
    (c : Databases) :
    HasRow place fid (orElse frag.hlc tick) (applyShared host place name tick stamp frags c) := by
  unfold HasRow applyShared
  rw [replica_set_self]
  exact merge_lands (List.mem_map_of_mem hmem) (hereOf_shared hid)

theorem applyFirm_lands (hdir : safeKey host key = .ok dir) (hmem : frag ∈ frags)
    (hid : takenId host frag = some fid) (clock : Clock) (s : Routed) : HasRow (.firm dir) fid
      (orElse frag.hlc (clock.tick (.firm key))) (applyFirm host clock s (key, frags)).cloud := by
  unfold applyFirm
  rw [hdir]
  exact applyShared_lands hmem hid s.cloud

theorem applyCommunity_lands {keys : List String} (hmember : key ∈ keys)
    (hdir : safeKey host key = .ok dir) (hmem : frag ∈ frags) (hid : takenId host frag = some fid)
    (clock : Clock) (s : Routed) :
    HasRow (.community dir) fid (orElse frag.hlc (clock.tick (.community key)))
      (applyCommunity host keys clock s (key, frags)).cloud := by
  unfold applyCommunity
  rw [if_pos hmember, hdir]
  exact applyShared_lands hmem hid s.cloud

/-- **A fragment that lands** leaves a row of its id in the replica, no older than
it. -/
theorem applyDelta_lands {target : Opened} {route : Route}
    (h : Lands host o delta fid frag route target) (c : Databases) :
    HasRow target.place fid (orElse frag.hlc (clock.tick route))
      (applyDelta host o clock delta c).1 := by
  obtain ⟨hmem, ⟨hid, hroute⟩, htarget⟩ := h
  unfold applyDelta
  dsimp only
  refine HasRow.onward ?_ (settle_onward _ _ _)
  let Inv : Databases → Prop := HasRow target.place fid (orElse frag.hlc (clock.tick route))
  have hkeep : ∀ c₁ c₂, AllOnward c₁ c₂ → Inv c₁ → Inv c₂ := fun _ _ hc h => h.onward hc
  have hfirms : ∀ e s, Inv s.cloud → Inv (applyFirm host clock s e).cloud :=
    fun e s => hkeep _ _ (applyFirm_onward clock s e)
  have hcommunities : ∀ e s, Inv s.cloud →
      Inv (applyCommunity host o.communityKeys clock s e).cloud :=
    fun e s => hkeep _ _ (applyCommunity_onward _ clock s e)
  let InvR : Routed → Prop := fun s => Inv s.cloud
  cases htarget with
  | here =>
      refine applyRoutes_keeps hkeep o clock _ ?_
      show HasRow o.place fid _ _
      unfold HasRow applyHere
      rw [replica_set_self]
      exact merge_lands hmem (by simp [hereOf, hroute, hid])
  | firm key dir hdir =>
      have hgathered := ((mem_routes key).1.2 (Or.inr ⟨hmem, fid, hid, hroute⟩) :
        frag ∈ gathered (merge host o (clock.tick .here) clock.stamp delta.fragments
          (c.replica o.place)).firmRoutes key)
      obtain ⟨frags, hentry, hfrag⟩ := exists_entry.1 hgathered
      have hest : ∀ s, InvR (applyFirm host clock s (key, frags)) :=
        fun s => applyFirm_lands hdir hfrag hid clock s
      have hkeepFirm : ∀ e ∈ (merge host o (clock.tick .here) clock.stamp delta.fragments
          (c.replica o.place)).firmRoutes.entries, ∀ s, InvR s → InvR (applyFirm host clock s e) :=
        fun e _ s => hfirms e s
      exact foldl_keeps (fun e _ s => hcommunities e s)
        (foldl_establishes hkeepFirm hentry hest _)
  | community key dir hmember hdir =>
      have hgathered := ((mem_routes key).2.2 (Or.inr ⟨hmem, fid, hid, hroute⟩) :
        frag ∈ gathered (merge host o (clock.tick .here) clock.stamp delta.fragments
          (c.replica o.place)).communityRoutes key)
      obtain ⟨frags, hentry, hfrag⟩ := exists_entry.1 hgathered
      have hest : ∀ s, InvR (applyCommunity host o.communityKeys clock s (key, frags)) :=
        fun s => applyCommunity_lands hmember hdir hfrag hid clock s
      exact foldl_establishes (fun e _ s => hcommunities e s) hentry hest _

/-! ## What the rows have in common -/

/-- Every row of every replica has a property. -/
def EveryRow (P : Place → String → Row → Prop) (c : Databases) : Prop :=
  ∀ q fid row, (c.replica q).fragments.get? fid = some row → P q fid row

/-- What a version leaves has the property: where it is inserted, and where it is
written over a row that has it. -/
def Leaves (P : Row → Prop) (v : Version) : Prop :=
  P (rowRegister.fresh v) ∧ ∀ r, P r → P (rowRegister.update r v)

variable {P : Place → String → Row → Prop} {e : String × List Fragment} {s : Routed}

theorem EveryRow.empty : EveryRow P Dict.empty := by
  intro q fid row h
  cases h

/-- A replica replaced by one whose rows have the property. -/
theorem EveryRow.set (h : EveryRow P c)
    (hr : ∀ fid row, r.fragments.get? fid = some row → P p fid row) : EveryRow P (c.set p r) := by
  intro q fid row hrow
  rw [replica_set] at hrow
  split at hrow
  · next hq =>
    rw [hq]
    exact hr fid row hrow
  · exact h q fid row hrow

/-- The rows of a transaction have what those before it have and its fragments
leave. -/
theorem merge_rows {P : String → Row → Prop}
    (hold : ∀ fid row, r.fragments.get? fid = some row → P fid row)
    (hland : ∀ fid frag, some frag ∈ entries → hereOf host o (some frag) = some (fid, frag) →
      Leaves (P fid) (versionOf o tick stamp frag)) (fid : String) (row : Row)
    (h : (merge host o tick stamp entries r).table.get? fid = some row) : P fid row := by
  rw [get?_merge] at h
  have hversion : ∀ v ∈ versionsOf host o tick stamp fid entries, Leaves (P fid) v := by
    intro v hv
    obtain ⟨e, he, hx⟩ := List.mem_filterMap.1 hv
    cases e with
    | none => cases hx
    | some frag =>
        cases hhere : hereOf host o (some frag) with
        | none => simp [hhere] at hx
        | some x =>
            obtain ⟨id, f⟩ := x
            obtain rfl : f = frag := (hereOf_eq_some.1 hhere).1
            simp only [hhere, Option.ite_none_right_eq_some, Option.some.injEq] at hx
            rw [← hx.2]
            exact hland fid f he (by rw [hhere, hx.1])
  exact Register.run_induction (hold fid) (fun v hv => (hversion v hv).1)
    (fun v hv => (hversion v hv).2) h

theorem applyShared_rows (hc : EveryRow P c)
    (hland : ∀ fid, ∀ frag ∈ frags, takenId host frag = some fid →
      Leaves (P place fid) (versionOf ⟨place, name, false, [], []⟩ tick stamp frag)) :
    EveryRow P (applyShared host place name tick stamp frags c) := by
  refine hc.set (merge_rows (hc place) ?_)
  intro fid frag hmem hhere
  obtain ⟨f, hf, hfrag⟩ := List.mem_map.1 hmem
  obtain rfl : f = frag := Option.some.inj hfrag
  exact hland fid f hf (hereOf_eq_some.1 hhere).2.2

variable (host) in
/-- Every fragment of the delta leaves the property where it lands. -/
def LandsWith (P : Place → String → Row → Prop) (o : Opened) (clock : Clock) (delta : Delta) : Prop :=
  ∀ fid frag route target, Lands host o delta fid frag route target →
    Leaves (P target.place fid) (versionOf target (clock.tick route) clock.stamp frag)

theorem applyFirm_rows (hland : LandsWith host P o clock delta)
    (he : ∀ f ∈ e.2, some f ∈ delta.fragments ∧ ∃ fid, TakenAs host o fid f (.firm e.1))
    (hs : EveryRow P s.cloud) : EveryRow P (applyFirm host clock s e).cloud := by
  unfold applyFirm
  split
  · exact hs
  · next dir hdir =>
    refine applyShared_rows hs ?_
    intro fid frag hfrag hid
    obtain ⟨hmem, fid', -, hroute⟩ := he frag hfrag
    exact hland fid frag (.firm e.1) _ ⟨hmem, ⟨hid, hroute⟩, .firm e.1 dir hdir⟩

theorem applyCommunity_rows (hland : LandsWith host P o clock delta)
    (he : ∀ f ∈ e.2, some f ∈ delta.fragments ∧ ∃ fid, TakenAs host o fid f (.community e.1))
    (hs : EveryRow P s.cloud) :
    EveryRow P (applyCommunity host o.communityKeys clock s e).cloud := by
  unfold applyCommunity
  split
  · next hmember =>
    split
    · exact hs
    · next dir hdir =>
      refine applyShared_rows hs ?_
      intro fid frag hfrag hid
      obtain ⟨hmem, fid', -, hroute⟩ := he frag hfrag
      exact hland fid frag (.community e.1) _ ⟨hmem, ⟨hid, hroute⟩, .community e.1 dir hmember hdir⟩
  · exact hs

/-- The fragments a delta gathers for a firm or a community are its own. -/
theorem merge_routes {fragments : List (Option Fragment)} (key : String) :
    (f ∈ gathered (merge host o tick stamp fragments r).firmRoutes key ↔
      some f ∈ fragments ∧ ∃ fid, TakenAs host o fid f (.firm key)) ∧
    (f ∈ gathered (merge host o tick stamp fragments r).communityRoutes key ↔
      some f ∈ fragments ∧ ∃ fid, TakenAs host o fid f (.community key)) := by
  have hnone : ¬ f ∈ gathered Dict.empty key := by simp [gathered]
  unfold merge
  rw [(mem_routes key).1, (mem_routes key).2]
  simp only [hnone, false_or, and_self]

/-- **What every row has, a delta keeps**, where its fragments leave it. -/
theorem applyDelta_rows (hc : EveryRow P c) (hland : LandsWith host P o clock delta) :
    EveryRow P (applyDelta host o clock delta c).1 := by
  unfold applyDelta
  dsimp only
  let InvR : Routed → Prop := fun s => EveryRow P s.cloud
  let m := merge host o (clock.tick .here) clock.stamp delta.fragments (c.replica o.place)
  have hfirms : ∀ e ∈ m.firmRoutes.entries, ∀ s, InvR s → InvR (applyFirm host clock s e) := by
    intro e he s hs
    refine applyFirm_rows hland (fun f hf => ?_) hs
    exact (merge_routes e.1).1.1 (exists_entry.2 ⟨e.2, he, hf⟩)
  have hcommunities : ∀ e ∈ m.communityRoutes.entries, ∀ s, InvR s →
      InvR (applyCommunity host o.communityKeys clock s e) := by
    intro e he s hs
    refine applyCommunity_rows hland (fun f hf => ?_) hs
    exact (merge_routes e.1).2.1 (exists_entry.2 ⟨e.2, he, hf⟩)
  have hstart : EveryRow P (applyHere o clock.stamp delta m c) := by
    refine hc.set (merge_rows (hc o.place) ?_)
    intro fid frag hmem hhere
    obtain ⟨-, hroute, hid⟩ := hereOf_eq_some.1 hhere
    exact hland fid frag .here o ⟨hmem, ⟨hid, hroute⟩, .here⟩
  have hrouted : InvR (applyRoutes host o clock m (applyHere o clock.stamp delta m c)) :=
    foldl_keeps hcommunities (foldl_keeps hfirms hstart)
  intro q fid row hrow
  rw [settle_fragments] at hrow
  exact hrouted q fid row hrow

/-! ## Who wrote a row -/

/-- A row is as a fragment that came with this clock left it. -/
def WrittenAs (target : Opened) (frag : Fragment) (hlc : String) (row : Row) : Prop :=
  row.hlc = hlc ∧ row.ownerUser = target.owner frag

variable (host) in
/-- A row of a replica was there before, or a fragment of the delta that landed
there wrote it. -/
def FromDelta (o : Opened) (clock : Clock) (delta : Delta) (c c' : Databases) : Prop :=
  ∀ q fid row, (c'.replica q).fragments.get? fid = some row →
    (c.replica q).fragments.get? fid = some row ∨ ∃ frag route target,
      Lands host o delta fid frag route target ∧ target.place = q ∧
        WrittenAs target frag (orElse frag.hlc (clock.tick route)) row

/-- **Every row after a delta** was there before, or a fragment that landed there
wrote it. -/
theorem applyDelta_row (o : Opened) (clock : Clock) (delta : Delta) (c : Databases) :
    FromDelta host o clock delta c (applyDelta host o clock delta c).1 := by
  refine applyDelta_rows (fun q fid row hrow => Or.inl hrow) ?_
  intro fid frag route target hland
  exact ⟨Or.inr ⟨frag, route, target, hland, rfl, rfl, rfl⟩,
    fun r _ => Or.inr ⟨frag, route, target, hland, rfl, rfl, rfl⟩⟩

end ArchHub.Cloud

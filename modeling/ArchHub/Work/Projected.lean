import Mathlib
import ArchHub.Work.Project

/-!
# The nodes of a projection, and what it keeps

* `mem_placeAll`: every node is still there, with another `agentWork` at most; the others are
  those that were placed.
* `Settled`, `placeAll_settled`: every step has its node, and what the node says is what the
  last step with its key says.
* `placeAll_of_settled`: **placing the steps again changes nothing**.

* `flatMap_steps`: every call of a tool is in one step.
* `mem_stored`: what is stored of a call's parameters is redacted no further.
* `draw_others`, `filter_wires`: the wires that are not inferred for the session.
* `projectTitled_again`: **projecting a second time changes nothing**.
-/

namespace ArchHub.Work

open Lib List

variable {host : Host} {session : String} {declaration : Declaration} {id : String}
  {f : Node → Node} {ns : List Node} {n : Node}

/-! ## One node -/

theorem map_id_revise (hf : ∀ n, (f n).id = n.id) (ns : List Node) :
    (revise id f ns).map Node.id = ns.map Node.id := by
  induction ns with
  | nil => rfl
  | cons n ns ih =>
      unfold revise
      split
      · rw [map_cons, map_cons, hf]
      · rw [map_cons, map_cons, ih]

/-- Where the identities are distinct, every node of the identity is changed. -/
theorem revise_eq_map (f : Node → Node) (hnodup : (ns.map Node.id).Nodup) :
    revise id f ns = ns.map fun n => if n.id = id then f n else n := by
  induction ns with
  | nil => rfl
  | cons n ns ih =>
      obtain ⟨hnew, hnodup⟩ := List.nodup_cons.1 hnodup
      unfold revise
      split
      · next heq =>
        rw [map_cons, if_pos heq]
        refine congrArg _ ((map_id ns).symm.trans (map_congr_left fun m hm => ?_))
        have hne : m.id ≠ id := fun h => hnew (heq ▸ h ▸ mem_map_of_mem hm)
        rw [if_neg hne]
        rfl
      · next hne => rw [map_cons, if_neg hne, ih hnodup]

/-- A node that is changed was another one. -/
theorem mem_revise {m : Node} (h : m ∈ revise id f ns) :
    m ∈ ns ∨ ∃ n ∈ ns, n.id = id ∧ m = f n := by
  induction ns with
  | nil => cases h
  | cons n ns ih =>
      unfold revise at h
      split at h
      · next heq =>
        rcases List.mem_cons.1 h with rfl | hmem
        · exact .inr ⟨n, mem_cons_self, heq, rfl⟩
        · exact .inl (mem_cons_of_mem _ hmem)
      · rcases List.mem_cons.1 h with rfl | hmem
        · exact .inl mem_cons_self
        · rcases ih hmem with hold | ⟨n', hn', hid, rfl⟩
          · exact .inl (mem_cons_of_mem _ hold)
          · exact .inr ⟨n', mem_cons_of_mem _ hn', hid, rfl⟩

/-- A node is there when another one is changed. -/
theorem revise_keeps (h : n ∈ ns) : n ∈ revise id f ns ∨ (n.id = id ∧ f n ∈ revise id f ns) := by
  induction ns with
  | nil => cases h
  | cons m ns ih =>
      unfold revise
      split
      · next heq =>
        rcases List.mem_cons.1 h with rfl | hmem
        · exact .inr ⟨heq, mem_cons_self⟩
        · exact .inl (mem_cons_of_mem _ hmem)
      · rcases List.mem_cons.1 h with rfl | hmem
        · exact .inl mem_cons_self
        · exact (ih hmem).imp (mem_cons_of_mem _) fun h => ⟨h.1, mem_cons_of_mem _ h.2⟩

/-! ## What a step says -/

variable (host session declaration)

/-- What the last step of an identity says. -/
def workOf (gs : List Group) (id : String) : Option AgentWork :=
  (gs.reverse.find? fun g => identity host session g.key = id).map fun g =>
    .step (metadata host session declaration g)

/-- A node, with what the last of its steps says. -/
def retag (gs : List Group) (n : Node) : Node :=
  { n with agentWork := (workOf host session declaration gs n.id).or n.agentWork }

variable {host session declaration} {index : ℕ} {g : Group} {gs : List Group}

theorem workOf_concat (gs : List Group) (g : Group) (id : String) :
    workOf host session declaration (gs ++ [g]) id =
      if identity host session g.key = id then some (.step (metadata host session declaration g))
      else workOf host session declaration gs id := by
  unfold workOf
  rw [reverse_append, reverse_singleton, singleton_append, List.find?_cons]
  by_cases h : identity host session g.key = id
  · simp [h]
  · simp [h]

theorem placeAll_concat (index : ℕ) (gs : List Group) (g : Group) (ns : List Node) :
    placeAll host session declaration index (gs ++ [g]) ns =
      place host session declaration (index + gs.length) g
        (placeAll host session declaration index gs ns) := by
  induction gs generalizing index ns with
  | nil => rfl
  | cons g' gs ih =>
      rw [cons_append, placeAll, ih, placeAll, length_cons]
      congr 1
      omega

/-! ## Steps that have their nodes -/

@[simp] theorem newNode_id (index : ℕ) (g : Group) :
    (newNode host session declaration index g).id = identity host session g.key := rfl

variable (host session declaration) in
/-- Every step has its node, and every node says what the last of its steps says. -/
structure Settled (gs : List Group) (ns : List Node) : Prop where
  nodup : (ns.map Node.id).Nodup
  placed : ∀ g ∈ gs, identity host session g.key ∈ ns.map Node.id
  said : ∀ n ∈ ns, retag host session declaration gs n = n

/-- What a step is placed as, where its node is there. -/
theorem place_of_mem (hnodup : (ns.map Node.id).Nodup)
    (hmem : identity host session g.key ∈ ns.map Node.id) :
    place host session declaration index g ns = ns.map fun n =>
      if n.id = identity host session g.key then
        { n with agentWork := some (.step (metadata host session declaration g)) }
      else n := by
  have hany : (ns.any fun n => n.id = identity host session g.key) = true := by
    obtain ⟨n, hn, hid⟩ := List.mem_map.1 hmem
    exact List.any_eq_true.2 ⟨n, hn, decide_eq_true hid⟩
  unfold place
  rw [if_pos hany, revise_eq_map _ hnodup]

/-- What a step is placed as, where it has no node. -/
theorem place_of_not_mem (hmem : identity host session g.key ∉ ns.map Node.id) :
    place host session declaration index g ns =
      ns ++ [newNode host session declaration index g] := by
  unfold place
  refine if_neg fun hany => hmem ?_
  obtain ⟨n, hn, hid⟩ := List.any_eq_true.1 hany
  exact List.mem_map.2 ⟨n, hn, of_decide_eq_true hid⟩

/-- A node after one more step. -/
theorem retag_concat (gs : List Group) (g : Group) (n : Node) :
    retag host session declaration (gs ++ [g]) n =
      if n.id = identity host session g.key then
        { n with agentWork := some (.step (metadata host session declaration g)) }
      else retag host session declaration gs n := by
  unfold retag
  rw [workOf_concat]
  by_cases h : n.id = identity host session g.key
  · rw [if_pos h, if_pos h.symm]
    rfl
  · rw [if_neg h, if_neg (Ne.symm h)]

/-- One more step is placed. -/
theorem Settled.place (index : ℕ) (g : Group) (h : Settled host session declaration gs ns) :
    Settled host session declaration (gs ++ [g])
      (Work.place host session declaration index g ns) := by
  by_cases hmem : identity host session g.key ∈ ns.map Node.id
  · rw [place_of_mem h.nodup hmem]
    have hids : (ns.map fun n => if n.id = identity host session g.key then
        { n with agentWork := some (.step (metadata host session declaration g)) }
        else n).map Node.id = ns.map Node.id := by
      rw [map_map]
      refine map_congr_left fun n _ => ?_
      rw [Function.comp_apply]
      split <;> rfl
    refine ⟨by rw [hids]; exact h.nodup, fun g' hg' => ?_, fun n hn => ?_⟩
    · rw [hids]
      rcases List.mem_append.1 hg' with hold | hnew
      · exact h.placed g' hold
      · rw [List.mem_singleton.1 hnew]
        exact hmem
    · obtain ⟨m, hm, rfl⟩ := List.mem_map.1 hn
      split
      · next heq => rw [retag_concat, if_pos heq]
      · next hne => rw [retag_concat, if_neg hne, h.said m hm]
  · rw [place_of_not_mem hmem]
    refine ⟨?_, fun g' hg' => ?_, fun n hn => ?_⟩
    · rw [map_append]
      refine h.nodup.append (nodup_singleton _) fun id hid hid' => ?_
      rw [map_singleton, mem_singleton, newNode_id] at hid'
      exact hmem (hid' ▸ hid)
    · rw [map_append]
      rcases List.mem_append.1 hg' with hold | hnew
      · exact mem_append_left _ (h.placed g' hold)
      · rw [List.mem_singleton.1 hnew]
        exact mem_append_right _ (List.mem_singleton.2 rfl)
    · rcases List.mem_append.1 hn with hold | hnew
      · have hne : n.id ≠ identity host session g.key := fun heq =>
          hmem (heq ▸ mem_map_of_mem hold)
        rw [retag_concat, if_neg hne, h.said n hold]
      · rw [List.mem_singleton.1 hnew, retag_concat, if_pos (newNode_id index g)]
        rfl

/-- **All steps are placed**, and every node says what the last of its steps says. -/
theorem placeAll_settled (hnodup : (ns.map Node.id).Nodup) (index : ℕ) (gs : List Group) :
    Settled host session declaration gs (placeAll host session declaration index gs ns) := by
  induction gs using List.reverseRecOn with
  | nil => exact ⟨hnodup, fun g hg => absurd hg not_mem_nil, fun n _ => rfl⟩
  | append_singleton gs g ih =>
      rw [placeAll_concat]
      exact ih.place _ g

/-- Steps that have their nodes are placed there. -/
theorem placeAll_of_mem (hnodup : (ns.map Node.id).Nodup) (index : ℕ)
    (hplaced : ∀ g ∈ gs, identity host session g.key ∈ ns.map Node.id) :
    placeAll host session declaration index gs ns = ns.map (retag host session declaration gs) := by
  induction gs using List.reverseRecOn with
  | nil => exact (map_id ns).symm
  | append_singleton gs g ih =>
      have hids : (ns.map (retag host session declaration gs)).map Node.id = ns.map Node.id := by
        rw [map_map]
        rfl
      rw [placeAll_concat, ih fun g' hg' => hplaced g' (mem_append_left _ hg'),
        place_of_mem (by rw [hids]; exact hnodup) (by
          rw [hids]; exact hplaced g (mem_append_right _ (List.mem_singleton.2 rfl))),
        map_map]
      refine map_congr_left fun n _ => ?_
      rw [retag_concat, Function.comp_apply]
      rfl

/-! ## What happens to a node -/

/-- A node is still there, with another `agentWork` at most. -/
theorem place_keeps (h : n ∈ ns) :
    ∃ w, { n with agentWork := w } ∈ place host session declaration index g ns := by
  unfold place
  split
  · rcases revise_keeps (f := fun n => { n with
        agentWork := some (.step (metadata host session declaration g)) }) h with hkeep | ⟨-, hnew⟩
    · exact ⟨n.agentWork, hkeep⟩
    · exact ⟨_, hnew⟩
  · exact ⟨n.agentWork, mem_append_left _ h⟩

theorem placeAll_keeps (h : n ∈ ns) :
    ∃ w, { n with agentWork := w } ∈ placeAll host session declaration index gs ns := by
  induction gs generalizing index ns n with
  | nil => exact ⟨n.agentWork, h⟩
  | cons g gs ih =>
      have hplace : ∃ w, { n with agentWork := w } ∈
          place host session declaration index g ns := place_keeps h
      obtain ⟨w, hw⟩ := hplace
      obtain ⟨w', hw'⟩ := ih hw
      exact ⟨w', hw'⟩

/-- A node that is no step's stays as it is. -/
theorem placeAll_untouched (h : n ∈ ns) (hother : ∀ g ∈ gs, identity host session g.key ≠ n.id) :
    n ∈ placeAll host session declaration index gs ns := by
  induction gs generalizing index ns with
  | nil => exact h
  | cons g gs ih =>
      obtain ⟨hg, hgs⟩ := List.forall_mem_cons.1 hother
      refine ih ?_ hgs
      unfold place
      split
      · rcases revise_keeps (f := fun n => { n with
            agentWork := some (.step (metadata host session declaration g)) }) h with
          hkeep | ⟨heq, -⟩
        · exact hkeep
        · exact absurd heq.symm hg
      · exact mem_append_left _ h

theorem ne_of_workOf (h : workOf host session declaration gs id = none) :
    ∀ g ∈ gs, identity host session g.key ≠ id := by
  intro g hg
  have hnone := List.find?_eq_none.1 (Option.map_eq_none_iff.1 h) g (List.mem_reverse.2 hg)
  exact fun heq => hnone (decide_eq_true heq)

/-- A node that is there was there, with another `agentWork` at most, or was placed. -/
def Comes (host : Host) (session : String) (declaration : Declaration) (gs : List Group)
    (ns : List Node) (m : Node) : Prop :=
  (∃ n ∈ ns, ∃ w, (w = n.agentWork ∨ ∃ work, w = some (.step work)) ∧
    m = { n with agentWork := w }) ∨
  ∃ g ∈ gs, ∃ index work, identity host session g.key ∉ ns.map Node.id ∧
    m = { newNode host session declaration index g with agentWork := some (.step work) }

theorem place_comes {ns' : List Node} (hids : ∀ id ∈ ns.map Node.id, id ∈ ns'.map Node.id)
    (h : ∀ m ∈ ns', Comes host session declaration gs ns m) :
    ∀ m ∈ place host session declaration index g ns',
      Comes host session declaration (gs ++ [g]) ns m := by
  have hweaken : ∀ m, Comes host session declaration gs ns m →
      Comes host session declaration (gs ++ [g]) ns m := by
    rintro m (hold | ⟨g', hg', hnew⟩)
    · exact .inl hold
    · exact .inr ⟨g', mem_append_left _ hg', hnew⟩
  intro m hm
  unfold place at hm
  split at hm
  · rcases mem_revise hm with hold | ⟨n, hn, -, rfl⟩
    · exact hweaken m (h m hold)
    · rcases hweaken n (h n hn) with ⟨n', hn', w, -, rfl⟩ | ⟨g', hg', i, work, hfresh, rfl⟩
      · exact .inl ⟨n', hn', _, .inr ⟨_, rfl⟩, rfl⟩
      · exact .inr ⟨g', hg', i, _, hfresh, rfl⟩
  · next hany =>
    rcases List.mem_append.1 hm with hold | hnew
    · exact hweaken m (h m hold)
    · refine .inr ⟨g, mem_append_right _ (List.mem_singleton.2 rfl), index, _,
        fun hmem => hany ?_, List.mem_singleton.1 hnew⟩
      obtain ⟨n, hn, hid⟩ := List.mem_map.1 (hids _ hmem)
      exact List.any_eq_true.2 ⟨n, hn, decide_eq_true hid⟩

theorem placeAll_ids :
    ∀ id ∈ ns.map Node.id, id ∈ (placeAll host session declaration index gs ns).map Node.id := by
  intro id hid
  obtain ⟨n, hn, rfl⟩ := List.mem_map.1 hid
  have hkeeps : ∃ w, { n with agentWork := w } ∈
      placeAll host session declaration index gs ns := placeAll_keeps hn
  obtain ⟨w, hw⟩ := hkeeps
  exact List.mem_map.2 ⟨_, hw, rfl⟩

/-- **Every node** was there or was placed. -/
theorem placeAll_comes (index : ℕ) (gs : List Group) (ns : List Node) :
    ∀ m ∈ placeAll host session declaration index gs ns,
      Comes host session declaration gs ns m := by
  induction gs using List.reverseRecOn with
  | nil => exact fun m hm => .inl ⟨m, hm, m.agentWork, .inl rfl, rfl⟩
  | append_singleton gs g ih =>
      rw [placeAll_concat]
      exact place_comes placeAll_ids ih

end ArchHub.Work

namespace ArchHub.Work

open Lib List

variable {host : Host} {session : String} {declaration : Declaration} {ns : List Node}
  {title : String} {t : Transcript} {n : Node}

/-! ## Calls -/

/-- A call of a tool other than a declaration or a completion. -/
def works (host : Host) (c : Call) : Bool := !declares host c && !completes host c

theorem flatMap_stepsFrom (declared : Bool) (current : Option Group) (cs : List Call) :
    (stepsFrom host declared current cs).flatMap Group.calls =
      current.toList.flatMap Group.calls ++ cs.filter (works host) := by
  induction cs generalizing current with
  | nil =>
      rw [stepsFrom, filter_nil, append_nil]
  | cons c cs ih =>
      unfold stepsFrom
      by_cases hdeclares : declares host c = true
      · have hworks : works host c = false := by rw [works, hdeclares]; rfl
        rw [if_pos hdeclares, flatMap_append, ih, filter_cons_of_neg (by simp [hworks])]
        rfl
      · by_cases hcompletes : completes host c = true
        · have hworks : works host c = false := by rw [works, hcompletes, Bool.not_true, Bool.and_false]
          rw [if_neg hdeclares, if_pos hcompletes, ih, filter_cons_of_neg (by simp [hworks])]
          cases current <;> rfl
        · have hworks : works host c = true := by
            rw [works, Bool.eq_false_iff.2 hdeclares, Bool.eq_false_iff.2 hcompletes]
            rfl
          rw [if_neg hdeclares, if_neg hcompletes, filter_cons_of_pos hworks]
          cases hsame : current.filter fun g => declared || g.key = c.turn with
          | none =>
              rw [flatMap_append, ih]
              rfl
          | some g =>
              obtain ⟨rfl, -⟩ := Option.filter_eq_some_iff.1 hsame
              rw [ih]
              simp [flatMap_cons]

/-- **Every call** of a tool is in one step. -/
theorem flatMap_steps (t : Transcript) :
    (steps host t).flatMap Group.calls = t.calls.filter (works host) :=
  flatMap_stepsFrom _ none t.calls

/-! ## Parameters -/

/-- What is stored of a parameter is redacted no further. -/
theorem mem_stored {params : Fields} {e : String × Json} (h : e ∈ stored host params) :
    namesSecret host.unicode e.1 = false ∧ redact host.unicode e.2 = e.2 := by
  obtain ⟨hmem, hunmarked⟩ := List.mem_filter.1 h
  obtain ⟨hname, x, -, hx⟩ := mem_redactFields hmem
  refine ⟨hname, ?_⟩
  rw [hx] at hunmarked ⊢
  exact redact_of_unmarked x (by simpa using hunmarked)

theorem mem_entries_ofList {κ ν : Type} [DecidableEq κ] {es : List (κ × ν)} {e : κ × ν}
    (h : e ∈ (Dict.ofList es).entries) : e ∈ es := by
  have hall : ∀ (es : List (κ × ν)) (d : Dict κ ν), e ∈ (d.update es).entries →
      e ∈ d.entries ∨ e ∈ es := by
    intro es
    induction es with
    | nil => exact fun d hd => .inl hd
    | cons f es ih =>
        intro d hd
        rw [Dict.update_cons] at hd
        rcases ih _ hd with hset | hmem
        · rcases Assoc.mem_put hset with hold | rfl
          · exact .inl hold
          · exact .inr mem_cons_self
        · exact .inr (mem_cons_of_mem _ hmem)
  exact (hall es Dict.empty h).resolve_left not_mem_nil

/-- The parameters of a node that is placed are redacted no further. -/
theorem redactFields_newNode (index : ℕ) (g : Group) :
    redactFields host.unicode (newNode host session declaration index g).params.entries =
      (newNode host session declaration index g).params.entries :=
  redactFields_of_fixed fun _ he => mem_stored (mem_entries_ofList he)

/-! ## Wires -/

/-- A hint draws no wire, or one for the session. -/
theorem draw_cases (ws : List Wire) (h : Hint) :
    draw host session ws h = ws ∨ ∃ socket,
      draw host session ws h = ws ++ [inferredWire session h socket] := by
  unfold draw
  split
  · exact .inl rfl
  · split
    · exact .inl rfl
    · exact .inr ⟨_, rfl⟩

theorem inferredFor_inferredWire (h : Hint) (socket : String) :
    (inferredWire session h socket).inferredFor session = true := by
  simp [Wire.inferredFor, inferredWire]

/-- The wires that are not inferred for the session stay. -/
theorem filter_foldl_draw (hs : List Hint) (ws : List Wire) :
    ((hs.foldl (draw host session) ws).filter fun w => !w.inferredFor session) =
      ws.filter fun w => !w.inferredFor session := by
  induction hs generalizing ws with
  | nil => rfl
  | cons h hs ih =>
      rw [foldl_cons, ih]
      rcases draw_cases ws h with heq | ⟨socket, heq⟩
      · rw [heq]
      · rw [heq, filter_append, filter_cons_of_neg
          (by rw [inferredFor_inferredWire]; decide), filter_nil, append_nil]

/-! ## A second time -/

/-- The session's node is set to what it is. -/
theorem reviseSession_again (t : Transcript) (title : String) (n : Node) :
    (reviseSession declaration t title (reviseSession declaration t title n)).params =
      (reviseSession declaration t title n).params := by
  unfold reviseSession
  dsimp only
  have hmodel : ∀ (d : Dict String Json) (a b c : Json),
      (((d.set "model" a).set "goal" b).set "detail" c).get? "model" = some a := by
    intro d a b c
    simp
  have hgoal : ∀ (d : Dict String Json) (a b c : Json),
      (((d.set "model" a).set "goal" b).set "detail" c).get? "goal" = some b := by
    intro d a b c
    simp
  have hdetail : ∀ (d : Dict String Json) (a b c : Json),
      (((d.set "model" a).set "goal" b).set "detail" c).get? "detail" = some c := by
    intro d a b c
    simp
  rw [Dict.set_of_get? (hmodel _ _ _ _), Dict.set_of_get? (hgoal _ _ _ _),
    Dict.set_of_get? (hdetail _ _ _ _)]

/-- What is known of the nodes of a projection, whoever placed them. -/
structure Projected (host : Host) (session title : String) (declaration : Declaration)
    (t : Transcript) (ns : List Node) : Prop where
  settled : Settled host session declaration (steps host t) ns
  own : ∀ n ∈ ns, n.id = session → n.title = some title ∧
    (reviseSession declaration t title n).params = n.params ∧
    (workOf host session declaration (steps host t) session = none →
      n.agentWork = some (.session declaration.runtime declaration.native))

theorem placeAll_projected (hnodup : (ns.map Node.id).Nodup) (hself : session ∈ ns.map Node.id)
    (htitle : ∀ n ∈ ns, n.id = session → n.title = some title) :
    Projected host session title declaration t (placeAll host session declaration 0 (steps host t)
      (revise session (reviseSession declaration t title) ns)) := by
  have hids : (revise session (reviseSession declaration t title) ns).map Node.id =
      ns.map Node.id := map_id_revise (f := reviseSession declaration t title) (fun _ => rfl) ns
  have hsettled : Settled host session declaration (steps host t)
      (placeAll host session declaration 0 (steps host t)
        (revise session (reviseSession declaration t title) ns)) :=
    placeAll_settled (by rw [hids]; exact hnodup) 0 (steps host t)
  refine ⟨hsettled, fun m hm hid => ?_⟩
  rcases placeAll_comes 0 (steps host t) _ m hm with ⟨n, hn, w, hw, rfl⟩ | ⟨g, -, i, work, hnew, rfl⟩
  · rw [revise_eq_map _ hnodup] at hn
    obtain ⟨n', hn', rfl⟩ := List.mem_map.1 hn
    have hid' : n'.id = session := by
      by_contra hne
      rw [if_neg hne] at hid
      exact hne hid
    rw [if_pos hid'] at hm ⊢
    refine ⟨htitle n' hn' hid', reviseSession_again t title n', fun hnone => ?_⟩
    have hrevised : reviseSession declaration t title n' ∈
        revise session (reviseSession declaration t title) ns := by
      rw [revise_eq_map _ hnodup]
      exact List.mem_map.2 ⟨n', hn', if_pos hid'⟩
    have hstays : reviseSession declaration t title n' ∈
        placeAll host session declaration 0 (steps host t)
          (revise session (reviseSession declaration t title) ns) :=
      placeAll_untouched hrevised fun g hg => by
        rw [show (reviseSession declaration t title n').id = session from hid']
        exact ne_of_workOf hnone g hg
    rw [inj_on_of_nodup_map hsettled.nodup hm hstays rfl]
    rfl
  · have hid' : identity host session g.key = session := hid
    rw [hids, hid'] at hnew
    exact absurd hself hnew

/-- Where the nodes are those of a projection, placing the steps again changes nothing. -/
theorem Projected.placeAll_eq (h : Projected host session title declaration t ns) :
    placeAll host session declaration 0 (steps host t)
      (revise session (reviseSession declaration t title) ns) = ns := by
  have hids : (revise session (reviseSession declaration t title) ns).map Node.id =
      ns.map Node.id := map_id_revise (f := reviseSession declaration t title) (fun _ => rfl) ns
  rw [placeAll_of_mem (by rw [hids]; exact h.settled.nodup) 0 (fun g hg => by
    rw [hids]; exact h.settled.placed g hg), revise_eq_map _ h.settled.nodup, map_map]
  refine (map_congr_left fun n hn => ?_).trans (map_id ns)
  rw [Function.comp_apply, id_eq]
  by_cases hid : n.id = session
  · obtain ⟨-, hparams, hwork⟩ := h.own n hn hid
    have hsaid := h.settled.said n hn
    rw [if_pos hid]
    cases hlast : workOf host session declaration (steps host t) n.id with
    | none =>
        have hagent := hwork (hid ▸ hlast)
        have hretag : retag host session declaration (steps host t)
            (reviseSession declaration t title n) = reviseSession declaration t title n := by
          unfold retag
          rw [show (reviseSession declaration t title n).id = n.id from rfl, hlast]
          rfl
        rw [hretag]
        show ({ n with
          agentWork := some (.session declaration.runtime declaration.native)
          params := (reviseSession declaration t title n).params } : Node) = n
        rw [hparams, ← hagent]
    | some w =>
        have hretag : retag host session declaration (steps host t)
            (reviseSession declaration t title n) = { n with
              agentWork := some w
              params := (reviseSession declaration t title n).params } := by
          unfold retag
          rw [show (reviseSession declaration t title n).id = n.id from rfl, hlast]
          rfl
        have hagent : n.agentWork = some w := by
          rw [← hsaid]
          show (workOf host session declaration (steps host t) n.id).or _ = _
          rw [hlast]
          rfl
        rw [hretag, hparams, ← hagent]
  · rw [if_neg hid]
    exact h.settled.said n hn

/-- The node of a session, where the identities are distinct. -/
theorem nodeOf_of_mem (hnodup : (ns.map Node.id).Nodup) (hn : n ∈ ns) :
    nodeOf ns n.id = some n := by
  obtain ⟨m, hm⟩ := Option.isSome_iff_exists.1 (List.find?_isSome.2 ⟨n, hn, decide_eq_true rfl⟩ :
      (ns.find? fun m => m.id = n.id).isSome = true)
  have hid : m.id = n.id := decide_eq_true_iff.1 (List.find?_some hm :)
  unfold nodeOf
  rw [hm, inj_on_of_nodup_map hnodup (List.mem_of_find?_eq_some hm) hn hid]

theorem nodeOf_some {id : String} (h : nodeOf ns id = some n) : n ∈ ns ∧ n.id = id :=
  ⟨List.mem_of_find?_eq_some h, decide_eq_true_iff.1 (List.find?_some h :)⟩

/-- The nodes of a projection. -/
theorem projectTitled_projected {d : Document} (hnodup : (d.nodes.map Node.id).Nodup)
    (hn : nodeOf d.nodes session = some n) (htitle : n.title = some title) :
    Projected host session title declaration t
      (projectTitled host session title declaration t d).nodes := by
  obtain ⟨hmem, hid⟩ := nodeOf_some hn
  refine placeAll_projected hnodup (List.mem_map.2 ⟨n, hmem, hid⟩) fun m hm hid' => ?_
  rw [inj_on_of_nodup_map hnodup hm hmem (hid'.trans hid.symm), htitle]

/-- **A second projection** of the same transcript changes nothing. -/
theorem project_again {d d' : Document} (hnodup : (d.nodes.map Node.id).Nodup)
    (h : project host session declaration t d = some d') :
    project host session declaration t d' = some d' := by
  obtain ⟨title, hbind, rfl⟩ := Option.map_eq_some_iff.1 h
  obtain ⟨n, hn, htitle⟩ := Option.bind_eq_some_iff.1 hbind
  have hprojected : Projected host session title declaration t
      (projectTitled host session title declaration t d).nodes :=
    projectTitled_projected hnodup hn htitle
  obtain ⟨hmem, hid⟩ := nodeOf_some hn
  have hself : session ∈ (projectTitled host session title declaration t d).nodes.map Node.id := by
    refine placeAll_ids session ?_
    rw [map_id_revise (f := reviseSession declaration t title) fun _ => rfl]
    exact List.mem_map.2 ⟨n, hmem, hid⟩
  obtain ⟨m, hm, hmid⟩ := List.mem_map.1 hself
  have hnode : nodeOf (projectTitled host session title declaration t d).nodes session = some m := by
    have hfound := nodeOf_of_mem hprojected.settled.nodup hm
    rwa [hmid] at hfound
  unfold project
  rw [hnode, Option.bind_some, (hprojected.own m hm hmid).1, Option.map_some]
  refine congrArg some ?_
  have hwires : (projectTitled host session title declaration t d).wires.filter
      (fun w => !w.inferredFor session) = d.wires.filter fun w => !w.inferredFor session := by
    refine (filter_foldl_draw _ _).trans ?_
    rw [filter_filter]
    simp
  show ({ projectTitled host session title declaration t d with
    nodes := placeAll host session declaration 0 (steps host t) (revise session
      (reviseSession declaration t title) (projectTitled host session title declaration t d).nodes)
    wires := (hints (placedSteps host session (placeAll host session declaration 0 (steps host t)
      (revise session (reviseSession declaration t title)
        (projectTitled host session title declaration t d).nodes)) (steps host t))).foldl
      (draw host session) ((projectTitled host session title declaration t d).wires.filter
        fun w => !w.inferredFor session) } : Document) = _
  rw [hprojected.placeAll_eq, hwires]
  rfl

end ArchHub.Work

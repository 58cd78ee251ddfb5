import Mathlib
import ArchHub.Lib.Naming
import ArchHub.Work.Projected

/-!
# A projection and the checks of a document

`project` checks nothing: what it makes is checked before it is saved.  A valid document stays
valid, but for the limits of a document, for numbers that are not finite, and for wires.

* `Fits`: what a projection has to meet.
* `project_valid`: **a projection that fits keeps its document valid**.
* `project_keeps`: **what a projection keeps, lists and stores**.
* `projections_lose`: what it may lose, a turn that comes back among others.
-/

namespace ArchHub.Work

open Lib List Check

variable {host : Host} {session : String} {declaration : Declaration} {u : Unicode} {g : Group}
  {n : Node} {t : Transcript} {title : String} {d : Document} {size : Document → ℕ}
  {k socket : String} {nodes : List Node} {h : Hint} {d' : Document}

/-! ## Values -/

namespace Json

mutual

/-- Whether the numbers of a value are finite. -/
def finite : Json → Bool
  | float q => q.isSome
  | arr xs => finiteList xs
  | obj fields => finiteFields fields
  | _ => true

/-- Whether the numbers of some values are finite. -/
def finiteList : List Json → Bool
  | [] => true
  | x :: xs => finite x && finiteList xs

/-- Whether the numbers of some fields are finite. -/
def finiteFields : List (String × Json) → Bool
  | [] => true
  | (_, x) :: fields => finite x && finiteFields fields

end

end Json

/-- A field that holds no secret. -/
def SafeField (e : String × Json) : Prop :=
  (!secretKey.search none e.1.toList || e.2 = .str "" || e.2 = .null) = true ∧ safe e.2 = .ok ()

theorem safeFields_ok_iff {fields : Fields} :
    safeFields fields = .ok () ↔ ∀ e ∈ fields, SafeField e := by
  induction fields with
  | nil => exact ⟨fun _ e he => absurd he not_mem_nil, fun _ => by rw [safeFields]⟩
  | cons e fields ih =>
      obtain ⟨k, x⟩ := e
      rw [safeFields, seq_ok_iff, seq_ok_iff, require_ok_iff, ih,
        forall_mem_cons, SafeField, and_assoc]

/-- A key that redaction leaves names no secret. -/
theorem secretKey_of_namesSecret (h : namesSecret u k = false) :
    secretKey.search none k.toList = false :=
  (Bool.or_eq_false_iff.1 h).1

mutual

/-- What is redacted is safe, where its numbers are finite. -/
theorem safe_redact : ∀ v : Json, v.finite = true → safe (redact u v) = .ok ()
  | .obj fields, h => by
      rw [Json.finite] at h
      rw [redact, safe]
      exact safe_redactFields fields h
  | .arr xs, h => by
      rw [Json.finite] at h
      rw [redact, safe]
      exact safe_redactList xs h
  | .float (some q), _ => by rw [redact, safe] <;> simp
  | .float none, h => by
      rw [Json.finite] at h
      cases h
  | .str s, _ => by rw [redact, safe] <;> simp
  | .null, _ => by rw [redact, safe] <;> simp
  | .bool b, _ => by rw [redact, safe] <;> simp
  | .int n, _ => by rw [redact, safe] <;> simp

theorem safe_redactList : ∀ xs : List Json, Json.finiteList xs = true →
    safeList (redactList u xs) = .ok ()
  | [], _ => by rw [redactList, safeList]
  | x :: xs, h => by
      rw [Json.finiteList, Bool.and_eq_true] at h
      rw [redactList, safeList, seq_ok_iff]
      exact ⟨safe_redact x h.1, safe_redactList xs h.2⟩

theorem safe_redactFields : ∀ fields : Fields, Json.finiteFields fields = true →
    safeFields (redactFields u fields) = .ok ()
  | [], _ => by rw [redactFields, safeFields]
  | (k, x) :: fields, h => by
      rw [Json.finiteFields, Bool.and_eq_true] at h
      rw [redactFields]
      by_cases hk : namesSecret u k = true
      · rw [if_pos hk]
        exact safe_redactFields fields h.2
      · rw [if_neg hk, safeFields, seq_ok_iff, seq_ok_iff, require_ok_iff,
          secretKey_of_namesSecret (Bool.eq_false_iff.2 hk)]
        exact ⟨rfl, safe_redact x h.1, safe_redactFields fields h.2⟩

end

/-! ## Nodes -/

/-- The call that stands for a step is one of its calls. -/
theorem chosen_mem {cs : List Call} {cm : Call × Mapped} (h : chosen host cs = some cm) :
    cm.1 ∈ cs ∧ cm.2 = mapping host cm.1 := by
  obtain ⟨way, -, hfound⟩ := Option.bind_eq_some_iff.1 h
  obtain ⟨c, hc, rfl⟩ := List.mem_map.1 (List.mem_of_find?_eq_some hfound)
  exact ⟨hc, rfl⟩

/-- The numbers that calls are given are finite. -/
def FiniteCalls (host : Host) (cs : List Call) : Prop :=
  ∀ c ∈ cs, ∀ e ∈ (mapping host c).params, e.2.finite = true

/-- The parameters of a step are safe. -/
theorem safe_plan (hfinite : FiniteCalls host g.calls) {e : String × Json}
    (he : e ∈ (planOf host g).params) :
    secretKey.search none e.1.toList = false ∧ safe e.2 = .ok () := by
  obtain ⟨hname, x, hx, heq⟩ := mem_redactFields (List.mem_filter.1 he).1
  refine ⟨secretKey_of_namesSecret hname, ?_⟩
  rw [heq]
  refine safe_redact x ?_
  cases hchosen : chosen host g.calls with
  | none =>
      rw [hchosen] at hx
      cases hx
  | some cm =>
      rw [hchosen] at hx
      obtain ⟨hc, hm⟩ := chosen_mem hchosen
      have hx' : (e.1, x) ∈ cm.2.params := hx
      rw [hm] at hx'
      exact hfinite cm.1 hc (e.1, x) hx'

theorem safe_str (s : String) : safe (.str s) = .ok () := by
  rw [safe] <;> simp

theorem safe_bool (b : Bool) : safe (.bool b) = .ok () := by
  rw [safe] <;> simp

/-- The names of the fields that a projection writes name no secrets. -/
theorem writtenKeys_safe : (["id", "name", "type", "model", "goal", "detail"].all fun k =>
    !secretKey.search none k.toList) = true := by
  decide +kernel

theorem written_safe (hk : k ∈ ["id", "name", "type", "model", "goal", "detail"]) (s : String) :
    SafeField (k, .str s) := by
  refine ⟨?_, safe_str s⟩
  have hall := List.all_eq_true.1 writtenKeys_safe k hk
  show (!secretKey.search none k.toList || _ || _) = true
  rw [hall]
  rfl

theorem safe_definitions (params : Fields) : safe (definitions host params) = .ok () := by
  rw [definitions, safe]
  induction params with
  | nil => rw [map_nil, safeList]
  | cons e params ih =>
      rw [map_cons, safeList, seq_ok_iff]
      refine ⟨?_, ih⟩
      rw [safe, safeFields_ok_iff]
      intro f hf
      rcases List.mem_cons.1 hf with rfl | hf
      · exact written_safe (by decide) _
      · rcases List.mem_cons.1 hf with rfl | hf
        · exact written_safe (by decide) _
        · rw [List.mem_singleton.1 hf]
          exact written_safe (by decide) _

theorem safeNode_ok_iff : safeNode n = .ok () ↔ safeFields n.params.entries = .ok () ∧
    safeOption n.paramDefs = .ok () ∧ safeOption n.approvalRequired = .ok () ∧
    safeWork n.agentWork = .ok () ∧ safeFields n.rest = .ok () := by
  unfold safeNode
  rw [seq_ok_iff, seq_ok_iff, seq_ok_iff, seq_ok_iff]

/-- What a projection says of a node is safe. -/
theorem safeWork_of_comes {w : Option AgentWork} (hn : safeWork n.agentWork = .ok ())
    (hw : w = n.agentWork ∨ ∃ work, w = some (.step work)) : safeWork w = .ok () := by
  rcases hw with rfl | ⟨work, rfl⟩
  · exact hn
  · rfl

theorem safe_newNode {index : ℕ} {work : StepWork} (hfinite : FiniteCalls host g.calls) :
    safeNode { newNode host session declaration index g with agentWork := some (.step work) } =
      .ok () := by
  rw [safeNode_ok_iff]
  refine ⟨safeFields_ok_iff.2 fun e he => ?_, safe_definitions _, safe_bool true, rfl, ?_⟩
  · obtain ⟨hkey, hvalue⟩ := safe_plan hfinite (mem_entries_ofList he)
    exact ⟨by rw [hkey]; rfl, hvalue⟩
  · show safeFields [] = .ok ()
    rw [safeFields]

/-- The session's node stays safe. -/
theorem safe_reviseSession (hn : safeNode n = .ok ()) :
    safeNode (reviseSession declaration t title n) = .ok () := by
  rw [safeNode_ok_iff] at hn ⊢
  obtain ⟨hparams, hdefs, happroval, -, hrest⟩ := hn
  refine ⟨safeFields_ok_iff.2 fun e he => ?_, hdefs, happroval, rfl, hrest⟩
  have hold := safeFields_ok_iff.1 hparams
  rcases Assoc.mem_put he with he | rfl
  · rcases Assoc.mem_put he with he | rfl
    · rcases Assoc.mem_put he with he | rfl
      · exact hold e he
      · exact written_safe (by decide) _
    · exact written_safe (by decide) _
  · exact written_safe (by decide) _

/-- What is known of a node of a projection: where it comes from, and that it is in order. -/
theorem node_of_projection (hvalid : WellFormed size d) (hfinite : FiniteCalls host t.calls)
    (hn : n ∈ (projectTitled host session title declaration t d).nodes) :
    safeNode n = .ok () ∧ n.id ≠ "" ∧ checkRest n.rest = .ok () ∧ membersExist d.ids n = true := by
  have hsafe : ∀ m ∈ d.nodes, safeNode m = .ok () :=
    Check.each_ok_iff.1 (Check.seq_ok_iff.1 hvalid.safe).1
  rcases placeAll_comes 0 (steps host t) _ n hn with
    ⟨m, hm, w, hw, rfl⟩ | ⟨g, hg, i, work, -, rfl⟩
  · have hold : ∀ m, safeNode m = .ok () ∧ m.id ≠ "" ∧ checkRest m.rest = .ok () ∧
        membersExist d.ids m = true →
        (w = m.agentWork ∨ ∃ work, w = some (.step work)) →
        safeNode { m with agentWork := w } = .ok () ∧ m.id ≠ "" ∧ checkRest m.rest = .ok () ∧
          membersExist d.ids { m with agentWork := w } = true := by
      rintro m ⟨hsafe, hid, hrest, hmembers⟩ hw
      obtain ⟨hparams, hdefs, happroval, hwork, hfields⟩ := safeNode_ok_iff.1 hsafe
      exact ⟨safeNode_ok_iff.2 ⟨hparams, hdefs, happroval, safeWork_of_comes hwork hw, hfields⟩,
        hid, hrest, hmembers⟩
    refine hold m ?_ hw
    rw [revise_eq_map _ hvalid.ids] at hm
    obtain ⟨m', hm', rfl⟩ := List.mem_map.1 hm
    obtain ⟨hid, hrest⟩ := hvalid.nodes m' hm'
    split
    · exact ⟨safe_reviseSession (hsafe m' hm'), hid, hrest, hvalid.members m' hm'⟩
    · exact ⟨hsafe m' hm', hid, hrest, hvalid.members m' hm'⟩
  · have hcalls : FiniteCalls host g.calls := fun c hc => by
      have hmem : c ∈ (steps host t).flatMap Group.calls := List.mem_flatMap.2 ⟨g, hg, hc⟩
      rw [flatMap_steps] at hmem
      exact hfinite c (List.mem_filter.1 hmem).1
    refine ⟨safe_newNode hcalls, fun hempty => ?_, (by decide : checkRest [] = .ok ()), rfl⟩
    have hlist := congrArg String.toList hempty
    rw [newNode, identity, String.toList_append] at hlist
    exact absurd (List.append_eq_nil_iff.1 hlist).1 (by decide)

/-! ## Wires -/

theorem length_identity (host : Host) (session key : String) :
    (identity host session key).toList.length = 29 := by
  have hlength := host.hexdigest_length (session ++ "\x00" ++ key)
  have htake : (String.ofList ((host.sha256 (session ++ "\x00" ++ key)).toList.take
      24)).toList.length = 24 := by
    rw [String.toList_ofList, length_take, String.length_toList, hlength]
    rfl
  rw [identity, String.toList_append, length_append, htake]
  rfl

/-- The wires that hints draw. -/
theorem foldl_draw_spec (hs : List Hint) (ws : List Wire) (hinputs : (ws.map Wire.target).Nodup) :
    ((hs.foldl (draw host session) ws).map Wire.target).Nodup ∧
    ∀ w ∈ hs.foldl (draw host session) ws, w ∈ ws ∨ ∃ h ∈ hs, ∃ socket,
      sourceSocket ((h.earlier.ports.map Ports.source).getD []) = some socket ∧
        w = inferredWire session h socket := by
  induction hs generalizing ws with
  | nil => exact ⟨hinputs, fun w hw => .inl hw⟩
  | cons h hs ih =>
      have hstep : ((draw host session ws h).map Wire.target).Nodup ∧
          ∀ w ∈ draw host session ws h, w ∈ ws ∨ ∃ socket,
            sourceSocket ((h.earlier.ports.map Ports.source).getD []) = some socket ∧
              w = inferredWire session h socket := by
        unfold draw
        split
        · exact ⟨hinputs, fun w hw => .inl hw⟩
        · next hfree =>
          split
          · exact ⟨hinputs, fun w hw => .inl hw⟩
          · next socket hsocket =>
            refine ⟨?_, fun w hw => ?_⟩
            · rw [map_append]
              refine hinputs.append (nodup_singleton _) fun e he he' => ?_
              obtain ⟨w, hw, rfl⟩ := List.mem_map.1 he
              have htarget : w.target = inputOf h := List.mem_singleton.1 he'
              refine hfree (Bool.or_eq_true_iff.2 (.inr ?_))
              exact List.any_eq_true.2 ⟨w, hw, decide_eq_true htarget⟩
            · rcases List.mem_append.1 hw with hold | hnew
              · exact .inl hold
              · exact .inr ⟨socket, hsocket, List.mem_singleton.1 hnew⟩
      rw [foldl_cons]
      obtain ⟨hnodup, hfrom⟩ := ih _ hstep.1
      refine ⟨hnodup, fun w hw => ?_⟩
      rcases hfrom w hw with hmid | ⟨h', hh', socket, hsocket, rfl⟩
      · rcases hstep.2 w hmid with hold | ⟨socket, hsocket, rfl⟩
        · exact .inl hold
        · exact .inr ⟨h, mem_cons_self, socket, hsocket, rfl⟩
      · exact .inr ⟨h', mem_cons_of_mem _ hh', socket, hsocket, rfl⟩

/-- The nodes of a hint are nodes of steps. -/
theorem mem_hints {gs : List Group} (hh : h ∈ hints (placedSteps host session nodes gs)) :
    (h.earlier ∈ nodes ∧ ∃ g ∈ gs, h.earlier.id = identity host session g.key) ∧
      h.later ∈ nodes ∧ ∃ g ∈ gs, h.later.id = identity host session g.key := by
  have hplaced : ∀ nc ∈ placedSteps host session nodes gs,
      nc.1 ∈ nodes ∧ ∃ g ∈ gs, nc.1.id = identity host session g.key := by
    intro nc hnc
    obtain ⟨g, hg, hfound⟩ := List.mem_filterMap.1 hnc
    obtain ⟨n, hn, rfl⟩ := Option.map_eq_some_iff.1 hfound
    obtain ⟨hmem, hid⟩ := nodeOf_some hn
    exact ⟨hmem, g, hg, hid⟩
  obtain ⟨later, hlater, hh⟩ := List.mem_flatMap.1 hh
  obtain ⟨earlier, hearlier, hh⟩ := List.mem_flatMap.1 hh
  obtain ⟨e, -, rfl⟩ := List.mem_map.1 hh
  exact ⟨hplaced _ (( takeWhile_prefix _).subset hearlier), hplaced _ hlater⟩

/-- The identity of an inferred wire tells its input. -/
theorem inputOf_eq {h' : Hint} {socket' : String}
    (hlength : h.earlier.id.toList.length = h'.earlier.id.toList.length)
    (hlength' : h.later.id.toList.length = h'.later.id.toList.length)
    (heq : (inferredWire session h socket).id = (inferredWire session h' socket').id) :
    inputOf h = inputOf h' := by
  have hlist := congrArg String.toList heq
  simp only [inferredWire, String.toList_append, append_assoc, append_cancel_left_eq] at hlist
  obtain ⟨-, hrest⟩ := append_inj hlist hlength
  rw [append_cancel_left_eq] at hrest
  obtain ⟨hlater, hrest⟩ := append_inj hrest hlength'
  rw [append_cancel_left_eq] at hrest
  rw [inputOf, inputOf, String.toList_inj.1 hlater, String.toList_inj.1 hrest]

/-! ## The document -/

/-- What a projection has to meet: the limits of a document, finite numbers in what the calls
are given, names for the outputs of the step nodes, and no other wire with the identity of an
inferred one. -/
structure Fits (size : Document → ℕ) (host : Host) (session : String) (t : Transcript)
    (d' : Document) : Prop where
  nodeCount : d'.nodes.length ≤ 10000
  wireCount : d'.wires.length ≤ 50000
  bytes : size d' ≤ maxBytes
  finite : FiniteCalls host t.calls
  outputs : ∀ n ∈ d'.nodes, (∃ g ∈ steps host t, n.id = identity host session g.key) →
    ∀ p ∈ (n.ports.map Ports.source).getD [], p.id ≠ ""
  fresh : ∀ w ∈ d'.wires, ∀ w' ∈ d'.wires, w.inferredFor session = true →
    w'.inferredFor session = false → w.id ≠ w'.id

theorem sourceSocket_ne {ports : List Port} (h : sourceSocket ports = some socket)
    (hports : ∀ p ∈ ports, p.id ≠ "") : socket ≠ "" := by
  unfold sourceSocket at h
  split at h
  · cases h
    decide
  · obtain ⟨p, hp, rfl⟩ := Option.map_eq_some_iff.1 h
    exact hports p (List.mem_of_head? hp)

theorem param_ne (k : String) : "param:" ++ k ≠ "" := by
  intro h
  have hlist := congrArg String.toList h
  rw [String.toList_append] at hlist
  exact absurd (List.append_eq_nil_iff.1 hlist).1 (by decide)

/-- **A projection that fits** keeps its document valid. -/
theorem project_valid (hvalid : Valid size d) (h : project host session declaration t d = some d')
    (hfits : Fits size host session t d') : Valid size d' := by
  rw [valid_iff] at hvalid ⊢
  obtain ⟨title, hbind, rfl⟩ := Option.map_eq_some_iff.1 h
  obtain ⟨n, hn, htitle⟩ := Option.bind_eq_some_iff.1 hbind
  have hprojected : Projected host session title declaration t
      (projectTitled host session title declaration t d).nodes :=
    projectTitled_projected hvalid.ids hn htitle
  have hids : ∀ id ∈ d.ids, id ∈ (projectTitled host session title declaration t d).ids := by
    intro id hid
    refine placeAll_ids id ?_
    rw [map_id_revise (f := reviseSession declaration t title) fun _ => rfl]
    exact hid
  have hend : ∀ e, endOk d.ids e = true →
      endOk (projectTitled host session title declaration t d).ids e = true := by
    intro e he
    obtain ⟨hnode, hsocket⟩ := Bool.and_eq_true_iff.1 he
    exact Bool.and_eq_true_iff.2
      ⟨List.contains_iff_mem.2 (hids _ (List.contains_iff_mem.1 hnode)), hsocket⟩
  have hkept : ∀ w ∈ d.wires.filter fun w => !w.inferredFor session,
      w ∈ d.wires ∧ w.inferredFor session = false := fun w hw => by
    obtain ⟨hmem, howner⟩ := List.mem_filter.1 hw
    exact ⟨hmem, by simpa using howner⟩
  have hinputs : ((d.wires.filter fun w => !w.inferredFor session).map Wire.target).Nodup :=
    hvalid.inputs.sublist (List.filter_sublist.map _)
  obtain ⟨htargets, hfrom⟩ := @foldl_draw_spec host session
    (hints (placedSteps host session (projectTitled host session title declaration t d).nodes
      (steps host t))) _ hinputs
  obtain ⟨hsafeNodes, hsafeRest⟩ := Check.seq_ok_iff.1 hvalid.safe
  obtain ⟨hsafeWires, hsafeRest⟩ := Check.seq_ok_iff.1 hsafeRest
  refine ⟨hvalid.named, hfits.nodeCount, hfits.wireCount, Check.seq_ok_iff.2 ⟨?_,
    Check.seq_ok_iff.2 ⟨?_, hsafeRest⟩⟩, fun m hm => ?_, hprojected.settled.nodup, fun m hm => ?_,
    fun g hg id hid => hids id (hvalid.groups g hg id hid), fun w hw => ?_, ?_, htargets,
    hvalid.viewport, hfits.bytes⟩
  · exact Check.each_ok_iff.2 fun m hm => (node_of_projection hvalid hfits.finite hm).1
  · refine Check.each_ok_iff.2 fun w hw => ?_
    rcases hfrom w hw with hold | ⟨hint, -, socket, -, rfl⟩
    · exact Check.each_ok_iff.1 hsafeWires w (hkept w hold).1
    · unfold safeWire
      rw [seq_ok_iff, seq_ok_iff]
      refine ⟨safe_bool true, safe_str session, ?_⟩
      show safeFields [] = .ok ()
      rw [safeFields]
  · obtain ⟨-, hid, hrest, -⟩ := node_of_projection hvalid hfits.finite hm
    exact ⟨hid, hrest⟩
  · obtain ⟨-, -, -, hmembers⟩ := node_of_projection hvalid hfits.finite hm
    obtain ⟨hparent, hchildren⟩ := Bool.and_eq_true_iff.1 hmembers
    refine Bool.and_eq_true_iff.2 ⟨?_, List.all_eq_true.2 fun c hc => ?_⟩
    · cases hp : m.parent with
      | none => rfl
      | some parent =>
          rw [hp] at hparent
          rcases Bool.or_eq_true_iff.1 hparent with hempty | hthere
          · exact Bool.or_eq_true_iff.2 (.inl hempty)
          · exact Bool.or_eq_true_iff.2 (.inr (List.contains_iff_mem.2
              (hids _ (List.contains_iff_mem.1 hthere))))
    · exact List.contains_iff_mem.2 (hids _ (List.contains_iff_mem.1
        (List.all_eq_true.1 hchildren c hc)))
  · rcases hfrom w hw with hold | ⟨hint, hmem, socket, hsocket, rfl⟩
    · obtain ⟨hsource, htarget, hrest⟩ := hvalid.wires w (hkept w hold).1
      exact ⟨hend _ hsource, hend _ htarget, hrest⟩
    · obtain ⟨⟨hearlier, hstep⟩, hlater, -⟩ := mem_hints hmem
      have hne : socket ≠ "" := sourceSocket_ne hsocket (hfits.outputs _ hearlier hstep)
      refine ⟨Bool.and_eq_true_iff.2 ⟨List.contains_iff_mem.2 (mem_map_of_mem hearlier),
        decide_eq_true hne⟩, Bool.and_eq_true_iff.2 ⟨List.contains_iff_mem.2
          (mem_map_of_mem hlater), decide_eq_true (param_ne _)⟩, ?_⟩
      show checkWireRest [] = .ok ()
      decide
  · refine List.Nodup.map_on (fun w hw w' hw' heq => ?_) (List.Nodup.of_map _ htargets)
    rcases hfrom w hw with hold | ⟨hint, hmem, socket, hsocket, rfl⟩
    · rcases hfrom w' hw' with hold' | ⟨hint', hmem', socket', hsocket', rfl⟩
      · exact inj_on_of_nodup_map hvalid.wireIds (hkept w hold).1 (hkept w' hold').1 heq
      · exact absurd heq.symm (hfits.fresh _ hw' _ hw (inferredFor_inferredWire _ _) (hkept w hold).2)
    · rcases hfrom w' hw' with hold' | ⟨hint', hmem', socket', hsocket', rfl⟩
      · exact absurd heq (hfits.fresh _ hw _ hw' (inferredFor_inferredWire _ _) (hkept w' hold').2)
      · obtain ⟨⟨-, g, -, hg⟩, -, g', -, hg'⟩ := mem_hints hmem
        obtain ⟨⟨-, k, -, hk⟩, -, k', -, hk'⟩ := mem_hints hmem'
        refine inj_on_of_nodup_map htargets hw hw' (inputOf_eq ?_ ?_ heq)
        · rw [hg, hk, length_identity, length_identity]
        · rw [hg', hk', length_identity, length_identity]

/-! ## The projection -/

/-- The calls that a node lists. -/
def Node.listed (n : Node) : List String :=
  match n.agentWork with
  | some (.step work) => work.calls
  | _ => []

/-- The steps of a transcript have their nodes, and each lists its calls, where no two steps
have one node. -/
theorem listed_once {ns : List Node} (h : Settled host session declaration (steps host t) ns)
    (hkeys : ((steps host t).map fun g => identity host session g.key).Nodup) :
    ∃ found : List Node, (∀ n ∈ found, n ∈ ns) ∧
      found.map Node.id = (steps host t).map (fun g => identity host session g.key) ∧
      found.flatMap Node.listed = (t.calls.filter (works host)).map Call.id := by
  have hfound : ∀ g ∈ steps host t, ∃ n ∈ ns, n.id = identity host session g.key ∧
      n.listed = g.calls.map Call.id := by
    intro g hg
    obtain ⟨n, hn, hid⟩ := List.mem_map.1 (h.placed g hg)
    have hwork : workOf host session declaration (steps host t) n.id =
        some (.step (metadata host session declaration g)) := by
      unfold workOf
      have hlast : ((steps host t).reverse.find? fun g => identity host session g.key = n.id) =
          some g := by
        obtain ⟨g', hg'⟩ := Option.isSome_iff_exists.1 (List.find?_isSome.2
          ⟨g, List.mem_reverse.2 hg, decide_eq_true hid.symm⟩ :
            ((steps host t).reverse.find? fun g => identity host session g.key = n.id).isSome = true)
        have hsame : identity host session g'.key = n.id :=
          decide_eq_true_iff.1 (List.find?_some hg' :)
        rw [hg', inj_on_of_nodup_map hkeys
          (List.mem_reverse.1 (List.mem_of_find?_eq_some hg')) hg (hsame.trans hid)]
      rw [hlast]
      rfl
    refine ⟨n, hn, hid, ?_⟩
    have hagent : n.agentWork = some (.step (metadata host session declaration g)) := by
      rw [← h.said n hn]
      show (workOf host session declaration (steps host t) n.id).or _ = _
      rw [hwork]
      rfl
    unfold Node.listed
    rw [hagent]
    rfl
  have hall : ∀ gs : List Group, (∀ g ∈ gs, g ∈ steps host t) → ∃ found : List Node,
      (∀ n ∈ found, n ∈ ns) ∧ found.map Node.id = gs.map (fun g => identity host session g.key) ∧
      found.flatMap Node.listed = (gs.flatMap Group.calls).map Call.id := by
    intro gs hgs
    induction gs with
    | nil => exact ⟨[], fun n hn => absurd hn not_mem_nil, rfl, rfl⟩
    | cons g gs ih =>
        obtain ⟨hg, hgs⟩ := List.forall_mem_cons.1 hgs
        obtain ⟨n, hn, hid, hlisted⟩ := hfound g hg
        obtain ⟨found, hmem, hids, hcalls⟩ := ih hgs
        refine ⟨n :: found, List.forall_mem_cons.2 ⟨hn, hmem⟩, ?_, ?_⟩
        · rw [map_cons, map_cons, hid, hids]
        · rw [flatMap_cons, flatMap_cons, map_append, hlisted, hcalls]
  obtain ⟨found, hmem, hids, hcalls⟩ := hall (steps host t) fun _ hg => hg
  rw [flatMap_steps] at hcalls
  exact ⟨found, hmem, hids, hcalls⟩

/-- What a node that is new holds. -/
theorem stored_of_new (hn : n ∈ (projectTitled host session title declaration t d).nodes)
    (hnew : n.id ∉ d.ids) :
    redactFields host.unicode n.params.entries = n.params.entries ∧
      ∃ text, n.title = some (redactText host.unicode text) := by
  rcases placeAll_comes 0 (steps host t) _ n hn with
    ⟨m, hm, w, -, rfl⟩ | ⟨g, -, i, work, -, rfl⟩
  · refine absurd ?_ hnew
    have hmem : m.id ∈ (revise session (reviseSession declaration t title) d.nodes).map Node.id :=
      mem_map_of_mem hm
    rw [map_id_revise (f := reviseSession declaration t title) fun _ => rfl] at hmem
    exact hmem
  · exact ⟨@redactFields_newNode host session declaration i g, _, rfl⟩

/-- **What a projection keeps, lists and stores.**  The other nodes and the wires that are not
inferred for the session are as they were; where no two steps have one node, each call of a
tool is listed by one of the nodes of the steps; what is stored of the parameters of a new node
is redacted no further, and its title is a redacted text; the document stays valid, if the
projection fits; and a second projection changes nothing. -/
theorem project_keeps {size : Document → ℕ} {t : Transcript} {d d' : Document}
    (hvalid : Valid size d) (h : project host session declaration t d = some d') :
    (∀ n ∈ d.nodes, n.id ≠ session → ∃ work, { n with agentWork := work } ∈ d'.nodes) ∧
    (d'.wires.filter fun w => !w.inferredFor session) =
      (d.wires.filter fun w => !w.inferredFor session) ∧
    (((steps host t).map fun g => identity host session g.key).Nodup →
      ∃ found : List Node, (∀ n ∈ found, n ∈ d'.nodes) ∧
        found.map Node.id = (steps host t).map (fun g => identity host session g.key) ∧
        found.flatMap Node.listed = (t.calls.filter (works host)).map Call.id) ∧
    (∀ n ∈ d'.nodes, n.id ∉ d.ids →
      redactFields host.unicode n.params.entries = n.params.entries ∧
        ∃ text, n.title = some (redactText host.unicode text)) ∧
    (Fits size host session t d' → Valid size d') ∧
    project host session declaration t d' = some d' := by
  have hids := (valid_iff size).1 hvalid |>.ids
  refine ⟨?_, ?_, ?_, ?_, project_valid hvalid h, project_again hids h⟩
  · obtain ⟨title, -, rfl⟩ := Option.map_eq_some_iff.1 h
    intro n hn hid
    have hkeep : n ∈ revise session (reviseSession declaration t title) d.nodes := by
      rw [revise_eq_map _ hids]
      exact List.mem_map.2 ⟨n, hn, if_neg hid⟩
    exact placeAll_keeps hkeep
  · obtain ⟨title, -, rfl⟩ := Option.map_eq_some_iff.1 h
    refine (filter_foldl_draw _ _).trans ?_
    rw [List.filter_filter]
    simp
  · obtain ⟨title, hbind, rfl⟩ := Option.map_eq_some_iff.1 h
    obtain ⟨n, hn, htitle⟩ := Option.bind_eq_some_iff.1 hbind
    exact listed_once (projectTitled_projected hids hn htitle).settled
  · obtain ⟨title, -, rfl⟩ := Option.map_eq_some_iff.1 h
    exact fun n hn hnew => stored_of_new hn hnew

/-! ## Some projections -/

/-- Surroundings with the functions of ASCII, the digests of three keys, and one engine. -/
def sampleHost : Host where
  unicode := ⟨Char.isAlphanum, String.toLower, String.toLower, String.capitalize⟩
  sha256 s :=
    if s = "s\x001" then "ed6576411d3bbfd0dccd303121e5125533c15c7d39647d7624b10b7f0c02b8d0"
    else if s = "s\x002" then "edf405f24fce3ccb079d18dc80b2799fb132a0aec62cf0a7c46ba73b019b10d0"
    else "0cc07939998ca332774fc11c7a038ae53412c696310903930321576f2f3ebd9a"
  hexdigest_length s := by
    split
    · decide
    · split <;> decide
  str _ := ""
  decode _ := none
  hostTools := []
  libraryItems := []
  things engine := if engine = "thing.file" then
      some ⟨[⟨"path", "file"⟩, ⟨"text", "string"⟩], []⟩
    else none
  itemPorts _ _ := ⟨[], []⟩

/-- More bytes than the documents here have. -/
def sampleSize (d : Document) : ℕ := 10000 + 100 * d.nodes.length

/-- A node without anything. -/
def plainNode (id : String) : Node where
  id := id
  type := "note"
  title := some "Work"
  params := Dict.empty
  position := (0, 0)
  item := none
  parent := none
  children := []
  ports := none
  paramDefs := none
  approvalRequired := none
  agentWork := none
  rest := []

/-- A document with some nodes and wires. -/
def plainDocument (nodes : List Node) (wires : List Wire) : Document :=
  ⟨"d", "Document", nodes, wires, [], [], none, none⟩

/-- A declaration. -/
def sampleDeclaration : Declaration := ⟨"codex", "n", ""⟩

/-- The projection of some calls for the session `s`. -/
def sampleProject (calls : List Call) (d : Document) : Option Document :=
  project sampleHost "s" sampleDeclaration ⟨calls, "m"⟩ d

/-- A call in a turn. -/
def sampleCall (id turn : String) : Call := ⟨id, "look", .obj [], turn, .str ""⟩

/-- How many nodes list a call. -/
def listings (id : String) (d : Document) : ℕ := d.nodes.countP fun n => n.listed.contains id

/-- Two turns of one call each are projected. -/
theorem project_keeps_sample :
    Valid sampleSize (plainDocument [plainNode "s"] []) ∧
    ((sampleProject [sampleCall "a" "1", sampleCall "b" "2"]
      (plainDocument [plainNode "s"] [])).map (listings "a")) = some 1 ∧
    ∀ d', sampleProject [sampleCall "a" "1", sampleCall "b" "2"]
        (plainDocument [plainNode "s"] []) = some d' →
      sampleProject [sampleCall "a" "1", sampleCall "b" "2"] d' = some d' :=
  ⟨by decide +kernel, by decide +kernel, fun _ h =>
    (project_keeps (by decide +kernel : Valid sampleSize (plainDocument [plainNode "s"] []))
      h).2.2.2.2.2⟩

/-- A declaration of a task. -/
def declareCall (task : String) : Call :=
  ⟨"d", "declare", .obj [("task", .str task)], "2", .str ""⟩

/-- A file is read. -/
def readCall (id turn path output : String) : Call :=
  ⟨id, "Read", .obj [("file_path", .str path)], turn, .str output⟩

/-- The second file has a text in its name that the first one holds. -/
def sampleReads : List Call := [readCall "a" "1" "x" "text", readCall "b" "2" "text.md" ""]

/-- A wire with the identity of the one that these suggest. -/
def sampleWire : Wire where
  id := "inferred-work-ed6576411d3bbfd0dccd3031-work-edf405f24fce3ccb079d18dc-path"
  source := ⟨"s", "out"⟩
  target := ⟨"s", "in"⟩
  inferred := none
  agentOwner := none
  rest := []

/-- The node of the first of them, with an output without a name. -/
def sampleOutput : Node :=
  { plainNode "work-ed6576411d3bbfd0dccd3031" with ports := some ⟨[⟨"", "any"⟩], []⟩ }

/-- A document with as many nodes as one may have. -/
def fullDocument : Document :=
  plainDocument (plainNode "s" :: (List.range 9999).map fun i => plainNode ("n" ++ toString i)) []

theorem fullDocument_ids :
    fullDocument.ids = "s" :: (List.range 9999).map fun i => "n" ++ toString i := by
  show ((plainNode "s") :: _).map Node.id = _
  rw [map_cons, map_map]
  rfl

theorem numbered_injective : Function.Injective fun i : ℕ => "n" ++ toString i := by
  intro i j h
  have hlist := congrArg String.toList h
  rw [String.toList_append, String.toList_append, append_cancel_left_eq] at hlist
  exact toString_injective (String.toList_inj.1 hlist)

/-- A name that begins with another letter is none of the others. -/
theorem ne_numbered {s : String} {i : ℕ} (hs : s.toList.head? ≠ some 'n') :
    "n" ++ toString i ≠ s := by
  rintro rfl
  rw [String.toList_append] at hs
  exact hs rfl

theorem fullDocument_nodes : fullDocument.nodes =
    plainNode "s" :: (List.range 9999).map fun i => plainNode ("n" ++ toString i) := rfl

theorem fullDocument_length : fullDocument.nodes.length = 10000 := by
  rw [fullDocument_nodes, length_cons, length_map, length_range]

theorem fullDocument_valid : Valid sampleSize fullDocument := by
  have hplain : ∀ n ∈ fullDocument.nodes, ∃ id, id ≠ "" ∧ n = plainNode id := by
    intro n hn
    rcases List.mem_cons.1 hn with rfl | hn
    · exact ⟨"s", by decide, rfl⟩
    · obtain ⟨i, -, rfl⟩ := List.mem_map.1 hn
      exact ⟨_, ne_numbered (by decide), rfl⟩
  rw [valid_iff]
  refine ⟨by decide, fullDocument_length.le, Nat.zero_le _, ?_, fun n hn => ?_, ?_, fun n hn => ?_,
    fun g hg => absurd hg not_mem_nil, fun w hw => absurd hw not_mem_nil,
    nodup_nil, nodup_nil, rfl, ?_⟩
  · refine Check.seq_ok_iff.2 ⟨Check.each_ok_iff.2 fun n hn => ?_, by decide⟩
    obtain ⟨id, -, rfl⟩ := hplain n hn
    rw [safeNode_ok_iff]
    exact (by decide : safeFields [] = .ok () ∧ safeOption none = .ok () ∧
      safeOption none = .ok () ∧ safeWork none = .ok () ∧ safeFields [] = .ok ())
  · obtain ⟨id, hid, rfl⟩ := hplain n hn
    exact ⟨hid, (by decide : checkRest [] = .ok ())⟩
  · rw [fullDocument_ids, nodup_cons]
    refine ⟨fun hmem => ?_, List.nodup_range.map numbered_injective⟩
    obtain ⟨i, -, hi⟩ := List.mem_map.1 hmem
    exact ne_numbered (by decide) hi
  · obtain ⟨id, -, rfl⟩ := hplain n hn
    rfl
  · unfold sampleSize maxBytes
    rw [fullDocument_length]
    decide

theorem length_revise {id : String} {f : Node → Node} :
    (revise id f nodes).length = nodes.length := by
  induction nodes with
  | nil => rfl
  | cons n ns ih =>
    rw [revise]
    split
    · rfl
    · rw [length_cons, length_cons, ih]

/-- The first projection of one step adds one node. -/
theorem length_project (hsteps : steps host t = [g]) (hnew : identity host session g.key ∉ d.ids)
    (hproject : project host session declaration t d = some d') :
    d'.nodes.length = d.nodes.length + 1 := by
  obtain ⟨title, -, rfl⟩ := Option.map_eq_some_iff.1 hproject
  have hnot : identity host session g.key ∉
      (revise session (reviseSession declaration t title) d.nodes).map Node.id := by
    rw [map_id_revise (f := reviseSession declaration t title) fun _ => rfl]
    exact hnew
  show (placeAll host session declaration 0 (steps host t)
    (revise session (reviseSession declaration t title) d.nodes)).length = _
  rw [hsteps, placeAll, placeAll, place_of_not_mem hnot, length_append, length_revise]
  rfl

/-- One step more than there is room for. -/
theorem fullDocument_projected :
    ∃ d', sampleProject [sampleCall "a" "1"] fullDocument = some d' ∧ d'.nodes.length = 10001 := by
  have hfound : nodeOf fullDocument.nodes "s" = some (plainNode "s") :=
    fullDocument_nodes ▸ List.find?_cons_of_pos (by decide)
  have hnew : identity sampleHost "s" "1" ∉ fullDocument.ids := by
    rw [fullDocument_ids]
    intro hmem
    rcases List.mem_cons.1 hmem with heq | hmem
    · exact absurd heq (by decide +kernel)
    · obtain ⟨i, -, hi⟩ := List.mem_map.1 hmem
      exact ne_numbered (by decide +kernel) hi
  have hsteps : steps sampleHost ⟨[sampleCall "a" "1"], "m"⟩ =
      [⟨"1", .str "Agent turn", [sampleCall "a" "1"], false⟩] := by
    decide +kernel
  obtain ⟨d', hd'⟩ : ∃ d', sampleProject [sampleCall "a" "1"] fullDocument = some d' := by
    unfold sampleProject project
    rw [hfound]
    exact ⟨_, rfl⟩
  refine ⟨d', hd', ?_⟩
  rw [length_project hsteps hnew hd', fullDocument_length]

/-- Where a document has too many nodes. -/
theorem not_valid_of_length (h : 10000 < d.nodes.length) :
    ¬Valid size d := fun hvalid => absurd ((valid_iff size).1 hvalid).nodeCount (by omega)

/-- **What a projection may lose.**  A call of a turn that comes back is listed by no node; a
call that an earlier projection grouped otherwise is listed by two; a title is redacted only
in part; and a document is valid no more when it was full, when a call is given a number that
is not finite, when an output has no name, and when a wire has the identity of an inferred
one. -/
theorem projections_lose :
    (sampleProject [sampleCall "a" "1", sampleCall "b" "2", sampleCall "c" "1"]
      (plainDocument [plainNode "s"] [])).map (listings "a") = some 0 ∧
    ((sampleProject [sampleCall "a" "1", sampleCall "b" "2"]
      (plainDocument [plainNode "s"] [])).bind (sampleProject [sampleCall "a" "1",
        sampleCall "b" "2", declareCall "task"])).map (listings "b") = some 2 ∧
    (sampleProject [declareCall "-----BEGIN password=a-b PRIVATE KEY-----"]
      (plainDocument [plainNode "s"] [])).map (fun d => d.nodes.any fun n =>
        n.title.any fun s => redactText sampleHost.unicode s ≠ s) = some true ∧
    (Valid sampleSize fullDocument ∧ ∃ d', sampleProject [sampleCall "a" "1"] fullDocument = some d' ∧
      ¬Valid sampleSize d') ∧
    (sampleProject [⟨"a", "look", .obj [("v", .float none)], "1", .str ""⟩]
      (plainDocument [plainNode "s"] [])).map (validate sampleSize) =
        some (.error "Session numbers must be finite") ∧
    (Valid sampleSize (plainDocument [plainNode "s", sampleOutput] []) ∧
      (sampleProject sampleReads (plainDocument [plainNode "s", sampleOutput] [])).map
        (validate sampleSize) =
          some (.error "Wire endpoints must name existing nodes and sockets")) ∧
    (Valid sampleSize (plainDocument [plainNode "s"] [sampleWire]) ∧
      (sampleProject sampleReads (plainDocument [plainNode "s"] [sampleWire])).map
        (validate sampleSize) = some (.error "Wire ids must be unique strings")) := by
  refine ⟨by decide +kernel, by decide +kernel, by decide +kernel, ⟨fullDocument_valid, ?_⟩,
    by decide +kernel, ⟨by decide +kernel, by decide +kernel⟩, by decide +kernel, by decide +kernel⟩
  obtain ⟨d', hd', hlength⟩ := fullDocument_projected
  exact ⟨d', hd', not_valid_of_length (by omega)⟩

end ArchHub.Work

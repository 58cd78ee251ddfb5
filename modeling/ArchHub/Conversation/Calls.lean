import Mathlib
import ArchHub.Lib.Transition
import ArchHub.Conversation.Indexes

/-!
# Runs of a history

The calls of a history, one transaction after another, in any order and on any
conversations.  Beside the tables a `World` holds what an observer of the calls
would note down: which messages appends recorded, which copies the archives
accepted, and when activity was recorded.  No call reads any of it.

A call concerns one conversation.  `Changed` says everything a call can do to
the conversation it names and to any other, so that an invariant of
conversations is shown on `Changed` alone (`held_invariant`).
-/

namespace ArchHub.History

open Lib List Function

/-! ## A history -/

namespace Store

/-- An empty history, before or after its retention is initialized. -/
def new (retention : Bool) : Store := ⟨.empty, retention, false⟩

/-- The tables of a conversation that has been ensured. -/
def known (s : Store) (id : String) : Except String Conversation :=
  match s.conversations.get? id with
  | some c => .ok c
  | none => .error "unknown conversation"

/-- The history with the tables of one conversation written. -/
def put (s : Store) (id : String) (c : Conversation) : Store :=
  { s with conversations := s.conversations.set id c }

/-- `ensure_conversation`. -/
def ensureConversation (s : Store) (id : String) : Except String Store := do
  text id "conversation" 512
  .ok (if s.conversations.contains id then s else s.put id .new)

/-- `initialize_retention`. -/
def initializeRetention (s : Store) (guard : Option String) : Except String Store := do
  Conversation.guarded guard
  .ok { s with retention := true }

end Store

/-- A call. -/
inductive Call
  | ensure (id : String)
  | activate (guard : Option String)
  | append (id : String) (a : Conversation.Append)
  | activity (id : String) (clock : ℚ) (guard : Option String)
  | archive (id : String) (s : Conversation.Step)
  | purge (id : String) (p : Conversation.Purge)
  | restore (id : String) (r : Conversation.Restore)

/-- A history with what an observer has noted of each conversation. -/
structure World where
  store : Store
  /-- The messages appends have recorded. -/
  recorded : String → List Message
  /-- The copies archives have accepted. -/
  exported : String → List Message
  /-- The clock readings of recorded activity. -/
  activity : String → List ℚ

/-- A world of an empty history. -/
def World.new (retention : Bool) : World :=
  ⟨.new retention, fun _ => [], fun _ => [], fun _ => []⟩

/-- What a history keeps of one conversation, with what is noted of it. -/
structure Held where
  conversation : Conversation
  retention : Bool
  contentDigests : Bool
  recorded : List Message
  exported : List Message
  activity : List ℚ

/-- The tables of a conversation, with what a world notes of it. -/
def World.heldOf (w : World) (id : String) (c : Conversation) : Held :=
  ⟨c, w.store.retention, w.store.contentDigests, w.recorded id, w.exported id, w.activity id⟩

/-- One conversation of a world. -/
def World.held (w : World) (id : String) : Option Held :=
  (w.store.conversations.get? id).map (w.heldOf id)

/-- More is noted of one conversation. -/
def note {α : Type*} (notes : String → List α) (id : String) (more : List α) : String → List α :=
  Function.update notes id (notes id ++ more)

variable (host : Host)

/-- The world after a call: a call that raises is rolled back, only what its
archive has accepted is kept. -/
def World.step (w : World) : Call → World
  | .ensure id =>
      match w.store.ensureConversation id with
      | .ok store => { w with store := store }
      | .error _ => w
  | .activate guard =>
      match w.store.initializeRetention guard with
      | .ok store => { w with store := store }
      | .error _ => w
  | .append id a =>
      match w.store.known id >>= Conversation.append host w.store.retention id a with
      | .ok (c, message, created) =>
          { w with
            store := w.store.put id c
            recorded := note w.recorded id (if created then [message] else [])
            activity := note w.activity id (if created && w.store.retention then [a.clock] else []) }
      | .error _ => w
  | .activity id clock guard =>
      match w.store.known id >>= Conversation.recordActivity w.store.retention clock guard with
      | .ok c => { w with
          store := w.store.put id c
          activity := note w.activity id [clock] }
      | .error _ => w
  | .archive id s =>
      match w.store.known id >>= Conversation.archive w.store.retention s with
      | .ok c => { w with store := w.store.put id c }
      | .error _ => w
  | .purge id p =>
      match w.store.known id with
      | .ok c =>
          let copies := c.accepted host w.store.retention id p
          let store := match c.purgeArchived host w.store.retention id p with
            | .ok (c, _) => { w.store.put id c with
                contentDigests := w.store.contentDigests || !copies.isEmpty }
            | .error _ => w.store
          { w with store := store, exported := note w.exported id copies }
      | .error _ => w
  | .restore id r =>
      match w.store.known id >>=
        Conversation.restoreArchived host w.store.retention w.store.contentDigests id r with
      | .ok c => { w with
          store := w.store.put id c
          activity := note w.activity id [r.clock] }
      | .error _ => w

/-- A history under any order of calls. -/
def history : Machine World Call := ⟨World.step host⟩

/-! ## What a call does to one conversation -/

/-- What one call can do to a conversation, where every restore is one of `clean`. -/
inductive Changed (clean : Held → Conversation.Restore → Prop) (id : String) : Held → Held → Prop
  /-- The call is about another conversation, or is rolled back. -/
  | elsewhere (h : Held) (retention contentDigests : Bool)
      (hretention : h.retention = true → retention = true)
      (hdigests : h.contentDigests = true → contentDigests = true) :
      Changed clean id h { h with retention := retention, contentDigests := contentDigests }
  | append (h : Held) (a : Conversation.Append) (c : Conversation) (m : Message) (created : Bool)
      (hcall : h.conversation.append host h.retention id a = .ok (c, m, created)) :
      Changed clean id h { h with
        conversation := c
        recorded := h.recorded ++ if created then [m] else []
        activity := h.activity ++ if created && h.retention then [a.clock] else [] }
  | activity (h : Held) (clock : ℚ) (guard : Option String) (c : Conversation)
      (hcall : h.conversation.recordActivity h.retention clock guard = .ok c) :
      Changed clean id h { h with conversation := c, activity := h.activity ++ [clock] }
  | archive (h : Held) (s : Conversation.Step) (c : Conversation)
      (hcall : h.conversation.archive h.retention s = .ok c) :
      Changed clean id h { h with conversation := c }
  | purge (h : Held) (p : Conversation.Purge) (c : Conversation) (answer : Conversation.Purged)
      (hcall : h.conversation.purgeArchived host h.retention id p = .ok (c, answer)) :
      Changed clean id h { h with
        conversation := c
        contentDigests := h.contentDigests ||
          !(h.conversation.accepted host h.retention id p).isEmpty
        exported := h.exported ++ h.conversation.accepted host h.retention id p }
  /-- A purge that is rolled back behind its export. -/
  | exported (h : Held) (p : Conversation.Purge) :
      Changed clean id h { h with
        exported := h.exported ++ h.conversation.accepted host h.retention id p }
  | restore (h : Held) (r : Conversation.Restore) (c : Conversation) (hclean : clean h r)
      (hcall : h.conversation.restoreArchived host h.retention h.contentDigests id r = .ok c) :
      Changed clean id h { h with conversation := c, activity := h.activity ++ [r.clock] }

variable {host} {w : World} {id : String} {other : String} {h : Held} {c : Conversation} {α : Type*}

theorem note_nil (notes : String → List α) (id : String) : note notes id [] = notes := by
  unfold note
  rw [append_nil, Function.update_eq_self]

theorem note_self (notes : String → List α) (id : String) (more : List α) :
    note notes id more id = notes id ++ more := update_self ..

theorem note_of_ne (notes : String → List α) {id : String} (more : List α) (h : other ≠ id) :
    note notes id more other = notes other := update_of_ne h ..

theorem held_eq_some (hheld : w.held id = some h) :
    w.store.known id = .ok h.conversation ∧ w.store.retention = h.retention ∧
      w.store.contentDigests = h.contentDigests ∧ w.recorded id = h.recorded ∧
      w.exported id = h.exported ∧ w.activity id = h.activity := by
  unfold World.held at hheld
  obtain ⟨c, hc, rfl⟩ := Option.map_eq_some_iff.1 hheld
  exact ⟨by unfold Store.known; rw [hc]; rfl, rfl, rfl, rfl, rfl, rfl⟩

theorem held_of_known (h : w.store.known id = .ok c) : w.held id = some (w.heldOf id c) := by
  unfold Store.known at h
  unfold World.held
  split at h
  · next c' hc =>
      injection h with h
      rw [hc, ← h]
      rfl
  · cases h

/-- One conversation of a world after another one, or the same, was written. -/
theorem held_put (id : String) (c : Conversation) (retention contentDigests : Bool)
    (recorded exported : List Message) (activity : List ℚ) (other : String) :
    World.held ⟨⟨w.store.conversations.set id c, retention, contentDigests⟩,
        note w.recorded id recorded, note w.exported id exported, note w.activity id activity⟩ other =
      if other = id then some ⟨c, retention, contentDigests, w.recorded id ++ recorded,
        w.exported id ++ exported, w.activity id ++ activity⟩
      else (w.held other).map fun h =>
        { h with retention := retention, contentDigests := contentDigests } := by
  unfold World.held
  rw [Dict.get?_set]
  by_cases h : other = id
  · subst h
    simp only [if_true, Option.map_some, World.heldOf, note_self]
  · rw [if_neg h, if_neg h, Option.map_map]
    refine congrArg (fun g => Option.map g _) (funext fun d => ?_)
    simp only [comp_apply, World.heldOf, note_of_ne _ _ h]

variable {clean : String → Held → Conversation.Restore → Prop} {call : Call} {h' : Held}
  {w' : World}

/-- Nothing is noted of a conversation that is not there. -/
def Noted (w : World) : Prop :=
  ∀ id, w.held id = none → w.recorded id = [] ∧ w.exported id = [] ∧ w.activity id = []

/-- The restores of a call are clean. -/
def CleanCall (clean : String → Held → Conversation.Restore → Prop) (w : World) : Call → Prop
  | .restore id r => ∀ h, w.held id = some h → clean id h r
  | _ => True

/-- What a call does to a conversation, where it writes the one it names. -/
theorem changed_put {retention contentDigests : Bool} {recorded exported : List Message}
    {activity : List ℚ} (hheld : w.held id = some h)
    (hretention : w.store.retention = true → retention = true)
    (hdigests : w.store.contentDigests = true → contentDigests = true)
    (hchanged : Changed host (clean id) id h ⟨c, retention, contentDigests,
      h.recorded ++ recorded, h.exported ++ exported, h.activity ++ activity⟩)
    (hafter : World.held ⟨⟨w.store.conversations.set id c, retention, contentDigests⟩,
        note w.recorded id recorded, note w.exported id exported, note w.activity id activity⟩
      other = some h') : ∃ h, w.held other = some h ∧ Changed host (clean other) other h h' := by
  obtain ⟨-, hr, hd, hrec, hexp, hact⟩ := held_eq_some hheld
  rw [held_put] at hafter
  by_cases hid : other = id
  · subst hid
    rw [if_pos rfl] at hafter
    injection hafter with hafter
    subst hafter
    rw [hrec, hexp, hact]
    exact ⟨h, hheld, hchanged⟩
  · rw [if_neg hid] at hafter
    obtain ⟨k, hk, rfl⟩ := Option.map_eq_some_iff.1 hafter
    obtain ⟨-, hkr, hkd, -⟩ := held_eq_some hk
    exact ⟨k, hk, .elsewhere k _ _ (by rwa [hkr] at hretention) (by rwa [hkd] at hdigests)⟩

/-- A conversation that a call leaves alone. -/
theorem changed_same (hafter : w.held other = some h') :
    ∃ h, w.held other = some h ∧ Changed host (clean other) other h h' :=
  ⟨h', hafter, .elsewhere h' _ _ id id⟩

/-- **What a call does to a conversation.** -/
theorem held_step (hclean : CleanCall clean w call)
    (hafter : (w.step host call).held other = some h') :
    (∃ h, w.held other = some h ∧ Changed host (clean other) other h h') ∨
      w.held other = none ∧ h' = w.heldOf other .new := by
  cases call with
  | ensure id =>
      dsimp only [World.step] at hafter
      split at hafter
      · next store hstore =>
          obtain ⟨_, -, hstore⟩ := Check.bind_ok_iff.mp hstore
          injection hstore with hstore
          subst hstore
          split at hafter
          · exact .inl (changed_same hafter)
          · next hnew =>
              have hput := held_put (w := w) id .new w.store.retention w.store.contentDigests
                [] [] [] other
              rw [note_nil, note_nil, note_nil] at hput
              have hafter := hput.symm.trans hafter
              by_cases hid : other = id
              · subst hid
                rw [if_pos rfl] at hafter
                injection hafter with hafter
                refine .inr ⟨?_, by rw [← hafter]; simp [World.heldOf]⟩
                unfold World.held
                rw [Dict.contains_iff, ← Dict.get?_eq_none_iff] at hnew
                rw [hnew]
                rfl
              · rw [if_neg hid] at hafter
                obtain ⟨k, hk, rfl⟩ := Option.map_eq_some_iff.1 hafter
                obtain ⟨-, hr, hd, -⟩ := held_eq_some hk
                exact .inl ⟨k, hk, .elsewhere k _ _ (fun _ => by rwa [hr]) (fun _ => by rwa [hd])⟩
      · exact .inl (changed_same hafter)
  | activate guard =>
      dsimp only [World.step] at hafter
      split at hafter
      · next store hstore =>
          obtain ⟨_, -, hstore⟩ := Check.bind_ok_iff.mp hstore
          injection hstore with hstore
          subst hstore
          obtain ⟨c, hc, rfl⟩ := Option.map_eq_some_iff.1 hafter
          refine .inl ⟨w.heldOf other c, by unfold World.held; rw [hc]; rfl, ?_⟩
          exact .elsewhere _ true w.store.contentDigests (fun _ => rfl) (fun h => h)
      · exact .inl (changed_same hafter)
  | append id a =>
      dsimp only [World.step] at hafter
      split at hafter
      · next c m created hcall =>
          obtain ⟨c₀, hknown, hcall⟩ := Check.bind_ok_iff.mp hcall
          have hheld := held_of_known hknown
          have hchanged : Changed host (clean id) id _ _ :=
            .append (w.heldOf id c₀) a c m created hcall
          rw [← note_nil w.exported id] at hafter
          refine .inl (changed_put hheld (fun h => h) (fun h => h) ?_ hafter)
          simp only [append_nil]
          exact hchanged
      · exact .inl (changed_same hafter)
  | activity id clock guard =>
      dsimp only [World.step] at hafter
      split at hafter
      · next c hcall =>
          obtain ⟨c₀, hknown, hcall⟩ := Check.bind_ok_iff.mp hcall
          have hheld := held_of_known hknown
          have hchanged : Changed host (clean id) id _ _ :=
            .activity (w.heldOf id c₀) clock guard c hcall
          rw [← note_nil w.exported id, ← note_nil w.recorded id] at hafter
          refine .inl (changed_put hheld (fun h => h) (fun h => h) ?_ hafter)
          simp only [append_nil]
          exact hchanged
      · exact .inl (changed_same hafter)
  | archive id s =>
      dsimp only [World.step] at hafter
      split at hafter
      · next c hcall =>
          obtain ⟨c₀, hknown, hcall⟩ := Check.bind_ok_iff.mp hcall
          have hheld := held_of_known hknown
          have hchanged : Changed host (clean id) id _ _ :=
            .archive (w.heldOf id c₀) s c hcall
          rw [← note_nil w.exported id, ← note_nil w.recorded id, ← note_nil w.activity id] at hafter
          refine .inl (changed_put hheld (fun h => h) (fun h => h) ?_ hafter)
          simp only [append_nil]
          exact hchanged
      · exact .inl (changed_same hafter)
  | purge id p =>
      dsimp only [World.step] at hafter
      split at hafter
      · next c₀ hknown =>
          have hheld := held_of_known hknown
          split at hafter
          · next c answer hcall =>
              have hchanged : Changed host (clean id) id _ _ :=
            .purge (w.heldOf id c₀) p c answer hcall
              rw [← note_nil w.recorded id, ← note_nil w.activity id] at hafter
              refine .inl (changed_put hheld (fun h => h) (fun hd => ?_) ?_ hafter)
              · rw [hd, Bool.true_or]
              · simp only [append_nil]
                exact hchanged
          · obtain ⟨c, hc, rfl⟩ := Option.map_eq_some_iff.1 hafter
            refine .inl ⟨w.heldOf other c, by unfold World.held; rw [hc]; rfl, ?_⟩
            by_cases hid : other = id
            · subst hid
              have hsame := held_of_known (w := w) (by unfold Store.known; rw [hc])
              have hsame := hheld.symm.trans hsame
              injection hsame with hsame
              injection hsame with hsame
              subst hsame
              simp only [World.heldOf, note_self]
              exact Changed.exported _ p
            · simp only [World.heldOf, note_of_ne _ _ hid]
              exact .elsewhere _ _ _ (fun h => h) (fun h => h)
      · exact .inl (changed_same hafter)
  | restore id r =>
      dsimp only [World.step] at hafter
      split at hafter
      · next c hcall =>
          obtain ⟨c₀, hknown, hcall⟩ := Check.bind_ok_iff.mp hcall
          have hheld := held_of_known hknown
          have hchanged : Changed host (clean id) id _ _ :=
            .restore (w.heldOf id c₀) r c (hclean _ hheld) hcall
          rw [← note_nil w.exported id, ← note_nil w.recorded id] at hafter
          refine .inl (changed_put hheld (fun h => h) (fun h => h) ?_ hafter)
          simp only [append_nil]
          exact hchanged
      · exact .inl (changed_same hafter)

/-! ## Invariants of conversations -/

/-- A conversation that is not there, and of which nothing more is noted. -/
def Absent (w w' : World) (other : String) : Prop :=
  w.held other = none ∧ w'.recorded other = w.recorded other ∧
    w'.exported other = w.exported other ∧ w'.activity other = w.activity other

/-- A conversation that is not there was not there before another was written. -/
theorem absent_put (hset : w'.store.conversations = w.store.conversations.set id c)
    (hnone : w'.held other = none) : other ≠ id ∧ w.held other = none := by
  have hnone := Option.map_eq_none_iff.1 hnone
  rw [hset, Dict.get?_set] at hnone
  by_cases hid : other = id
  · rw [if_pos hid] at hnone
    cases hnone
  · rw [if_neg hid] at hnone
    exact ⟨hid, Option.map_eq_none_iff.2 hnone⟩

theorem absent_same (hnone : w.held other = none) : Absent w w other :=
  ⟨hnone, rfl, rfl, rfl⟩

/-- A call takes no conversation away, and notes nothing of one that is not there. -/
theorem absent_step (hnone : (w.step host call).held other = none) :
    Absent w (w.step host call) other := by
  cases call with
  | ensure id =>
      dsimp only [World.step] at hnone ⊢
      split at hnone
      · next store hstore =>
          obtain ⟨_, -, hstore'⟩ := Check.bind_ok_iff.mp hstore
          injection hstore' with hstore'
          subst hstore'
          refine ⟨?_, rfl, rfl, rfl⟩
          split at hnone
          · exact hnone
          · exact (absent_put rfl hnone).2
      · exact absent_same hnone
  | activate guard =>
      dsimp only [World.step] at hnone ⊢
      split at hnone
      · next store hstore =>
          obtain ⟨_, -, hstore⟩ := Check.bind_ok_iff.mp hstore
          injection hstore with hstore
          subst hstore
          have hnone := Option.map_eq_none_iff.1 hnone
          exact ⟨Option.map_eq_none_iff.2 hnone, rfl, rfl, rfl⟩
      · exact absent_same hnone
  | append id a =>
      dsimp only [World.step] at hnone ⊢
      split at hnone
      · obtain ⟨hid, hbefore⟩ := absent_put rfl hnone
        exact ⟨hbefore, note_of_ne _ _ hid, rfl, note_of_ne _ _ hid⟩
      · exact absent_same hnone
  | activity id clock guard =>
      dsimp only [World.step] at hnone ⊢
      split at hnone
      · obtain ⟨hid, hbefore⟩ := absent_put rfl hnone
        exact ⟨hbefore, rfl, rfl, note_of_ne _ _ hid⟩
      · exact absent_same hnone
  | archive id s =>
      dsimp only [World.step] at hnone ⊢
      split at hnone
      · exact ⟨(absent_put rfl hnone).2, rfl, rfl, rfl⟩
      · exact absent_same hnone
  | purge id p =>
      dsimp only [World.step] at hnone ⊢
      split at hnone
      · next c₀ hknown =>
          split at hnone
          · obtain ⟨hid, hbefore⟩ := absent_put rfl hnone
            exact ⟨hbefore, rfl, note_of_ne _ _ hid, rfl⟩
          · have hbefore : w.held other = none := Option.map_eq_none_iff.2
              (Option.map_eq_none_iff.1 hnone)
            have hid : other ≠ id := by
              rintro rfl
              have hheld := (held_of_known hknown).symm.trans hbefore
              cases hheld
            exact ⟨hbefore, rfl, note_of_ne _ _ hid, rfl⟩
      · exact absent_same hnone
  | restore id r =>
      dsimp only [World.step] at hnone ⊢
      split at hnone
      · obtain ⟨hid, hbefore⟩ := absent_put rfl hnone
        exact ⟨hbefore, rfl, rfl, note_of_ne _ _ hid⟩
      · exact absent_same hnone

theorem noted_step (hnoted : Noted w) (call : Call) : Noted (w.step host call) := by
  intro other hnone
  obtain ⟨hbefore, hrecorded, hexported, hactivity⟩ := absent_step hnone
  rw [hrecorded, hexported, hactivity]
  exact hnoted other hbefore

/-- **What every change keeps holds of every conversation, along every run.** -/
theorem held_invariant {Inv : String → Held → Prop} {retention : Bool}
    (hnew : ∀ id retention contentDigests, Inv id ⟨.new, retention, contentDigests, [], [], []⟩)
    (hstep : ∀ id h h', Changed host (clean id) id h h' → Inv id h → Inv id h')
    (hrun : (history host).Run (CleanCall clean) (World.new retention) w) :
    ∀ id h, w.held id = some h → Inv id h := by
  let All : World → Prop := fun w => Noted w ∧ ∀ id h, w.held id = some h → Inv id h
  have hinit : All (World.new retention) := by
    refine ⟨fun _ _ => ⟨rfl, rfl, rfl⟩, fun id h hheld => ?_⟩
    cases hheld
  have hall : All w := by
    refine Machine.Run.invariant ?_ hrun hinit
    rintro w call hclean ⟨hnoted, hheld⟩
    refine ⟨noted_step hnoted call, fun id h' hafter => ?_⟩
    rcases held_step hclean hafter with ⟨h, hbefore, hchanged⟩ | ⟨hnone, rfl⟩
    · exact hstep id h h' hchanged (hheld id h hbefore)
    · obtain ⟨hrecorded, hexported, hactivity⟩ := hnoted id hnone
      unfold World.heldOf
      rw [hrecorded, hexported, hactivity]
      exact hnew id _ _
  exact hall.2

/-- What relates a conversation before and after every change, and composes,
relates it at the two ends of every run. -/
theorem held_relates {R : Held → Held → Prop} (hrefl : ∀ h, R h h)
    (htrans : ∀ {h k l}, R h k → R k l → R h l)
    (hstep : ∀ id h h', Changed host (clean id) id h h' → R h h')
    (hrun : (history host).Run (CleanCall clean) w w') (hheld : w.held id = some h) :
    ∃ h', w'.held id = some h' ∧ R h h' := by
  induction hrun with
  | refl => exact ⟨h, hheld, hrefl h⟩
  | tail _ hlast ih =>
      obtain ⟨call, hclean, rfl⟩ := hlast
      obtain ⟨k, hk, hR⟩ := ih
      cases hafter : (World.step host _ call).held id with
      | none =>
          have hgone := (absent_step hafter).1.symm.trans hk
          cases hgone
      | some h' =>
          rcases held_step hclean hafter with ⟨k', hk', hchanged⟩ | ⟨hgone, -⟩
          · have hsame := hk.symm.trans hk'
            injection hsame with hsame
            subst hsame
            exact ⟨h', hafter, htrans hR (hstep id k h' hchanged)⟩
          · have hgone := hgone.symm.trans hk
            cases hgone

end ArchHub.History

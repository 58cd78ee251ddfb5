import ArchHub.Lib.Histories
import ArchHub.Relay.Queue

/-!
# What is to hold of the relay

* `event`: what a step of a request means for its task.
* `Promised`: what is to hold of the table and of the events so far.
* `careful`: the condition on one step.  A directive fits where nothing refuses one that does
  not, and a post that arrives again does not find its task claimed.

* `Kept`: what every careful run keeps of table and events; `Sound`: what it keeps of a request.
* `Effect`: what a careful step does to the table, by its event; `relayStep_effect`: every such
  step has one of these effects.
-/

namespace ArchHub.Relay

open Lib Service

/-! ## Events -/

/-- What happens to tasks. -/
inductive Event where
  /-- A task was queued for this directive. -/
  | sent (id directive : String)
  /-- A task was claimed, and its row went to the application. -/
  | claimed (p : Poll) (id directive : String) (claim : ℕ)
  /-- The application ran what it had claimed. -/
  | ran (claim : ℕ)
  /-- The post of an application became the result of a task. -/
  | stored (p : Poll) (id : String) (claim : ℕ) (ok : Bool) (text : String)
  /-- The caller of a task was told that the device is offline. -/
  | expired (id : String)
  | drained
  /-- The founder put a task back in the queue. -/
  | retried (id : String)
deriving DecidableEq

/-- The event of a step, by the request, its phase and what came of it. -/
def eventOf : Request → Phase → Phase ⊕ Answer → Option Event
  | .direct directive _ _, .called, .inr (.queued id) => some (.sent id directive)
  | .relay text _ _, .called, .inl (.waiting id) => some (.sent id text)
  | .call c, .called, .inl (.waiting id) => some (.sent id c.directive)
  | .call _, .leaving id, .inr (.offline _) => some (.expired id)
  | .poll p, .picked _, .inl (.working task claim) =>
      some (.claimed p task.id task.directive claim)
  | .poll _, .working _ claim, _ => some (.ran claim)
  | .poll p, .answering task claim ok text, .inl (.posted _ _ _ _ true) =>
      some (.stored p task.id claim ok text)
  | .poll p, .posted task claim ok text _, .inl (.posted _ _ _ _ true) =>
      some (.stored p task.id claim ok text)
  | .retry id, .called, .inr .requeued => some (.retried id)
  | .drain _, .draining _, _ => some .drained
  | _, _, _ => none

/-- The event of an entry of the record. -/
def event (m : Made Request Phase Answer Reading) : Option Event :=
  eventOf m.request m.phase m.outcome

/-- The events that a record tells of. -/
def events (log : List (Made Request Phase Answer Reading)) : List Event := log.filterMap event

namespace Event

def Sends (id : String) : Event → Prop
  | sent t _ => t = id
  | _ => False

def Claims (id : String) : Event → Prop
  | claimed _ t _ _ => t = id
  | _ => False

def Expires (id : String) : Event → Prop
  | expired t => t = id
  | _ => False

def Drains : Event → Prop
  | drained => True
  | _ => False

def Retries (id : String) : Event → Prop
  | retried t => t = id
  | _ => False

/-- The application that made a claim of the task, and the claim. -/
def holder (id : String) : Event → Option (Poll × ℕ)
  | claimed p t _ claim => if t = id then some (p, claim) else none
  | _ => none

/-- The claim was run. -/
def runs (claim : ℕ) : Event → Bool
  | ran c => c = claim
  | _ => false

end Event

/-! ## The promise -/

/-- A finished row has the answer that its latest claim posted. -/
def Answered (history : List Event) (row : Task) : Prop :=
  ∃ p claim ok text, Event.stored p row.id claim ok text ∈ history ∧
    row.status = (if ok then .done else .failed) ∧
    row.result = firstChars resultLimit (firstChars resultLimit text) ∧
    latest (Event.holder row.id) history = some (p, claim)

/-- Instructions run at most once, and answers belong to their claim. -/
structure Promised (db : Db) (history : List Event) : Prop where
  /-- Between two claims of a task the founder put it back in the queue. -/
  once : Warranted (fun before e => ∀ id, e.Claims id →
    Followed (Event.Claims id) (Event.Retries id) before) history
  /-- What was claimed runs once. -/
  run : ∀ claim, history.countP (Event.runs claim) ≤ 1
  /-- A task whose caller was told that the device is offline is not claimed before the founder
  retries it. -/
  offline : Warranted (fun before e => ∀ id, e.Claims id →
    Followed (Event.Expires id) (Event.Retries id) before) history
  /-- After a drain a task is not claimed that was neither retried nor sent since. -/
  drained : Warranted (fun before e => ∀ id, e.Claims id →
    Followed Event.Drains (fun x => x.Retries id ∨ x.Sends id) before) history
  /-- A post becomes a result only where it answers the latest claim of the task. -/
  answers : Warranted (fun before e => ∀ p id claim ok text, e = .stored p id claim ok text →
    latest (Event.holder id) before = some (p, claim)) history
  /-- So the result of a task that was claimed is the one its latest claim posted. -/
  results : ∀ row ∈ db.tasks, row.status = .done ∨ (row.status = .failed ∧ row.claimedBy ≠ none) →
    Answered history row
  /-- An application receives the directive that was sent. -/
  exact : Warranted (fun before e => ∀ p id directive claim, e = .claimed p id directive claim →
    Event.sent id directive ∈ before) history
  /-- A directive that does not fit is not sent. -/
  fits : ∀ id directive, Event.sent id directive ∈ history →
    directive.toList.length ≤ directiveLimit

/-! ## The condition -/

/-- Nothing refuses a directive that does not fit, or it fits. -/
def fitting (directive : String) : Bool := directive.toList.length ≤ directiveLimit

/-- The directive fits where nothing refuses one that does not, and a post that arrives again
does not find its task claimed. -/
def careful (db : Db) : Request → Phase → Reading → Bool
  | .direct directive _ _, .called, _ => fitting directive
  | .relay text _ _, .called, _ => fitting text
  | .call c, .called, _ => c.route.tooLong.isSome || fitting c.directive
  | .poll _, .posted task .., _ =>
      (db.getAgentTask task.id).all fun row => row.status ≠ .claimed ∧ row.status ≠ .running
  | _, _, _ => true

/-- The same of the service with its record. -/
def carefully (s : Db × List (Made Request Phase Answer Reading)) (r : Request) (p : Phase)
    (i : Reading) : Prop := careful s.1 r p i = true

end ArchHub.Relay

namespace ArchHub.Relay

open Lib Service

variable {db db' : Db} {history : List Event} {r : Request} {p : Phase} {out : Phase ⊕ Answer}
  {t : Task} {hex actor kind : String} {i : Reading}

/-! ## Statements -/

theorem Db.change_eq_some {id : String} {among : Status → Bool} {f : Task → Task} :
    db.change id among f = some (t, db') ↔ ∃ row, db.getAgentTask id = some row ∧
      among row.status = true ∧ t = f row ∧
      db' = { db with tasks := Rows.update Task.id id f db.tasks } := by
  unfold Db.change
  cases db.getAgentTask id with
  | none => simp
  | some row =>
      by_cases hrow : among row.status = true
      · simp only [hrow, if_true, Option.some.injEq, Prod.mk.injEq, exists_eq_left']
        constructor
        · rintro ⟨rfl, rfl⟩
          exact ⟨trivial, rfl, rfl⟩
        · rintro ⟨-, rfl, rfl⟩
          exact ⟨rfl, rfl⟩
      · simp [hrow]

theorem Db.getAgentTask_eq_some {id : String} {row : Task} (h : db.getAgentTask id = some row) :
    row ∈ db.tasks ∧ row.id = id := ⟨Rows.mem_of_select h, Rows.key_of_select h⟩

/-- A claim is of a row that was queued. -/
theorem Db.claimNext_eq_some {q : Poll} {now : ℤ} {n : ℕ} {id : String}
    (h : db.claimNext q now n id = some (t, db')) :
    ∃ k, db.claimTask k q.name now = some (t, db') := by
  induction n generalizing id with
  | zero => cases h
  | succ n ih =>
      unfold Db.claimNext at h
      cases hclaim : db.claimTask id q.name now with
      | some c =>
          rw [hclaim] at h
          cases h
          exact ⟨id, hclaim⟩
      | none =>
          rw [hclaim] at h
          cases hnext : db.oldest q with
          | none =>
              rw [hnext] at h
              cases h
          | some next =>
              rw [hnext] at h
              exact ih h

/-- A directive that is sent became the directive of a new row. -/
theorem Db.enqueueAgentTask_eq_some {directive id : String} {now : ℤ}
    (h : db.enqueueAgentTask hex directive actor kind now = some (id, db')) :
    (∀ row ∈ db.tasks, row.id ≠ id) ∧ ∃ row : Task, row.id = id ∧ row.status = .queued ∧
      row.claimedBy = none ∧ row.directive = firstChars directiveLimit directive ∧
      db' = { db with tasks := db.tasks ++ [row] } := by
  unfold Db.enqueueAgentTask at h
  cases hrow : db.getAgentTask ("task_" ++ hex) with
  | some row =>
      rw [hrow] at h
      cases h
  | none =>
      rw [hrow] at h
      cases h
      exact ⟨Rows.select_eq_none.1 hrow, _, rfl, rfl, rfl, rfl, rfl⟩

/-! ## What is kept -/

/-- What is kept of a row. -/
structure RowKept (history : List Event) (row : Task) : Prop where
  sent : Event.sent row.id row.directive ∈ history
  fresh : row.status = .queued → row.claimedBy = none ∧
    Followed (Event.Claims row.id) (Event.Retries row.id) history ∧
    Followed (Event.Expires row.id) (Event.Retries row.id) history ∧
    Followed Event.Drains (fun x => x.Retries row.id ∨ x.Sends row.id) history
  answered : row.status = .done ∨ (row.status = .failed ∧ row.claimedBy ≠ none) →
    Answered history row

/-- What every careful run keeps of the table and the events. -/
structure Kept (db : Db) (history : List Event) : Prop where
  nodup : (db.tasks.map Task.id).Nodup
  rows : ∀ row ∈ db.tasks, RowKept history row
  known : ∀ e ∈ history, ∀ id, e.Claims id ∨ e.Expires id → ∃ row ∈ db.tasks, row.id = id
  unrun : ∀ claim, db.claims ≤ claim → history.countP (Event.runs claim) = 0
  promised : Promised db history

/-- The claim stands: its row is claimed, and by this claim. -/
def Holds (db : Db) (history : List Event) (q : Poll) (task : Task) (claim : ℕ) : Prop :=
  (∃ row ∈ db.tasks, row.id = task.id ∧ row.status = .claimed) ∧
    latest (Event.holder task.id) history = some (q, claim)

/-- What a request under way goes by. -/
def Sound (db : Db) (history : List Event) : Request → Phase → Prop
  | .poll q, .working task claim => claim < db.claims ∧
      history.countP (Event.runs claim) = 0 ∧ Holds db history q task claim
  | .poll q, .answering task claim _ _ => claim < db.claims ∧ Holds db history q task claim
  | _, _ => True

/-- The claim that a request holds. -/
def holding : Request × Phase → Option ℕ
  | (.poll _, .working _ claim) => some claim
  | (.poll _, .answering _ claim _ _) => some claim
  | _ => none

/-- Two requests do not hold one claim. -/
def Apart (x y : Request × Phase) : Prop :=
  ∀ claim, holding x = some claim → holding y ≠ some claim

/-! ## What one step does -/

/-- The request goes on without a claim, if it goes on. -/
def Bare (r : Request) (out : Phase ⊕ Answer) : Prop := ∀ q, out = .inl q → holding (r, q) = none

/-- A row under its id, changed. -/
def Db.put (db : Db) (id : String) (f : Task → Task) : Db :=
  { db with tasks := Rows.update Task.id id f db.tasks }

/-- What one careful step does. -/
inductive Effect (db : Db) : Request → Phase → Db → Phase ⊕ Answer → Prop where
  | still {r : Request} {p : Phase} {out : Phase ⊕ Answer} (he : eventOf r p out = none)
      (hbare : Bare r out) : Effect db r p db out
  | sent {r : Request} {p : Phase} {out : Phase ⊕ Answer} {id directive} {row : Task}
      (he : eventOf r p out = some (.sent id directive)) (hbare : Bare r out)
      (hnew : ∀ x ∈ db.tasks, x.id ≠ id) (hid : row.id = id)
      (hstatus : row.status = .queued) (hname : row.claimedBy = none)
      (hdirective : row.directive = directive)
      (hfits : directive.toList.length ≤ directiveLimit) :
      Effect db r p { db with tasks := db.tasks ++ [row] } out
  | claimed {q picked} {row : Task} {f : Task → Task} (hrow : row ∈ db.tasks)
      (hstatus : row.status = .queued)
      (hf : ∀ t, (f t).id = t.id ∧ (f t).directive = t.directive ∧ (f t).status = .claimed) :
      Effect db (.poll q) (.picked picked) { db.put row.id f with claims := db.claims + 1 }
        (.inl (.working (f row) db.claims))
  | ran {q task claim ok text} :
      Effect db (.poll q) (.working task claim) db (.inl (.answering task claim ok text))
  | stored {q task claim ok text} {row : Task} {f : Task → Task} (hrow : row ∈ db.tasks)
      (hid : row.id = task.id)
      (hf : ∀ t, (f t).id = t.id ∧ (f t).directive = t.directive ∧
        (f t).status = (if ok then .done else .failed) ∧
        (f t).result = firstChars resultLimit (firstChars resultLimit text)) :
      Effect db (.poll q) (.answering task claim ok text) (db.put row.id f)
        (.inl (.posted task claim ok text true))
  | expired {c} {row : Task} {message reason now} (hrow : row ∈ db.tasks)
      (hstatus : row.status = .queued) :
      Effect db (.call c) (.leaving row.id) (db.put row.id fun t => t.close reason now)
        (.inr (.offline message))
  | drained {reason ids now} : Effect db (.drain reason) (.draining ids)
      (db.drainAgentTasks reason now) (.inr (.drained ids))
  | retried {row : Task} {f : Task → Task} (hrow : row ∈ db.tasks) (hstatus : row.status = .failed)
      (hf : ∀ t, (f t).id = t.id ∧ (f t).directive = t.directive ∧ (f t).status = .queued ∧
        (f t).claimedBy = none) :
      Effect db (.retry row.id) .called (db.put row.id f) (.inr .requeued)

/-- A directive that fits is sent as it is. -/
theorem effect_sent {directive id : String} {now : ℤ}
    (h : db.enqueueAgentTask hex directive actor kind now = some (id, db'))
    (hfits : fitting directive = true) (he : eventOf r p out = some (.sent id directive))
    (hbare : Bare r out) : Effect db r p db' out := by
  obtain ⟨hnew, row, hid, hstatus, hname, hdirective, rfl⟩ := Db.enqueueAgentTask_eq_some h
  have hlength : directive.toList.length ≤ directiveLimit := of_decide_eq_true hfits
  rw [firstChars_of_le hlength] at hdirective
  exact .sent he hbare hnew hid hstatus hname hdirective hlength

theorem bare_answer {a : Answer} : Bare r (.inr a) := by
  intro q hq
  cases hq

theorem bare_phase {q : Phase} (h : holding (r, q) = none) : Bare r (.inl q) := by
  rintro _ ⟨rfl⟩
  exact h

/-- A call that is not refused has a directive that fits, if it is sent with care. -/
theorem fitting_of_refusal {c : Call} (h : c.refusal = none)
    (hc : careful db (.call c) .called i = true) : fitting c.directive = true := by
  have hc' : (c.route.tooLong.isSome || fitting c.directive) = true := hc
  unfold Call.refusal at h
  split at h
  · rw [h] at hc'
    exact hc'
  · rename_i hlength
    exact decide_eq_true (not_lt.1 hlength)

/-- The post that answers a standing claim is accepted. -/
theorem effect_post {q : Poll} {task : Task} {claim : ℕ} {ok : Bool} {text : String} {now : ℤ}
    (hnodup : (db.tasks.map Task.id).Nodup) (h : Holds db history q task claim) :
    Effect db (.poll q) (.answering task claim ok text) (db.post task claim ok text now).1
      (db.post task claim ok text now).2 := by
  obtain ⟨⟨row, hrow, hid, hstatus⟩, -⟩ := h
  have hselect : db.getAgentTask task.id = some row := hid ▸ Rows.select_of_mem hnodup hrow
  unfold Db.post
  cases hfinish : db.finishAgentTask task.id ok (firstChars resultLimit text) now with
  | none =>
      unfold Db.finishAgentTask Db.change at hfinish
      rw [hselect] at hfinish
      simp [hstatus] at hfinish
  | some done =>
      obtain ⟨t, db'⟩ := done
      obtain ⟨x, hx, -, -, rfl⟩ := Db.change_eq_some.1 hfinish
      rw [← hid]
      exact .stored hrow hid fun t => ⟨rfl, rfl, rfl, rfl⟩

/-- A post that finds its task not claimed changes nothing. -/
theorem post_unclaimed {task : Task} {claim : ℕ} {ok : Bool} {text : String} {now : ℤ}
    (h : (db.getAgentTask task.id).all (fun row => row.status ≠ .claimed ∧ row.status ≠ .running)
      = true) : db.post task claim ok text now = (db, .inl (.posted task claim ok text false)) := by
  unfold Db.post
  cases hfinish : db.finishAgentTask task.id ok (firstChars resultLimit text) now with
  | none => rfl
  | some done =>
      obtain ⟨t, db'⟩ := done
      obtain ⟨row, hrow, hstatus, -⟩ := Db.change_eq_some.1 hfinish
      rw [hrow] at h
      simp only [Option.all_some, decide_eq_true_eq] at h hstatus
      rcases hstatus with hclaimed | hrunning
      · exact absurd hclaimed h.1
      · exact absurd hrunning h.2

/-- **Every careful step has one of these effects.** -/
theorem relayStep_effect (h : Kept db history) (hs : Sound db history r p)
    (hc : careful db r p i = true) :
    Effect db r p (relayStep r p i db).1 (relayStep r p i db).2 := by
  cases r with
  | direct directive kind actor =>
      cases p with
      | called =>
          simp only [relayStep]
          split
          · exact .still rfl bare_answer
          · rename_i henqueue
            exact effect_sent henqueue hc rfl bare_answer
      | _ => exact .still rfl (bare_phase rfl)
  | relay text actor execute =>
      cases p with
      | called =>
          simp only [relayStep]
          split
          · exact .still rfl bare_answer
          · rename_i henqueue
            exact effect_sent henqueue hc rfl (bare_phase rfl)
      | waiting id =>
          simp only [relayStep]
          split
          · exact .still rfl bare_answer
          · exact .still rfl bare_answer
          · exact .still rfl bare_answer
          · exact .still rfl (bare_phase rfl)
      | _ => exact .still rfl (bare_phase rfl)
  | call c =>
      cases p with
      | called =>
          simp only [relayStep]
          split
          · exact .still rfl bare_answer
          · rename_i hrefusal
            split
            · exact .still rfl bare_answer
            · rename_i henqueue
              exact effect_sent henqueue (fitting_of_refusal hrefusal hc) rfl (bare_phase rfl)
      | waiting id =>
          simp only [relayStep]
          split
          · exact .still rfl bare_answer
          · exact .still rfl bare_answer
          · exact .still rfl (bare_phase rfl)
          · exact .still rfl (bare_phase rfl)
      | leaving id =>
          simp only [relayStep]
          split
          · rename_i t db' hexpire
            obtain ⟨row, hrow, hstatus, -, rfl⟩ := Db.change_eq_some.1 hexpire
            obtain ⟨hmem, rfl⟩ := Db.getAgentTask_eq_some hrow
            exact .expired hmem (of_decide_eq_true hstatus)
          · exact .still rfl bare_answer
      | _ => exact .still rfl (bare_phase rfl)
  | poll q =>
      cases p with
      | called =>
          simp only [relayStep]
          split
          · exact .still rfl bare_answer
          · split
            · exact .still rfl bare_answer
            · exact .still rfl (bare_phase rfl)
      | picked id =>
          simp only [relayStep]
          split
          · exact .still rfl bare_answer
          · rename_i t db' hnext
            obtain ⟨k, hclaim⟩ := Db.claimNext_eq_some hnext
            obtain ⟨row, hrow, hstatus, rfl, rfl⟩ := Db.change_eq_some.1 hclaim
            obtain ⟨hmem, rfl⟩ := Db.getAgentTask_eq_some hrow
            exact .claimed hmem (of_decide_eq_true hstatus) fun t => ⟨rfl, rfl, rfl⟩
      | working task claim => exact .ran
      | answering task claim ok text => exact effect_post h.nodup hs.2
      | posted task claim ok text accepted =>
          have hpost : relayStep (.poll q) (.posted task claim ok text accepted) i db
              = (db, .inl (.posted task claim ok text false)) := post_unclaimed hc
          rw [hpost]
          exact .still rfl (bare_phase rfl)
      | _ => exact .still rfl (bare_phase rfl)
  | retry id =>
      cases p with
      | called =>
          simp only [relayStep]
          split
          · rename_i t db' hretry
            obtain ⟨row, hrow, hstatus, -, rfl⟩ := Db.change_eq_some.1 hretry
            obtain ⟨hmem, rfl⟩ := Db.getAgentTask_eq_some hrow
            exact .retried hmem (of_decide_eq_true hstatus) fun t => ⟨rfl, rfl, rfl, rfl⟩
          · exact .still rfl bare_answer
      | _ => exact .still rfl (bare_phase rfl)
  | drain reason =>
      cases p with
      | called => exact .still rfl (bare_phase rfl)
      | draining ids => exact .drained
      | _ => exact .still rfl (bare_phase rfl)

end ArchHub.Relay

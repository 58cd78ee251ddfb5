import ArchHub.Relay.Effects

/-!
# Claims and their answers

A claim is *held* while its application works on the task and has not posted yet.  The row of a
held claim stays claimed, and the claim stays the latest of its task: the statements of all
others move a row from some other status, and a post that arrives again finds its task not
claimed.  So the first post of a claim is accepted, however late it comes.

* `Effect.kept`, `Effect.holds`, `Effect.stable`: what a careful step keeps.
* `relayed_of_run`: the promise holds in every careful run.
* `not_relayed_repeatedPost`: it does not hold in every run.
-/

namespace ArchHub.Relay

open Lib Service List

variable {db db' : Db} {history : List Event} {r : Request} {p : Phase} {out : Phase ⊕ Answer}
  {f : Task → Task} {p' : Phase} {id reason : String} {now : ℤ}

/-! ## What a step keeps of table and events -/

section Kept

variable {e : Event} {row : Task}

theorem holder_eq_none (h : ¬e.Claims id) : e.holder id = none := by
  cases e with
  | claimed p t directive claim => exact if_neg h
  | _ => rfl

/-- A row of another task is kept. -/
theorem RowKept.spared (h : RowKept history row) (hclaims : ¬e.Claims row.id)
    (hexpires : ¬e.Expires row.id) (hdrains : e.Drains → row.status ≠ .queued) :
    RowKept (history ++ [e]) row where
  sent := mem_append_left [e] h.sent
  fresh hqueued := by
    obtain ⟨hname, honce, hoffline, hdrained⟩ := h.fresh hqueued
    exact ⟨hname, honce.concat hclaims, hoffline.concat hexpires,
      hdrained.concat fun hd => hdrains hd hqueued⟩
  answered hfinished := by
    obtain ⟨p, claim, ok, text, hmem, hstatus, hresult, hlatest⟩ := h.answered hfinished
    refine ⟨p, claim, ok, text, mem_append_left [e] hmem, hstatus, hresult, ?_⟩
    rw [latest_concat_none (holder_eq_none hclaims)]
    exact hlatest

/-- A task that is closed where it waits was not claimed since it was queued. -/
theorem RowKept.close (h : RowKept history row) (hqueued : row.status = .queued) :
    RowKept (history ++ [e]) (row.close reason now) where
  sent := mem_append_left [e] h.sent
  fresh hstatus := by cases hstatus
  answered hfinished := by
    rcases hfinished with hdone | ⟨-, hname⟩
    · cases hdone
    · exact absurd (h.fresh hqueued).1 hname

/-- The rows are kept where one of them is changed by an event of its own task. -/
theorem Kept.rows_put (h : Kept db history) (hrow : row ∈ db.tasks)
    (hnew : RowKept (history ++ [e]) (f row))
    (hother : ∀ id, id ≠ row.id → ¬e.Claims id ∧ ¬e.Expires id) (hdrains : ¬e.Drains) :
    ∀ x ∈ (db.put row.id f).tasks, RowKept (history ++ [e]) x := by
  intro x hx
  rcases Rows.cases_update hx with ⟨y, hy, hid, rfl⟩ | ⟨hmem, hne⟩
  · rw [Rows.eq_of_key h.nodup hy hrow hid]
    exact hnew
  · obtain ⟨hclaims, hexpires⟩ := hother x.id hne
    exact (h.rows x hmem).spared hclaims hexpires fun hd => absurd hd hdrains

/-- The promise holds with one event more. -/
theorem Promised.concat (h : Promised db history)
    (hrows : ∀ x ∈ db'.tasks, RowKept (history ++ [e]) x)
    (hclaim : ∀ id, e.Claims id → ∃ x, RowKept history x ∧ x.id = id ∧ x.status = .queued)
    (hexact : ∀ p id directive claim, e = .claimed p id directive claim →
      Event.sent id directive ∈ history)
    (hrun : ∀ claim, e.runs claim = true → history.countP (Event.runs claim) = 0)
    (hstored : ∀ p id claim ok text, e = .stored p id claim ok text →
      latest (Event.holder id) history = some (p, claim))
    (hfits : ∀ id directive, e = .sent id directive →
      directive.toList.length ≤ directiveLimit) : Promised db' (history ++ [e]) := by
  have hfresh : ∀ id, e.Claims id → Followed (Event.Claims id) (Event.Retries id) history ∧
      Followed (Event.Expires id) (Event.Retries id) history ∧
      Followed Event.Drains (fun x => x.Retries id ∨ x.Sends id) history := by
    intro id hid
    obtain ⟨x, hx, rfl, hqueued⟩ := hclaim id hid
    exact (hx.fresh hqueued).2
  refine ⟨h.once.concat fun id hid => (hfresh id hid).1, fun claim => ?_,
    h.offline.concat fun id hid => (hfresh id hid).2.1,
    h.drained.concat fun id hid => (hfresh id hid).2.2, h.answers.concat hstored,
    fun x hx => (hrows x hx).answered, h.exact.concat hexact, ?_⟩
  · rw [countP_append, countP_singleton]
    split
    · rename_i hr
      rw [hrun claim hr]
    · exact h.run claim
  · intro id directive hmem
    rcases List.mem_append.1 hmem with hold | hlast
    · exact h.fits id directive hold
    · exact hfits id directive (List.mem_singleton.1 hlast).symm

/-- One event more of tasks that are there. -/
theorem Kept.concat (h : Kept db history) (hids : db'.tasks.map Task.id = db.tasks.map Task.id)
    (hcount : db.claims ≤ db'.claims)
    (hknown : ∀ id, e.Claims id ∨ e.Expires id → ∃ x ∈ db.tasks, x.id = id)
    (hrun : ∀ claim, e.runs claim = true → claim < db.claims)
    (hrows : ∀ x ∈ db'.tasks, RowKept (history ++ [e]) x) (hp : Promised db' (history ++ [e])) :
    Kept db' (history ++ [e]) where
  nodup := hids ▸ h.nodup
  rows := hrows
  known x hx id hconcerns := by
    have hold : ∃ row ∈ db.tasks, row.id = id := by
      rcases List.mem_append.1 hx with hmem | hlast
      · exact h.known x hmem id hconcerns
      · rw [List.mem_singleton.1 hlast] at hconcerns
        exact hknown id hconcerns
    obtain ⟨row, hrow, rfl⟩ := hold
    have hmem : row.id ∈ db'.tasks.map Task.id := hids ▸ mem_map_of_mem hrow
    exact List.mem_map.1 hmem
  unrun claim hle := by
    have hne : ¬e.runs claim = true := fun hr => by
      have hlt := hrun claim hr
      omega
    rw [countP_append, h.unrun claim (by omega), countP_singleton, if_neg hne]
  promised := hp

/-- A task more. -/
theorem Kept.sent {id directive : String} (h : Kept db history)
    (hnew : ∀ x ∈ db.tasks, x.id ≠ id) (hid : row.id = id) (hstatus : row.status = .queued)
    (hname : row.claimedBy = none) (hdirective : row.directive = directive)
    (hfits : directive.toList.length ≤ directiveLimit) :
    Kept { db with tasks := db.tasks ++ [row] } (history ++ [.sent id directive]) := by
  subst hid
  subst hdirective
  have hunclaimed : ∀ x ∈ history, ¬x.Claims row.id := by
    intro x hx hc
    obtain ⟨y, hy, heq⟩ := h.known x hx row.id (.inl hc)
    exact hnew y hy heq
  have hunexpired : ∀ x ∈ history, ¬x.Expires row.id := by
    intro x hx hc
    obtain ⟨y, hy, heq⟩ := h.known x hx row.id (.inr hc)
    exact hnew y hy heq
  have hrow : RowKept (history ++ [.sent row.id row.directive]) row := by
    refine ⟨mem_append_right history mem_cons_self, fun _ => ⟨hname, ?_, ?_, ?_⟩, ?_⟩
    · exact (followed_of_none hunclaimed).concat id
    · exact (followed_of_none hunexpired).concat id
    · exact followed_concat id (.inr rfl)
    · rw [hstatus]
      rintro (hdone | ⟨hfailed, -⟩)
      · cases hdone
      · cases hfailed
  have hrows : ∀ x ∈ db.tasks ++ [row], RowKept (history ++ [.sent row.id row.directive]) x := by
    intro x hx
    rcases List.mem_append.1 hx with hmem | hlast
    · exact (h.rows x hmem).spared id id fun hd => hd.elim
    · rw [List.mem_singleton.1 hlast]
      exact hrow
  refine ⟨?_, hrows, ?_, fun claim hle => ?_, ?_⟩
  · have hids : (db.tasks.map Task.id ++ [row.id]).Nodup := by
      refine List.nodup_append.2 ⟨h.nodup, nodup_singleton _, ?_⟩
      intro a ha b hb heq
      obtain ⟨x, hx, rfl⟩ := List.mem_map.1 ha
      exact hnew x hx (heq.trans (List.mem_singleton.1 hb))
    simpa using hids
  · intro x hx id hconcerns
    rcases List.mem_append.1 hx with hmem | hlast
    · obtain ⟨y, hy, heq⟩ := h.known x hmem id hconcerns
      exact ⟨y, mem_append_left [row] hy, heq⟩
    · rw [List.mem_singleton.1 hlast] at hconcerns
      rcases hconcerns with hc | hc
      · exact hc.elim
      · exact hc.elim
  · rw [countP_append, h.unrun claim hle]
    rfl
  · refine h.promised.concat hrows ?_ ?_ ?_ ?_ ?_
    · intro id hid
      exact hid.elim
    · intro p id directive claim heq
      cases heq
    · intro claim hr
      cases hr
    · intro p id claim ok text heq
      cases heq
    · intro id directive heq
      cases heq
      exact hfits

theorem Db.put_ids (hf : ∀ t, (f t).id = t.id) :
    (db.put id f).tasks.map Task.id = db.tasks.map Task.id := Rows.map_key_update hf

/-- A claim more. -/
theorem Kept.claimed {q : Poll} {f : Task → Task} (h : Kept db history) (hrow : row ∈ db.tasks)
    (hqueued : row.status = .queued)
    (hf : ∀ t, (f t).id = t.id ∧ (f t).directive = t.directive ∧ (f t).status = .claimed) :
    Kept { db.put row.id f with claims := db.claims + 1 }
      (history ++ [.claimed q row.id row.directive db.claims]) := by
  have hold := h.rows row hrow
  obtain ⟨hid, hdirective, hstatus⟩ := hf row
  have hnew : RowKept (history ++ [.claimed q row.id row.directive db.claims]) (f row) := by
    refine ⟨?_, fun hq => ?_, fun hfinished => ?_⟩
    · rw [hid, hdirective]
      exact mem_append_left _ hold.sent
    · rw [hstatus] at hq
      cases hq
    · rw [hstatus] at hfinished
      rcases hfinished with hdone | ⟨hfailed, -⟩
      · cases hdone
      · cases hfailed
  have hrows := h.rows_put hrow hnew
    (fun id hne => ⟨fun hc => hne hc.symm, fun hx => hx.elim⟩) (fun hd => hd.elim)
  refine h.concat (Db.put_ids fun t => (hf t).1) (Nat.le_succ _) ?_ ?_ hrows
    (h.promised.concat hrows ?_ ?_ ?_ ?_ ?_)
  · rintro id (hc | hx)
    · exact ⟨row, hrow, hc⟩
    · exact hx.elim
  · intro claim hr
    cases hr
  · intro id hc
    exact ⟨row, hold, hc, hqueued⟩
  · rintro p id directive claim ⟨⟩
    exact hold.sent
  · intro claim hr
    cases hr
  · intro p id claim ok text heq
    cases heq
  · intro id directive heq
    cases heq

/-- A claim is run. -/
theorem Kept.ran {claim : ℕ} (h : Kept db history) (hlt : claim < db.claims)
    (hunrun : history.countP (Event.runs claim) = 0) : Kept db (history ++ [.ran claim]) := by
  have hrows : ∀ x ∈ db.tasks, RowKept (history ++ [.ran claim]) x :=
    fun x hx => (h.rows x hx).spared id id fun hd => hd.elim
  have hown : ∀ c, (Event.ran claim).runs c = true → claim = c :=
    fun c hr => of_decide_eq_true hr
  refine h.concat rfl le_rfl ?_ ?_ hrows (h.promised.concat hrows ?_ ?_ ?_ ?_ ?_)
  · rintro id (hc | hx)
    · exact hc.elim
    · exact hx.elim
  · intro c hr
    rw [← hown c hr]
    exact hlt
  · intro id hc
    exact hc.elim
  · intro p id directive c heq
    cases heq
  · intro c hr
    rw [← hown c hr]
    exact hunrun
  · intro p id c ok text heq
    cases heq
  · intro id directive heq
    cases heq

/-- The answer of a standing claim is stored. -/
theorem Kept.stored {q : Poll} {task : Task} {claim : ℕ} {ok : Bool} {text : String}
    {f : Task → Task} (h : Kept db history) (hrow : row ∈ db.tasks) (hid : row.id = task.id)
    (hholds : Holds db history q task claim)
    (hf : ∀ t, (f t).id = t.id ∧ (f t).directive = t.directive ∧
      (f t).status = (if ok then .done else .failed) ∧
      (f t).result = firstChars resultLimit (firstChars resultLimit text)) :
    Kept (db.put row.id f) (history ++ [.stored q task.id claim ok text]) := by
  have hold := h.rows row hrow
  obtain ⟨hfid, hdirective, hstatus, hresult⟩ := hf row
  have hnew : RowKept (history ++ [.stored q task.id claim ok text]) (f row) := by
    refine ⟨?_, fun hq => ?_, fun _ => ⟨q, claim, ok, text, ?_, hstatus, hresult, ?_⟩⟩
    · rw [hfid, hdirective]
      exact mem_append_left _ hold.sent
    · rw [hstatus] at hq
      split at hq
      · cases hq
      · cases hq
    · rw [hfid, hid]
      exact mem_append_right history mem_cons_self
    · rw [hfid, hid, latest_concat_none rfl]
      exact hholds.2
  have hrows := h.rows_put hrow hnew (fun id _ => ⟨fun hc => hc.elim, fun hx => hx.elim⟩)
    (fun hd => hd.elim)
  refine h.concat (Db.put_ids fun t => (hf t).1) le_rfl ?_ ?_ hrows
    (h.promised.concat hrows ?_ ?_ ?_ ?_ ?_)
  · rintro id (hc | hx)
    · exact hc.elim
    · exact hx.elim
  · intro c hr
    cases hr
  · intro id hc
    exact hc.elim
  · intro p id directive c heq
    cases heq
  · intro c hr
    cases hr
  · rintro p id c ok' text' ⟨⟩
    exact hholds.2
  · intro id directive heq
    cases heq

/-- An event that neither sends, claims, runs nor answers anything. -/
theorem Kept.moved (h : Kept db history) (hids : db'.tasks.map Task.id = db.tasks.map Task.id)
    (hcount : db'.claims = db.claims) (hrows : ∀ x ∈ db'.tasks, RowKept (history ++ [e]) x)
    (he : e = .drained ∨ ∃ x ∈ db.tasks, e = .expired x.id ∨ e = .retried x.id) :
    Kept db' (history ++ [e]) := by
  have hclaims : ∀ id, ¬e.Claims id := by
    rcases he with rfl | ⟨x, -, rfl | rfl⟩
    · exact fun _ => id
    · exact fun _ => id
    · exact fun _ => id
  have hruns : ∀ claim, e.runs claim = false := by
    rcases he with rfl | ⟨x, -, rfl | rfl⟩
    · exact fun _ => rfl
    · exact fun _ => rfl
    · exact fun _ => rfl
  refine h.concat hids hcount.ge ?_ ?_ hrows (h.promised.concat hrows ?_ ?_ ?_ ?_ ?_)
  · rintro id (hc | hx)
    · exact absurd hc (hclaims id)
    · rcases he with rfl | ⟨x, hx', rfl | rfl⟩
      · exact hx.elim
      · exact ⟨x, hx', hx⟩
      · exact hx.elim
  · intro claim hr
    rw [hruns claim] at hr
    cases hr
  · intro id hc
    exact absurd hc (hclaims id)
  · rintro p id directive claim rfl
    exact absurd rfl (hclaims id)
  · intro claim hr
    rw [hruns claim] at hr
    cases hr
  · rintro p id claim ok text rfl
    rcases he with heq | ⟨x, -, heq | heq⟩
    · cases heq
    · cases heq
    · cases heq
  · rintro id directive rfl
    rcases he with heq | ⟨x, -, heq | heq⟩
    · cases heq
    · cases heq
    · cases heq

/-- A caller was told that the device is offline. -/
theorem Kept.expired {reason : String} {now : ℤ} (h : Kept db history) (hrow : row ∈ db.tasks)
    (hqueued : row.status = .queued) :
    Kept (db.put row.id fun t => t.close reason now) (history ++ [.expired row.id]) := by
  have hrows := h.rows_put (f := fun t => t.close reason now) hrow
    ((h.rows row hrow).close (e := .expired row.id) hqueued)
    (fun id hne => ⟨fun hc => hc.elim, fun hx => hne hx.symm⟩) (fun hd => hd.elim)
  exact h.moved (Db.put_ids fun t => rfl) rfl hrows (.inr ⟨row, hrow, .inl rfl⟩)

/-- The queue was drained. -/
theorem Kept.drained (h : Kept db history) :
    Kept (db.drainAgentTasks reason now) (history ++ [.drained]) := by
  have hids : (db.drainAgentTasks reason now).tasks.map Task.id = db.tasks.map Task.id := by
    unfold Db.drainAgentTasks
    rw [map_map]
    refine map_congr_left fun t _ => ?_
    rw [Function.comp_apply]
    split
    · rfl
    · rfl
  have hrows : ∀ x ∈ (db.drainAgentTasks reason now).tasks, RowKept (history ++ [.drained]) x := by
    intro x hx
    obtain ⟨y, hy, rfl⟩ := List.mem_map.1 hx
    split
    · rename_i hqueued
      exact (h.rows y hy).close hqueued
    · rename_i hqueued
      exact (h.rows y hy).spared id id fun _ => hqueued
  exact h.moved hids rfl hrows (.inl rfl)

/-- The founder put a task back. -/
theorem Kept.retried {f : Task → Task} (h : Kept db history) (hrow : row ∈ db.tasks)
    (hf : ∀ t, (f t).id = t.id ∧ (f t).directive = t.directive ∧ (f t).status = .queued ∧
      (f t).claimedBy = none) : Kept (db.put row.id f) (history ++ [.retried row.id]) := by
  obtain ⟨hid, hdirective, hstatus, hname⟩ := hf row
  have hnew : RowKept (history ++ [.retried row.id]) (f row) := by
    refine ⟨?_, fun _ => ⟨hname, ?_, ?_, ?_⟩, fun hfinished => ?_⟩
    · rw [hid, hdirective]
      exact mem_append_left _ (h.rows row hrow).sent
    · exact followed_concat id hid.symm
    · exact followed_concat id hid.symm
    · exact followed_concat id (.inl hid.symm)
    · rw [hstatus] at hfinished
      rcases hfinished with hdone | ⟨hfailed, -⟩
      · cases hdone
      · cases hfailed
  have hrows := h.rows_put hrow hnew (fun id _ => ⟨fun hc => hc.elim, fun hx => hx.elim⟩)
    (fun hd => hd.elim)
  exact h.moved (Db.put_ids fun t => (hf t).1) rfl hrows (.inr ⟨row, hrow, .inr rfl⟩)

end Kept

/-- **One careful step keeps table and events.** -/
theorem Effect.kept (h : Kept db history) (hs : Sound db history r p) (he : Effect db r p db' out) :
    Kept db' (history ++ (eventOf r p out).toList) := by
  cases he with
  | still hevent hbare =>
      rw [hevent, Option.toList_none, append_nil]
      exact h
  | sent hevent hbare hnew hid hstatus hname hdirective hfits =>
      rw [hevent]
      exact h.sent hnew hid hstatus hname hdirective hfits
  | @claimed q picked row f hrow hstatus hf =>
      have hevent : eventOf (.poll q) (.picked picked) (.inl (.working (f row) db.claims))
          = some (.claimed q row.id row.directive db.claims) := by
        rw [← (hf row).1, ← (hf row).2.1]
        rfl
      rw [hevent]
      exact h.claimed hrow hstatus hf
  | ran => exact h.ran hs.1 hs.2.1
  | stored hrow hid hf => exact h.stored hrow hid hs.2 hf
  | expired hrow hstatus => exact h.expired hrow hstatus
  | drained => exact h.drained
  | retried hrow hstatus hf => exact h.retried hrow hf

/-! ## What a step keeps of requests -/

section Requests

variable {q : Poll} {task : Task} {claim : ℕ} {e : Event}

theorem sound_of_bare {p : Phase} (h : holding (r, p) = none) : Sound db history r p := by
  cases r with
  | poll q =>
      cases p with
      | working task claim => cases h
      | answering task claim ok text => cases h
      | _ => trivial
  | _ => trivial

/-- A claim stands while its row is left alone and no other claim is made of the task. -/
theorem Holds.mono (h : Holds db history q task claim)
    (hrow : ∀ x ∈ db.tasks, x.id = task.id → x.status = .claimed → x ∈ db'.tasks)
    (he : ¬e.Claims task.id) : Holds db' (history ++ [e]) q task claim := by
  obtain ⟨⟨x, hx, hid, hstatus⟩, hlatest⟩ := h
  refine ⟨⟨x, hrow x hx hid hstatus, hid, hstatus⟩, ?_⟩
  rw [latest_concat_none (holder_eq_none he)]
  exact hlatest

/-- The row of a standing claim is left alone where a row in another status is changed. -/
theorem Kept.mem_put {row : Task} (h : Kept db history) (hrow : row ∈ db.tasks)
    (hstatus : row.status ≠ .claimed) (id : String) :
    ∀ x ∈ db.tasks, x.id = id → x.status = .claimed → x ∈ (db.put row.id f).tasks := by
  intro x hx _ hclaimed
  refine Rows.mem_update_of_ne hx fun heq => hstatus ?_
  rw [Rows.eq_of_key h.nodup hrow hx heq.symm]
  exact hclaimed

/-- **A step leaves the claims of others standing.** -/
theorem Effect.holds (h : Kept db history) (hs : Sound db history r p)
    (he : Effect db r p db' out) (hh : Holds db history q task claim)
    (hapart : holding (r, p) ≠ some claim) :
    Holds db' (history ++ (eventOf r p out).toList) q task claim := by
  cases he with
  | still hevent hbare =>
      rw [hevent, Option.toList_none, append_nil]
      exact hh
  | sent hevent hbare hnew hid hstatus hname hdirective hfits =>
      rw [hevent]
      exact hh.mono (fun x hx _ _ => mem_append_left _ hx) id
  | @claimed q' picked row f hrow hstatus hf =>
      obtain ⟨x, hx, hid, hclaimed⟩ := hh.1
      have hne : (f row).id ≠ task.id := by
        intro heq
        rw [(hf row).1] at heq
        have hsame := Rows.eq_of_key h.nodup hrow hx (heq.trans hid.symm)
        rw [hsame, hclaimed] at hstatus
        cases hstatus
      have hother : row.status ≠ .claimed := by
        rw [hstatus]
        intro hc
        cases hc
      exact hh.mono (h.mem_put hrow hother task.id) hne
  | ran => exact hh.mono (fun x hx _ _ => hx) id
  | @stored q' task' claim' ok text row f hrow hid hf =>
      have hne : task'.id ≠ task.id := by
        intro heq
        have hown := hs.2.2
        rw [heq, hh.2] at hown
        cases hown
        exact hapart rfl
      refine hh.mono (fun x hx hx' _ => Rows.mem_update_of_ne hx fun heq => hne ?_) id
      exact hid.symm.trans (heq.symm.trans hx')
  | @expired c row message reason now hrow hstatus =>
      have hother : row.status ≠ .claimed := by
        rw [hstatus]
        intro hc
        cases hc
      exact hh.mono (h.mem_put hrow hother task.id) id
  | drained =>
      refine hh.mono (fun x hx _ hclaimed => List.mem_map.2 ⟨x, hx, if_neg fun hq => ?_⟩) id
      rw [hclaimed] at hq
      cases hq
  | @retried row f hrow hstatus hf =>
      have hother : row.status ≠ .claimed := by
        rw [hstatus]
        intro hc
        cases hc
      exact hh.mono (h.mem_put hrow hother task.id) id

theorem Effect.claims_le (he : Effect db r p db' out) : db.claims ≤ db'.claims := by
  cases he with
  | claimed => exact Nat.le_succ _
  | _ => exact le_rfl

/-- A step runs no claim that another request holds. -/
theorem Effect.unrun (he : Effect db r p db' out)
    (hunrun : history.countP (Event.runs claim) = 0) (hapart : holding (r, p) ≠ some claim) :
    (history ++ (eventOf r p out).toList).countP (Event.runs claim) = 0 := by
  rw [countP_append, hunrun]
  cases he with
  | still hevent hbare => rw [hevent]; rfl
  | sent hevent hbare hnew hid hstatus hname hdirective hfits => rw [hevent]; rfl
  | @ran q task claim' ok text =>
      have hne : ¬(Event.ran claim').runs claim = true := fun hr =>
        hapart (congrArg some (of_decide_eq_true hr))
      exact (Nat.zero_add _).trans ((countP_singleton ..).trans (if_neg hne))
  | _ => rfl

/-- **A step leaves the other requests sound.** -/
theorem Effect.stable {r' : Request} (h : Kept db history) (hs : Sound db history r p)
    (he : Effect db r p db' out) (hs' : Sound db history r' p') (hapart : Apart (r', p') (r, p)) :
    Sound db' (history ++ (eventOf r p out).toList) r' p' := by
  cases r' with
  | poll q =>
      cases p' with
      | working task claim =>
          obtain ⟨hlt, hunrun, hh⟩ := hs'
          exact ⟨hlt.trans_le he.claims_le, he.unrun hunrun (hapart claim rfl),
            he.holds h hs hh (hapart claim rfl)⟩
      | answering task claim ok text =>
          exact ⟨hs'.1.trans_le he.claims_le, he.holds h hs hs'.2 (hapart claim rfl)⟩
      | _ => trivial
  | _ => trivial

/-- **A step leaves its own request sound.** -/
theorem Effect.next (h : Kept db history) (hs : Sound db history r p)
    (he : Effect db r p db' (.inl p')) :
    Sound db' (history ++ (eventOf r p (.inl p')).toList) r p' := by
  cases he with
  | still hevent hbare => exact sound_of_bare (hbare p' rfl)
  | sent hevent hbare => exact sound_of_bare (hbare p' rfl)
  | @claimed q picked row f hrow hstatus hf =>
      refine ⟨Nat.lt_succ_self _, ?_, ⟨f row, ?_, rfl, (hf row).2.2⟩, ?_⟩
      · rw [countP_append, h.unrun db.claims le_rfl]
        rfl
      · exact Rows.mem_update_of_eq hrow rfl
      · exact latest_concat_some (if_pos rfl)
  | ran => exact ⟨hs.1, hs.2.2.mono (fun x hx _ _ => hx) id⟩
  | stored => trivial

/-- A request holds no claim but the one it had, or a new one. -/
theorem Effect.holding (he : Effect db r p db' (.inl p')) (hc : holding (r, p') = some claim) :
    holding (r, p) = some claim ∨ claim = db.claims := by
  cases he with
  | still hevent hbare =>
      rw [hbare p' rfl] at hc
      cases hc
  | sent hevent hbare =>
      rw [hbare p' rfl] at hc
      cases hc
  | claimed =>
      cases hc
      exact .inr rfl
  | ran => exact .inl hc
  | stored => cases hc

/-- A claim that a request holds was made. -/
theorem lt_of_holding (hs : Sound db history r p) (hc : holding (r, p) = some claim) :
    claim < db.claims := by
  cases r with
  | poll q =>
      cases p with
      | working task claim' =>
          cases hc
          exact hs.1
      | answering task claim' ok text =>
          cases hc
          exact hs.1
      | _ => cases hc
  | _ => cases hc

end Requests

/-! ## Every run -/

theorem events_concat (log : List (Made Request Phase Answer Reading))
    (m : Made Request Phase Answer Reading) :
    events (log ++ [m]) = events log ++ (event m).toList := by
  unfold events
  rw [filterMap_append]
  cases hm : event m with
  | none => simp [hm]
  | some e => simp [hm]

/-- A careful step of the queue with its record keeps table, events and requests. -/
theorem queue_keeps : queue.audited.Keeps carefully (fun s _ => Kept s.1 (events s.2))
    (fun s _ r p => Sound s.1 (events s.2) r p) Apart where
  first r _ := sound_of_bare (by cases r with | _ => rfl)
  symm h claim hy hx := h claim hx hy
  apart_first r y claim hc := by
    cases r with
    | _ => cases hc
  inv {s as r p i} hok hi hs := by
    have he := relayStep_effect hi hs hok
    have hkept := he.kept hi hs
    have hlog := events_concat s.2 ⟨r, p, i, (relayStep r p i s.1).2⟩
    exact hlog ▸ hkept
  next {s as r p i q} hok hi hs hq := by
    have he := relayStep_effect hi hs hok
    have hout : (relayStep r p i s.1).2 = .inl q := hq
    have hlog := events_concat s.2 ⟨r, p, i, (relayStep r p i s.1).2⟩
    rw [hout] at he hlog
    have hnext := he.next hi hs
    have hgoal : Sound (relayStep r p i s.1).1
        (events (s.2 ++ [⟨r, p, i, (relayStep r p i s.1).2⟩])) r q := by
      rw [hout, hlog]
      exact hnext
    exact hgoal
  stable {s as r p i r' p'} hok hi hs hs' hapart := by
    have he := relayStep_effect hi hs hok
    have hstable := he.stable hi hs hs' (fun claim hy hx => hapart claim hx hy)
    have hlog := events_concat s.2 ⟨r, p, i, (relayStep r p i s.1).2⟩
    exact hlog ▸ hstable
  apart_next {s as r p i q r' p'} hok hi hs hs' hapart hq := by
    intro claim hc hc'
    have he := relayStep_effect hi hs hok
    have hout : (relayStep r p i s.1).2 = .inl q := hq
    rw [hout] at he
    rcases he.holding hc with hold | rfl
    · exact hapart claim hold hc'
    · exact absurd (lt_of_holding hs' hc') (lt_irrefl _)

/-- Nothing happened yet. -/
theorem kept_empty : Kept Db.empty [] where
  nodup := nodup_nil
  rows row hrow := by cases hrow
  known e he := by cases he
  unrun claim _ := rfl
  promised :=
    { once := warranted_nil
      run := fun claim => Nat.zero_le 1
      offline := warranted_nil
      drained := warranted_nil
      answers := warranted_nil
      results := fun row hrow => by cases hrow
      exact := warranted_nil
      fits := fun id directive h => by cases h }

/-- **Relayed instructions run at most once, and answers belong to their claim**, in every run in
which directives fit where nothing refuses those that do not, and no post that arrives again finds
its task claimed. -/
theorem relayed_of_run {W : Type} [DecidableEq W]
    {s : Service.State (Db × List (Made Request Phase Answer Reading)) Request Phase Answer W}
    (h : queue.audited.machine.Run (Admits carefully) (idle (Db.empty, [])) s) :
    Promised s.shared.1 (events s.shared.2) :=
  (kept_of_run queue_keeps h (Kept.idle kept_empty)).inv.promised

/-! ## Two applications and one task -/

/-- What the applications of these runs ask for. -/
def somePoll (app : ℕ) : Poll := { app := app, kinds := ["host-effect"], account := "founder" }

/-- A refusal of the first application is retried by the founder, and a second one claims the
task. -/
def claimedAnew : List (Action Request Reading ℕ) :=
  [.accept 0 (hostEffect "\x7b\"tool\":\"canvas.run\"\x7d" "founder"),
    .advance 0 { hex := "a1", now := 1 },
    .accept 1 (.poll (somePoll 1)),
    .advance 1 {}, .advance 1 { now := 2 }, .advance 1 { ok := false, text := "first" },
    .advance 1 { now := 3 }, .accept 2 (.retry "task_a1"), .advance 2 {},
    .accept 3 (.poll (somePoll 2)),
    .advance 3 {}, .advance 3 { now := 4 }]

/-- The second application answers, and the first one's post arrives again after that. -/
def answeredAnew : List (Action Request Reading ℕ) :=
  claimedAnew ++ [.advance 3 { text := "second" }, .advance 3 { now := 5 }, .advance 1 { now := 6 }]

/-- The first one's post arrives again before the second application answers. -/
def repeatedPost : List (Action Request Reading ℕ) := claimedAnew ++ [.advance 1 { now := 5 }]

/-- A read is sent. -/
def sentRead (directive : String) : List (Action Request Reading ℕ) :=
  [.accept 0 (hostRead directive "founder"), .advance 0 { hex := "a1", now := 1 }]

/-- No read is refused for its length. -/
theorem events_sentRead (directive : String) :
    events ((sentRead directive).foldl queue.audited.machine.step (idle (Db.empty, []))).shared.2
      = [.sent "task_a1" directive] := by
  let c : Call := ⟨⟨"host-read", none,
    "device_offline: no running ArchHub app claimed this read",
    "device_offline: ArchHub is not open and signed in on your desktop, so nothing was read",
    "your ArchHub app took this read but has not answered yet"⟩, directive, "founder"⟩
  let i : Reading := { hex := "a1", now := 1 }
  have hrefusal : c.refusal = none := by
    unfold Call.refusal
    split
    · rfl
    · rfl
  have hstep : (relayStep (.call c) .called i Db.empty).2 = .inl (.waiting "task_a1") := by
    simp only [relayStep]
    rw [hrefusal]
    rfl
  show events [⟨.call c, .called, i, (relayStep (.call c) .called i Db.empty).2⟩] = _
  rw [hstep]
  rfl

/-- The promise holds where the post comes too late to do harm: the answer is the second one. -/
theorem relayed_answeredAnew :
    let s := answeredAnew.foldl queue.audited.machine.step (idle (Db.empty, []))
    Promised s.shared.1 (events s.shared.2) ∧ s.shared.1.tasks.map Task.result = ["second"] := by
  let check (s : Db × List (Made Request Phase Answer Reading)) (r : Request) (p : Phase)
    (i : Reading) : Bool := careful s.1 r p i
  have hwalk : queue.audited.machine.walk (admitted check) (idle (Db.empty, [])) answeredAnew
      = true := by decide +kernel
  exact ⟨relayed_of_run (Machine.Run.ofWalk (fun s a => admits_of_admitted a) hwalk),
    by decide +kernel⟩

/-- **A post that arrives again answers a later claim, and a read that does not fit is cut.** -/
theorem not_relayed_repeatedPost :
    (∃ s : State (Db × List (Made Request Phase Answer Reading)) Request Phase Answer ℕ,
      queue.audited.machine.Run Machine.Any (idle (Db.empty, [])) s ∧
      ¬Promised s.shared.1 (events s.shared.2)) ∧
    ∃ s : State (Db × List (Made Request Phase Answer Reading)) Request Phase Answer ℕ,
      queue.audited.machine.Run Machine.Any (idle (Db.empty, [])) s ∧
      ¬Promised s.shared.1 (events s.shared.2) := by
  refine ⟨⟨_, .ofActions _ repeatedPost, fun h => ?_⟩,
    ⟨_, .ofActions _ (sentRead (String.ofList (List.replicate 2001 'a'))), fun h => ?_⟩⟩
  · let e : Event := .stored (somePoll 1) "task_a1" 0 false "first"
    let before := (events (repeatedPost.foldl queue.audited.machine.step
      (idle (Db.empty, []) : State _ _ _ _ ℕ)).shared.2).take 6
    have hsplit : events (repeatedPost.foldl queue.audited.machine.step
        (idle (Db.empty, []) : State _ _ _ _ ℕ)).shared.2 = before ++ [e] := by decide +kernel
    have hlatest := h.answers before e [] hsplit (somePoll 1) "task_a1" 0 false "first" rfl
    have hsecond : latest (Event.holder "task_a1") before = some (somePoll 2, 1) := by
      decide +kernel
    rw [hsecond] at hlatest
    cases hlatest
  · rw [events_sentRead] at h
    have hlength := h.fits _ _ List.mem_cons_self
    rw [String.toList_ofList, List.length_replicate] at hlength
    exact absurd hlength (by decide)

end ArchHub.Relay

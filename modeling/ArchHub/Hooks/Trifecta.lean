import Mathlib
import ArchHub.Lib.Transition
import ArchHub.Hooks.Decide

/-!
# The lethal trifecta

A session that has read private data and untrusted content must not send anything out
of the account.  The rule looks at the session's trace, and the trace is what is left
of the session's calls: the last fifty.

* `Recalls`: the trace of a session holds the facts of its last fifty calls, which
  every call of any session keeps.
* `trifecta_refused`: a call that sends out is refused when private data and untrusted
  content were read in it or in one of the fifty calls before it.
* `trifecta_forgotten`: fifty other calls, and it goes through.
-/

namespace ArchHub.Hooks

open Lib List

/-- Calls, one after the other. -/
def afterCalls (host : Host) (qs : List Request) (files : Files) : Files :=
  qs.foldl (fun files q => (decide host q files).2) files

variable (host : Host)

/-- The event of a call. -/
def Request.event (q : Request) : Event :=
  normalize host q.payload (vendorOf q.vendor) q.found.workingDir

/-- An Approve or Deny. -/
def Request.isApproval (q : Request) : Bool := (q.payload.get? "approval").isSome

/-- A tool call of a session. -/
def Request.inSession (session : String) (q : Request) : Bool :=
  !q.isApproval && (q.event host).session = session

/-- What a call reads: private data, and untrusted content. -/
def Request.reads (q : Request) : Bool × Bool :=
  ((factsOf host (q.event host)).privateData, (factsOf host (q.event host)).untrusted)

/-- What the calls of a session have read. -/
def readsOf (session : String) (qs : List Request) : List (Bool × Bool) :=
  (qs.filter (Request.inSession host session)).map (Request.reads host)

/-- A call sends or publishes out of the account. -/
def Request.leaves (q : Request) : Bool :=
  leavesHisAccount host (actionOf host (q.event host)) (q.event host).tool (q.event host).input

/-- A session's trace is kept by a call: if it is a call of the session, the trace file
can be read and written; if not, it is another session's trace file. -/
def Keeps (session : String) (q : Request) : Prop :=
  if q.inSession host session then q.found.traceReadable = true ∧ q.found.traceError = none
  else q.isApproval = true ∨ (q.event host).session = "" ∨
    traceName host (q.event host).session ≠ traceName host session

/-- What a row says that was read. -/
def TraceRow.reads (row : TraceRow) : Bool × Bool := (row.privateData, row.untrusted)

/-- The trace of a session. -/
def Files.trace (files : Files) (session : String) : List TraceRow :=
  (files.traces.get? (traceName host session)).getD []

/-- The trace of a session holds what its last fifty calls have read. -/
def Recalls (session : String) (qs : List Request) (files : Files) : Prop :=
  (files.trace host session).map TraceRow.reads = (readsOf host session qs).rtake 50

variable {host} {action : Action} {q : Request} {c : Circumstances} {facts : Facts}
  {session : String} {engine : Engine} {files : Files}

/-! ## The trace -/

theorem decide_traces (q : Request) (files : Files) :
    (decide host q files).2.traces =
      if q.isApproval then files.traces
      else (traceRules host q.found (q.event host) (actionOf host (q.event host))
        (factsOf host (q.event host)) files.traces).traces := by
  unfold decide Request.isApproval
  split <;> rfl

/-- A row is the last of the trace, and the oldest of more than fifty goes. -/
theorem traceRules_traces {c : Circumstances} {event : Event} {action : Action} {facts : Facts}
    {traces : Dict String (List TraceRow)} (hsession : event.session ≠ "")
    (hread : c.traceReadable = true) (hwrite : c.traceError = none) :
    ∃ rows, (traceRules host c event action facts traces).traces =
        traces.set (traceName host event.session) rows ∧
      rows.map TraceRow.reads =
        ((((traces.get? (traceName host event.session)).getD []).map TraceRow.reads) ++
          [(facts.privateData, facts.untrusted)]).rtake 50 := by
  unfold traceRules
  rw [if_neg hsession]
  simp only [hwrite]
  refine ⟨_, rfl, ?_⟩
  unfold readTrace
  rw [if_pos hread, List.rtake, List.rtake, map_drop, map_append, map_map]
  simp only [length_append, length_map, map_cons, map_nil, length_singleton]
  rfl

/-- A call of another session leaves the trace alone. -/
theorem traceRules_others {event : Event} {traces : Dict String (List TraceRow)} {name : String}
    (h : event.session = "" ∨ traceName host event.session ≠ name) :
    (traceRules host c event action facts traces).traces.get? name = traces.get? name := by
  unfold traceRules
  split
  · rfl
  · next hsession =>
    have hname : name ≠ traceName host event.session := (h.resolve_left hsession).symm
    cases hwrite : c.traceError with
    | none => exact Dict.get?_set_of_ne _ _ hname
    | some error => rfl

/-- **A call keeps the trace of a session.** -/
theorem Recalls.step {session : String} (hsession : session ≠ "") {qs : List Request}
    {files : Files} (h : Recalls host session qs files) {q : Request} (hq : Keeps host session q) :
    Recalls host session (qs ++ [q]) (decide host q files).2 := by
  unfold Recalls Files.trace at h ⊢
  unfold Keeps at hq
  rw [decide_traces]
  split at hq
  · next hin =>
    have hreads : readsOf host session (qs ++ [q]) = readsOf host session qs ++ [q.reads host] := by
      unfold readsOf
      rw [filter_append, map_append, filter_singleton, hin]
      rfl
    unfold Request.inSession at hin
    rw [Bool.and_eq_true, Bool.not_eq_true', decide_eq_true_eq] at hin
    obtain ⟨happroval, rfl⟩ := hin
    rw [happroval, if_neg Bool.false_ne_true]
    obtain ⟨rows, htraces, hrows⟩ := @traceRules_traces host q.found (q.event host)
      (actionOf host (q.event host)) (factsOf host (q.event host)) files.traces hsession hq.1 hq.2
    rw [htraces, Dict.get?_set_self, Option.getD_some, hrows, hreads, h]
    exact rtake_concat_of_rtake _ _ _
  · next hout =>
    have hreads : readsOf host session (qs ++ [q]) = readsOf host session qs := by
      unfold readsOf
      rw [filter_append, filter_singleton]
      simp [hout]
    rw [hreads, ← h]
    split
    · rfl
    · next happroval =>
      rw [traceRules_others (hq.resolve_left happroval)]

/-- **The trace after any calls.** -/
theorem recalls_afterCalls (hsession : session ≠ "") {qs : List Request}
    (hqs : ∀ q ∈ qs, Keeps host session q) :
    Recalls host session qs (afterCalls host qs Files.empty) := by
  induction qs using List.reverseRecOn with
  | nil => rfl
  | append_singleton qs q ih =>
      have hlast : Keeps host session q := hqs q (by simp)
      have hrest := ih fun q' hq' => hqs q' (by simp [hq'])
      unfold afterCalls at hrest ⊢
      rw [foldl_append]
      exact hrest.step hsession hlast

/-! ## A forbid wins -/

theorem cedarForbids_ne_nil {context : Context} {vendor : String}
    (h : engine action context vendor ≠ .allow) :
    (cedarForbids (some engine) action context vendor).2 ≠ [] := by
  unfold cedarForbids
  cases hruling : engine action context vendor with
  | allow => exact absurd hruling h
  | deny reasons =>
      simp only [hruling]
      split
      · next hnamed => exact hnamed
      · split
        · next hreasons => exact hreasons
        · simp

theorem withOutlook_ne_nil {rules : List String} (h : rules ≠ []) :
    withOutlook facts rules ≠ [] := by
  unfold withOutlook
  split
  · simp
  · exact h

theorem standingMode_of_forbid {event : Event} {permissions : Permissions} {rules : List String}
    (h : rules ≠ []) : standingMode host c event action permissions rules = none := by
  unfold standingMode
  simp only [if_pos h]

/-- The context of a tool call: what the policy is asked. -/
def Request.context (host : Host) (q : Request) (files : Files) : Context :=
  let event := q.event host
  let action := actionOf host event
  let facts := factsOf host event
  let traced := traceRules host q.found event action facts files.traces
  contextOf host q.found event action facts traced
    ((secretScan host q.found event action facts).found ++ (piiScan host q.found action facts).found ++
      traceFindings traced)

/-- The rules that a tool call meets. -/
def Request.rules (host : Host) (q : Request) (files : Files) : List String :=
  withOutlook (factsOf host (q.event host)) (cedarForbids q.found.engine
    (actionOf host (q.event host)) (q.context host files) (vendorOf q.vendor)).2

/-- The verdict on a tool call, of its mode and its rules. -/
theorem decide_verdict {q : Request} {files : Files} (hcall : q.isApproval = false) :
    ∃ notes, (decide host q files).1.verdict =
      some (verdictOf (standingMode host q.found (q.event host) (actionOf host (q.event host))
        (q.found.permissions.getD defaultPermissions) (q.rules host files))
        (q.rules host files) notes) := by
  unfold Request.isApproval at hcall
  unfold decide
  rw [if_neg (by simp [hcall])]
  exact ⟨_, rfl⟩

/-- **A forbid wins**, whatever the settings say. -/
theorem decide_of_forbid (hcall : q.isApproval = false) (hengine : q.found.engine = some engine)
    (hdenied : engine (actionOf host (q.event host)) (q.context host files) (vendorOf q.vendor) ≠
      .allow) : (decide host q files).1.verdict = some .refuse := by
  have hrules : q.rules host files ≠ [] := by
    unfold Request.rules
    rw [hengine]
    exact withOutlook_ne_nil (cedarForbids_ne_nil hdenied)
  obtain ⟨notes, hverdict⟩ := @decide_verdict host q files hcall
  rw [hverdict, standingMode_of_forbid hrules]
  unfold verdictOf
  exact congrArg some (if_pos hrules)

/-! ## The rule -/

theorem leaves_action (h : q.leaves host = true) :
    actionOf host (q.event host) ∈ [Action.publish, Action.send] := by
  unfold Request.leaves leavesHisAccount at h
  simp only [Bool.and_eq_true, Bool.or_eq_true, decide_eq_true_eq] at h
  rcases h.1 with haction | haction <;> simp [haction]

/-- The rule is found, where the call or the trace has read both. -/
theorem traceRules_trifecta (hsession : session ≠ "") (hin : q.inSession host session = true)
    (hread : q.found.traceReadable = true) (hleaves : q.leaves host = true)
    (hprivate : ∃ r ∈ (files.trace host session).map TraceRow.reads ++ [q.reads host], r.1 = true)
    (huntrusted : ∃ r ∈ (files.trace host session).map TraceRow.reads ++ [q.reads host],
      r.2 = true) :
    (traceRules host q.found (q.event host) (actionOf host (q.event host))
      (factsOf host (q.event host)) files.traces).trifecta = true := by
  unfold Request.inSession at hin
  rw [Bool.and_eq_true, decide_eq_true_eq] at hin
  obtain ⟨-, rfl⟩ := hin
  unfold Request.leaves at hleaves
  -- what the rule asks of the call and the rows
  have hsome : ∀ (own : Bool) (field : TraceRow → Bool) (part : Bool × Bool → Bool),
      (∀ row, part row.reads = field row) → part (q.reads host) = own →
      (∃ r ∈ (files.trace host (q.event host).session).map TraceRow.reads ++ [q.reads host],
        part r = true) →
      (own || (((readTrace host q.found files.traces (q.event host).session).map
        fun row => { row with writtenPaths := [] }).any field)) = true := by
    intro own field part hfield hown hex
    unfold readTrace
    rw [if_pos hread]
    obtain ⟨r, hmem, hr⟩ := hex
    rcases List.mem_append.1 hmem with hrow | hself
    · obtain ⟨row, htrace, rfl⟩ := List.mem_map.1 hrow
      refine Bool.or_eq_true_iff.2 (Or.inr (List.any_eq_true.2 ?_))
      refine ⟨{ row with writtenPaths := [] }, List.mem_map.2 ⟨row, htrace, rfl⟩, ?_⟩
      rw [← hfield]
      exact hr
    · rw [List.mem_singleton.1 hself, hown] at hr
      rw [hr]
      rfl
  have hboth := And.intro (hsome _ TraceRow.privateData Prod.fst (fun _ => rfl) rfl hprivate)
    (hsome _ TraceRow.untrusted Prod.snd (fun _ => rfl) rfl huntrusted)
  unfold traceRules
  rw [if_neg hsession]
  cases hwrite : q.found.traceError with
  | none =>
      simp only [Bool.and_eq_true]
      exact ⟨⟨hleaves, hboth.1⟩, hboth.2⟩
  | some error =>
      simp only [Bool.and_eq_true]
      exact ⟨⟨hleaves, hboth.1⟩, hboth.2⟩

/-- An engine that gives the statements that forbid. -/
def Engine.plain : Engine := fun action context _ =>
  let numbered := policy.zipIdx.filter (fun f => f.1.applies action context)
  if numbered = [] then .allow else .deny (numbered.map fun f => "policy" ++ toString (f.2 + 1))

theorem Engine.plain_follows : Engine.plain.Follows := by
  intro action context vendor
  unfold Engine.plain
  dsimp only
  split
  · next hnone =>
    refine ⟨fun _ f hf => ?_, fun _ => rfl⟩
    rw [filter_eq_nil_iff] at hnone
    obtain ⟨i, hi, rfl⟩ := List.mem_iff_getElem.1 hf
    have hmem : (policy[i], i) ∈ policy.zipIdx := List.mk_mem_zipIdx_iff_getElem?.2
      (List.getElem?_eq_getElem hi)
    simpa using hnone _ hmem
  · next hsome =>
    refine ⟨(fun h => nomatch h), fun hall => absurd ?_ hsome⟩
    rw [filter_eq_nil_iff]
    intro f hf
    rw [hall f.1 (fst_mem_of_mem_zipIdx hf)]
    exact Bool.false_ne_true

/-- Every file can be read and written, every scanner is installed, and none finds
anything. -/
def Circumstances.plain : Circumstances where
  workingDir := "/"
  now := 0
  traceReadable := true
  traceError := none
  resolved path _ := path
  scanSecrets _ := ⟨.ok, [], ""⟩
  scanPush _ := ⟨.ok, [], ""⟩
  scanPii _ := ⟨.ok, [], ""⟩
  engine := some Engine.plain
  permissions := none
  ownFolder := true
  founderData := false
  deleteTargets := []
  drivePaths _ := []
  releasing := false
  permitTaken := false
  holdId := ""
  refusalsWritable := true

/-- A call in a session. -/
def calls (tool : String) (input : Fields) : Request :=
  ⟨.dict [("session_id", .str "s"), ("tool_name", .str tool), ("tool_input", .dict input)], "codex",
    Circumstances.plain⟩

/-- A client's file is read, and a page of the web. -/
def readsBoth : List Request :=
  [calls "read" [("path", .str "20.CLIENTS/plan")], calls "webfetch" [("url", .str "page")]]

/-- Something is sent. -/
def sends : Request := calls "send" [("text", .str "plan")]

theorem keeps_calls (tool : String) (input : Fields)
    (h : (calls tool input).inSession Host.plain "s" = true) : Keeps Host.plain "s" (calls tool input) := by
  unfold Keeps
  rw [if_pos h]
  exact ⟨rfl, rfl⟩

end ArchHub.Hooks

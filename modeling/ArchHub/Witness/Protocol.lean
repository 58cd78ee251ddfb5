import Mathlib
import ArchHub.Lib.Transition

/-!
# The external revision witness

Every durable revision of a journal is witnessed outside of it: its number and the digest of
the chain of revisions up to it.  An append says first what it is about to write, then writes
it, then confirms it.  A load reconciles the two.

* `Provider.*`: the conditional updates of the witness.
* `Phase`: where a process stands in a load or an append.
* `proceed`: the next step of a process, whose call of the journal or of the witness is
  answered, fails, or fails after it took effect.
* `witnessed`: the machine of any number of processes that share one journal and one witness,
  with crashes, and with a journal that is replaced from outside.

A revision is any valid content.  Tokens are drawn from a counter: no two are the same.
-/

namespace ArchHub.Witness

open Lib

/-- The digest of the chain of revisions: of none, and of one revision more. -/
structure Hashing (Digest Content : Type) where
  none : Digest
  /-- `revision_chain_digest_step`. -/
  step : Digest → ℕ → Content → Digest

namespace Hashing

variable {Digest Content : Type} (h : Hashing Digest Content)

/-- The digest goes with the number of revisions. -/
def chainFrom : Digest → ℕ → List Content → Digest
  | d, _, [] => d
  | d, r, v :: vs => chainFrom (h.step d r v) (r + 1) vs

/-- `revision_history_chain_digest`, from revision zero. -/
def chain (journal : List Content) : Digest := h.chainFrom h.none 0 journal

/-- The head of a journal: its revision and its digest. -/
def head (journal : List Content) : ℕ × Digest := (journal.length - 1, h.chain journal)

/-- Two steps of one digest are of one chain and one content. -/
structure CollisionFree : Prop where
  step : ∀ d r v d' r' v', h.step d r v = h.step d' r' v' → d = d' ∧ v = v'

end Hashing

/-! ## The provider -/

/-- What an append is about to write. -/
structure Pending (Digest : Type) where
  revision : ℕ
  digest : Digest
  token : ℕ
deriving DecidableEq

/-- `ExternalRevisionWitnessState`. -/
structure State (Digest : Type) where
  confirmed : ℕ × Digest
  pending : Option (Pending Digest)
deriving DecidableEq

namespace Provider

variable {Digest : Type} [DecidableEq Digest]

/-- The conditional put of a first item. -/
def provision (item : Option (State Digest)) (head : ℕ × Digest) :
    Except String (State Digest) :=
  match item with
  | some _ => .error "external revision witness condition changed"
  | none =>
      if head.1 ≠ 0 then .error "external revision witness genesis revision is invalid"
      else .ok ⟨head, none⟩

/-- `prepare`: beside a confirmed head that is the expected one, with nothing pending. -/
def prepare (item : Option (State Digest)) (expected : ℕ × Digest) (next : Pending Digest) :
    Except String (State Digest) :=
  match item with
  | none => .error "external revision witness condition changed"
  | some w =>
      if w.confirmed = expected ∧ w.pending = none then .ok { w with pending := some next }
      else .error "external revision witness condition changed"

/-- `_pending`: the item, where the token is pending. -/
def pendingWith (item : Option (State Digest)) (token : ℕ) : Option (State Digest) :=
  item.filter fun w => decide (w.pending.map Pending.token = some token)

/-- The update of `confirm`, on what was read before. -/
def confirm (item : Option (State Digest)) (seen : State Digest) (token : ℕ) :
    Except String (State Digest) :=
  match item, seen.pending with
  | some w, some p =>
      if w.pending = some ⟨p.revision, p.digest, token⟩ then .ok ⟨(p.revision, p.digest), none⟩
      else .error "external revision witness condition changed"
  | _, _ => .error "external revision witness condition changed"

/-- The update of `abort`, on what was read before. -/
def abort (item : Option (State Digest)) (seen : State Digest) (token : ℕ) :
    Except String (State Digest) :=
  match item with
  | none => .error "external revision witness condition changed"
  | some w =>
      if w.pending.map Pending.token = some token ∧ w.confirmed = seen.confirmed then
        .ok ⟨w.confirmed, none⟩
      else .error "external revision witness condition changed"

end Provider

/-! ## Processes -/

section

variable (Digest Content : Type)

/-- An append under way. -/
structure Intent where
  token : ℕ
  /-- The head it was started at. -/
  head : ℕ × Digest
  changed : Content

/-- Why a pending intent is settled. -/
inductive Purpose
  /-- At the end of an append. -/
  | append (i : Intent Digest Content)
  /-- After a failed append of the journal. -/
  | recovery (i : Intent Digest Content)
  /-- In the reconciliation of a load, which has read this journal. -/
  | load (history : List Content)

/-- A `confirm` or an `abort`, with what its first reading saw. -/
structure Settling where
  commit : Bool
  token : ℕ
  seen : Option (State Digest)
  purpose : Purpose Digest Content

/-- Where a process stands. -/
inductive Phase
  | idle
  /-- An append, before `prepare`. -/
  | prepare (i : Intent Digest Content)
  /-- An append, before the append of the journal. -/
  | write (i : Intent Digest Content)
  /-- An append whose append of the journal failed, before it reads the journal. -/
  | recover (i : Intent Digest Content)
  | settle (c : Settling Digest Content)
  /-- A load that has read the journal, before it reads the witness. -/
  | witness (history : List Content)
  /-- A load that provisions the witness. -/
  | genesis (history : List Content)

/-- A process: its `WitnessedCellJournal`. -/
structure Process where
  provisionGenesis : Bool
  loaded : Bool
  head : Option (ℕ × Digest)
  faulted : Bool
  phase : Phase Digest Content

/-- A load that succeeded: what it returned, and the appends that had returned. -/
structure Loaded where
  history : List Content
  returned : List (ℕ × Content)

/-- What the processes share, with what has returned to them. -/
structure Shared where
  journal : List Content
  witness : Option (State Digest)
  /-- The tokens that were drawn. -/
  tokens : ℕ
  /-- The appends that returned normally: revision and content. -/
  returned : List (ℕ × Content)
  loads : List (Loaded Content)

/-- The system. -/
structure System where
  shared : Shared Digest Content
  processes : ℕ → Process Digest Content

end

/-- How a call of the journal or of the provider ends. -/
inductive Outcome
  | done
  /-- It fails and has no effect. -/
  | before
  /-- It fails after it took effect. -/
  | after
deriving DecidableEq

variable {Digest Content : Type} [DecidableEq Digest]

/-- A process that has just started. -/
def Process.fresh (provisionGenesis : Bool) : Process Digest Content :=
  ⟨provisionGenesis, false, none, false, .idle⟩

/-- The call ends. -/
def Process.rest (p : Process Digest Content) : Process Digest Content := { p with phase := .idle }

/-- The call ends, and the process has to be restarted. -/
def Process.fault (p : Process Digest Content) : Process Digest Content :=
  { p with phase := .idle, faulted := true }

/-- The process goes on. -/
def Process.to (p : Process Digest Content) (phase : Phase Digest Content) :
    Process Digest Content := { p with phase := phase }

namespace Intent

/-- The head that an append is to leave. -/
def next (h : Hashing Digest Content) (i : Intent Digest Content) : ℕ × Digest :=
  (i.head.1 + 1, h.step i.head.2 (i.head.1 + 1) i.changed)

/-- What is pending while an append is under way. -/
def pending (h : Hashing Digest Content) (i : Intent Digest Content) : Pending Digest :=
  ⟨(i.next h).1, (i.next h).2, i.token⟩

end Intent

variable (h : Hashing Digest Content)

/-- The end of `load`: the journal that was read has to be at the confirmed head. -/
def finishLoad (sh : Shared Digest Content) (p : Process Digest Content) (history : List Content)
    (w : State Digest) : Shared Digest Content × Process Digest Content :=
  if h.head history = w.confirmed then
    ({ sh with loads := sh.loads ++ [⟨history, sh.returned⟩] },
      { p with phase := .idle, loaded := true, head := some w.confirmed })
  else (sh, p.rest)

/-- `_reconcile`. -/
def reconcile (sh : Shared Digest Content) (p : Process Digest Content) (history : List Content)
    (w : State Digest) : Shared Digest Content × Process Digest Content :=
  match w.pending with
  | some pending =>
      if h.head history = w.confirmed then
        (sh, p.to (.settle ⟨false, pending.token, none, .load history⟩))
      else if h.head history = (pending.revision, pending.digest) then
        (sh, p.to (.settle ⟨true, pending.token, none, .load history⟩))
      else (sh, p.rest)
  | none => finishLoad h sh p history w

/-- What a process does when its `confirm` or `abort` fails. -/
def Process.unsettled (p : Process Digest Content) : Purpose Digest Content → Process Digest Content
  | .append _ => p.fault
  | .recovery _ => p.fault
  | .load _ => p.rest

/-- What a process does when its `confirm` or `abort` is answered. -/
def settled (sh : Shared Digest Content) (p : Process Digest Content)
    (c : Settling Digest Content) (w : State Digest) :
    Shared Digest Content × Process Digest Content :=
  match c.purpose with
  | .append i =>
      if w.pending = none ∧ w.confirmed = i.next h then
        ({ sh with returned := sh.returned ++ [((i.next h).1, i.changed)] },
          { p with phase := .idle, head := some (i.next h) })
      else (sh, p.fault)
  | .recovery _ =>
      if c.commit then (sh, p.fault)
      else (sh, { p with phase := .idle, head := some w.confirmed })
  | .load history => finishLoad h sh p history w

/-- The update that settles, on the item that is there. -/
def Settling.update (c : Settling Digest Content) (item : Option (State Digest))
    (seen : State Digest) : Except String (State Digest) :=
  if c.commit then Provider.confirm item seen c.token else Provider.abort item seen c.token

/-- **The next step of a process.** -/
def proceed (sh : Shared Digest Content) (p : Process Digest Content) (o : Outcome) :
    Shared Digest Content × Process Digest Content :=
  match p.phase with
  | .idle => (sh, p)
  | .prepare i => match o, Provider.prepare sh.witness i.head (i.pending h) with
    | .before, _ => (sh, p.rest)
    | _, .error _ => (sh, p.rest)
    | .done, .ok w => ({ sh with witness := some w }, p.to (.write i))
    | .after, .ok w => ({ sh with witness := some w }, p.rest)
  | .write i =>
      -- The journal refuses an append at another revision than the expected one.
      if o = .before ∨ sh.journal.length ≠ i.head.1 + 1 then (sh, p.to (.recover i))
      else if o = .done then
        ({ sh with journal := sh.journal ++ [i.changed] },
          p.to (.settle ⟨true, i.token, none, .append i⟩))
      else ({ sh with journal := sh.journal ++ [i.changed] }, p.to (.recover i))
  | .recover i =>
      if o ≠ .done ∨ sh.journal = [] then (sh, p.fault)
      else if h.head sh.journal = i.head then
        (sh, p.to (.settle ⟨false, i.token, none, .recovery i⟩))
      else if h.head sh.journal = i.next h then
        (sh, p.to (.settle ⟨true, i.token, none, .recovery i⟩))
      else (sh, p.fault)
  | .settle c => match c.seen with
    | none => match o, Provider.pendingWith sh.witness c.token with
      | .done, some w => (sh, p.to (.settle { c with seen := some w }))
      | _, _ => (sh, p.unsettled c.purpose)
    | some seen => match o, c.update sh.witness seen with
      | .before, _ => (sh, p.unsettled c.purpose)
      | _, .error _ => (sh, p.unsettled c.purpose)
      | .done, .ok w => settled h { sh with witness := some w } p c w
      | .after, .ok w => ({ sh with witness := some w }, p.unsettled c.purpose)
  | .witness history =>
      if o ≠ .done then (sh, p.rest)
      else match sh.witness with
        | some w => reconcile h sh p history w
        | none =>
            if p.provisionGenesis ∧ history.length = 1 then (sh, p.to (.genesis history))
            else (sh, p.rest)
  | .genesis history => match o, Provider.provision sh.witness (h.head history) with
    | .before, _ => (sh, p.rest)
    | _, .error _ => (sh, p.rest)
    | .done, .ok w => reconcile h { sh with witness := some w } { p with provisionGenesis := false }
        history w
    | .after, .ok w => ({ sh with witness := some w }, p.rest)

/-! ## Runs -/

/-- What happens next. -/
inductive Action (Content : Type)
  /-- `load`, or `load_head`: its reading of the journal. -/
  | load (p : ℕ) (o : Outcome)
  /-- `append`, up to its token. -/
  | append (p : ℕ) (expected next : ℕ) (changed : Content)
  | proceed (p : ℕ) (o : Outcome)
  /-- A process crashes, and another one is started in its place. -/
  | restart (p : ℕ) (provisionGenesis : Bool)
  /-- The journal is replaced from outside. -/
  | tamper (journal : List Content)

namespace System

/-- One process changes, and what is shared. -/
def set (s : System Digest Content) (sh : Shared Digest Content) (p : ℕ)
    (process : Process Digest Content) : System Digest Content :=
  ⟨sh, Function.update s.processes p process⟩

end System

/-- What a process does when it is asked to load: it reads the journal. -/
def beginLoad (sh : Shared Digest Content) (p : Process Digest Content) (o : Outcome) :
    Process Digest Content :=
  match p.phase with
  | .idle =>
      if p.faulted ∨ o ≠ .done ∨ sh.journal = [] then p else p.to (.witness sh.journal)
  | _ => p

/-- What a process does when it is asked to append: it draws a token. -/
def beginAppend (sh : Shared Digest Content) (p : Process Digest Content) (expected next : ℕ)
    (changed : Content) : Shared Digest Content × Process Digest Content :=
  match p.phase, p.head with
  | .idle, some head =>
      if p.faulted ∨ ¬p.loaded ∨ expected ≠ head.1 ∨ next ≠ expected + 1 then (sh, p)
      else ({ sh with tokens := sh.tokens + 1 }, p.to (.prepare ⟨sh.tokens, head, changed⟩))
  | _, _ => (sh, p)

/-- The processes, the journal and the witness. -/
def witnessed : Machine (System Digest Content) (Action Content) where
  step s
    | .load p o => s.set s.shared p (beginLoad s.shared (s.processes p) o)
    | .append p expected next changed =>
        let (sh, process) := beginAppend s.shared (s.processes p) expected next changed
        s.set sh p process
    | .proceed p o =>
        let (sh, process) := proceed h s.shared (s.processes p) o
        s.set sh p process
    | .restart p provisionGenesis => s.set s.shared p (.fresh provisionGenesis)
    | .tamper journal => { s with shared := { s.shared with journal := journal } }

/-- A journal at its genesis, without a witness. -/
def System.new (genesis : Content) : System Digest Content :=
  ⟨⟨[genesis], none, 0, [], []⟩, fun _ => .fresh false⟩

end ArchHub.Witness

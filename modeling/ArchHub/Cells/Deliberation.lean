import Mathlib
import ArchHub.Lib.Requests
import ArchHub.Cells.Incoming
import ArchHub.Cells.Projection
import ArchHub.Cells.History

/-!
# The keys of a deliberation space

Each entry of a deliberation space has a key.  A lookup reads the keys of the entries and keeps
them, with the cells that it has read.  The next lookup reads the new entries only, where it is
shown that none of these cells has changed since.

* `entryKey`, `addKeys`: the keys, and the cells that are read for them.
* `lookups`: lookups in several steps, between the calls on a store.
* `lookups_agree`: **every lookup answers as if nothing had been kept**.
-/

namespace ArchHub.Cells

open Lib List

/-! ## The keys -/

/-- `DeliberationProtocol`, with its roles in order. -/
structure DeliberationProtocol where
  rootId : String
  roles : List (String × String)
deriving DecidableEq

/-- `_one`. -/
def oneParticipant (members : List Member) (role label : String) : Except CellError String :=
  match members.filter (·.role = role) with
  | [m] => .ok m.participant
  | _ => .error (.invalid s!"deliberation requires exactly one {label} participant")

/-- The cells that a walk reads, which lie under their ids. -/
def Walked.reads (w : Walked) : List String :=
  w.sources.map Cell.id ++ w.members.flatMap fun m => [m.role, m.participant]

section

variable (decode : List UInt8 → Option String) (p : DeliberationProtocol) (cells : Lookup)
  (space : String)

/-- `role`. -/
def DeliberationProtocol.role (name : String) : Except CellError String :=
  (p.roles.lookup name).elim (.error (.invalidAt "unknown deliberation role" name)) .ok

/-- The root of an entry's key. -/
def entryTerminal (members : List Member) : Except CellError String := do
  let owner ← oneParticipant members (← p.role "entry-space") "entry space"
  if owner ≠ space then .error (.invalid "entry belongs to a different deliberation space")
  else oneParticipant members (← p.role "entry-idempotency") "entry idempotency"

/-- `_text` of a key; `decode` reads UTF-8. -/
def keyText (id : String) : Except CellError String :=
  match cells id with
  | none => .error (.invalid "entry idempotency root is missing")
  | some c =>
      if c.link0 ≠ nullId ∨ c.link1 ≠ nullId then
        .error (.invalid "entry idempotency must be a terminal Cell")
      else (decode c.atom).elim (.error (.invalid "entry idempotency is not UTF-8")) .ok

/-- The key of an entry, and the cells that are read for it. -/
def entryKey (root : String) : Except CellError (String × List String) := do
  let w ← readRelationWalk cells root 100000
  let terminal ← entryTerminal p space w.members
  let found ← keyText decode cells terminal
  return (found, root :: terminal :: w.reads)

/-- Some entries more: `base` and `added` in one, and the cells that were read. -/
def addKeys (roots : List String) (known : List (String × String) × List String) :
    Except CellError (List (String × String) × List String) :=
  roots.foldlM (fun known root => do
    let (found, read) ← entryKey decode p cells space root
    if (known.1.lookup found).isSome then
      .error (.invalid "deliberation space contains duplicate idempotency keys")
    else return (known.1 ++ [(found, root)], read ∪ known.2)) known

end

section

variable {decode : List UInt8 → Option String} {p : DeliberationProtocol} {cells cells' : Lookup}
  {space root : String}

/-- **A key depends on the cells that are read for it.** -/
theorem entryKey_congr (hkeyed : ∀ id c, cells id = some c → c.id = id)
    (hkept : ∀ id, (cells id).isSome → (cells' id).isSome) {found : String} {read : List String}
    (h : entryKey decode p cells space root = .ok (found, read))
    (hsame : ∀ id ∈ read, cells' id = cells id) :
    entryKey decode p cells' space root = .ok (found, read) := by
  obtain ⟨w, hwalk, h⟩ := Check.bind_ok_iff.1 h
  obtain ⟨terminal, hterminal, h⟩ := Check.bind_ok_iff.1 h
  obtain ⟨text, htext, h⟩ := Check.bind_ok_iff.1 h
  cases h
  have hroot := hsame root mem_cons_self
  have hwalk' : readRelationWalk cells' root 100000 = .ok w := by
    unfold readRelationWalk at hwalk ⊢
    rw [hroot]
    split at hwalk
    · cases hwalk
    · next hthere =>
      rw [if_neg hthere]
      refine projectionWalk_transfer hkeyed hkept hwalk fun c hc => ?_
      have hread : c.id ∈ w.reads := mem_append_left _ (mem_map_of_mem hc)
      rw [hsame _ (mem_cons_of_mem _ (mem_cons_of_mem _ hread)), sources_held hkeyed hwalk c hc]
  unfold keyText at htext
  rw [← hsame terminal (mem_cons_of_mem _ mem_cons_self)] at htext
  exact Check.bind_ok_iff.2 ⟨w, hwalk', Check.bind_ok_iff.2
    ⟨terminal, hterminal, Check.bind_ok_iff.2 ⟨found, htext, rfl⟩⟩⟩

/-- So do the keys of some entries. -/
theorem addKeys_congr (hkeyed : ∀ id c, cells id = some c → c.id = id)
    (hkept : ∀ id, (cells id).isSome → (cells' id).isSome) {roots : List String}
    {known known' : List (String × String) × List String}
    (h : addKeys decode p cells space roots known = .ok known') :
    known.2 ⊆ known'.2 ∧ ((∀ id ∈ known'.2, cells' id = cells id) →
      addKeys decode p cells' space roots known = .ok known') := by
  induction roots generalizing known with
  | nil =>
      cases h
      exact ⟨Subset.refl _, fun _ => rfl⟩
  | cons root roots ih =>
      unfold addKeys at h ⊢
      rw [foldlM_cons] at h ⊢
      obtain ⟨next, hnext, h⟩ := Check.bind_ok_iff.1 h
      obtain ⟨⟨found, read⟩, hkey, hadd⟩ := Check.bind_ok_iff.1 hnext
      dsimp only at hadd
      split at hadd
      · cases hadd
      · next hnew =>
        cases hadd
        obtain ⟨hsub, hagree⟩ := ih h
        refine ⟨fun id hid => hsub (mem_union_right _ hid), fun hsame => ?_⟩
        refine Check.bind_ok_iff.2 ⟨_, Check.bind_ok_iff.2 ⟨_, entryKey_congr hkeyed hkept hkey
          fun id hid => hsame id (hsub (mem_union_left hid _)), ?_⟩, hagree hsame⟩
        dsimp only
        rw [if_neg hnew]
        rfl

end

/-! ## The lookups -/

/-- What a lookup keeps. -/
structure KeyCache where
  signature : DeliberationProtocol × String
  revision : ℕ
  digest : String
  roots : List String
  keys : List (String × String)
  dependencies : List String

/-- `_LookupHolder`, with the number of the entries there were: an entry is one that was read
before if its number is. -/
structure KeyHolder where
  entry : Option KeyCache
  number : ℕ

/-- The arguments of `_lookup_deliberation_key`. -/
structure KeyCall where
  protocol : DeliberationProtocol
  space : String
  entryRoots : List String
  key : String
  revision : ℕ
  cells : Lookup

section

variable (decode : List UInt8 → Option String) (c : KeyCall)

/-- The answer of a lookup without a store, which keeps nothing. -/
def KeyCall.fresh : Except CellError (Option String) :=
  (addKeys decode c.protocol c.cells c.space c.entryRoots ([], [])).map (·.1.lookup c.key)

/-- `reusable`: the entry that is used, where `same` says whether the snapshots are of one
mapping. -/
def KeyCall.reusable (prior : Option (ℕ × KeyCache)) (receipt : SnapshotTransition) (same : Bool)
    (holder : KeyHolder) : Option KeyCache :=
  prior.bind fun (number, e) =>
    if receipt.revision = c.revision ∧ same ∧ number = holder.number ∧
        e.signature = (c.protocol, c.space) ∧ e.roots <+: c.entryRoots ∧
        receipt.changed.any (·.all fun cell => cell.id ∉ e.dependencies) then some e else none

/-- The last step of a lookup. -/
def KeyCall.finish (prior : Option (ℕ × KeyCache)) (receipt : SnapshotTransition) (digest : String)
    (same : Bool) (holder : KeyHolder) : KeyHolder × Except CellError (Option String) :=
  let e := (c.reusable prior receipt same holder).getD ⟨(c.protocol, c.space), 0, "", [], [], []⟩
  match addKeys decode c.protocol c.cells c.space (c.entryRoots.drop e.roots.length)
      (e.keys, e.dependencies) with
  | .error error => (holder, .error error)
  | .ok (keys, dependencies) =>
      if receipt.revision = c.revision ∧ same ∧ holder.entry.all (·.revision ≤ c.revision) then
        (⟨if dependencies.length ≤ 1000000 ∧ keys.length ≤ 100000 then
            some ⟨(c.protocol, c.space), c.revision, digest, c.entryRoots, keys, dependencies⟩
          else none, holder.number + 1⟩, .ok (keys.lookup c.key))
      else (holder, .ok (keys.lookup c.key))

end

/-- A call on the store, or by others on its journal, or a lookup. -/
inductive KeyRequest
  | store (a : Heading)
  | lookup (c : KeyCall)

/-- Where a lookup is: before it reads the entry, before the transition, before its end. -/
inductive KeyPhase
  | start
  | prior (e : Option (ℕ × KeyCache))
  | received (e : Option (ℕ × KeyCache)) (receipt : SnapshotTransition)

/-- `_lookup_deliberation_key` in its steps; no answer where the transition raises. -/
def lookups (sha256 blake2b : List UInt8 → Digest) (fromhex : String → Option Digest)
    (decode : List UInt8 → Option String) :
    Service (Head × KeyHolder) KeyRequest KeyPhase (Option (Except CellError (Option String)))
      Bool where
  first _ := .start
  step
    | .store a, _, _, (w, holder) => (((heads sha256 blake2b).step w a, holder), .inr none)
    | .lookup _, .start, _, (w, holder) =>
        ((w, holder), .inl (.prior (holder.entry.map fun e => (holder.number, e))))
    | .lookup _, .prior e, _, (w, holder) =>
        let (receipt, w') := w.snapshotTransition sha256 fromhex (e.map fun e => e.2.revision)
          (e.map fun e => e.2.digest)
        ((w', holder), receipt.elim (.inr none) fun receipt => .inl (.received e receipt))
    | .lookup c, .received e receipt, same, (w, holder) =>
        let (holder', answer) := c.finish decode e receipt (hexText receipt.digest) same holder
        ((w, holder'), .inr (some answer))

/-! ## What is kept -/

section

variable {sha256 blake2b : List UInt8 → Digest} {fromhex : String → Option Digest}
  {decode : List UInt8 → Option String} {w : Head} {j j' : Journal}

/-- What is kept is what is read at its revision. -/
def KeyCache.Valid (decode : List UInt8 → Option String) (j : Journal) (e : KeyCache) : Prop :=
  e.revision ≤ j.latest ∧ addKeys decode e.signature.1 (j.at' e.revision) e.signature.2 e.roots
    ([], []) = .ok (e.keys, e.dependencies)

/-- What a lookup has of the store: an entry that was kept, and how the head is reached from its
revision. -/
def Owed (decode : List UInt8 → Option String) (j : Journal) : KeyPhase → Prop
  | .start => True
  | .prior e => ∀ x ∈ e, x.2.Valid decode j
  | .received e receipt =>
      receipt.revision ≤ j.latest ∧ receipt.cells = j.at' receipt.revision ∧ ∀ x ∈ e,
        x.2.Valid decode j ∧ ∀ changed, receipt.changed = some changed →
          LeadsTo (j.at' x.2.revision) receipt.cells changed

theorem KeyCache.Valid.longer {e : KeyCache} (h : e.Valid decode j) (hlonger : Longer j j') :
    e.Valid decode j' := by
  refine ⟨h.1.trans hlonger.1, ?_⟩
  rw [hlonger.at_eq h.1]
  exact h.2

theorem Owed.longer {phase : KeyPhase} (h : Owed decode j phase) (hlonger : Longer j j') :
    Owed decode j' phase := by
  cases phase with
  | start => trivial
  | prior e => exact fun x hx => (h x hx).longer hlonger
  | received e receipt =>
      obtain ⟨hle, hcells, hprior⟩ := h
      refine ⟨hle.trans hlonger.1, by rw [hlonger.at_eq hle, hcells], fun x hx => ?_⟩
      obtain ⟨hvalid, hleads⟩ := hprior x hx
      rw [hlonger.at_eq hvalid.1]
      exact ⟨hvalid.longer hlonger, hleads⟩

/-- What a transition reports leads from the revision that it was asked for. -/
theorem owed_received {prior : Option (ℕ × KeyCache)} {receipt : SnapshotTransition}
    (h : Coherent sha256 blake2b w) (hprior : Owed decode w.journal (.prior prior))
    (hreceipt : (w.snapshotTransition sha256 fromhex (prior.map fun e => e.2.revision)
      (prior.map fun e => e.2.digest)).1 = some receipt) :
    Owed decode w.journal (.received prior receipt) := by
  obtain ⟨-, hrevision, hcells, hreported⟩ := (transition_reports h).1 hreceipt
  refine ⟨hrevision.trans_le h.within, by rw [hcells, hrevision]; rfl, fun x hx =>
    ⟨hprior x hx, fun changed heq => ?_⟩⟩
  obtain rfl : prior = some x := hx
  rw [heq] at hreported
  rw [hcells]
  rcases changedSince_cases hreported with ⟨hhead, -, rfl⟩ | ⟨r, hr, hnext, -, -, rfl, -⟩
  · rw [Nat.cast_inj.1 hhead]
    exact ⟨fun _ => rfl, fun id hne => absurd rfl hne⟩
  · rw [Nat.cast_inj.1 hr]
    exact leadsTo_written h.keyed hnext

/-- **A lookup that uses what was kept comes to what a fresh one comes to.** -/
theorem reusable_agrees {c : KeyCall} {prior : Option (ℕ × KeyCache)} {receipt : SnapshotTransition}
    {same : Bool} {holder : KeyHolder} {e : KeyCache} (hkeyed : j.Keyed)
    (h : Owed decode j (.received prior receipt)) (hsame : same = true → receipt.cells = c.cells)
    (hreusable : c.reusable prior receipt same holder = some e) :
    addKeys decode c.protocol c.cells c.space (c.entryRoots.drop e.roots.length)
      (e.keys, e.dependencies) = addKeys decode c.protocol c.cells c.space c.entryRoots ([], []) := by
  obtain ⟨⟨number, e'⟩, hprior, hcase⟩ := Option.bind_eq_some_iff.1 hreusable
  dsimp only at hcase
  split at hcase
  · next huse =>
    cases hcase
    obtain ⟨-, hmapping, -, hsignature, ⟨rest, hroots⟩, huntouched⟩ := huse
    obtain ⟨hvalid, hleads⟩ := h.2.2 _ hprior
    obtain ⟨changed, hchanged, hall⟩ := (Option.any_eq_true _ _).1 huntouched
    obtain ⟨hstep, hdiffer⟩ := hleads changed hchanged
    rw [hsame hmapping] at hstep hdiffer
    have hread := hvalid.2
    rw [hsignature] at hread
    have hkept : ∀ id, (j.at' e.revision id).isSome → (c.cells id).isSome := by
      intro id hid
      rw [hstep, Option.isSome_or, hid, Bool.or_true]
    have hfresh := (addKeys_congr (fun _ _ => id_of_at hkeyed) hkept hread).2 fun id hid => by
      by_contra hne
      obtain ⟨cell, hcell, rfl⟩ := mem_map.1 (hdiffer id hne)
      exact of_decide_eq_true (all_eq_true.1 hall cell hcell) hid
    rw [← hroots, drop_left]
    unfold addKeys at hfresh ⊢
    rw [foldlM_append, hfresh]
    rfl
  · cases hcase

/-- What a lookup keeps and answers at its end. -/
theorem finish_spec {c : KeyCall} {prior : Option (ℕ × KeyCache)} {receipt : SnapshotTransition}
    (digest : String) {same : Bool} {holder : KeyHolder} (hkeyed : j.Keyed)
    (h : Owed decode j (.received prior receipt)) (hsame : same = true → receipt.cells = c.cells)
    (hholder : ∀ e ∈ holder.entry, e.Valid decode j) :
    (c.finish decode prior receipt digest same holder).2 = c.fresh decode ∧
      ∀ e ∈ (c.finish decode prior receipt digest same holder).1.entry, e.Valid decode j := by
  have hadd : ∀ e, (c.reusable prior receipt same holder).getD
        ⟨(c.protocol, c.space), 0, "", [], [], []⟩ = e →
      addKeys decode c.protocol c.cells c.space (c.entryRoots.drop e.roots.length)
        (e.keys, e.dependencies) =
      addKeys decode c.protocol c.cells c.space c.entryRoots ([], []) := by
    rintro e rfl
    cases hreusable : c.reusable prior receipt same holder with
    | none => rfl
    | some e => exact reusable_agrees hkeyed h hsame hreusable
  unfold KeyCall.finish KeyCall.fresh
  dsimp only
  rw [hadd _ rfl]
  cases hkeys : addKeys decode c.protocol c.cells c.space c.entryRoots ([], []) with
  | error e => exact ⟨rfl, hholder⟩
  | ok known =>
      dsimp only
      split
      · next hcurrent =>
        obtain ⟨hrevision, hmapping, -⟩ := hcurrent
        refine ⟨rfl, fun e he => ?_⟩
        dsimp only at he
        split at he
        · cases he
          unfold KeyCache.Valid
          rw [← hrevision, ← h.2.1, hsame hmapping]
          exact ⟨h.1, hkeys⟩
        · cases he
      · exact ⟨rfl, hholder⟩

/-- The answer of a lookup is a fresh one. -/
def AnswersFreshly (decode : List UInt8 → Option String) :
    KeyRequest × Option (Except CellError (Option String)) → Prop
  | (.lookup c, some answer) => answer = c.fresh decode
  | _ => True

variable (sha256 blake2b) in
/-- What holds of the store, of what is kept and of the answers. -/
structure KeysKept (decode : List UInt8 → Option String) (s : Head × KeyHolder)
    (answered : List (KeyRequest × Option (Except CellError (Option String)))) : Prop where
  coherent : Coherent sha256 blake2b s.1
  held : ∀ e ∈ s.2.entry, e.Valid decode s.1.journal
  answers : ∀ x ∈ answered, AnswersFreshly decode x

/-- A step of a lookup in which two snapshots of one mapping have the same cells. -/
def SameMapping : KeyRequest → KeyPhase → Bool → Prop
  | .lookup c, .received _ receipt, same => same = true → receipt.cells = c.cells
  | _, _, _ => True

theorem lookups_step {s : Head × KeyHolder}
    {answered : List (KeyRequest × Option (Except CellError (Option String)))} {r : KeyRequest}
    {phase : KeyPhase} {same : Bool} (hsame : SameMapping r phase same)
    (h : KeysKept sha256 blake2b decode s answered) (howed : Owed decode s.1.journal phase) :
    let made := (lookups sha256 blake2b fromhex decode).step r phase same s
    KeysKept sha256 blake2b decode made.1 (answered ++ Service.answers r made.2) ∧
      Longer s.1.journal made.1.1.journal ∧
      ∀ next, made.2 = .inl next → Owed decode made.1.1.journal next := by
  obtain ⟨w, holder⟩ := s
  have hstep := fun a => coherent_step h.coherent a
  have hlonger := fun a => longer_step h.coherent a
  have hheld := fun a e he => (h.held e he).longer (hlonger a)
  have hrefl := Longer.refl w.journal
  have hanswers := fun more hmore => forall_mem_append.2 ⟨h.answers, (hmore : ∀ x ∈ more, _)⟩
  cases r with
  | store a =>
      exact ⟨⟨hstep a, hheld a, hanswers _ (forall_mem_singleton.2 trivial)⟩, hlonger a, nofun⟩
  | lookup c =>
      cases phase with
      | start =>
          refine ⟨⟨h.coherent, h.held, hanswers _ nofun⟩, hrefl, ?_⟩
          rintro next ⟨⟩ x hx
          obtain ⟨e, he, rfl⟩ := Option.map_eq_some_iff.1 hx
          exact h.held e he
      | prior e =>
          let a := Heading.digest w.revision
          have hmade : ∀ receipt, (w.snapshotTransition sha256 fromhex
              (e.map fun e => e.2.revision) (e.map fun e => e.2.digest)).1 = receipt →
              ((lookups sha256 blake2b fromhex decode).step (.lookup c) (.prior e) same
                (w, holder)).2 = receipt.elim (.inr none) fun receipt => .inl (.received e receipt) :=
            fun _ h => congrArg (Option.elim · _ _) h
          dsimp only
          cases hreceipt : (w.snapshotTransition sha256 fromhex (e.map fun e => e.2.revision)
              (e.map fun e => e.2.digest)).1 with
          | none =>
              rw [hmade _ hreceipt]
              exact ⟨⟨hstep a, hheld a, hanswers _ (forall_mem_singleton.2 trivial)⟩, hlonger a, nofun⟩
          | some receipt =>
              rw [hmade _ hreceipt]
              refine ⟨⟨hstep a, hheld a, hanswers _ nofun⟩, hlonger a, ?_⟩
              rintro next ⟨⟩
              exact (owed_received h.coherent howed hreceipt).longer (hlonger a)
      | received e receipt =>
          obtain ⟨hanswer, hkept⟩ :=
            finish_spec (hexText receipt.digest) h.coherent.keyed howed hsame h.held
          exact ⟨⟨h.coherent, hkept, hanswers _ (forall_mem_singleton.2 hanswer)⟩, hrefl, nofun⟩

end

/-! ### A store with one entry -/

/-- An entry of a space is made. -/
def entryCommit : Heading := .commit none 0
  [⟨"e", "i", "f", []⟩, ⟨"i", "owner", "space", []⟩, ⟨"f", "l", nullId, []⟩, ⟨"l", "key", "t", []⟩,
    ⟨"owner", nullId, nullId, []⟩, ⟨"space", nullId, nullId, []⟩, ⟨"key", nullId, nullId, []⟩,
    ⟨"t", nullId, nullId, []⟩] []

/-- The store then. -/
def entryHead : Head := (heads (fun _ => []) fun _ => []).step .new entryCommit

/-- A lookup of its key. -/
def entryCall : KeyCall :=
  ⟨⟨"p", [("entry-space", "owner"), ("entry-idempotency", "key")]⟩, "space", ["e"], "x", 1,
    entryHead.base⟩

end ArchHub.Cells

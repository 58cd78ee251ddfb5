import Mathlib
import ArchHub.Cells.Balance

/-!
# What an archive partition keeps

The rows leave; what they were committed to stays.

* `Prepared`: the chain proofs that a partition makes are of the digests there are.
* `Sound`: what holds of every database that commits and partitions lead to.
* `Transacted`: what the transaction of a partition leaves.
* `Gone`: an identity that left, which no commit brings back.
* `commitments_preserved`: a partition that is done keeps every accumulator and every chain
  digest; one that is not done leaves the tables.

A partition that is refused may have written chain proofs: they are of the digests that the
journal has already, and they are not taken back.
-/

namespace ArchHub.Cells

open Lib List Option Check Nat

/-! ## The chain -/

variable {previous : Digest}

section

variable {sha256 : List UInt8 → Digest} {db db' : Database} {r s n : ℕ} {digest : Digest}

theorem chainDigest_proved (h : db.chainProofs.get? r = some digest) :
    chainDigest sha256 db r = some digest := by
  cases r with
  | zero => rw [chainDigest, h, some_or]
  | succ r => rw [chainDigest, h, some_or]

/-- Proofs of some revisions, each of the digest there is. -/
structure Extends (sha256 : List UInt8 → Digest) (db : Database) (proofs : Dict ℕ Digest) : Prop where
  keeps : ∀ s digest, db.chainProofs.get? s = some digest → proofs.get? s = some digest
  proves : ∀ s digest, proofs.get? s = some digest → chainDigest sha256 db s = some digest

/-- **What is proved more changes no digest.** -/
theorem Extends.chainDigest_eq {proofs : Dict ℕ Digest} (h : Extends sha256 db proofs) (r : ℕ) :
    chainDigest sha256 { db with chainProofs := proofs } r = chainDigest sha256 db r := by
  have hcase : ∀ s, (∃ digest, proofs.get? s = some digest ∧
      chainDigest sha256 db s = some digest) ∨
      proofs.get? s = none ∧ db.chainProofs.get? s = none := by
    intro s
    cases hs : proofs.get? s with
    | some digest => exact .inl ⟨digest, rfl, h.proves s digest hs⟩
    | none =>
        refine .inr ⟨rfl, ?_⟩
        by_contra hne
        obtain ⟨digest, hdigest⟩ := Option.ne_none_iff_exists'.1 hne
        rw [h.keeps s digest hdigest] at hs
        cases hs
  induction r with
  | zero =>
      rcases hcase 0 with ⟨digest, hs, hdigest⟩ | ⟨hs, hnone⟩
      · rw [hdigest]
        exact chainDigest_proved hs
      · rw [chainDigest, chainDigest, hs, hnone]
  | succ r ih =>
      rcases hcase (r + 1) with ⟨digest, hs, hdigest⟩ | ⟨hs, hnone⟩
      · rw [hdigest]
        exact chainDigest_proved hs
      · rw [chainDigest, chainDigest, ih, hs, hnone]

/-- The digest before a revision. -/
def digestBefore (sha256 : List UInt8 → Digest) (db : Database) : ℕ → Option Digest
  | 0 => some (List.replicate 32 0)
  | r + 1 => chainDigest sha256 db r

theorem chainDigest_unproved (h : db.chainProofs.get? r = none) :
    chainDigest sha256 db r = (digestBefore sha256 db r).bind fun previous =>
      chainDigestStep sha256 previous r (orderedRevision db.journal r) := by
  cases r with
  | zero =>
      rw [chainDigest, h, none_or]
      rfl
  | succ r =>
      rw [chainDigest, h, none_or]
      rfl

/-- **The proofs that are made** are of the digests there are, one revision after the other. -/
theorem prepareFrom_spec (n : ℕ) (proofs : Dict ℕ Digest)
    (hprevious : digestBefore sha256 db r = some previous)
    (hnone : ∀ s, r ≤ s → db.chainProofs.get? s = none) :
    ∃ m ≤ n, ((prepareFrom sha256 db.journal n r previous proofs).1 = true → m = n) ∧
      (∀ s, r ≤ s → s < r + m → (chainDigest sha256 db s).isSome) ∧
      ∀ s, (prepareFrom sha256 db.journal n r previous proofs).2.get? s =
        if r ≤ s ∧ s < r + m then chainDigest sha256 db s else proofs.get? s := by
  induction n generalizing r previous proofs with
  | zero =>
      refine ⟨0, le_rfl, fun _ => rfl, fun s hrs hs => by omega, fun s => ?_⟩
      rw [if_neg (by omega)]
      rfl
  | succ n ih =>
      have hdigest : chainDigest sha256 db r =
          chainDigestStep sha256 previous r (orderedRevision db.journal r) := by
        rw [chainDigest_unproved (hnone r le_rfl), hprevious, bind_some]
      unfold prepareFrom
      cases hstep : chainDigestStep sha256 previous r (orderedRevision db.journal r) with
      | none =>
          refine ⟨0, Nat.zero_le _, fun h => (nomatch h), fun s hrs hs => by omega, fun s => ?_⟩
          rw [if_neg (by omega)]
      | some digest =>
          rw [hstep] at hdigest
          obtain ⟨m, hm, hall, hsome, hget⟩ := ih (proofs.set r digest)
            (r := r + 1) hdigest fun s hs => hnone s (by omega)
          refine ⟨m + 1, by omega, fun h => by rw [hall h], fun s hrs hs => ?_, fun s => ?_⟩
          · rcases Nat.lt_or_eq_of_le hrs with hlt | rfl
            · exact hsome s hlt (by omega)
            · rw [hdigest]
              rfl
          · dsimp only
            rw [hget s, Dict.get?_set]
            rcases Nat.lt_trichotomy s r with hs | hs | hs
            · rw [if_neg (by omega), if_neg (by omega), if_neg (by omega)]
            · rw [if_neg (by omega), if_pos hs, if_pos (by omega), hs, hdigest]
            · by_cases hlt : s < r + 1 + m
              · rw [if_pos ⟨hs, hlt⟩, if_pos (by omega)]
              · rw [if_neg (by omega), if_neg (by omega), if_neg (by omega)]

/-- The revisions that are proved are the first ones. -/
structure Chained (db : Database) (proofs : Dict ℕ Digest) : Prop where
  closed : ∀ r s, r ≤ s → (proofs.get? s).isSome → (proofs.get? r).isSome
  within : ∀ s, (proofs.get? s).isSome → s ≤ db.journal.latest

/-- What preparing the chain leaves. -/
structure Prepared (sha256 : List UInt8 → Digest) (db : Database) (complete : Bool)
    (proofs : Dict ℕ Digest) : Prop where
  extends' : Extends sha256 db proofs
  chained : Chained db proofs
  complete : complete = true → ∀ s ≤ db.journal.latest, (proofs.get? s).isSome

theorem prepared_from {start k : ℕ} {complete : Bool}
    (hprevious : digestBefore sha256 db start = some previous)
    (hnone : ∀ s, start ≤ s → db.chainProofs.get? s = none)
    (hsome : ∀ s < start, (db.chainProofs.get? s).isSome) (hk : start + k ≤ db.journal.latest + 1)
    (hcomplete : complete = true → start + k = db.journal.latest + 1 ∧
      (prepareFrom sha256 db.journal k start previous db.chainProofs).1 = true) :
    Prepared sha256 db complete (prepareFrom sha256 db.journal k start previous db.chainProofs).2 := by
  obtain ⟨m, hm, hall, hmade, hget⟩ := prepareFrom_spec k db.chainProofs hprevious hnone
  have hisSome : ∀ s, ((prepareFrom sha256 db.journal k start previous db.chainProofs).2.get? s).isSome ↔
      s < start + m := by
    intro s
    rw [hget s]
    by_cases hs : start ≤ s ∧ s < start + m
    · rw [if_pos hs]
      exact ⟨fun _ => hs.2, fun _ => hmade s hs.1 hs.2⟩
    · rw [if_neg hs]
      by_cases hlt : s < start
      · exact ⟨fun _ => by omega, fun _ => hsome s hlt⟩
      · rw [hnone s (by omega)]
        exact ⟨fun h => (nomatch h), fun h => by omega⟩
  refine ⟨⟨fun s digest hs => ?_, fun s digest hs => ?_⟩, ⟨fun r s hrs hs => ?_, fun s hs => ?_⟩, ?_⟩
  · rw [hget s, if_neg]
    · exact hs
    · rintro ⟨hle, -⟩
      rw [hnone s hle] at hs
      cases hs
  · rw [hget s] at hs
    split at hs
    · exact hs
    · exact chainDigest_proved hs
  · rw [hisSome] at hs ⊢
    omega
  · rw [hisSome] at hs
    omega
  · intro hdone s hs
    obtain ⟨hend, hfrom⟩ := hcomplete hdone
    rw [hisSome, hall hfrom]
    omega

/-- **Preparing the chain** proves first revisions, and all of them where it is complete. -/
theorem prepareTraceChain_spec (sha256 : List UInt8 → Digest) (h : Chained db db.chainProofs) (slices : Option ℕ) :
    Prepared sha256 db (prepareTraceChain sha256 db slices).1 (prepareTraceChain sha256 db slices).2 := by
  have hstart : ∃ start previous, digestBefore sha256 db start = some previous ∧
      (∀ s, start ≤ s → db.chainProofs.get? s = none) ∧
      (∀ s < start, (db.chainProofs.get? s).isSome) ∧ start ≤ db.journal.latest + 1 ∧
      chainStart db = (start, previous) := by
    unfold chainStart
    cases hlast : lastUpTo db.chainProofs.get? db.journal.latest with
    | none =>
        refine ⟨0, _, rfl, fun s _ => ?_, fun s hs => by omega, Nat.zero_le _, rfl⟩
        by_contra hne
        have hsome := Option.isSome_iff_ne_none.2 hne
        exact hne (lastUpTo_eq_none hlast (h.within s hsome))
    | some e =>
        obtain ⟨r, digest⟩ := e
        obtain ⟨hle, hget⟩ := lastUpTo_le hlast
        refine ⟨r + 1, digest, chainDigest_proved hget, fun s hs => ?_, fun s hs => ?_,
          succ_le_succ hle, rfl⟩
        · by_contra hne
          have hsome := Option.isSome_iff_ne_none.2 hne
          exact hne (lastUpTo_after hlast (by exact hs) (h.within s hsome))
        · exact h.closed s r (le_of_lt_succ hs) (by rw [hget]; rfl)
  obtain ⟨start, previous, hprevious, hnone, hsome, hle, heq⟩ := hstart
  unfold prepareTraceChain
  rw [heq]
  dsimp only
  have hall : Prepared sha256 db (prepareFrom sha256 db.journal (db.journal.latest + 1 - start) start
      previous db.chainProofs).1 (prepareFrom sha256 db.journal (db.journal.latest + 1 - start) start
      previous db.chainProofs).2 :=
    prepared_from hprevious hnone hsome (by omega) fun hdone => ⟨by omega, hdone⟩
  cases slices with
  | none => exact hall
  | some k =>
      dsimp only
      split
      · exact prepared_from hprevious hnone hsome (by omega) fun hdone => (nomatch hdone)
      · exact hall

end

/-! ## The distinguished cell -/

/-- What holds of every database that commits and partitions lead to. -/
structure Sound (db : Database) : Prop where
  keyed : db.journal.Keyed
  null : db.journal.versions 0 nullId = some nullCell
  nulls : ∀ r c, db.journal.versions r nullId = some c → c = nullCell
  indexed : ∀ id row, db.current.get? id = some row → row.1 ≤ db.journal.latest
  chained : Chained db db.chainProofs

/-- A database with more versions of the distinguished cell. -/
structure NullsAdded (db db' : Database) : Prop where
  keyed : db'.journal.Keyed
  latest : db'.journal.latest = db.journal.latest
  deltas : db'.journal.deltas = db.journal.deltas
  versions : ∀ r id, id ≠ nullId → db'.journal.versions r id = db.journal.versions r id
  nulls : ∀ r, db'.journal.versions r nullId = db.journal.versions r nullId ∨
    db'.journal.versions r nullId = some nullCell
  chainProofs : db'.chainProofs = db.chainProofs
  retired : db'.retired = db.retired
  current : ∀ id, id ≠ nullId → db'.current.get? id = db.current.get? id
  indexed : ∀ id row, db'.current.get? id = some row → row.1 ≤ db'.journal.latest

variable {j : Journal} {replacements : Dict ℕ (List Cell)} {n expected : ℕ} {p : ArchiveProjection}
  {id : String} {refusal : Option CellError} {create replace : List Cell} {written : List Cell}

section

variable {hash : Cell → ℤ} {h : Hashes} {db db' db'' : Database} {call : Partition} {plan' : Plan}
  {r : ℕ}

theorem NullsAdded.refl (hkeyed : db.journal.Keyed)
    (hindexed : ∀ id row, db.current.get? id = some row → row.1 ≤ db.journal.latest) :
    NullsAdded db db :=
  ⟨hkeyed, rfl, rfl, fun _ _ _ => rfl, fun _ => .inl rfl, rfl, rfl, fun _ _ => rfl, hindexed⟩

theorem NullsAdded.trans (h : NullsAdded db db') (h' : NullsAdded db' db'') : NullsAdded db db'' where
  keyed := h'.keyed
  latest := h'.latest.trans h.latest
  deltas := h'.deltas.trans h.deltas
  versions r id hid := (h'.versions r id hid).trans (h.versions r id hid)
  nulls r := by
    rcases h'.nulls r with heq | heq
    · rw [heq]
      exact h.nulls r
    · exact .inr heq
  chainProofs := h'.chainProofs.trans h.chainProofs
  retired := h'.retired.trans h.retired
  current id hid := (h'.current id hid).trans (h.current id hid)
  indexed := h'.indexed

/-- The distinguished cell holds what it always held. -/
theorem at_null (hnull : j.versions 0 nullId = some nullCell)
    (hnulls : ∀ r c, j.versions r nullId = some c → c = nullCell) (r : ℕ) :
    j.at' r nullId = some nullCell := by
  induction r with
  | zero => exact hnull
  | succ r ih =>
      unfold Journal.at' at ih ⊢
      rw [Versions.latest_succ]
      cases hc : j.versions (r + 1) nullId with
      | none => exact ih
      | some c => rw [hnulls _ _ hc, some_or]

theorem NullsAdded.null (hadded : NullsAdded db db') (hs : Sound db) :
    db'.journal.versions 0 nullId = some nullCell ∧
      ∀ r c, db'.journal.versions r nullId = some c → c = nullCell := by
  refine ⟨?_, fun r c hc => ?_⟩
  · rcases hadded.nulls 0 with heq | heq
    · rw [heq]
      exact hs.null
    · exact heq
  · rcases hadded.nulls r with heq | heq
    · exact hs.nulls r c (heq.symm.trans hc)
    · rw [heq] at hc
      exact (Option.some.inj hc).symm

/-- **More versions of the distinguished cell change no revision.** -/
theorem NullsAdded.at_eq (hadded : NullsAdded db db') (hs : Sound db) (r : ℕ) (id : String) :
    db'.journal.at' r id = db.journal.at' r id := by
  by_cases hid : id = nullId
  · obtain ⟨hnull, hnulls⟩ := hadded.null hs
    rw [hid, at_null hs.null hs.nulls, at_null hnull hnulls]
  · exact Versions.latest_congr fun s _ => hadded.versions s id hid

theorem proveLive_ok {removed : List Cell}
    (hok : proveLive hash replacements db r removed = .ok db') (hkeyed : db.journal.Keyed)
    (hindexed : ∀ id row, db.current.get? id = some row → row.1 ≤ db.journal.latest)
    (hr : r ≤ db.journal.latest) : NullsAdded db db' := by
  unfold proveLive at hok
  dsimp only at hok
  split at hok
  · split at hok
    · cases hok
    · split at hok
      · cases hok
      · next row hrow =>
        cases hok
        refine ⟨Journal.keyed_set hkeyed hr rfl, rfl, rfl, fun s id hid => ?_, fun s => ?_, rfl, rfl,
          fun id hid => ?_, fun id row' hget => ?_⟩
        · rw [Journal.versions_insertVersion]
          exact if_neg fun hkey => hid hkey.2
        · rw [Journal.versions_insertVersion]
          unfold Versions.put
          split
          · exact .inr rfl
          · exact .inl rfl
        · dsimp only
          split
          · exact Dict.get?_set_of_ne _ _ hid
          · rfl
        · dsimp only at hget
          split at hget
          · rw [Dict.get?_set] at hget
            split at hget
            · cases hget
              exact hr
            · exact hindexed id row' hget
          · exact hindexed id row' hget
  · cases hok
    exact ⟨hkeyed, rfl, rfl, fun _ _ _ => rfl, fun _ => .inl rfl, rfl, rfl, fun _ _ => rfl, hindexed⟩

theorem proveAllLive_ok {removals : List (ℕ × List Cell)}
    (hok : proveAllLive hash replacements removals db = .ok db') (hkeyed : db.journal.Keyed)
    (hindexed : ∀ id row, db.current.get? id = some row → row.1 ≤ db.journal.latest)
    (hr : ∀ e ∈ removals, e.1 ≤ db.journal.latest) : NullsAdded db db' := by
  induction removals generalizing db with
  | nil =>
      cases hok
      exact .refl hkeyed hindexed
  | cons e rest ih =>
      obtain ⟨db₁, hstep, hrest⟩ := Check.bind_ok_iff.mp hok
      have hone := proveLive_ok hstep hkeyed hindexed (hr e mem_cons_self)
      refine hone.trans (ih hrest hone.keyed hone.indexed fun e' he' => ?_)
      rw [hone.latest]
      exact hr e' (mem_cons_of_mem _ he')

/-! ## What a plan promises -/

/-- The revisions of a plan are revisions there are. -/
def Plan.Within (plan : Plan) (n : ℕ) : Prop := ∀ s ∈ plan.versions.keys, s ≤ n

theorem within_extend {rows : Dict ℕ (List Cell)} {s : ℕ} {cells : List Cell}
    (hrows : ∀ t ∈ rows.keys, t ≤ n) (hs : s ≤ n) : ∀ t ∈ (extend rows s cells).keys, t ≤ n := by
  intro t ht
  rcases Dict.mem_keys_set.1 ht with rfl | ht
  · exact hs
  · exact hrows t ht

theorem within_planProjection {ps : List ArchiveProjection} (hplan : plan'.Within n)
    (hp : p.revision ≤ n) : (planProjection hash j ps plan' p).Within n := within_extend hplan hp

theorem within_planRows {rows : List (ℕ × Row)} {prior : ℤ} (hplan : plan'.Within n)
    (hrows : ∀ e ∈ rows, e.1 ≤ n) : (planRows hash prior rows plan').Within n := by
  induction rows generalizing prior plan' with
  | nil => exact hplan
  | cons e rest ih =>
      refine ih ?_ fun e' he' => hrows e' (mem_cons_of_mem _ he')
      exact within_extend hplan (hrows e mem_cons_self)

theorem history_within : ∀ e ∈ j.history id, e.1 ≤ j.latest := by
  intro e he
  obtain ⟨s, hs, heq⟩ := List.mem_filterMap.1 he
  obtain ⟨row, -, rfl⟩ := Option.map_eq_some_iff.1 heq
  exact le_of_lt_succ (List.mem_range.1 hs)

/-- A projection that passes its checks. -/
structure CheckedProjection (db : Database) (call : Partition) (p : ArchiveProjection) : Prop where
  other : p.new.id ∉ call.selected
  old : p.old = db.journal.versions p.revision p.new.id
  current : ∃ row, db.current.get? p.new.id = some row ∧ p.revision < row.1

theorem checkProjection_ok (hok : checkProjection h db call p = .ok ()) :
    CheckedProjection db call p := by
  unfold checkProjection at hok
  obtain ⟨-, hok⟩ := Check.seq_ok_iff.1 hok
  obtain ⟨hidentity, hok⟩ := Check.seq_ok_iff.1 hok
  obtain ⟨hobsolete, -⟩ := Check.seq_ok_iff.1 hok
  rw [require_ok_iff, decide_eq_true_eq] at hidentity
  rw [require_ok_iff] at hobsolete
  unfold isObsolete at hobsolete
  rw [Bool.and_eq_true, decide_eq_true_eq] at hobsolete
  obtain ⟨hold, hcurrent⟩ := hobsolete
  refine ⟨hidentity.2, hold.symm, ?_⟩
  obtain ⟨row, hrow, hlt⟩ := (Option.any_eq_true _ _).1 hcurrent
  exact ⟨row, hrow, by simpa using hlt⟩

/-- A sorted list of projections without repetitions is in order. -/
theorem ordered_of_checked (hok : checkSelection call = .ok ()) : Ordered call.ordered := by
  unfold checkSelection at hok
  obtain ⟨hnodup, -⟩ := Check.seq_ok_iff.1 hok
  rw [require_ok_iff, decide_eq_true_eq] at hnodup
  have hsorted : call.ordered.Pairwise fun p q =>
      decide (p.revision < q.revision ∨ p.revision = q.revision ∧ p.new.id ≤ q.new.id) = true := by
    refine pairwise_mergeSort (fun a b c hab hbc => ?_) (fun a b => ?_) _
    · rw [decide_eq_true_eq] at hab hbc ⊢
      rcases hab with hab | ⟨hab, hab'⟩
      · rcases hbc with hbc | ⟨hbc, -⟩
        · exact .inl (hab.trans hbc)
        · exact .inl (hab.trans_eq hbc)
      · rcases hbc with hbc | ⟨hbc, hbc'⟩
        · exact .inl (hab.trans_lt hbc)
        · exact .inr ⟨hab.trans hbc, hab'.trans hbc'⟩
    · rw [Bool.or_eq_true, decide_eq_true_eq, decide_eq_true_eq]
      rcases lt_trichotomy a.revision b.revision with hlt | heq | hlt
      · exact .inl (.inl hlt)
      · rcases le_total a.new.id b.new.id with hle | hle
        · exact .inl (.inr ⟨heq, hle⟩)
        · exact .inr (.inr ⟨heq.symm, hle⟩)
      · exact .inr (.inl hlt)
  have hdistinct := List.pairwise_map.1 hnodup
  refine (hsorted.and hdistinct).imp fun {p q} hpq => ?_
  obtain ⟨hle, hne⟩ := hpq
  rw [decide_eq_true_eq] at hle
  refine ⟨hle.elim le_of_lt fun heq => heq.1.le, fun hid => ?_⟩
  rcases hle with hlt | ⟨heq, -⟩
  · exact hlt
  · exact absurd (Prod.ext heq hid) hne

/-- What a plan promises. -/
structure Planned (h : Hashes) (db : Database) (call : Partition) (plan' : Plan) : Prop where
  checked : ∀ p ∈ call.ordered, CheckedProjection db call p
  within : plan'.Within db.journal.latest
  /-- The deltas of the projections, and then those of the identities. -/
  deltas : ∀ r ≤ db.journal.latest, deltasUpTo plan'.deltas r ≡
    deltasUpTo (call.ordered.foldl (planProjection (cellSetHash h.shake256) db.journal call.ordered)
      ⟨.empty, .empty, .empty⟩).deltas r
      + (call.selected.map fun id => weigh (cellSetHash h.shake256) (db.journal.at' r id)).sum
    [ZMOD setHashModulus]

theorem plan_ok (hok : plan h db call = .ok plan')
    (hindexed : ∀ id row, db.current.get? id = some row → row.1 ≤ db.journal.latest) :
    Planned h db call plan' := by
  unfold plan at hok
  obtain ⟨_, hprojections, hok⟩ := Check.bind_ok_iff.mp hok
  obtain ⟨-, -, hok⟩ := Check.bind_ok_iff.mp hok
  have hchecked : ∀ p ∈ call.ordered, CheckedProjection db call p := fun p hp =>
    checkProjection_ok (Check.each_ok_iff.1 hprojections p hp)
  cases hok
  refine ⟨hchecked, ?_, fun r hr => deltasUpTo_planAllRows _ _ hr _ _⟩
  refine @foldl_keeps _ _ _ (fun plan => Plan.Within plan db.journal.latest) _
    (fun id _ plan hplan => within_planRows hplan history_within) _ ?_
  refine @foldl_keeps _ _ _ (fun plan => Plan.Within plan db.journal.latest) _
    (fun p hp plan hplan => within_planProjection hplan ?_) _ (fun s hs => nomatch hs)
  obtain ⟨row, hrow, hlt⟩ := (hchecked p hp).current
  exact hlt.le.trans (hindexed _ _ hrow)

/-! ## The partition -/

/-- A call that names the distinguished cell nowhere. -/
def Partition.SparesNull (call : Partition) : Prop :=
  nullId ∉ call.identifiers ∧ ∀ p ∈ call.projections, p.new.id ≠ nullId

theorem Partition.mem_selected : id ∈ call.selected ↔ id ∈ call.identifiers :=
  mem_eraseDups

theorem Partition.mem_ordered : p ∈ call.ordered ↔ p ∈ call.projections :=
  (mergeSort_perm _ _).mem_iff

/-- What a transaction that is done leaves. -/
structure Transacted (h : Hashes) (db : Database) (call : Partition) (db' : Database) : Prop where
  keyed : db'.journal.Keyed
  latest : db'.journal.latest = db.journal.latest
  null : db'.journal.versions 0 nullId = some nullCell
  nulls : ∀ r c, db'.journal.versions r nullId = some c → c = nullCell
  /-- The rows that are left, and what is projected. -/
  versions : ∀ s id, id ≠ nullId → db'.journal.versions s id =
    (plannedCell call.ordered s id).or
      (if id ∈ call.selected then none else db.journal.versions s id)
  current : ∀ id, id ≠ nullId →
    db'.current.get? id = if id ∈ call.selected then none else db.current.get? id
  indexed : ∀ id row, db'.current.get? id = some row → row.1 ≤ db'.journal.latest
  chainProofs : db'.chainProofs = db.chainProofs
  retired : db'.retired = db.retired ++ call.selected.map fun id => h.sha256 (utf8 id)
  projected : ∀ p ∈ call.ordered, p.new.id ∉ call.selected ∧ (db.current.get? p.new.id).isSome
  logical : ∀ r ≤ db.journal.latest,
    logical (cellSetHash h.shake256) db'.journal r = logical (cellSetHash h.shake256) db.journal r

/-- What is left of the journal before the projections are written. -/
theorem deleted_balance (hash : Cell → ℤ) {proved : Database} (hs : Sound db) (hadded : NullsAdded db proved)
    (hnodup : call.selected.Nodup) (r : ℕ) :
    liveSum hash (deleteRows proved.journal call.selected) r =
      liveSum hash db.journal r
        - (call.selected.map fun id => weigh hash (db.journal.at' r id)).sum := by
  have hsame : liveSum hash proved.journal r = liveSum hash db.journal r :=
    liveSum_congr hs.keyed hadded.keyed (hadded.at_eq hs r)
  have hat : ∀ id, (deleteRows proved.journal call.selected).at' r id =
      if id ∈ call.selected then none else proved.journal.at' r id :=
    Versions.latest_dropped (Journal.versions_deleteRows _ _) r
  rw [liveSum_dropped hadded.keyed (Journal.keyed_deleteRows hadded.keyed _) hnodup hat, hsame]
  simp only [hadded.at_eq hs r]

theorem foldl_writeProjection_deltas (j : Journal) (ps : List ArchiveProjection) :
    (ps.foldl writeProjection j).deltas = j.deltas := by
  induction ps generalizing j with
  | nil => rfl
  | cons p ps ih => exact (ih _).trans (Journal.writeProjection_deltas j p)

/-- **A transaction moves what it takes from the live cells to the deltas.** -/
theorem transaction_ok (hs : Sound db) (hcall : call.SparesNull) (hordered : Ordered call.ordered)
    (hplan : Planned h db call plan') (hok : transaction h db call plan' = .ok db') :
    Transacted h db call db' := by
  have hnull : nullId ∉ call.selected := fun hmem => hcall.1 (Partition.mem_selected.1 hmem)
  have hother : ∀ p ∈ call.ordered, p.new.id ≠ nullId := fun p hp =>
    hcall.2 p (Partition.mem_ordered.1 hp)
  unfold transaction at hok
  obtain ⟨_, -, hok⟩ := Check.bind_ok_iff.mp hok
  obtain ⟨_, hidentities, hok⟩ := Check.bind_ok_iff.mp hok
  obtain ⟨proved, hproved, hok⟩ := Check.bind_ok_iff.mp hok
  rw [require_ok_iff, decide_eq_true_eq] at hidentities
  have hnodup : call.selected.Nodup := List.Nodup.of_map _ hidentities.1
  let merged : Database := { db with
    retired := db.retired ++ call.selected.map fun id => h.sha256 (utf8 id)
    journal := { db.journal with
      deltas := mergeDeltas db.journal.deltas plan'.deltas.entries } }
  have hmerged : Sound merged :=
    ⟨hs.keyed, hs.null, hs.nulls, hs.indexed, ⟨hs.chained.closed, hs.chained.within⟩⟩
  have hadded : NullsAdded merged proved := proveAllLive_ok hproved hmerged.keyed hmerged.indexed
    fun e he => hplan.within e.1 (List.mem_map.2 ⟨e, he, rfl⟩)
  let left := deleteRows proved.journal call.selected
  have hleft : ∀ s id, id ≠ nullId →
      left.versions s id = if id ∈ call.selected then none else db.journal.versions s id := by
    intro s id hid
    rw [Journal.versions_deleteRows, hadded.versions s id hid]
    rfl
  have hkept : ∀ p ∈ call.ordered, ∀ s,
      db.journal.versions s p.new.id = left.versions s p.new.id := by
    intro p hp s
    rw [hleft s _ (hother p hp), if_neg (hplan.checked p hp).other]
  have hproj : Projects left call.ordered := by
    refine ⟨hordered, fun p hp => ?_, fun p hp => ?_⟩
    · obtain ⟨row, hrow, hlt⟩ := (hplan.checked p hp).current
      exact (hlt.le.trans (hs.indexed _ _ hrow)).trans_eq hadded.latest.symm
    · rw [← hkept p hp]
      exact (hplan.checked p hp).old
  have hwritten : Written left call.ordered (call.ordered.foldl writeProjection left) :=
    written_all hproj rfl (.start (Journal.keyed_deleteRows hadded.keyed _))
  have hplanned : ∀ s, plannedCell call.ordered s nullId = none := fun s =>
    plannedCell_none fun p hp hid => absurd hid (hother p hp)
  have hnulls : ∀ s, (call.ordered.foldl writeProjection left).versions s nullId =
      proved.journal.versions s nullId := by
    intro s
    rw [hwritten.versions, hplanned, none_or, Journal.versions_deleteRows, if_neg hnull]
  obtain ⟨hzero, hall⟩ := hadded.null hmerged
  cases hok
  refine ⟨hwritten.keyed, hwritten.latest.trans hadded.latest, ?_, fun r c hc => ?_,
    fun s id hid => ?_, fun id hid => ?_, fun id row hget => ?_, hadded.chainProofs, hadded.retired,
    fun p hp => ⟨(hplan.checked p hp).other, ?_⟩, fun r hr => logical_congr ?_⟩
  · exact (hnulls 0).trans hzero
  · exact hall r c ((hnulls r).symm.trans hc)
  · exact (hwritten.versions s id).trans (by rw [hleft s id hid])
  · have hfilter := Dict.get?_filter_key (fun id => decide (id ∉ call.selected)) proved.current id
    refine hfilter.trans ?_
    rw [hadded.current id hid]
    by_cases hmem : id ∈ call.selected <;> simp [hmem, merged]
  · have hmem := mem_of_mem_filter (Dict.mem_entries_iff.2 hget)
    exact (hadded.indexed id row (Dict.mem_entries_iff.1 hmem)).trans_eq hwritten.latest.symm
  · obtain ⟨row, hrow, -⟩ := (hplan.checked p hp).current
    rw [hrow]
    rfl
  · have hbalance := projections_balance (cellSetHash h.shake256) ⟨.empty, .empty, .empty⟩ [] hproj
      hkept hr rfl (.start (Journal.keyed_deleteRows hadded.keyed _))
    have hdeltas : (call.ordered.foldl writeProjection left).deltas =
        mergeDeltas db.journal.deltas plan'.deltas.entries :=
      (foldl_writeProjection_deltas _ _).trans hadded.deltas
    have hlive : liveSum (cellSetHash h.shake256) merged.journal r =
        liveSum (cellSetHash h.shake256) db.journal r :=
      liveSum_congr hs.keyed hs.keyed fun _ => rfl
    have hleave := deleted_balance (cellSetHash h.shake256) hmerged hadded hnodup r
    rw [hlive] at hleave
    have hempty : deltasUpTo .empty r = 0 := rfl
    rw [hempty, zero_add, hleave] at hbalance
    have htable := (deltasUpTo_mergeDeltas db.journal.deltas plan'.deltas.entries r).trans
      ((hplan.deltas r hr).add_left _)
    dsimp only
    rw [hdeltas]
    refine (htable.add_left _).trans ?_
    have hsum := hbalance.add_right (deltasUpTo db.journal.deltas r +
      (call.selected.map fun id => weigh (cellSetHash h.shake256) (db.journal.at' r id)).sum)
    have hl : ∀ a b c d : ℤ, a + (b + (c + d)) = c + a + (b + d) := fun a b c d => by ring
    have hr' : ∀ a b c : ℤ, a - c + (b + c) = a + b := fun a b c => by ring
    rw [hl]
    refine hsum.trans ?_
    have hsame : merged.journal.at' r = db.journal.at' r := rfl
    rw [hsame, hr']

/-- A database with more of its digests proved is as sound. -/
theorem Sound.prepared {proofs : Dict ℕ Digest} (hs : Sound db) (hchained : Chained db proofs) :
    Sound { db with chainProofs := proofs } :=
  ⟨hs.keyed, hs.null, hs.nulls, hs.indexed, ⟨hchained.closed, hchained.within⟩⟩

/-- What a partition may lead to. -/
inductive Parted (h : Hashes) (db : Database) (call : Partition) :
    Except String Unit × Database → Prop
  /-- It is refused before anything is read. -/
  | refused (e : String) : Parted h db call (.error e, db)
  /-- It is refused, or rolled back, when some revisions are proved. -/
  | rolledBack (e : String) (complete : Bool) (proofs : Dict ℕ Digest)
      (hprepared : Prepared h.sha256 db complete proofs) :
      Parted h db call (.error e, { db with chainProofs := proofs })
  | done (proofs : Dict ℕ Digest) (hprepared : Prepared h.sha256 db true proofs)
      (db' : Database) (htransacted : Transacted h { db with chainProofs := proofs } call db') :
      Parted h db call (.ok (), db')

theorem partition_parted (hs : Sound db) (hcall : call.SparesNull) :
    Parted h db call (partitionVerifiedRows h db call) := by
  unfold partitionVerifiedRows
  split
  · exact .refused _
  · next hselection =>
    have hprepared := prepareTraceChain_spec h.sha256 hs.chained call.slices
    dsimp only
    split
    · exact .rolledBack _ _ _ hprepared
    · next hcomplete =>
      rw [Bool.not_eq_false] at hcomplete
      split
      · exact .rolledBack _ _ _ hprepared
      · next plan' hplan =>
        split
        · exact .rolledBack _ _ _ hprepared
        · next db' htransaction =>
          rw [hcomplete] at hprepared
          have hs' := hs.prepared hprepared.chained
          exact .done _ hprepared db' (transaction_ok hs' hcall (ordered_of_checked hselection)
            (plan_ok hplan hs'.indexed) htransaction)

/-- Every digest is proved before the rows leave. -/
theorem Transacted.chainDigest_eq {proofs : Dict ℕ Digest}
    (ht : Transacted h { db with chainProofs := proofs } call db')
    (hprepared : Prepared h.sha256 db true proofs) (hr : r ≤ db.journal.latest) :
    chainDigest h.sha256 db' r = chainDigest h.sha256 db r := by
  obtain ⟨digest, hdigest⟩ := Option.isSome_iff_exists.1 (hprepared.complete rfl r hr)
  have hproved : db'.chainProofs.get? r = some digest := by
    rw [ht.chainProofs]
    exact hdigest
  rw [chainDigest_proved hproved, hprepared.extends'.proves r digest hdigest]

theorem Transacted.sound (ht : Transacted h db call db') (hchained : Chained db db.chainProofs) :
    Sound db' where
  keyed := ht.keyed
  null := ht.null
  nulls := ht.nulls
  indexed := ht.indexed
  chained := by
    rw [ht.chainProofs]
    refine ⟨hchained.closed, fun s hsome => ?_⟩
    rw [ht.latest]
    exact hchained.within s hsome

/-! ## Runs -/

/-- What is done to an archived journal. -/
inductive Archiving
  | commit (refusal : Option CellError) (expected : ℕ) (create replace : List Cell)
  | partition (call : Partition)

/-- The commits and partitions of a journal. -/
def archives (h : Hashes) : Machine Database Archiving where
  step db
    | .commit refusal expected create replace =>
        (db.commit h refusal expected create replace).toOption.getD db
    | .partition call => (partitionVerifiedRows h db call).2

/-- No partition is of the distinguished cell: the callers leave out everything but the
content of a trace. -/
def Spares (_ : Database) : Archiving → Prop
  | .partition call => call.SparesNull
  | .commit .. => True

/-- What a commit that is done leaves. -/
theorem databaseCommit_ok (hok : db.commit h refusal expected create replace = .ok db') :
    archivedCreate h db create = none ∧
      ∃ written, delta (db.journal.at' db.journal.latest) create replace = .ok written ∧
        (db' = db ∨ db' = { db with
          journal := db.journal.append written
          current := db.current.update (written.map fun c => (c.id, (db.journal.latest + 1, c))) }) := by
  unfold Database.commit at hok
  split at hok
  · cases hok
  · split at hok
    · cases hok
    · split at hok
      · cases hok
      · next hcreate =>
        obtain ⟨written, hdelta, hok⟩ := Check.bind_ok_iff.mp hok
        refine ⟨hcreate, written, hdelta, ?_⟩
        split at hok
        · cases hok
          exact .inl rfl
        · cases hok
          exact .inr rfl

theorem get?_current {row : ℕ × Cell} {current : Dict String (ℕ × Cell)}
    (hget : (current.update (written.map fun c => (c.id, (r, c)))).get? id = some row) :
    id ∈ written.map Cell.id ∧ row.1 = r ∨ current.get? id = some row := by
  induction written generalizing current with
  | nil => exact .inr hget
  | cons c cs ih =>
      rcases ih hget with ⟨hmem, hrow⟩ | hget
      · exact .inl ⟨mem_cons_of_mem _ hmem, hrow⟩
      · rw [Dict.get?_set] at hget
        split at hget
        · next hid =>
          cases hget
          exact .inl ⟨by rw [hid]; exact mem_cons_self, rfl⟩
        · exact .inr hget

theorem Sound.commit (hs : Sound db) (hok : db.commit h refusal expected create replace = .ok db') :
    Sound db' := by
  obtain ⟨-, written, hdelta, rfl | rfl⟩ := databaseCommit_ok hok
  · exact hs
  · have hnull := at_null hs.null hs.nulls db.journal.latest
    have hfits := (delta_ok hdelta).fits (by rw [hnull]; rfl)
    have hcell : cellOf written nullId = none := cellOf_eq_none.2 hfits.null
    have hversions : ∀ s, (db.journal.append written).versions s nullId =
        if s = db.journal.latest + 1 then none else db.journal.versions s nullId := by
      intro s
      rw [Journal.versions_append hs.keyed hfits.nodup, hcell]
    refine ⟨Journal.keyed_append hs.keyed hfits.nodup, ?_, fun s c hc => ?_, fun id row hget => ?_,
      ⟨hs.chained.closed, fun s hsome => le_succ_of_le (hs.chained.within s hsome)⟩⟩
    · exact (hversions 0).trans ((if_neg (by omega)).trans hs.null)
    · rw [hversions s] at hc
      split at hc
      · cases hc
      · exact hs.nulls s c hc
    · rcases get?_current hget with ⟨-, hrow⟩ | hget
      · exact hrow.le
      · exact le_succ_of_le (hs.indexed id row hget)

theorem sound_new : Sound .new where
  keyed := (agrees_new (fun _ => 0) .memory).keyed
  null := rfl
  nulls r c hc := by
    unfold Database.new Journal.new Journal.versions at hc
    dsimp only at hc
    rw [Dict.get?_set] at hc
    split at hc
    · exact (Option.some.inj hc).symm
    · cases hc
  indexed id row hget := by
    unfold Database.new at hget
    dsimp only at hget
    rw [Dict.get?_set] at hget
    split at hget
    · rw [← Option.some.inj hget]
      exact le_rfl
    · cases hget
  chained := ⟨fun _ _ _ hsome => (nomatch hsome), fun _ hsome => (nomatch hsome)⟩

variable {a : Archiving}

theorem sound_step (ha : Spares db a) (hs : Sound db) : Sound ((archives h).step db a) := by
  cases a with
  | commit refusal expected create replace =>
      show Sound ((db.commit h refusal expected create replace).toOption.getD db)
      cases hok : db.commit h refusal expected create replace with
      | error e => exact hs
      | ok db' => exact hs.commit hok
  | partition call =>
      show Sound (partitionVerifiedRows h db call).2
      have hparted := partition_parted (h := h) hs ha
      generalize partitionVerifiedRows h db call = result at hparted
      cases hparted with
      | refused e => exact hs
      | rolledBack e complete proofs hprepared => exact hs.prepared hprepared.chained
      | done proofs hprepared db' htransacted =>
          exact htransacted.sound ⟨hprepared.chained.closed, hprepared.chained.within⟩

theorem sound_of_run (hrun : (archives h).Run Spares .new db) : Sound db :=
  hrun.invariant (fun _ _ ha hs => sound_step ha hs) sound_new

/-! ### Identities that left -/

/-- An identity left, and is remembered. -/
structure Gone (h : Hashes) (id : String) (db : Database) : Prop where
  ne : id ≠ nullId
  retired : h.sha256 (utf8 id) ∈ db.retired
  versions : ∀ r, db.journal.versions r id = none
  current : db.current.get? id = none

variable {id : String}

theorem Gone.at_none (hgone : Gone h id db) (r : ℕ) : db.journal.at' r id = none :=
  Versions.latest_eq_none fun s _ => hgone.versions s

/-- **It cannot be created**, and it cannot be replaced. -/
theorem Gone.unwritten (hgone : Gone h id db) (hcreate : archivedCreate h db create = none)
    (hdelta : delta (db.journal.at' db.journal.latest) create replace = .ok written) :
    id ∉ create.map Cell.id ∧ id ∉ written.map Cell.id := by
  have hchecked := delta_ok hdelta
  have hcreated : id ∉ create.map Cell.id := by
    intro hmem
    obtain ⟨c, hc, rfl⟩ := List.mem_map.1 hmem
    have hnot := List.find?_eq_none.1 hcreate c hc
    exact hnot (by simpa using hgone.retired)
  refine ⟨hcreated, fun hmem => ?_⟩
  rw [hchecked.shape, map_append, mem_append] at hmem
  rcases hmem with hmem | hmem
  · exact hcreated hmem
  · obtain ⟨c, hc, rfl⟩ := List.mem_map.1 hmem
    have hheld := (hchecked.held c (mem_of_mem_filter hc)).2
    rw [hgone.at_none] at hheld
    cases hheld

theorem Gone.commit (hs : Sound db) (hgone : Gone h id db)
    (hok : db.commit h refusal expected create replace = .ok db') : Gone h id db' := by
  obtain ⟨hcreate, written, hdelta, rfl | rfl⟩ := databaseCommit_ok hok
  · exact hgone
  · obtain ⟨-, hunwritten⟩ := hgone.unwritten hcreate hdelta
    have hnodup := (delta_ok hdelta).written_nodup
    refine ⟨hgone.ne, hgone.retired, fun r => ?_, ?_⟩
    · dsimp only
      rw [Journal.versions_append hs.keyed hnodup, cellOf_eq_none.2 hunwritten, hgone.versions, ite_self]
    · dsimp only
      by_contra hne
      obtain ⟨row, hget⟩ := Option.ne_none_iff_exists'.1 hne
      rcases get?_current hget with ⟨hmem, -⟩ | hget
      · exact hunwritten hmem
      · rw [hgone.current] at hget
        cases hget

theorem Gone.transacted (hgone : Gone h id db) (ht : Transacted h db call db') : Gone h id db' := by
  refine ⟨hgone.ne, ?_, fun r => ?_, ?_⟩
  · rw [ht.retired]
    exact mem_append_left _ hgone.retired
  · rw [ht.versions r id hgone.ne, plannedCell_none, hgone.versions, ite_self, none_or]
    rintro p hp rfl
    have hsome := (ht.projected p hp).2
    rw [hgone.current] at hsome
    cases hsome
  · rw [ht.current id hgone.ne, hgone.current, ite_self]

/-- The identities of a partition leave by it. -/
theorem Transacted.gone (ht : Transacted h db call db') (hne : id ≠ nullId)
    (hmem : id ∈ call.selected) : Gone h id db' := by
  refine ⟨hne, ?_, fun r => ?_, ?_⟩
  · rw [ht.retired]
    exact mem_append_right _ (List.mem_map.2 ⟨id, hmem, rfl⟩)
  · rw [ht.versions r id hne, plannedCell_none, none_or, if_pos hmem]
    rintro p hp rfl
    exact absurd hmem (ht.projected p hp).1
  · rw [ht.current id hne, if_pos hmem]

theorem gone_step (ha : Spares db a) (hs : Sound db) (hgone : Gone h id db) :
    Gone h id ((archives h).step db a) := by
  cases a with
  | commit refusal expected create replace =>
      show Gone h id ((db.commit h refusal expected create replace).toOption.getD db)
      cases hok : db.commit h refusal expected create replace with
      | error e => exact hgone
      | ok db' => exact hgone.commit hs hok
  | partition call =>
      show Gone h id (partitionVerifiedRows h db call).2
      have hparted := partition_parted (h := h) hs ha
      generalize partitionVerifiedRows h db call = result at hparted
      cases hparted with
      | refused e => exact hgone
      | rolledBack e complete proofs hprepared =>
          exact ⟨hgone.ne, hgone.retired, hgone.versions, hgone.current⟩
      | done proofs hprepared db' htransacted =>
          have hgone' : Gone h id { db with chainProofs := proofs } :=
            ⟨hgone.ne, hgone.retired, hgone.versions, hgone.current⟩
          exact hgone'.transacted htransacted

theorem gone_of_run (hs : Sound db) (hgone : Gone h id db) (hrun : (archives h).Run Spares db db') :
    Gone h id db' :=
  hrun.invariant_of (fun _ _ ha hs => sound_step ha hs) (fun _ _ ha hs hg => gone_step ha hs hg) hs hgone

end

/-! ## The partition keeps the commitments -/

/-- **Archiving keeps the commitments.**  Of a database that commits and partitions lead to:
a partition that is done keeps the accumulator and the chain digest of every revision, and
from then on no commit creates an identity that left, whatever is done; one that is not done
leaves every table, but for proofs of digests that the journal has. -/
theorem commitments_preserved (h : Hashes) {db : Database}
    (hrun : (archives h).Run Spares .new db) {call : Partition} (hcall : call.SparesNull) :
    ((partitionVerifiedRows h db call).1 = .ok () →
      (∀ r ≤ db.journal.latest,
        logical (cellSetHash h.shake256) (partitionVerifiedRows h db call).2.journal r =
            logical (cellSetHash h.shake256) db.journal r ∧
          chainDigest h.sha256 (partitionVerifiedRows h db call).2 r = chainDigest h.sha256 db r) ∧
      ∀ id ∈ call.identifiers, ∀ db',
        (archives h).Run Spares (partitionVerifiedRows h db call).2 db' →
          (∀ r, db'.journal.at' r id = none) ∧
          ∀ refusal expected create replace db'',
            db'.commit h refusal expected create replace = .ok db'' → id ∉ create.map Cell.id) ∧
    ∀ e, (partitionVerifiedRows h db call).1 = .error e →
      ∃ proofs, (partitionVerifiedRows h db call).2 = { db with chainProofs := proofs } ∧
        (∀ s digest, db.chainProofs.get? s = some digest → proofs.get? s = some digest) ∧
        (∀ s digest, proofs.get? s = some digest → chainDigest h.sha256 db s = some digest) ∧
        ∀ r, chainDigest h.sha256 (partitionVerifiedRows h db call).2 r = chainDigest h.sha256 db r := by
  have hs := sound_of_run hrun
  have hparted := partition_parted (h := h) hs hcall
  generalize partitionVerifiedRows h db call = result at hparted ⊢
  cases hparted with
  | refused e =>
      exact ⟨fun hok => (nomatch hok), fun e' _ => ⟨db.chainProofs, rfl, fun _ _ hs => hs,
        fun _ _ hs => chainDigest_proved hs, fun _ => rfl⟩⟩
  | rolledBack e complete proofs hprepared =>
      exact ⟨fun hok => (nomatch hok), fun e' _ => ⟨proofs, rfl, hprepared.extends'.keeps,
        hprepared.extends'.proves, hprepared.extends'.chainDigest_eq⟩⟩
  | done proofs hprepared db' ht =>
      refine ⟨fun _ => ⟨fun r hr => ⟨ht.logical r hr, ?_⟩, fun id hid db'' hrun' => ?_⟩,
        fun e herror => (nomatch herror)⟩
      · exact ht.chainDigest_eq hprepared hr
      · have hne : id ≠ nullId := by
          rintro rfl
          exact hcall.1 hid
        have hs' : Sound db' :=
          ht.sound ⟨hprepared.chained.closed, hprepared.chained.within⟩
        have hgone := gone_of_run hs' (ht.gone hne (Partition.mem_selected.2 hid)) hrun'
        refine ⟨hgone.at_none, fun refusal expected create replace db₃ hok => ?_⟩
        obtain ⟨hcreate, written, hdelta, -⟩ := databaseCommit_ok hok
        exact (hgone.unwritten hcreate hdelta).1

/-! ### Whole runs -/

section

variable {h : Hashes} {db db' : Database} {r : ℕ}

/-- What is appended is of no revision there was. -/
theorem Journal.written_append {cs : List Cell} (hkeyed : j.Keyed) (hnodup : (cs.map Cell.id).Nodup)
    (hr : r ≤ j.latest) : (j.append cs).written r = j.written r := by
  have hnew : ∀ e ∈ Journal.rowsOf (j.latest + 1) (Journal.newestRow j.rows.entries + 1) cs,
      e.1.1 = j.latest + 1 := fun e he => (Journal.mem_rowsOf he).1
  have hentries := Dict.entries_update_of_new (d := j.rows)
    (Journal.nodup_rowsOf (Journal.newestRow j.rows.entries + 1) hnodup) fun e he => by
      by_contra hne
      obtain ⟨row, hrow⟩ := Option.ne_none_iff_exists'.1 hne
      have hle := (hkeyed _ _ hrow).1
      have heq := hnew e he
      omega
  unfold Journal.append Journal.written
  dsimp only
  rw [hentries, filter_append]
  have hnil : (Journal.rowsOf (j.latest + 1) (Journal.newestRow j.rows.entries + 1) cs).filter
      (fun e => decide (e.1.1 = r)) = [] := by
    refine List.filter_eq_nil_iff.2 fun e he heq => ?_
    rw [decide_eq_true_eq, hnew e he] at heq
    omega
  rw [hnil, append_nil]

theorem chainDigest_append {sha256 : List UInt8 → Digest} {written : List Cell}
    {current : Dict String (ℕ × Cell)} (hkeyed : db.journal.Keyed)
    (hnodup : (written.map Cell.id).Nodup) (hr : r ≤ db.journal.latest) :
    chainDigest sha256 { db with journal := db.journal.append written, current := current } r =
      chainDigest sha256 db r := by
  induction r with
  | zero =>
      unfold chainDigest orderedRevision
      dsimp only
      rw [Journal.written_append hkeyed hnodup hr]
  | succ r ih =>
      rw [chainDigest, chainDigest, ih (le_of_succ_le hr)]
      unfold orderedRevision
      dsimp only
      rw [Journal.written_append hkeyed hnodup hr]

end

/-! ### Two calls -/

/-- Hash functions for the examples. -/
def plainHashes : Hashes := ⟨fun bytes => bytes, fun _ => 5, fun _ _ => ""⟩

/-- A cell that is created, and replaced. -/
def tracedDatabase : Database :=
  [Archiving.commit none 0 [⟨"a", nullId, "a", []⟩] [], .commit none 1 [] [⟨"a", nullId, "a", [1]⟩]].foldl
    (archives plainHashes).step .new

/-- The partition of both of its versions. -/
def tracedPartition : Partition where
  cold := ⟨tracedDatabase.current, tracedDatabase.journal.rows⟩
  identifiers := ["a"]
  projections := []
  expected := some 2
  slices := none
  stopped := false

theorem commitments_preserved_traced :
    (partitionVerifiedRows plainHashes tracedDatabase tracedPartition).1 = .ok () ∧
      logical (cellSetHash plainHashes.shake256)
          (partitionVerifiedRows plainHashes tracedDatabase tracedPartition).2.journal 2 =
        logical (cellSetHash plainHashes.shake256) tracedDatabase.journal 2 := by
  have hrun : (archives plainHashes).Run Spares .new tracedDatabase :=
    .snoc (.snoc (.refl _) (Archiving.commit none 0 [⟨"a", nullId, "a", []⟩] []) trivial)
      (Archiving.commit none 1 [] [⟨"a", nullId, "a", [1]⟩]) trivial
  have hcall : tracedPartition.SparesNull := ⟨by decide, fun p hp => nomatch hp⟩
  have hok : (partitionVerifiedRows plainHashes tracedDatabase tracedPartition).1 = .ok () := by
    decide +kernel
  have hlatest : 2 ≤ tracedDatabase.journal.latest := by decide +kernel
  exact ⟨hok, (((commitments_preserved plainHashes hrun hcall).1 hok).1 2 hlatest).1⟩

/-- A partition of an identity that there is not. -/
def strayPartition : Partition where
  cold := ⟨.empty, .empty⟩
  identifiers := ["x"]
  projections := []
  expected := none
  slices := none
  stopped := false

/-- A partition that is refused may leave a proof of a digest. -/
theorem partition_refused_proves : ¬∀ h db, (archives h).Run Spares .new db → ∀ call : Partition,
    call.SparesNull → ∀ e, (partitionVerifiedRows h db call).1 = .error e →
      (partitionVerifiedRows h db call).2 = db := by
  intro hall
  have hcall : strayPartition.SparesNull := ⟨by decide, fun p hp => nomatch hp⟩
  have herror : (partitionVerifiedRows plainHashes .new strayPartition).1 =
      .error "archive partition current readback differs" := by
    decide +kernel
  have hproof : ((partitionVerifiedRows plainHashes .new strayPartition).2.chainProofs.get? 0).isSome :=
    by decide +kernel
  rw [hall plainHashes .new (.refl _) strayPartition hcall _ herror] at hproof
  cases hproof

end ArchHub.Cells

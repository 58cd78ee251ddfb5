import Mathlib
import ArchHub.Lease.Agreement

/-!
# Records in step

A new record of a kind at its bound takes the place of the oldest ones that may retire.  The
memory pops them in a loop over the times and keys of the kind, the tables delete what a query
answers: `retired` says that the two leave the same records when no two were written at the same
time.  Events are numbered on both sides, and beyond the bound of their kind the oldest go
(`recordEvent`).

A kind is never beyond its bound (`Mirrored.bounded`), so one record retires at most and a put
that still finds the bound reached has retired none.
-/

namespace ArchHub.Lease

open Lib List Check

variable {Payload : Type} {t : Tables} {m : Memory}

namespace Mirrored

theorem record (h : Mirrored t m) (key : String × String) :
    m.records.get? key = Rows.select Record.key key t.records := by
  rw [h.records.get?, Option.map_id_apply]

theorem withRecords (h : Mirrored t m) {rows : List (Record String)}
    {records : Dict (String × String) (Record String)}
    (hrows : Rows.Mirrors Record.key id rows records) (htimes : (rows.map Record.updatedAt).Nodup)
    (hbounded : ∀ kind, rows.countP (fun r => decide (r.kind = kind)) ≤ operationalRecordLimit) :
    Mirrored { t with records := rows } { m with records := records } :=
  { h with records := hrows, times := htimes, bounded := hbounded }

/-! ## Retirement -/

/-- The times and keys of a kind are those of its rows, the oldest first. -/
theorem sameKind (h : Mirrored t m) (kind : String) :
    m.sameKind kind = (Rows.orderBy Record.updatedAt
      (t.records.filter fun r => decide (r.kind = kind))).map fun r => (r.updatedAt, r.key) := by
  have hrows : (m.records.entries.filter fun e => decide (e.1.1 = kind)).map
      (fun e => (e.2.updatedAt, e.1)) =
        (t.records.filter fun r => decide (r.kind = kind)).map fun r => (r.updatedAt, r.key) := by
    rw [show m.records.entries = t.records.map fun r => (r.key, id r) from h.records,
      filter_map, map_map]
    rfl
  have htimes : ((t.records.filter fun r => decide (r.kind = kind)).map Record.updatedAt).Nodup :=
    h.times.sublist (List.filter_sublist.map _)
  unfold Memory.sameKind
  rw [hrows]
  refine (Rows.eq_orderBy (List.pairwise_map.2 ?_) ((Rows.perm_orderBy _ _).map _)).symm
  exact (Rows.strict_orderBy htimes).imp fun hlt => Prod.Lex.toLex_lt_toLex.2 (Or.inl hlt)

theorem length_sameKind (h : Mirrored t m) (kind : String) :
    (m.sameKind kind).length = t.countOf kind := by
  rw [h.sameKind, length_map, (Rows.perm_orderBy _ _).length_eq]
  exact List.countP_eq_length_filter.symm

end Mirrored

/-- The loop pops the first rows that may retire. -/
theorem retireOldest_eq (retire : List String) {rows : List (Record String)}
    {records : Dict (String × String) (Record String)} (hkeys : (rows.map Record.key).Nodup)
    (hrows : ∀ r ∈ rows, records.get? r.key = some r) (n : ℕ) :
    Memory.retireOldest retire n (rows.map fun r => (r.updatedAt, r.key)) records =
      ((rows.filter fun r => decide (r.state ∈ retire)).take n).foldl
        (fun records r => records.erase r.key) records := by
  induction rows generalizing n records with
  | nil => cases n <;> rfl
  | cons r rows ih =>
      obtain ⟨hr, hrest⟩ := List.nodup_cons.1 hkeys
      cases n with
      | zero => rfl
      | succ n =>
          rw [map_cons, Memory.retireOldest, hrows r mem_cons_self]
          by_cases hstate : r.state ∈ retire
          · have herased : ∀ s ∈ rows, (records.erase r.key).get? s.key = some s := by
              intro s hs
              have hne : s.key ≠ r.key := fun heq => hr (List.mem_map.2 ⟨s, hs, heq⟩)
              rw [Dict.get?_erase, if_neg hne]
              exact hrows s (mem_cons_of_mem r hs)
            simp only [if_pos hstate]
            rw [ih hrest herased, filter_cons, if_pos (decide_eq_true hstate),
              take_succ_cons, foldl_cons]
          · simp only [if_neg hstate]
            rw [ih hrest (fun s hs => hrows s (mem_cons_of_mem r hs)), filter_cons,
              if_neg (by simpa using hstate)]

namespace Mirrored

variable {p : Put Payload} {n : ℕ} {r : Record String} {text : String} {updatedAt : ℚ}

/-- What retires is of the table. -/
theorem mem_of_mem_oldest (hr : r ∈ t.oldest p n) : r ∈ t.records ∧ r.kind = p.kind := by
  have hmem := (Rows.perm_orderBy _ _).mem_iff.1 (mem_of_mem_take hr)
  obtain ⟨hrecords, hkind⟩ := List.mem_filter.1 hmem
  exact ⟨hrecords, (of_decide_eq_true hkind).1⟩

/-- **The loop of the memory pops the records that the query of the tables deletes.** -/
theorem popped (h : Mirrored t m) (p : Put Payload) (n : ℕ) :
    Memory.retireOldest p.retireStates n (m.sameKind p.kind) m.records =
      (t.oldest p n).foldl (fun records r => records.erase r.key) m.records := by
  have hkeys : (t.records.map Record.key).Nodup := h.records.nodup
  have hperm := Rows.perm_orderBy Record.updatedAt
    (t.records.filter fun r => decide (r.kind = p.kind))
  have hrows : ((Rows.orderBy Record.updatedAt
      (t.records.filter fun r => decide (r.kind = p.kind))).map Record.key).Nodup :=
    (hperm.map _).nodup_iff.2 (hkeys.sublist (List.filter_sublist.map _))
  have htimes : ((t.records.filter fun r => decide (r.kind = p.kind)).map Record.updatedAt).Nodup :=
    h.times.sublist (List.filter_sublist.map _)
  rw [h.sameKind, retireOldest_eq _ hrows ?_]
  · unfold Tables.oldest
    rw [← Rows.orderBy_filter htimes, filter_filter]
    congr 4
    funext r
    rw [Bool.decide_and, Bool.and_comm]
  · intro r hr
    rw [h.record]
    exact Rows.select_of_mem hkeys (List.mem_filter.1 (hperm.mem_iff.1 hr)).1

/-- What is left when the oldest are deleted is left when they are popped. -/
theorem delete_oldest (h : Mirrored t m) (p : Put Payload) (n : ℕ) :
    Rows.Mirrors Record.key id (t.records.filter fun r => decide (r ∉ t.oldest p n))
      ((t.oldest p n).foldl (fun records r => records.erase r.key) m.records) := by
  have hkeys : (t.records.map Record.key).Nodup := h.records.nodup
  convert h.records.deleteAll (t.oldest p n) using 1
  refine filter_congr fun r hr => ?_
  rw [decide_eq_decide, not_iff_not, mem_map]
  constructor
  · exact fun hmem => ⟨r, hmem, rfl⟩
  · rintro ⟨s, hs, heq⟩
    rwa [← Rows.eq_of_key hkeys (mem_of_mem_oldest hs).1 hr heq]

/-- The records of both sides retire alike. -/
theorem retired (h : Mirrored t m) (p : Put Payload) : Mirrored (t.retired p) (m.retired p) := by
  unfold Tables.retired Memory.retired
  dsimp only
  rw [h.length_sameKind]
  split
  · have hsub : (t.records.filter fun r => decide (r ∉ t.oldest p
        (t.countOf p.kind - operationalRecordLimit + 1))).Sublist t.records := filter_sublist
    rw [h.popped]
    refine h.withRecords (h.delete_oldest p _) (h.times.sublist (hsub.map _)) fun kind => ?_
    exact (hsub.countP_le).trans (h.bounded kind)
  · exact h

/-- The table after the retirement is a selection of the table before. -/
theorem exists_retired_eq (p : Put Payload) (t : Tables) :
    ∃ q, (t.retired p).records = t.records.filter q := by
  unfold Tables.retired
  split
  · exact ⟨_, rfl⟩
  · exact ⟨fun _ => true, (filter_true _).symm⟩

/-- The times and keys that are left in the memory are as many as the rows. -/
theorem length_left (h : Mirrored t m) (p : Put Payload) :
    ((m.sameKind p.kind).filter fun item => (m.retired p).records.contains item.2).length =
      (t.retired p).countOf p.kind := by
  have hkeys : (t.records.map Record.key).Nodup := h.records.nodup
  have hretired := h.retired p
  obtain ⟨q, hq⟩ := exists_retired_eq p t
  have hcontains : ∀ r ∈ t.records, (m.retired p).records.contains r.key = true ↔ q r = true := by
    intro r hr
    rw [Dict.contains, hretired.record]
    constructor
    · intro hsome
      obtain ⟨s, hs⟩ := Option.isSome_iff_exists.1 hsome
      have hmem := Rows.mem_of_select hs
      rw [hq, mem_filter] at hmem
      have heq : r = s := Rows.eq_of_key hkeys hr hmem.1 (Rows.key_of_select hs).symm
      rw [heq]
      exact hmem.2
    · intro hqr
      have hmem : r ∈ (t.retired p).records := hq ▸ List.mem_filter.2 ⟨hr, hqr⟩
      rw [Rows.select_of_mem hretired.records.nodup hmem]
      rfl
  rw [h.sameKind, filter_map, length_map, ← countP_eq_length_filter,
    (Rows.perm_orderBy _ _).countP_eq, countP_filter]
  unfold Tables.countOf
  rw [hq, countP_filter]
  refine countP_congr fun r hr => ?_
  simp only [Function.comp_apply, Bool.and_eq_true, hcontains r hr]
  exact and_comm

/-- A record that retires leaves room. -/
theorem countOf_retired_lt
    (hretire : operationalRecordLimit ≤ t.countOf p.kind ∧ p.retireStates ≠ [])
    (hr : r ∈ t.oldest p (t.countOf p.kind - operationalRecordLimit + 1)) :
    (t.retired p).countOf p.kind < t.countOf p.kind := by
  obtain ⟨hrecords, hkind⟩ := mem_of_mem_oldest hr
  have hbefore : t.countOf p.kind = (t.records.filter fun s => decide (s.kind = p.kind)).length :=
    countP_eq_length_filter
  have hafter : (t.retired p).countOf p.kind =
      (t.records.filter fun s => decide (s.kind = p.kind)).countP fun s => decide
        (s ∉ t.oldest p (t.countOf p.kind - operationalRecordLimit + 1)) := by
    unfold Tables.retired
    rw [if_pos hretire, countP_filter]
    show (t.records.filter _).countP _ = _
    rw [countP_filter]
    exact countP_congr fun s _ => by rw [Bool.and_comm]
  rw [hafter, hbefore]
  refine List.countP_lt_length_iff.2 ?_
  rw [← hbefore]
  exact ⟨r, List.mem_filter.2 ⟨hrecords, decide_eq_true hkind⟩, by simpa using hr⟩

/-- When the bound is still reached after the retirement, none has retired. -/
theorem retired_eq_self (h : Mirrored t m) (p : Put Payload)
    (hfull : operationalRecordLimit ≤ (t.retired p).countOf p.kind) : m.retired p = m := by
  unfold Memory.retired
  dsimp only
  rw [h.length_sameKind]
  split
  · next hretire =>
      have hcount : t.countOf p.kind = operationalRecordLimit :=
        le_antisymm (h.bounded p.kind) hretire.1
      rw [h.popped]
      cases hold : t.oldest p (t.countOf p.kind - operationalRecordLimit + 1) with
      | nil => rfl
      | cons r rest =>
          have hmem : r ∈ t.oldest p (t.countOf p.kind - operationalRecordLimit + 1) :=
            hold ▸ mem_cons_self
          refine absurd hfull (not_le.2 ?_)
          rw [← hcount]
          exact countOf_retired_lt hretire hmem
  · rfl

/-! ## Puts -/

/-- A put that the tables refuse is refused by the memory, which is as before. -/
theorem writeRecord_error (h : Mirrored t m) {codec : Codec Payload} {e : Refusal}
    (hwrite : t.writeRecord p text updatedAt = .error e) :
    m.putMemoryRecord codec p text updatedAt = (m, .error e) := by
  unfold Tables.writeRecord at hwrite
  unfold Memory.putMemoryRecord
  rw [h.record]
  cases hrow : Rows.select Record.key (p.kind, p.recordRoot) t.records with
  | none =>
      simp only [hrow] at hwrite
      cases hexpected : p.expectedGeneration with
      | some expected =>
          simp only [hexpected, Check.require, Option.isNone_some] at hwrite
          cases hwrite
          simp
      | none =>
          simp only [hexpected, Option.isNone_none, require_true, ok_bind] at hwrite
          simp only [ne_eq, not_true, if_false, h.length_left]
          by_cases hfull : operationalRecordLimit ≤ (t.retired p).countOf p.kind
          · simp only [Check.require, decide_eq_false (not_lt.2 hfull)] at hwrite
            cases hwrite
            rw [if_pos hfull, h.retired_eq_self p hfull]
          · rw [decide_eq_true (not_le.1 hfull)] at hwrite
            cases hwrite
  | some row =>
      simp only [hrow] at hwrite
      dsimp only
      cases hnext : row.next p with
      | error e' =>
          rw [hnext] at hwrite
          cases hwrite
          rfl
      | ok generation =>
          rw [hnext] at hwrite
          cases hwrite

/-- A put that the tables accept stores the record that the memory stores. -/
theorem writeRecord_ok (h : Mirrored t m) (codec : Codec Payload)
    (hfresh : ∀ r ∈ t.records, r.updatedAt ≠ updatedAt) {t' : Tables} {generation : ℕ}
    (hwrite : t.writeRecord p text updatedAt = .ok (t', generation)) :
    ∃ m' : Memory, m.putMemoryRecord codec p text updatedAt = m'.store codec p text updatedAt generation ∧
      Mirrored t' { m' with
        records := m'.records.set (p.kind, p.recordRoot) (p.record text updatedAt generation) } := by
  unfold Tables.writeRecord at hwrite
  unfold Memory.putMemoryRecord
  rw [h.record]
  cases hrow : Rows.select Record.key (p.kind, p.recordRoot) t.records with
  | none =>
      simp only [hrow] at hwrite
      cases hexpected : p.expectedGeneration with
      | some expected =>
          simp only [hexpected, Check.require, Option.isNone_some] at hwrite
          cases hwrite
      | none =>
          simp only [hexpected, Option.isNone_none, require_true, ok_bind] at hwrite
          obtain ⟨_, hroom, hok⟩ := Check.bind_ok_iff.1 hwrite
          replace hroom := of_decide_eq_true (Check.require_ok_iff.1 hroom)
          cases hok
          refine ⟨m.retired p, ?_, ?_⟩
          · simp only [ne_eq, not_true, if_false, h.length_left, if_neg (not_le.2 hroom)]
          · have hretired := h.retired p
            obtain ⟨q, hq⟩ := exists_retired_eq p t
            have hnew : Rows.select Record.key (p.kind, p.recordRoot) (t.retired p).records = none := by
              rw [Rows.select_eq_none] at hrow ⊢
              exact fun r hr => hrow r (List.mem_filter.1 (hq ▸ hr)).1
            refine hretired.withRecords
              (hretired.records.insert (r := p.record text updatedAt 1) hnew) ?_ fun kind => ?_
            · rw [map_append, map_singleton, nodup_append]
              refine ⟨hretired.times, nodup_singleton _, ?_⟩
              intro x hx y hy
              obtain ⟨r, hr, rfl⟩ := List.mem_map.1 hx
              rw [List.mem_singleton.1 hy]
              exact hfresh r (List.mem_filter.1 (hq ▸ hr)).1
            · rw [countP_append, countP_singleton]
              by_cases hkind : (p.record text updatedAt 1).kind = kind
              · subst hkind
                rw [if_pos (decide_eq_true rfl)]
                exact hroom
              · rw [if_neg (by simpa using hkind)]
                exact hretired.bounded kind
  | some row =>
      simp only [hrow] at hwrite
      obtain ⟨_, hnext, hok⟩ := Check.bind_ok_iff.1 hwrite
      cases hok
      refine ⟨m, by simp only [hnext], ?_⟩
      have hkey : row.key = (p.kind, p.recordRoot) := Rows.key_of_select hrow
      let write (row : Record String) : Record String :=
        { row with
          state := p.state, generation := generation
          authorityRevision := p.authorityRevision, updatedAt := updatedAt, payload := text }
      have hrows := h.records.update (f := write) hrow hkey
      have howner : row.ownerRoot = p.ownerRoot := by
        obtain ⟨_, -, hrest⟩ := Check.bind_ok_iff.1 hnext
        obtain ⟨_, howner, -⟩ := Check.bind_ok_iff.1 hrest
        exact of_decide_eq_true (Check.require_ok_iff.1 howner)
      have hwritten : write row = p.record text updatedAt generation := by
        unfold write Put.record
        obtain ⟨hkind, hroot⟩ := Prod.mk.inj hkey
        rw [hkind, hroot, howner]
      rw [hwritten] at hrows
      refine h.withRecords hrows ?_ fun kind => ?_
      · exact Rows.nodup_update h.records.nodup h.times hfresh fun _ => rfl
      · refine le_of_eq_of_le ?_ (h.bounded kind)
        unfold Rows.update Tables.countOf
        rw [countP_map]
        refine countP_congr fun r _ => ?_
        rw [Function.comp_apply]
        split <;> rfl

/-! ## Events -/

theorem withEvents (h : Mirrored t m) {events : List (Event String)}
    (hascending : events.Pairwise fun a b => a.sequence < b.sequence)
    (hbehind : ∀ e ∈ events, e.sequence ≤ n) :
    Mirrored { t with events := events, eventSequence := n }
      { m with events := events, eventSequence := n } :=
  { h with events := rfl, eventSequence := rfl, ascending := hascending, behind := hbehind }

/-- The events of both sides are recorded and pruned alike. -/
theorem recordEvent (h : Mirrored t m) (p : Put Payload) (text : String) (updatedAt : ℚ)
    (event : String) :
    Mirrored (t.recordEvent p text updatedAt event) (m.recordEvent p text updatedAt event) := by
  let recorded := t.events ++ [p.toEvent text updatedAt (t.eventSequence + 1) event]
  let same := recorded.filter fun item => decide (item.kind = p.kind)
  have hascending : recorded.Pairwise fun a b => a.sequence < b.sequence := by
    refine List.pairwise_append.2 ⟨h.ascending, pairwise_singleton _ _, ?_⟩
    intro a ha b hb
    rw [List.mem_singleton.1 hb]
    exact Nat.lt_succ_of_le (h.behind a ha)
  have hsame : same.Pairwise fun a b => a.sequence < b.sequence :=
    hascending.sublist filter_sublist
  -- the greatest sequence that goes is the last of the first ones
  have hlast : ((Newest.newestFirst Event.sequence same).drop operationalEventLimit).head? =
      (same.take (same.length - operationalEventLimit)).getLast? := by
    have hreverse : same.reverse = Newest.newestFirst Event.sequence same :=
      Newest.eq_newestFirst (List.pairwise_reverse.2 hsame) (reverse_perm same)
    rw [← hreverse, drop_reverse, List.head?_reverse]
  have hpruned : recorded.filter (fun item => !decide (item.kind = p.kind ∧
      ∃ e ∈ (same.take (same.length - operationalEventLimit)).getLast?,
        item.sequence ≤ e.sequence)) =
        recorded.filter fun item =>
          decide (item ∉ same.take (same.length - operationalEventLimit)) := by
    refine filter_congr fun item hitem => ?_
    rw [← decide_not, decide_eq_decide, not_iff_not]
    constructor
    · rintro ⟨hkind, hle⟩
      have hmem : item ∈ same := List.mem_filter.2 ⟨hitem, decide_eq_true hkind⟩
      exact (Rows.le_getLast_take hsame hmem _).1 hle
    · intro hmem
      have hitem := mem_of_mem_take hmem
      exact ⟨of_decide_eq_true (List.mem_filter.1 hitem).2,
        (Rows.le_getLast_take hsame hitem _).2 hmem⟩
  let kept := recorded.filter fun item =>
    decide (item ∉ same.take (same.length - operationalEventLimit))
  have htables : t.recordEvent p text updatedAt event =
      { t with events := kept, eventSequence := t.eventSequence + 1 } := by
    unfold Tables.recordEvent
    dsimp only
    rw [hlast, hpruned]
  have hmemory : m.recordEvent p text updatedAt event =
      { m with events := kept, eventSequence := t.eventSequence + 1 } := by
    unfold Memory.recordEvent
    dsimp only
    rw [h.events, h.eventSequence]
    split
    · rfl
    · next hfew =>
        have hnone : same.length - operationalEventLimit = 0 := Nat.sub_eq_zero_of_le (not_lt.1 hfew)
        have hkept : kept = recorded := by
          unfold kept
          rw [hnone]
          simp
        rw [hkept]
  rw [htables, hmemory]
  refine h.withEvents (hascending.sublist filter_sublist) fun e he => ?_
  rcases List.mem_append.1 (List.mem_filter.1 he).1 with hold | hnew
  · exact (h.behind e hold).trans (Nat.le_succ _)
  · rw [List.mem_singleton.1 hnew]
    exact le_rfl

/-- A put at the head of the graph, at a time of its own. -/
theorem putRecord (h : Mirrored t m) (codec : Codec Payload) (p : Put Payload)
    (hhead : p.authorityRevision = t.head)
    (hfresh : ∀ r ∈ t.records, p.updatedAt ≠ .ofRat r.updatedAt) :
    Agree t m (t.putRecord codec p) (m.putRecord codec p) := by
  unfold Tables.putRecord Memory.putRecord
  cases hchecked : p.checked codec with
  | error e => exact .refused h e
  | ok x =>
      obtain ⟨text, updatedAt⟩ := x
      have hnew : ∀ r ∈ t.records, r.updatedAt ≠ updatedAt := by
        rintro r hr rfl
        exact hfresh r hr (Put.updatedAt_of_checked hchecked)
      simp only [transaction, hhead, decide_true, require_true, ok_bind]
      cases hwrite : t.writeRecord p text updatedAt with
      | error e =>
          rw [h.writeRecord_error hwrite]
          exact .refused h e
      | ok written =>
          obtain ⟨t', generation⟩ := written
          obtain ⟨m', hput, hmirrored⟩ := h.writeRecord_ok codec hnew hwrite
          rw [hput]
          unfold Memory.store
          cases hevent : p.event with
          | none => exact .answered hmirrored _
          | some event => exact .answered (hmirrored.recordEvent p text updatedAt event) _

theorem getRecord (h : Mirrored t m) (codec : Codec Payload) (kind recordRoot : String) :
    t.getRecord codec kind recordRoot = m.getRecord codec kind recordRoot := by
  unfold Tables.getRecord Memory.getRecord
  rw [h.record]

/-! ## Listings -/

theorem listRecords (h : Mirrored t m) (codec : Codec Payload) (kind : String)
    (ownerRoot : Option String) (states : Option (List String)) (limit : ℤ) :
    t.listRecords codec kind ownerRoot states limit =
      m.listRecords codec kind ownerRoot states limit := by
  have hkeys : (t.records.map fun r => toLex r.key).Nodup := h.records.nodup
  have hsorted : (Rows.orderBy (fun e => toLex e.1) m.records.entries).map Prod.snd =
      Rows.orderBy (fun r : Record String => toLex r.key) t.records := by
    rw [show m.records.entries = t.records.map fun r => (r.key, id r) from h.records,
      Rows.orderBy_map (g := fun r : Record String => (r.key, id r)) (e := fun e => toLex e.1) hkeys,
      map_map]
    exact map_id _
  have hwanted : ∀ r : Record String, r.wanted kind ownerRoot states = true → r.kind = kind := by
    intro r hr
    unfold Record.wanted at hr
    rw [Bool.and_eq_true, Bool.and_eq_true] at hr
    exact of_decide_eq_true hr.1.1
  -- among the records of one kind the order is that of their roots
  have hroots : (Rows.orderBy (fun r : Record String => toLex r.key) t.records).filter
      (fun r => r.wanted kind ownerRoot states) =
        Rows.orderBy Record.recordRoot (t.records.filter fun r => r.wanted kind ownerRoot states) := by
    refine Rows.eq_orderBy ?_ ((Rows.perm_orderBy _ _).filter _)
    refine ((Rows.strict_orderBy hkeys).sublist filter_sublist).imp_of_mem ?_
    intro a b ha hb hlt
    have hkind : a.kind = b.kind :=
      (hwanted a (List.mem_filter.1 ha).2).trans (hwanted b (List.mem_filter.1 hb).2).symm
    rcases Prod.Lex.toLex_lt_toLex.1 hlt with hlt | ⟨-, hlt⟩
    · exact absurd hkind hlt.ne
    · exact hlt
  unfold Tables.listRecords Memory.listRecords
  refine Check.bind_congr fun n _ => ?_
  dsimp only
  rw [hsorted, hroots, map_take]
  split
  · next hstates =>
      have hnone : t.records.filter (fun r => r.wanted kind ownerRoot states) = [] := by
        refine List.filter_eq_nil_iff.2 fun r _ hr => ?_
        simp [Record.wanted, hstates] at hr
      rw [hnone, Rows.orderBy_nil, map_nil, take_nil]
  · rfl

theorem listEvents (h : Mirrored t m) (codec : Codec Payload) (kind : String)
    (recordRoot : Option String) (limit : ℤ) :
    t.listEvents codec kind recordRoot limit = m.listEvents codec kind recordRoot limit := by
  unfold Tables.listEvents Memory.listEvents
  rw [h.events]
  refine Check.bind_congr fun n _ => ?_
  let rows := t.events.filter fun item =>
    decide (item.kind = kind ∧ (recordRoot = none ∨ recordRoot = some item.recordRoot))
  have hrows : rows.Pairwise fun a b => a.sequence < b.sequence :=
    h.ascending.sublist filter_sublist
  have hreverse : rows.reverse = Newest.newestFirst Event.sequence rows :=
    Newest.eq_newestFirst (List.pairwise_reverse.2 hrows) (reverse_perm rows)
  dsimp only
  rw [← hreverse, rtake_eq_reverse_take_reverse, ← map_reverse, ← map_take, ← map_reverse]

end Mirrored

end ArchHub.Lease

import Mathlib
import ArchHub.Table.Tokens
import ArchHub.Table.Relation

/-!
# What is read in the order of its making

The wires into a node and the endpoints of a relation are read in the order of their names, and
the names are numbers with leading zeros.  A number that needs more digits than were planned for
gets them, and then the names do not sort as the numbers do.

* `numbered_lt_iff`: when two numbered names sort as their numbers do.
* `inOrder_iff`: when what is sorted by name is in the order in which it was made.
* `relationsMade`: the relations that a run has made.
* `edited`: the parameters of a relation whose endpoints come and go.
* `reads_in_order_iff`: **the exact condition, for wires and for endpoints**.
-/

namespace ArchHub.Table

open Lib List
open Lib.Exec (Keeps KeepsAt)

/-! ## Numbered names -/

/-- `head + '%0wd' % n`. -/
def numbered (head : String) (width n : ℕ) : String := head ++ padded width n

/-- How many digits a number is shown with. -/
def digitsShown (width n : ℕ) : ℕ := max width (Nat.digits 10 n).length

/-- The number `m` is at most what is shown first of `n`, with as many digits as `m` is. -/
def Aligned (width m n : ℕ) : Prop := m ≤ n / 10 ^ (digitsShown width n - digitsShown width m)

instance (width m n : ℕ) : Decidable (Aligned width m n) :=
  inferInstanceAs (Decidable (m ≤ _))

theorem lt_pow_digitsShown (width n : ℕ) : n < 10 ^ digitsShown width n :=
  (Nat.digits_length_le_iff (by norm_num) n).1 (le_max_right _ _)

variable {m : ℕ}

theorem digitsShown_mono (width : ℕ) {n : ℕ} (h : m ≤ n) :
    digitsShown width m ≤ digitsShown width n :=
  max_le_max (le_refl _) ((Nat.digits_length_le_iff (by norm_num) m).2
    (h.trans_lt ((Nat.digits_length_le_iff (by norm_num) n).1 (le_refl _))))

/-- The text of a number. -/
theorem toList_padded (width n : ℕ) :
    (padded width n).toList = leadingDigits (digitsShown width n) n := by
  have hdigits : paddedDigits width n = paddedDigits (digitsShown width n) n := by
    unfold paddedDigits digitsShown
    rw [show max width (Nat.digits 10 n).length - (Nat.digits 10 n).length =
      width - (Nat.digits 10 n).length by omega]
  rw [padded, hdigits, paddedDigits_eq (lt_pow_digitsShown width n)]
  exact String.toList_ofList

theorem length_leadingDigits (width n : ℕ) : (leadingDigits width n).length = width := by
  unfold leadingDigits
  rw [length_reverse, length_map, length_map, length_range]

/-- The first digits are those of a quotient. -/
theorem leadingDigits_add (width more n : ℕ) :
    leadingDigits (width + more) n =
      leadingDigits width (n / 10 ^ more) ++ leadingDigits more n := by
  induction width with
  | zero => rw [Nat.zero_add]; rfl
  | succ width ih =>
    rw [Nat.succ_add, leadingDigits_succ, leadingDigits_succ, ih, Nat.div_div_eq_div_mul,
      ← pow_add, Nat.add_comm more width]
    rfl

variable {ys : List Char}

/-- What decides between lists of one length is not changed by what follows. -/
theorem append_lt_append {xs : List Char} (zs ws : List Char) (hlength : xs.length = ys.length)
    (h : xs < ys) : xs ++ zs < ys ++ ws := by
  induction xs generalizing ys with
  | nil =>
    cases ys with
    | nil => exact absurd h (lt_irrefl _)
    | cons y ys => cases hlength
  | cons x xs ih =>
    cases ys with
    | nil => cases hlength
    | cons y ys =>
      rw [cons_append, cons_append, cons_lt_cons_iff]
      rcases List.cons_lt_cons_iff.1 h with hlt | ⟨heq, hlt⟩
      · exact .inl hlt
      · exact .inr ⟨heq, ih (Nat.succ.inj hlength) hlt⟩

theorem append_lt_append_left_iff (xs : List Char) {zs : List Char} :
    xs ++ ys < xs ++ zs ↔ ys < zs := by
  induction xs with
  | nil => rfl
  | cons x xs ih =>
    rw [cons_append, cons_append, cons_lt_cons_iff, ih]
    exact ⟨fun h => h.elim (fun hlt => absurd hlt (lt_irrefl _)) And.right, fun h => .inr ⟨rfl, h⟩⟩

/-- **Two numbered names sort as their numbers do** just where the numbers are aligned. -/
theorem numbered_lt_iff {head : String} {width m n : ℕ} (hmn : m < n) :
    numbered head width m < numbered head width n ↔ Aligned width m n := by
  obtain ⟨more, hmore⟩ := Nat.exists_eq_add_of_le (digitsShown_mono width hmn.le)
  have hlt : numbered head width m < numbered head width n ↔
      leadingDigits (digitsShown width m) m < leadingDigits (digitsShown width n) n := by
    unfold numbered
    rw [String.lt_iff_toList_lt, String.toList_append, String.toList_append, toList_padded,
      toList_padded]
    exact append_lt_append_left_iff _
  have hq : n / 10 ^ more < 10 ^ digitsShown width m := by
    rw [Nat.div_lt_iff_lt_mul (by positivity), ← pow_add, ← hmore]
    exact lt_pow_digitsShown width n
  have hlength : ∀ k, (leadingDigits (digitsShown width m) k).length = digitsShown width m :=
    length_leadingDigits _
  rw [hlt]
  unfold Aligned
  rw [hmore, Nat.add_sub_cancel_left, leadingDigits_add]
  rcases Nat.lt_trichotomy m (n / 10 ^ more) with h | h | h
  · -- the first digits decide
    refine iff_of_true ?_ h.le
    have hdigits : leadingDigits (digitsShown width m) m <
        leadingDigits (digitsShown width m) (n / 10 ^ more) := by
      refine leadingDigits_lt ?_
      rwa [Nat.mod_eq_of_lt (lt_pow_digitsShown width m), Nat.mod_eq_of_lt hq]
    have happend := append_lt_append [] (leadingDigits more n)
      ((hlength m).trans (hlength _).symm) hdigits
    rwa [append_nil] at happend
  · -- the shorter text is the beginning of the longer one
    refine iff_of_true ?_ h.le
    rw [← h]
    have hpos : more ≠ 0 := by
      rintro rfl
      rw [pow_zero, Nat.div_one] at h
      omega
    have hnil : leadingDigits (digitsShown width m) m ++ [] <
        leadingDigits (digitsShown width m) m ++ leadingDigits more n := by
      refine append_left_lt ?_
      obtain ⟨k, rfl⟩ := Nat.exists_eq_succ_of_ne_zero hpos
      rw [leadingDigits_succ]
      exact nil_lt_cons _ _
    rwa [append_nil] at hnil
  · refine iff_of_false (fun hless => ?_) (Nat.not_le.2 h)
    have hdigits : leadingDigits (digitsShown width m) (n / 10 ^ more) <
        leadingDigits (digitsShown width m) m := by
      refine leadingDigits_lt ?_
      rwa [Nat.mod_eq_of_lt (lt_pow_digitsShown width m), Nat.mod_eq_of_lt hq]
    have happend := append_lt_append (leadingDigits more n) []
      ((hlength _).trans (hlength m).symm) hdigits
    rw [append_nil] at happend
    exact lt_asymm hless happend

theorem numbered_injective (head : String) (width : ℕ) :
    Function.Injective (numbered head width) := by
  intro m n h
  have hlist := congrArg String.toList h
  unfold numbered at hlist
  rw [String.toList_append, String.toList_append] at hlist
  exact padded_injective width (String.toList_inj.1 (append_cancel_left hlist))

/-! ## Orders of making and of reading -/

/-- Of two names the first is made before the second. -/
def MadeBefore (log : List String) (a b : String) : Prop := [a, b].Sublist log

/-- What is read is in the order in which it was made. -/
def InOrder (log read : List String) : Prop := read.Pairwise fun a b => ¬MadeBefore log b a

/-- Two members of a list stand in it in one order or in the other. -/
theorem pair_sublist_or {α : Type*} {l : List α} {a b : α} (ha : a ∈ l) (hb : b ∈ l)
    (hne : a ≠ b) : [a, b].Sublist l ∨ [b, a].Sublist l := by
  induction l with
  | nil => cases ha
  | cons x l ih =>
    rcases List.mem_cons.1 ha with rfl | hal
    · rcases List.mem_cons.1 hb with rfl | hbl
      · exact absurd rfl hne
      · exact .inl ((List.singleton_sublist.2 hbl).cons_cons a)
    · rcases List.mem_cons.1 hb with rfl | hbl
      · exact .inr ((List.singleton_sublist.2 hal).cons_cons b)
      · exact (ih hal hbl).imp (.cons x) (.cons x)

/-- **What is sorted by name is in the order of its making** just where the numbers of any two
names are aligned. -/
theorem inOrder_iff {head : String} {width : ℕ} {log read : List String}
    (hlog : ∀ m n, MadeBefore log (numbered head width m) (numbered head width n) → m < n)
    (hread : ∀ a ∈ read, a ∈ log → ∃ n, a = numbered head width n)
    (hsorted : read.Pairwise (· ≤ ·)) :
    InOrder log read ↔ ∀ m n, numbered head width m ∈ read → numbered head width n ∈ read →
      MadeBefore log (numbered head width m) (numbered head width n) → Aligned width m n := by
  unfold InOrder
  rw [pairwise_iff_forall_sublist] at hsorted ⊢
  constructor
  · intro hordered m n hm hn hmade
    rw [← @numbered_lt_iff head _ _ _ (hlog m n hmade)]
    by_contra hnot
    have hne : numbered head width n ≠ numbered head width m := fun heq =>
      (hlog m n hmade).ne' (numbered_injective head width heq)
    have hlt : numbered head width n < numbered head width m := lt_of_le_of_ne (not_lt.1 hnot) hne
    -- the later name is sorted before the earlier one
    have hsub : [numbered head width n, numbered head width m].Sublist read := by
      rcases pair_sublist_or hm hn hne.symm with h | h
      · exact absurd (hsorted h) (not_le.2 hlt)
      · exact h
    exact hordered hsub hmade
  · intro haligned a b hab hmade
    obtain ⟨n, rfl⟩ := hread a (hab.subset mem_cons_self)
      (hmade.subset (mem_cons_of_mem _ mem_cons_self))
    obtain ⟨m, rfl⟩ := hread b (hab.subset (mem_cons_of_mem _ mem_cons_self))
      (hmade.subset mem_cons_self)
    have hlt := (@numbered_lt_iff head _ _ _ (hlog m n hmade)).2
      (haligned m n (hab.subset (mem_cons_of_mem _ mem_cons_self)) (hab.subset mem_cons_self) hmade)
    exact absurd (hsorted hab) (not_le.2 hlt)

/-! ## The relations that a run makes -/

variable {s : Store} {nodes : Nodes} {node : Value} {ids : List Value} {names : List String}

section

variable (host : Host)

/-- The relation that an accepted action makes. -/
def relationMade (s : Store) : Action → List String
  | .apply depth op =>
      if op.get? "op" = some (.str "add_wire") then
        match (applyOp host depth op s).1 with
        | .ok (.str id, _) => [id]
        | _ => []
      else []
  | .pull _ _ => []

/-- The relations that a run makes, in the order of their making. -/
def relationsMade (s : Store) : List Action → List String
  | [] => []
  | a :: actions => relationMade host s a ++ relationsMade ((machine host).step s a) actions

variable {host}

/-- A relation gets a number that was free. -/
theorem applyAddWire_number {t : Store} {op out : Value}
    (h : applyAddWire host op s = (.ok out, t)) :
    ∃ n, out = .str (idOf n) ∧ s.seq ≤ n ∧ n < t.seq := by
  obtain ⟨⟨title, draft⟩, u, hdraft, h⟩ := Exec.bind_eq_ok h
  have hdrafted : s.seq ≤ u.seq := by
    have hkeeps := draftRelation_counts host op s
    rw [hdraft] at hkeeps
    exact hkeeps
  dsimp only at h
  rw [storeRelation_eq] at h
  have hsettled : (u.withRelation host title draft).seq ≤ t.seq := by
    have hkeeps := settleRelation_counts (freshId u) (u.withRelation host title draft)
    rw [h] at hkeeps
    exact hkeeps
  refine ⟨freshSeq u, ?_, hdrafted.trans (seq_le_freshSeq u), hsettled⟩
  unfold settleRelation at h
  obtain ⟨_, s₁, -, h⟩ := Exec.bind_eq_ok h
  obtain ⟨wire, s₂, -, h⟩ := Exec.bind_eq_ok h
  obtain ⟨_, s₃, -, h⟩ := Exec.bind_eq_ok h
  obtain ⟨_, s₄, -, h⟩ := Exec.bind_eq_ok h
  obtain ⟨_, s₅, -, h⟩ := Exec.bind_eq_ok h
  cases h
  rfl

theorem step_counts (s : Store) (a : Action) : s.seq ≤ ((machine host).step s a).seq := by
  cases a with
  | pull depth nid => exact pull_counts host depth nid none s
  | apply depth op =>
    refine (Keeps.liftM_bind (R := Counts) fun what hwhat => ?_ : Keeps Counts
      (applyOp host depth op)) s
    refine Keeps.bind (branch_counts host depth op what) fun r => ?_
    refine Keeps.bind (Keeps.liftM_bind fun what _ => ?_) fun _ => Keeps.pure _
    exact Keeps.bind (blank_counts host _ _ _ _ _) fun _ => putNode_counts _ _

theorem relationMade_number {a : Action} {id : String} (h : id ∈ relationMade host s a) :
    ∃ n, id = idOf n ∧ s.seq ≤ n ∧ n < ((machine host).step s a).seq := by
  cases a with
  | pull depth nid => cases h
  | apply depth op =>
    rw [relationMade] at h
    split at h
    next hop =>
      show ∃ n, id = idOf n ∧ s.seq ≤ n ∧ n < (applyOp host depth op s).2.seq
      rcases hrun : applyOp host depth op s with ⟨_ | ⟨out, op'⟩, t⟩
      · rw [hrun] at h
        cases h
      · rw [hrun] at h
        unfold applyOp at hrun
        rw [Exec.liftM_bind_of_ok (Value.getItem_str_ok.2 hop)] at hrun
        obtain ⟨⟨out', op''⟩, u, hbranch, hrun⟩ := Exec.bind_eq_ok hrun
        obtain ⟨out'', v, hwire, hpure⟩ := Exec.bind_eq_ok (m := applyAddWire host op) hbranch
        cases hpure
        obtain ⟨n, rfl, hge, hlt⟩ := applyAddWire_number hwire
        have hrecord : u.seq ≤ t.seq := by
          obtain ⟨_, w, hrecord, hrest⟩ := Exec.bind_eq_ok hrun
          cases hrest
          have hkeeps : Keeps Counts (record host op) := Keeps.liftM_bind fun what _ =>
            Keeps.bind (blank_counts host _ _ _ _ _) fun _ => putNode_counts _ _
          have hcounts := hkeeps u
          rw [hrecord] at hcounts
          exact hcounts
        obtain ⟨_, w, -, hrest⟩ := Exec.bind_eq_ok hrun
        cases hrest
        exact ⟨n, List.mem_singleton.1 h, hge, hlt.trans_le hrecord⟩
    · cases h

/-- The relations of a run have greater and greater numbers. -/
theorem relationsMade_numbers (s : Store) (actions : List Action) :
    ∃ numbers : List ℕ, relationsMade host s actions = numbers.map idOf ∧
      numbers.Pairwise (· < ·) ∧ ∀ n ∈ numbers, s.seq ≤ n := by
  induction actions generalizing s with
  | nil => exact ⟨[], rfl, .nil, fun _ h => absurd h not_mem_nil⟩
  | cons a actions ih =>
    obtain ⟨numbers, heq, hpairwise, hge⟩ := ih ((machine host).step s a)
    have hstep := @step_counts host s a
    unfold relationsMade
    rw [heq]
    have hone : ∀ {id}, id ∈ relationMade host s a → relationMade host s a = [id] := by
      intro id hid
      cases a with
      | pull depth nid => cases hid
      | apply depth op =>
        rw [relationMade] at hid ⊢
        split at hid
        next hop =>
          rw [if_pos hop]
          split at hid
          · rw [List.mem_singleton.1 hid]
          · cases hid
        · cases hid
    rcases hmade : relationMade host s a with _ | ⟨id, rest⟩
    · exact ⟨numbers, rfl, hpairwise, fun n hn => hstep.trans (hge n hn)⟩
    · have hmem : id ∈ relationMade host s a := hmade ▸ mem_cons_self
      obtain rfl : rest = [] := (List.cons.inj (hmade.symm.trans (hone hmem))).2
      obtain ⟨n, rfl, hn, hlt⟩ := relationMade_number hmem
      refine ⟨n :: numbers, rfl, List.pairwise_cons.2 ⟨fun m hm => hlt.trans_le (hge m hm),
        hpairwise⟩, fun m hm => ?_⟩
      rcases List.mem_cons.1 hm with rfl | hm
      · exact hn
      · exact hstep.trans (hge m hm)

/-- The texts among some values. -/
def texts (vs : List Value) : List String := vs.filterMap textOf?

theorem incomingWireIds_sorted (h : incomingWireIds nodes node = .ok ids) :
    (texts ids).Pairwise (· ≤ ·) := by
  unfold incomingWireIds at h
  obtain ⟨relations, -, h⟩ := Check.bind_ok_iff.1 h
  obtain ⟨given, -, h⟩ := Check.bind_ok_iff.1 h
  obtain ⟨id, -, h⟩ := Check.bind_ok_iff.1 h
  obtain ⟨flags, -, h⟩ := Check.bind_ok_iff.1 h
  unfold sortIds at h
  split at h
  · obtain rfl := Except.ok.inj h
    have htexts : ∀ xs : List String, texts (xs.map .str) = xs := by
      intro xs
      unfold texts
      rw [filterMap_map]
      exact filterMap_some
    rw [htexts]
    exact pairwise_insertionSort _ _
  · split at h
    next hlength =>
      obtain rfl := Except.ok.inj h
      have hone := (length_filterMap_le textOf? _).trans hlength
      unfold texts
      rcases hread : List.filterMap textOf? _ with _ | ⟨a, _ | ⟨b, rest⟩⟩
      · exact .nil
      · exact pairwise_singleton _ _
      · rw [hread] at hone
        cases Nat.le_of_succ_le_succ hone
    · cases h

/-- **The wires of a run are read in the order of their making** just where the numbers of any
two of them are aligned. -/
theorem incoming_inOrder_iff {actions : List Action} (h : incomingWireIds nodes node = .ok ids) :
    InOrder (relationsMade host s actions) (texts ids) ↔
      ∀ m n, idOf m ∈ texts ids → idOf n ∈ texts ids →
        MadeBefore (relationsMade host s actions) (idOf m) (idOf n) → Aligned 6 m n := by
  obtain ⟨numbers, heq, hpairwise, -⟩ := @relationsMade_numbers host s actions
  rw [heq]
  refine @inOrder_iff "n" 6 _ _ ?_ ?_ (incomingWireIds_sorted h)
  · intro m n hmade
    obtain ⟨pair, hsub, hpair⟩ := List.sublist_map_iff.1 hmade
    obtain ⟨m', rest, rfl, hm, hrest⟩ := List.map_eq_cons_iff.1 hpair.symm
    obtain ⟨n', rest', rfl, hn, hnil⟩ := List.map_eq_cons_iff.1 hrest
    obtain rfl := List.map_eq_nil_iff.1 hnil
    obtain rfl := idOf_injective hm
    obtain rfl := idOf_injective hn
    exact (List.pairwise_iff_forall_sublist.1 hpairwise) hsub
  · intro a _ ha
    obtain ⟨n, -, rfl⟩ := List.mem_map.1 ha
    exact ⟨n, rfl⟩

end

/-! ## The endpoints of a relation -/

/-- The name of the endpoint parameter with a number. -/
def endpointName (n : ℕ) : String := numbered "endpoint:" 3 n

/-- The number in the name of an endpoint parameter, where there is one. -/
def endpointIndex (name : String) : Option ℕ :=
  let digits := name.toList.drop "endpoint:".length
  if startsWith "endpoint:" name && !digits.isEmpty && digits.all Char.isDigit then
    some (digits.foldl (fun n c => 10 * n + (c.toNat - '0'.toNat)) 0)
  else none

/-- The text of a key that is one. -/
def keyName : Key → Option String
  | .str s => some s
  | _ => none

/-- The names of the parameters, in the order in which they were put. -/
def paramNames (params : Fields) : List String := (params.map Prod.fst).filterMap keyName

/-- The number of the endpoint that `append_endpoint` appends. -/
def nextEndpoint (params : Fields) : ℕ :=
  ((paramNames params).filterMap endpointIndex).foldr (fun n next => max (n + 1) next) 0

/-- What is done to the parameters of a relation. -/
inductive EndpointEdit
  /-- `append_endpoint`, with the new parameter. -/
  | append (pid : Value)
  /-- `remove_endpoint`, with the parameter that goes. -/
  | remove (pid : Value)
  /-- `set_relation_parameter` and `append_stage`. -/
  | parameter (name : String) (pid : Value)

/-- The parameters of a relation after an edit; a reserved name is refused. -/
def edited (params : Fields) : EndpointEdit → Fields
  | .append pid => Assoc.put params (.str (endpointName (nextEndpoint params))) pid
  | .remove pid => params.filter fun e => !e.2.pyEq pid
  | .parameter name pid =>
      if startsWith "endpoint:" name then params else Assoc.put params (.str name) pid

/-- The names of the endpoints, in the order in which they are read. -/
def endpointNames (endpoints : List Fields) : List String :=
  endpoints.filterMap fun e => textOf? (entry e "endpoint_name")

/-- Endpoint parameters are numbered, and their numbers grow. -/
structure Listed (names : List String) : Prop where
  numbered : ∀ name ∈ names, startsWith "endpoint:" name = true → ∃ n, name = endpointName n
  growing : ∀ m n, MadeBefore names (endpointName m) (endpointName n) → m < n

theorem startsWith_endpointName (n : ℕ) : startsWith "endpoint:" (endpointName n) = true := by
  unfold startsWith endpointName numbered
  rw [String.toList_append]
  exact List.isPrefixOf_iff_prefix.2 (prefix_append _ _)

theorem Listed.sublist {names' : List String} (h : Listed names) (hsub : names'.Sublist names) :
    Listed names' :=
  ⟨fun name hname => h.numbered name (hsub.subset hname),
    fun m n hmade => h.growing m n (hmade.trans hsub)⟩

variable {name : String}

/-- A new name that is no endpoint, or that of the next one. -/
theorem Listed.concat (h : Listed names) (hnew : startsWith "endpoint:" name = true →
      ∃ n, name = endpointName n ∧ ∀ m, endpointName m ∈ names → m < n) :
    Listed (names ++ [name]) := by
  refine ⟨fun a ha hstarts => ?_, fun m n hmade => ?_⟩
  · rcases List.mem_append.1 ha with ha | ha
    · exact h.numbered a ha hstarts
    · rw [List.mem_singleton.1 ha] at hstarts ⊢
      obtain ⟨n, hn, -⟩ := hnew hstarts
      exact ⟨n, hn⟩
  · obtain ⟨l₁, l₂, heq, h₁, h₂⟩ := List.sublist_append_iff.1 hmade
    rcases eq_nil_or_concat' l₂ with rfl | ⟨l, b, rfl⟩
    · rw [append_nil] at heq
      subst heq
      exact h.growing m n h₁
    · obtain rfl : l = [] := by
        have hlength := h₂.length_le
        rw [length_append] at hlength
        exact List.length_eq_zero_iff.1 (by simpa using hlength)
      obtain rfl : b = name := List.mem_singleton.1 (h₂.subset mem_cons_self)
      have hparts : [endpointName m] = l₁ ∧ [endpointName n] = [] ++ [b] :=
        @append_inj' _ [endpointName m] _ _ _ heq rfl
      obtain ⟨hm, hn⟩ := hparts
      obtain rfl : endpointName n = b := singleton_injective hn
      obtain ⟨n', hn', hall⟩ := hnew (startsWith_endpointName n)
      rw [numbered_injective _ _ hn']
      exact hall m (h₁.subset (hm ▸ mem_singleton_self _))

variable {params : Fields}

theorem mem_paramNames : name ∈ paramNames params ↔ Key.str name ∈ params.map Prod.fst := by
  unfold paramNames
  rw [mem_filterMap]
  constructor
  · rintro ⟨k, hk, hname⟩
    cases k with
    | str s => exact Option.some.inj hname ▸ hk
    | none => cases hname
    | num q => cases hname
    | noValue => cases hname
  · exact fun hk => ⟨_, hk, rfl⟩

theorem paramNames_put (params : Fields) (name : String) (v : Value) :
    paramNames (Assoc.put params (.str name) v) =
      if name ∈ paramNames params then paramNames params else paramNames params ++ [name] := by
  rw [paramNames, Assoc.keys_put]
  by_cases hk : Key.str name ∈ params.map Prod.fst
  · rw [if_pos hk, if_pos (mem_paramNames.2 hk)]
    rfl
  · rw [if_neg hk, if_neg fun h => hk (mem_paramNames.1 h), filterMap_append]
    rfl

theorem Listed.put {v : Value} (h : Listed (paramNames params))
    (hnew : startsWith "endpoint:" name = true →
      ∃ n, name = endpointName n ∧ ∀ m, endpointName m ∈ paramNames params → m < n) :
    Listed (paramNames (Assoc.put params (.str name) v)) := by
  rw [paramNames_put]
  split
  · exact h
  · exact h.concat hnew

/-- The digits of a number give the number. -/
theorem foldl_leadingDigits (width n acc : ℕ) :
    (leadingDigits width n).foldl (fun n c => 10 * n + (c.toNat - '0'.toNat)) acc =
      acc * 10 ^ width + n % 10 ^ width := by
  induction width generalizing acc with
  | zero => rw [pow_zero, Nat.mod_one, Nat.mul_one]; rfl
  | succ width ih =>
    have hdigit : ∀ {d : ℕ}, d < 10 → (Nat.digitChar d).toNat - '0'.toNat = d := by
      intro d hd
      interval_cases d <;> rfl
    rw [leadingDigits_succ, foldl_cons, ih, hdigit (Nat.mod_lt _ (by norm_num)),
      Nat.mod_pow_succ]
    ring

theorem endpointIndex_endpointName (n : ℕ) : endpointIndex (endpointName n) = some n := by
  have hdigits : (endpointName n).toList.drop "endpoint:".length =
      leadingDigits (digitsShown 3 n) n := by
    unfold endpointName numbered
    rw [String.toList_append, ← toList_padded]
    exact @drop_left _ "endpoint:".toList _
  have hdigit : ∀ {d : ℕ}, d < 10 → (Nat.digitChar d).isDigit = true := by
    intro d hd
    interval_cases d <;> rfl
  have hne : (leadingDigits (digitsShown 3 n) n).isEmpty = false := by
    rw [isEmpty_eq_false_iff, ← length_pos_iff, length_leadingDigits]
    exact lt_of_lt_of_le (by norm_num) (le_max_left 3 _)
  have hall : (leadingDigits (digitsShown 3 n) n).all Char.isDigit = true := by
    rw [all_eq_true]
    intro c hc
    unfold leadingDigits at hc
    obtain ⟨d, hd, rfl⟩ := List.mem_map.1 (List.mem_reverse.1 hc)
    obtain ⟨i, -, rfl⟩ := List.mem_map.1 hd
    exact hdigit (Nat.mod_lt _ (by norm_num))
  unfold endpointIndex
  dsimp only
  rw [hdigits, startsWith_endpointName, hne, hall, if_pos (by decide), foldl_leadingDigits,
    Nat.mod_eq_of_lt (lt_pow_digitsShown 3 n), Nat.zero_mul, Nat.zero_add]

/-- The next endpoint has a number greater than those there are. -/
theorem lt_nextEndpoint (h : endpointName m ∈ paramNames params) : m < nextEndpoint params := by
  have hmem : m ∈ (paramNames params).filterMap endpointIndex :=
    List.mem_filterMap.2 ⟨_, h, endpointIndex_endpointName m⟩
  unfold nextEndpoint
  generalize (paramNames params).filterMap endpointIndex = ns at hmem
  induction ns with
  | nil => cases hmem
  | cons n ns ih =>
    rw [foldr_cons]
    rcases List.mem_cons.1 hmem with rfl | hmem
    · exact (Nat.lt_succ_self m).trans_le (le_max_left _ _)
    · exact lt_max_of_lt_right (ih hmem)

theorem Listed.edited (h : Listed (paramNames params)) (edit : EndpointEdit) :
    Listed (paramNames (edited params edit)) := by
  cases edit with
  | append pid => exact h.put fun _ => ⟨_, rfl, fun m hm => lt_nextEndpoint hm⟩
  | remove pid => exact h.sublist ((List.filter_sublist.map Prod.fst).filterMap keyName)
  | parameter name pid =>
    unfold Table.edited
    dsimp only
    split
    · exact h
    next hname => exact h.put fun hstarts => absurd hstarts hname

theorem Listed.edits (h : Listed (paramNames params)) (edits : List EndpointEdit) :
    Listed (paramNames (edits.foldl Table.edited params)) := by
  induction edits generalizing params with
  | nil => exact h
  | cons edit edits ih => exact ih (h.edited edit)

/-- Endpoints are put one after another. -/
theorem listed_putEndpoints (host : Host) (s : Store) (index : ℕ) (specs : List Value)
    (h : Listed (paramNames params)) (hless : ∀ m, endpointName m ∈ paramNames params → m < index) :
    Listed (paramNames (putAll params (owned host s (paramsFrom endpointParam index specs)))) := by
  induction specs generalizing s index params with
  | nil => exact h
  | cons spec specs ih =>
    refine ih _ (index + 1) (h.put fun _ => ⟨index, rfl, hless⟩) fun m hm => ?_
    rw [paramNames_put] at hm
    split at hm
    · exact (hless m hm).trans (Nat.lt_succ_self _)
    · rcases List.mem_append.1 hm with hm | hm
      · exact (hless m hm).trans (Nat.lt_succ_self _)
      · rw [numbered_injective _ _ (List.mem_singleton.1 hm)]
        exact Nat.lt_succ_self _

/-- Other parameters are put. -/
theorem listed_putOthers {os : List (Param × String)}
    (hos : ∀ o ∈ os, startsWith "endpoint:" o.1.name = false) (h : Listed (paramNames params)) :
    Listed (paramNames (putAll params os)) := by
  induction os generalizing params with
  | nil => exact h
  | cons o os ih =>
    refine ih (fun o' ho' => hos o' (mem_cons_of_mem _ ho')) (h.put fun hstarts => ?_)
    rw [hos o mem_cons_self] at hstarts
    cases hstarts

/-- The parameters of a new relation. -/
theorem listed_wireDraft (host : Host) (s : Store) (specs stages : List Value) :
    Listed (paramNames (wireDraft host s specs stages).params) := by
  show Listed (paramNames (putAll [] (owned host s (wireParams specs stages))))
  unfold wireParams
  rw [append_assoc, owned_append, putAll, foldl_append]
  refine listed_putOthers (fun o ho => ?_) (listed_putEndpoints host s 0 specs
    ⟨fun _ h => absurd h not_mem_nil, fun m n h => absurd h (by simp [MadeBefore, paramNames])⟩
    fun m h => absurd h not_mem_nil)
  rcases List.mem_append.1 (fst_mem_of_mem_owned host ho) with hp | hp
  · obtain ⟨i, spec, -, hparam⟩ := exists_of_mem_paramsFrom hp
    rw [hparam, stageParam, startsWith, String.toList_append]
    rfl
  · obtain ⟨e, he, hparam⟩ := List.mem_map.1 hp
    rw [← hparam]
    exact (by decide : ∀ e ∈ wireParameterDefaults,
      startsWith "endpoint:" (plainParam e).name = false) e he

theorem entry_named (a : Assignment) :
    entry (a.named "endpoint_param" "endpoint_name") "endpoint_name" = .str a.name := by
  unfold entry Assignment.named
  rw [Assoc.find_put, if_pos rfl]
  rfl

/-- **The endpoints of a relation are read in the order in which they were appended** just where
the numbers of any two of them are aligned. -/
theorem endpoints_inOrder_iff {relation : Value} {endpoints : List Fields}
    (hlisted : Listed (paramNames params)) (h : relationEndpoints nodes relation = .ok endpoints) :
    InOrder (paramNames params) (endpointNames endpoints) ↔
      ∀ m n, endpointName m ∈ endpointNames endpoints → endpointName n ∈ endpointNames endpoints →
        MadeBefore (paramNames params) (endpointName m) (endpointName n) → Aligned 3 m n := by
  unfold relationEndpoints at h
  obtain ⟨found, hfound, h⟩ := Check.bind_ok_iff.1 h
  obtain rfl := Except.ok.inj h
  have hnames : endpointNames (found.map (Assignment.named "endpoint_param" "endpoint_name")) =
      found.map Assignment.name := by
    unfold endpointNames
    rw [filterMap_map, ← filterMap_eq_map]
    refine filterMap_congr fun a _ => ?_
    show textOf? (entry (a.named "endpoint_param" "endpoint_name") "endpoint_name") = some a.name
    rw [entry_named]
    rfl
  rw [hnames]
  refine inOrder_iff hlisted.growing (fun name hname hmade => ?_) ?_
  · obtain ⟨a, ha, rfl⟩ := List.mem_map.1 hname
    exact hlisted.numbered _ hmade (mem_assignments hfound ha).2.1
  · unfold assignments at hfound
    obtain ⟨kind, -, hfound⟩ := Check.bind_ok_iff.1 hfound
    split at hfound
    · obtain ⟨given, -, hfound⟩ := Check.bind_ok_iff.1 hfound
      obtain ⟨parameters, -, hfound⟩ := Check.bind_ok_iff.1 hfound
      obtain ⟨all, -, hfound⟩ := Check.bind_ok_iff.1 hfound
      obtain rfl := Except.ok.inj hfound
      rw [pairwise_map]
      exact pairwise_insertionSort _ _
    · obtain rfl := Except.ok.inj hfound
      exact .nil

/-! ## Both orders -/

/-- A wire between two nodes. -/
def addWireOp (source target : String) : Value :=
  dict [("op", .str "add_wire"), ("from", .str source), ("to", .str target)]

/-- Two nodes are wired to a third one. -/
def twoWires : List Action :=
  [.apply 8 (addValueOp "a" (.int 1)), .apply 8 (addValueOp "b" (.int 2)),
    .apply 8 (addValueOp "c" (.int 3)), .apply 8 (addWireOp "a" "c"), .apply 8 (addWireOp "b" "c")]

/-- An empty store that counts on from a number, as one that was loaded does. -/
def countingFrom (n : ℕ) : Store := { Store.empty with seq := n }

/-- The ids of the wires into the third node. -/
def wiresRead (n : ℕ) : Except Raised (List Value) :=
  let nodes := (twoWires.foldl (machine Host.bare).step (countingFrom n)).nodes
  incomingWireIds nodes ((nodes.get? (.str "c")).getD .none)

end ArchHub.Table

import Mathlib
import ArchHub.Lib.Dict
import ArchHub.Stem.Value

/-!
# A node that runs once for each item

A node that is wired from `each` of a foreach runs once for each item of the longest of its
streams.  A shorter stream repeats its last item, the other inputs are held constant, and what
the runs put out is stacked into lists, where an item that failed keeps its place.

* `longestEachPlans`: `longest_each_plans`, what each run is fed.
* `eachRows`: the loop of `run_document` over the plans.
* `collectEachRuns`: `collect_each_runs`.
* `each_aligned`: plans, rows and outputs go by the same index.

What the dispatch of a node does with a plan, and whether a run is stopped by then, is given for
each index.
-/

namespace ArchHub.Stem

open Lib List

/-! ## Plans -/

/-- What a stream feeds at an index: its item, or its last one, or nothing. -/
def feed (index : ℕ) (items : List Value) : Value :=
  match items[index]? with
  | some item => item
  | none => items.getLast?.getD .none

/-- The length of the longest stream. -/
def longest (streams : Dict String (List Value)) : ℕ :=
  streams.values.foldl (fun count items => if count < items.length then items.length else count) 0

/-- `longest_each_plans`. -/
def longestEachPlans (streams : Dict String (List Value)) (constants : Dict String Value) :
    Option (List (Dict String Value)) :=
  if streams.entries.isEmpty then none
  else some ((List.range (longest streams)).map fun index =>
    constants.update (streams.entries.map fun e => (e.1, feed index e.2)))

/-! ## Runs -/

/-- What is kept of a run: what it put out, where that is a mapping, what it showed, and its
error. -/
structure EachRow where
  produced : Option (Dict String Value)
  display : Option String
  error : Option String

section

variable (py : Python)

/-- `each_fault`. -/
def eachFault (produced : Option (Dict String Value)) (display : Option String) : Option String :=
  match display with
  | none => none
  | some shown =>
      if shown ≠ "Failed" ∧ shown ≠ "Waiting for you" then none
      else match produced.bind fun d => d.get? "log" with
        | none | some .none | some (.str "") => some shown
        | some note => some (py.str note)

variable (stopped : ℕ → Bool)
  (runOnce : ℕ → Dict String Value → Except String (Option (Dict String Value) × Option String))

/-- The run of one plan. -/
def eachRow (index : ℕ) (plan : Dict String Value) : EachRow :=
  if stopped index then ⟨none, none, some "Stopped by you."⟩
  else match runOnce index plan with
    | .error text => ⟨none, none, some text⟩
    | .ok (produced, display) => ⟨produced, display, eachFault py produced display⟩

/-- The runs of the plans, one after the other. -/
def eachRows (plans : List (Dict String Value)) : List EachRow :=
  plans.mapIdx (eachRow py stopped runOnce)

end

/-! ## Outputs -/

/-- The keys of the outputs: the sockets, then what the rows name. -/
def eachKeys (rows : List EachRow) (sockets : List String) : List String :=
  sockets ++ rows.flatMap fun row => row.produced.elim [] Dict.keys

/-- What a row says under a key. -/
def EachRow.valueAt (row : EachRow) (key : String) : Value :=
  (row.produced.bind fun d => d.get? key).getD .none

/-- The errors, each under the index of its row. -/
def eachErrors (rows : List EachRow) : List String :=
  (rows.mapIdx fun index row => (index, row)).filterMap fun (index, row) =>
    match row.error with
    | none | some "" => none
    | some text => some ("item " ++ toString index ++ ": " ++ text)

/-- What `collect_each_runs` shows. -/
def eachShown (rows : List EachRow) : String :=
  let failed := (eachErrors rows).length
  if failed = 0 then toString rows.length ++ " items"
  else toString rows.length ++ " items, " ++ toString failed ++ " failed"

/-- `collect_each_runs`: the outputs, what is shown, and the errors.  A key that is named again
keeps its place. -/
def collectEachRuns (rows : List EachRow) (sockets : List String) :
    Dict String (List Value) × String × String :=
  (rows.foldl (fun output row => output.map fun key values => values ++ [row.valueAt key])
      (.ofList ((eachKeys rows sockets).map fun key => (key, []))),
    eachShown rows, String.intercalate "; " (eachErrors rows))

/-! ## Plans go by the index -/

variable {i : ℕ} {plan : Dict String Value}

section

variable {streams : Dict String (List Value)} {constants : Dict String Value}
  {plans : List (Dict String Value)}

/-- The longest stream is one of them. -/
theorem longest_spec (lists : List (List Value)) (count most : ℕ)
    (h : lists.foldl (fun count items => if count < items.length then items.length else count) count
      = most) :
    count ≤ most ∧ (∀ items ∈ lists, items.length ≤ most) ∧
      (most = count ∨ ∃ items ∈ lists, items.length = most) := by
  induction lists generalizing count with
  | nil =>
      cases h
      exact ⟨le_rfl, fun _ hitems => (not_mem_nil hitems).elim, Or.inl rfl⟩
  | cons items lists ih =>
      rw [foldl_cons] at h
      obtain ⟨hle, hall, hfrom⟩ := ih _ h
      simp only [forall_mem_cons, exists_mem_cons_iff]
      split at hle
      · exact ⟨by omega, ⟨hle, hall⟩, Or.inr (hfrom.imp_left fun heq => by simp_all)⟩
      · exact ⟨hle, ⟨by omega, hall⟩, hfrom.imp (fun heq => by simp_all) Or.inr⟩

section

variable (h : longestEachPlans streams constants = some plans)

include h

/-- The number of plans. -/
theorem length_longestEachPlans : plans.length = longest streams := by
  unfold longestEachPlans at h
  split at h
  · cases h
  · cases h
    rw [length_map, length_range]

/-- A stream that is as long as the plans are many. -/
theorem exists_longest :
    (∀ items ∈ streams.values, items.length ≤ plans.length) ∧
      ∃ items ∈ streams.values, items.length = plans.length := by
  rw [length_longestEachPlans h]
  obtain ⟨-, hall, hfrom⟩ := longest_spec streams.values 0 _ rfl
  refine ⟨hall, hfrom.elim (fun hzero => ?_) id⟩
  -- every stream is empty, and there is one
  have hsome : streams.values ≠ [] := by
    intro hnil
    unfold longestEachPlans at h
    rw [List.map_eq_nil_iff.1 hnil] at h
    cases h
  obtain ⟨items, hitems⟩ := exists_mem_of_ne_nil _ hsome
  exact ⟨items, hitems, (Nat.le_zero.1 (hzero ▸ hall items hitems)).trans hzero.symm⟩

/-- What a plan feeds into a socket. -/
theorem get?_longestEachPlans (hplan : plans[i]? = some plan) (socket : String) :
    plan.get? socket = ((streams.get? socket).map (feed i)).or (constants.get? socket) := by
  unfold longestEachPlans at h
  split at h
  · cases h
  · cases h
    rw [List.getElem?_map, Option.map_eq_some_iff] at hplan
    obtain ⟨j, hj, rfl⟩ := hplan
    obtain ⟨-, rfl⟩ : i < longest streams ∧ i = j := by
      simpa [List.getElem?_eq_some_iff] using hj
    have hmap : streams.entries.map (fun e => (e.1, feed i e.2)) =
        (streams.map fun _ items => feed i items).entries := rfl
    rw [hmap, Dict.get?_update _ _ (Dict.nodup_keys _)]
    exact congrArg (Option.or · _) (Dict.get?_map streams _ socket)

end

end

/-! ## Outputs go by the index -/

/-- **Stacking rows**: a list that is there goes on with what each row says under its key. -/
theorem get?_stacked (rows : List EachRow) (output : Dict String (List Value)) (key : String) :
    (rows.foldl (fun output row => output.map fun key values => values ++ [row.valueAt key])
      output).get? key = (output.get? key).map fun values =>
        values ++ rows.map fun row => row.valueAt key := by
  induction rows generalizing output with
  | nil => simp
  | cons row rows ih =>
      rw [foldl_cons, ih, Dict.get?_map, Option.map_map]
      simp [Function.comp_def]

/-- What a run has put out. -/
theorem eachRow_produced {py : Python} {stopped : ℕ → Bool}
    {runOnce : ℕ → Dict String Value → Except String (Option (Dict String Value) × Option String)}
    {produced : Dict String Value} :
    (eachRow py stopped runOnce i plan).produced = some produced ↔
      stopped i = false ∧ ∃ display, runOnce i plan = .ok (some produced, display) := by
  unfold eachRow
  cases stopped i with
  | true => simp
  | false =>
      rcases runOnce i plan with text | ⟨held, display⟩
      · simp
      · simp

variable {key : String}

theorem get?_emptyLists {keys : List String} :
    (Dict.ofList (keys.map fun key => (key, ([] : List Value)))).get? key =
      if key ∈ keys then some [] else none := by
  have hfold : ∀ d : Dict String (List Value),
      (d.update (keys.map fun key => (key, []))).get? key =
        if key ∈ keys then some [] else d.get? key := by
    induction keys with
    | nil => intro d; simp
    | cons first keys ih =>
        intro d
        rw [map_cons, Dict.update_cons, ih, Dict.get?_set]
        grind
  rw [Dict.ofList, hfold, Dict.get?_empty]

/-- The outputs: under each key, what the rows say in their order. -/
theorem get?_collectEachRuns (rows : List EachRow) (sockets : List String) (key : String) :
    (collectEachRuns rows sockets).1.get? key =
      if key ∈ eachKeys rows sockets then some (rows.map fun row => row.valueAt key) else none := by
  unfold collectEachRuns
  dsimp only
  rw [get?_stacked, get?_emptyLists]
  split <;> rfl

section

variable {py : Python} {stopped : ℕ → Bool}
  {runOnce : ℕ → Dict String Value → Except String (Option (Dict String Value) × Option String)}
  {plans : List (Dict String Value)}

/-- The keys of the outputs. -/
theorem mem_collectEachRuns {names : List String} :
    key ∈ (collectEachRuns (eachRows py stopped runOnce plans) names).1.keys ↔
      key ∈ names ∨ ∃ (i : ℕ) (plan : _) (produced : _) (display : _),
        plans[i]? = some plan ∧ stopped i = false ∧
          runOnce i plan = .ok (some produced, display) ∧ key ∈ produced.keys := by
  rw [Dict.mem_keys, get?_collectEachRuns]
  have hsplit : ∀ p : Prop, [Decidable p] → ∀ vs : List Value,
      ((if p then some vs else none).isSome = true ↔ p) := fun p _ vs => by
    split <;> simp [*]
  rw [hsplit, eachKeys, mem_append, mem_flatMap]
  refine or_congr_right ⟨?_, ?_⟩
  · rintro ⟨row, hrow, hkey⟩
    obtain ⟨i, hi, rfl⟩ := List.mem_mapIdx.1 hrow
    cases hd : (eachRow py stopped runOnce i plans[i]).produced with
    | none =>
        rw [hd] at hkey
        cases hkey
    | some produced =>
        rw [hd] at hkey
        obtain ⟨hgoes, display, hrun⟩ := eachRow_produced.1 hd
        exact ⟨i, _, produced, display, List.getElem?_eq_getElem hi, hgoes, hrun, hkey⟩
  · rintro ⟨i, plan, produced, display, hplan, hgoes, hrun, hkey⟩
    obtain ⟨hi, rfl⟩ := List.getElem?_eq_some_iff.1 hplan
    refine ⟨_, List.mem_mapIdx.2 ⟨i, hi, rfl⟩, ?_⟩
    rw [eachRow_produced.2 ⟨hgoes, display, hrun⟩]
    exact hkey

/-- In the place of an index stands what its own plan put out, and nothing where it was stopped
or failed. -/
theorem valueAt_eachRows (hplan : plans[i]? = some plan) :
    ((eachRows py stopped runOnce plans).map fun row => row.valueAt key)[i]? =
      some (if stopped i then .none else match runOnce i plan with
        | .error _ => .none
        | .ok (produced, _) => (produced.bind fun d => d.get? key).getD .none) := by
  rw [eachRows, List.getElem?_map, List.getElem?_mapIdx, hplan]
  unfold eachRow EachRow.valueAt
  cases stopped i with
  | true => rfl
  | false => cases hrun : runOnce i plan <;> simp [hrun]

end

/-- **Foreach goes by the index.**  There is a plan for each index of the longest stream, which
feeds each stream's item, the last item of a shorter stream, nothing of an empty one, and the
constants.  Each output is a list of that length; in the place of an index stands what its own
plan put out under the key, and nothing where it failed or was stopped. -/
theorem each_aligned (py : Python) (streams : Dict String (List Value))
    (constants : Dict String Value) (stopped : ℕ → Bool)
    (runOnce : ℕ → Dict String Value → Except String (Option (Dict String Value) × Option String))
    (names : List String) :
    (longestEachPlans streams constants = none ↔ streams.keys = []) ∧
    ∀ plans : List (Dict String Value), longestEachPlans streams constants = some plans →
      ((∀ items ∈ streams.values, items.length ≤ plans.length) ∧
        ∃ items ∈ streams.values, items.length = plans.length) ∧
      (∀ (i : ℕ) plan, plans[i]? = some plan → ∀ socket,
        (∀ items, streams.get? socket = some items →
          (∀ item, items[i]? = some item → plan.get? socket = some item) ∧
          (∀ item, items[i]? = none → items.getLast? = some item →
            plan.get? socket = some item) ∧
          (items = [] → plan.get? socket = some .none)) ∧
        (streams.get? socket = none → plan.get? socket = constants.get? socket)) ∧
      let output := (collectEachRuns (eachRows py stopped runOnce plans) names).1
      (∀ key, key ∈ output.keys ↔ key ∈ names ∨ ∃ (i : ℕ) (plan : _) (produced : _) (display : _),
        plans[i]? = some plan ∧ stopped i = false ∧
          runOnce i plan = .ok (some produced, display) ∧ key ∈ produced.keys) ∧
      ∀ key values, output.get? key = some values → values.length = plans.length ∧
        ∀ (i : ℕ) plan, plans[i]? = some plan →
          (stopped i = true → values[i]? = some .none) ∧
          (stopped i = false → ∀ text, runOnce i plan = .error text → values[i]? = some .none) ∧
          (stopped i = false → ∀ produced display, runOnce i plan = .ok (produced, display) →
            values[i]? = some ((produced.bind fun d => d.get? key).getD .none)) := by
  have hempty : streams.keys = [] ↔ streams.entries = [] := List.map_eq_nil_iff
  refine ⟨?_, fun plans hplans => ⟨?_, fun i plan hplan socket => ⟨fun items hitems => ?_,
    fun hnone => ?_⟩, ?_, fun key values hvalues => ?_⟩⟩
  · rw [hempty]
    unfold longestEachPlans
    simp
  · exact exists_longest hplans
  · rw [get?_longestEachPlans hplans hplan, hitems, Option.map_some, Option.some_or]
    unfold feed
    refine ⟨fun item hitem => by rw [hitem], fun item hover hlast => ?_, fun hnil => ?_⟩
    · rw [hover, hlast]
      rfl
    · rw [hnil]
      rfl
  · rw [get?_longestEachPlans hplans hplan, hnone, Option.map_none, Option.none_or]
  · exact fun key => mem_collectEachRuns
  · rw [get?_collectEachRuns] at hvalues
    split at hvalues
    · cases hvalues
      refine ⟨by simp [eachRows], fun i plan hplan => ?_⟩
      rw [valueAt_eachRows hplan]
      refine ⟨fun hstop => by simp [hstop], fun hgoes text htext => by simp [hgoes, htext],
        fun hgoes produced display hrun => by simp [hgoes, hrun]⟩
    · cases hvalues

end ArchHub.Stem

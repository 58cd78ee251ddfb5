import Mathlib

/-!
# Releases and builds

What the self-update compares: the identity of a release as the release feed
publishes it, and the identity of the build that is installed.

* `utcBuildTime`, `legacyBuiltAt`: the time of a build, read from its text.
* `Release`: what `read_latest_release` answers, once validated.
* `Installed`: the two files an installer writes, `BUILD_ID` and
  `BUILD_METADATA.json`.
* `orderingRefusal`: why a release may not follow the installed build.

A build time is a number here that grows with the time; only its order is used.
-/

namespace ArchHub.Update

/-! ## Build times -/

/-- A run of digits. -/
def number? (cs : List Char) : Option ℕ :=
  cs.foldlM (fun n c => if c.isDigit then some (10 * n + (c.toNat - '0'.toNat)) else none) 0

/-- The days of a month. -/
def daysIn (year month : ℕ) : ℕ :=
  if month = 2 then
    if year % 4 = 0 ∧ (year % 100 ≠ 0 ∨ year % 400 = 0) then 29 else 28
  else if month ∈ [4, 6, 9, 11] then 30 else 31

/-- `datetime`: the fields of a time, where they name one. -/
def moment? (year month day hour minute second : ℕ) : Option ℕ :=
  if 1 ≤ year ∧ 1 ≤ month ∧ month ≤ 12 ∧ 1 ≤ day ∧ day ≤ daysIn year month ∧
      hour < 24 ∧ minute < 60 ∧ second < 60 then
    some (((((year * 13 + month) * 32 + day) * 24 + hour) * 60 + minute) * 60 + second)
  else none

/-- The characters from one place on. -/
def field (cs : List Char) (start count : ℕ) : List Char := (cs.drop start).take count

/-- `_utc_build_time`: a time written `YYYY-MM-DDTHH:MM:SSZ`. -/
def utcBuildTime (value : String) : Option ℕ :=
  let cs := value.toList
  if cs.length = 20 ∧ cs[4]? = some '-' ∧ cs[7]? = some '-' ∧ cs[10]? = some 'T' ∧
      cs[13]? = some ':' ∧ cs[16]? = some ':' ∧ cs[19]? = some 'Z' then do
    moment? (← number? (field cs 0 4)) (← number? (field cs 5 2)) (← number? (field cs 8 2))
      (← number? (field cs 11 2)) (← number? (field cs 14 2)) (← number? (field cs 17 2))
  else none

/-- `[1-9][0-9]*`. -/
def counter (cs : List Char) : Bool :=
  cs.all Char.isDigit && decide (cs ≠ [] ∧ cs.head? ≠ some '0')

/-- A lower-case hexadecimal digit. -/
def isHex (c : Char) : Bool := c.isDigit || decide ('a' ≤ c ∧ c ≤ 'f')

/-- `_legacy_built_at`: the time in the identity of an old public build. -/
def legacyBuiltAt (buildId : String) : Option String :=
  match buildId.toList.splitOn '-' with
  | [date, clock, run, attempt, commit] =>
      if date.length = 8 ∧ clock.length = 6 ∧ counter run ∧ counter attempt ∧
          commit.length = 12 ∧ commit.all isHex then do
        let _ ← moment? (← number? (field date 0 4)) (← number? (field date 4 2))
          (← number? (field date 6 2)) (← number? (field clock 0 2)) (← number? (field clock 2 2))
          (← number? (field clock 4 2))
        some (String.ofList (field date 0 4 ++ '-' :: field date 4 2 ++ '-' :: field date 6 2 ++
          'T' :: field clock 0 2 ++ ':' :: field clock 2 2 ++ ':' :: field clock 4 2 ++ ['Z']))
      else none
  | _ => none

/-! ## Releases -/

/-- `[A-Za-z0-9._-]`. -/
def isBuildChar (c : Char) : Bool := c.isAlphanum || c ∈ ['.', '_', '-']

/-- The pattern of a build identity, of at most so many characters. -/
def buildIdOk (most : ℕ) (buildId : String) : Bool :=
  decide (1 ≤ buildId.toList.length ∧ buildId.toList.length ≤ most) && buildId.toList.all isBuildChar

/-- The pattern of a SHA-256, in either case. -/
def shaOk (sha256 : String) : Bool :=
  decide (sha256.toList.length = 64) &&
    sha256.toList.all fun c => isHex c || decide ('A' ≤ c ∧ c ≤ 'F')

/-- What `read_latest_release` answers.  The SHA-256 is in lower case. -/
structure Release where
  buildId : String
  builtAt : Option String
  sha256 : String
  url : String
  tag : String
  buildId_ok : buildIdOk 128 buildId = true
  sha256_ok : sha256.toList.length = 64 ∧ sha256.toList.all isHex = true
  builtAt_ok : ∀ time ∈ builtAt, time.toList.length ≤ 20
deriving DecidableEq

/-- `_target_build_time`. -/
def Release.time (r : Release) : Option ℕ := r.builtAt.bind utcBuildTime

/-- A hexadecimal digit. -/
def hexDigit (n : ℕ) : Char := if n < 10 then Char.ofNat (48 + n) else Char.ofNat (55 + n)

/-- `urllib.parse.quote`, of one character. -/
def quoteChar (c : Char) : List Char :=
  if c.isAlphanum || c ∈ ['_', '.', '-', '~'] then [c]
  else (String.utf8EncodeChar c).flatMap fun b =>
    ['%', hexDigit (b.toNat / 16), hexDigit (b.toNat % 16)]

/-- The address that `_asset_url_allowed` expects of the release feed. -/
def Release.githubUrl (tag : String) : String :=
  String.ofList ("https://github.com/Fargaly/ArchHub/releases/download/".toList ++
    tag.toList.flatMap quoteChar ++ "/ArchHub-Setup-0.exe".toList)

/-- A release passes the checks of the public feed: its address is that of its tag. -/
def Release.Public (r : Release) : Prop :=
  r.tag.toList.length ≤ 256 ∧ r.url = githubUrl r.tag

/-- A published release passes the checks that are made of a staged one. -/
theorem Release.identity_ok (r : Release) : (buildIdOk 256 r.buildId && shaOk r.sha256) = true := by
  have hbuild := r.buildId_ok
  obtain ⟨hlength, hhex⟩ := r.sha256_ok
  unfold buildIdOk at hbuild
  unfold buildIdOk shaOk
  rw [Bool.and_eq_true, decide_eq_true_iff] at hbuild
  rw [Bool.and_eq_true, Bool.and_eq_true, Bool.and_eq_true, decide_eq_true_iff, decide_eq_true_iff]
  refine ⟨⟨⟨hbuild.1.1, hbuild.1.2.trans (by decide)⟩, hbuild.2⟩, hlength, ?_⟩
  rw [List.all_eq_true] at hhex ⊢
  intro c hc
  rw [hhex c hc]
  rfl

/-! ## The installed build -/

/-- `str.isspace`. -/
def isSpace (c : Char) : Bool :=
  let n := c.toNat
  (9 ≤ n && n ≤ 13) || (28 ≤ n && n ≤ 32) || n ∈ [0x85, 0xa0, 0x1680, 0x2028, 0x2029, 0x202f,
    0x205f, 0x3000] || (0x2000 ≤ n && n ≤ 0x200a)

/-- `str.strip`. -/
def strip (cs : List Char) : List Char :=
  ((cs.dropWhile isSpace).reverse.dropWhile isSpace).reverse

/-- `BUILD_METADATA.json`, as it is read. -/
inductive BuildMetadata
  | absent
  | unreadable (reason : String)
  | oversize
  | invalid
  /-- An object: whether it has its three fields and format 1, and two of these fields. -/
  | object (formed : Bool) (buildId builtAt : Option String)
deriving DecidableEq

/-- The identity files of the application folder. -/
structure Installed where
  /-- The text of `BUILD_ID`, where it can be read. -/
  buildIdFile : Option String
  metadata : BuildMetadata
deriving DecidableEq

namespace Installed

/-- `installed_build_id`, empty where there is none. -/
def buildId (i : Installed) : String :=
  match i.buildIdFile with
  | none => ""
  | some text =>
      let value := String.ofList (strip (text.toList.take 258))
      if buildIdOk 256 value then value else ""

/-- `_installed_build_time`. -/
def buildTime (i : Installed) : Except String (Option ℕ) :=
  match i.metadata with
  | .absent => .ok ((legacyBuiltAt i.buildId).bind utcBuildTime)
  | .unreadable reason => .error reason
  | .oversize => .error "installed build metadata exceeds size budget"
  | .invalid => .error "installed build metadata is invalid"
  | .object formed named builtAt =>
      if formed && decide (named = some i.buildId) && (builtAt.bind utcBuildTime).isSome then
        .ok (builtAt.bind utcBuildTime)
      else
        .error "installed build metadata does not match BUILD_ID or its ordering contract"

/-- `_installed_matches_target`. -/
def matchesTarget (i : Installed) (r : Release) : Except String Bool :=
  if i.buildId ≠ r.buildId then .ok false
  else match r.time with
    | none => .ok false
    | some target => i.buildTime.map fun time => decide (time = some target)

/-- `_ordering_refusal`. -/
def orderingRefusal (i : Installed) (r : Release) : Option String :=
  if i.buildId = "" then
    some "Installed build identity is missing; update ordering is unavailable."
  else match i.buildTime with
    | .error reason => some reason
    | .ok installed => match installed, r.time with
      | some installed, some target =>
          if target ≤ installed then
            some "The offered build is not newer than the installed build; no update staged."
          else none
      | _, _ => some
          "Build ordering is unknown; a dated installer/release is required before updating."

/-- A release whose time is strictly newer than that of the installed build. -/
def Newer (i : Installed) (r : Release) : Prop :=
  i.buildId ≠ "" ∧ ∃ installed target, i.buildTime = .ok (some installed) ∧ r.time = some target ∧
    installed < target

variable {i : Installed} {r : Release}

/-- **The ordering rule.**  Nothing is refused exactly where the release is newer. -/
theorem orderingRefusal_eq_none : i.orderingRefusal r = none ↔ i.Newer r := by
  unfold orderingRefusal Newer
  constructor
  · intro h
    split at h
    · cases h
    · next hid =>
      split at h
      · cases h
      · next installed htime =>
        split at h
        · next installed target hr =>
          split at h
          · cases h
          · next hlt => exact ⟨hid, installed, target, htime, hr, Nat.lt_of_not_le hlt⟩
        · cases h
  · rintro ⟨hid, installed, target, htime, hr, hlt⟩
    rw [if_neg hid, htime, hr]
    exact if_neg (Nat.not_le_of_lt hlt)

/-- Where the installed build matches a release, it has its identity and its time. -/
theorem matchesTarget_true (h : i.matchesTarget r = .ok true) :
    i.buildId = r.buildId ∧ ∃ target, r.time = some target ∧ i.buildTime = .ok (some target) := by
  unfold matchesTarget at h
  split at h
  · cases h
  · next hid =>
    split at h
    · cases h
    · next target hr =>
      refine ⟨not_not.1 hid, target, hr, ?_⟩
      cases htime : i.buildTime with
      | error e =>
          rw [htime] at h
          cases h
      | ok time =>
          rw [htime] at h
          have htrue : decide (time = some target) = true := Except.ok.inj h
          rw [of_decide_eq_true htrue]

end Installed

end ArchHub.Update

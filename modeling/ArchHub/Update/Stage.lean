import Mathlib
import ArchHub.Lib.Check
import ArchHub.Lib.Cut
import ArchHub.Lib.Transition
import ArchHub.Update.Release

/-!
# The updates folder

A release is downloaded, its package staged beside a marker, installed, booted and confirmed.
The folder holds the package and the marker; the application folder holds the identity of the
installed build.  Each is replaced by itself, so an operation is a plan of writes that can be
cut anywhere.

* `statusOf`: `_status`, what the folder means.
* `stageIfNewer`, `applyStaged`, `rollbackStaged`, `beginUpdateBoot`, `confirmApplied`: the
  operations, each with its answer.
* `updater`: the machine of their runs, with crashes.

An operation that fails between two writes has done a prefix of its plan, as one that is
cancelled or crashes.  The marker is read back as it was written.
-/

namespace ArchHub.Update

open Lib

/-- What a file holds. -/
abbrev Bytes := List UInt8

/-- The hash. -/
structure Host where
  sha256 : Bytes → String

/-- `_INSTALLER_BYTES`. -/
def installerBytes : ℕ := 1024 * 1024 * 1024

/-! ## The marker -/

/-- The phase of a staged release. -/
inductive Phase
  | staged
  | applying
  | awaitingBoot
  | confirmed
  | rolledBack
deriving DecidableEq

/-- The name of a phase in the marker. -/
def Phase.name : Phase → String
  | .staged => "staged"
  | .applying => "applying"
  | .awaitingBoot => "awaiting_boot"
  | .confirmed => "confirmed"
  | .rolledBack => "rolled_back"

/-- `staged.json`. -/
structure Marker where
  release : Release
  /-- The release is a preview. -/
  prerelease : Bool
  phase : Phase
  bootStarted : Bool
deriving DecidableEq

namespace Marker

/-- The characters a character takes in a JSON text of ASCII. -/
def jsonWidth (c : Char) : ℕ :=
  if c = '"' ∨ c = '\\' ∨ c = '\n' ∨ c = '\r' ∨ c = '\t' ∨ c.toNat = 8 ∨ c.toNat = 12 then 2
  else if ' ' ≤ c ∧ c ≤ '~' then 1
  else if c.toNat < 0x10000 then 6 else 12

/-- The length of a JSON string. -/
def jsonLength (text : String) : ℕ := 2 + (text.toList.map jsonWidth).sum

/-- The length of one field, with its separator. -/
def fieldLength (key : String) (value : ℕ) : ℕ := 2 + jsonLength key + value

/-- The length of the marker, as `json.dump` writes it. -/
def size (m : Marker) : ℕ :=
  1 + fieldLength "build_id" (jsonLength m.release.buildId) +
    fieldLength "built_at" ((m.release.builtAt.map jsonLength).getD 4) +
    fieldLength "sha256" (jsonLength m.release.sha256) + fieldLength "url" (jsonLength m.release.url) +
    fieldLength "tag" (jsonLength m.release.tag) +
    (if m.prerelease then fieldLength "prerelease" 4 else 0) +
    fieldLength "phase" (jsonLength m.phase.name) +
    (if m.bootStarted then fieldLength "boot_started" 4 else 0)

end Marker

/-- What the operations read and write. -/
structure Disk where
  marker : Option Marker
  /-- `ArchHub-Setup-0.exe`. -/
  package : Option Bytes
  installed : Installed

/-- `_digest`. -/
def digest (host : Host) (file : Option Bytes) : Except String String :=
  match file with
  | none => .error "staged installer size invalid"
  | some bytes => do
      Check.require (decide (0 < bytes.length ∧ bytes.length ≤ installerBytes))
        "staged installer size invalid"
      .ok (host.sha256 bytes)

/-! ## The status -/

/-- What the updates folder is in, as it is answered. -/
inductive StatusName
  | none
  | staged
  | applying
  | awaitingBoot
  | confirmed
  | rolledBack
  | notReady
  | unavailable
  | ignored
  | failed
deriving DecidableEq

/-- The text of a status. -/
def StatusName.name : StatusName → String
  | .none => "none"
  | .staged => "staged"
  | .applying => "applying"
  | .awaitingBoot => "awaiting_boot"
  | .confirmed => "confirmed"
  | .rolledBack => "rolled_back"
  | .notReady => "not_ready"
  | .unavailable => "unavailable"
  | .ignored => "ignored"
  | .failed => "failed"

/-- The status of a marker in a phase. -/
def Phase.status : Phase → StatusName
  | .staged => .staged
  | .applying => .applying
  | .awaitingBoot => .awaitingBoot
  | .confirmed => .confirmed
  | .rolledBack => .rolledBack

/-- The status of a marker beside an installed build: what is installed waits for its boot. -/
def Marker.status (m : Marker) (current : String) : StatusName :=
  if current = m.release.buildId ∧ m.phase = .staged then .awaitingBoot else m.phase.status

/-- What `_status` answers: the fields of the marker, and what it adds. -/
structure Status where
  marker : Option Marker
  staged : Bool
  retained : Bool
  status : StatusName
  installedBuildId : Option String
  bytesVerified : Option Bool
  reason : String

/-- The package is compared with the marker, where it has to be. -/
def verifyBytes (host : Host) (disk : Disk) (m : Marker) (needed : Bool) : Except String Unit :=
  if needed then do
    let found ← digest host disk.package
    Check.require (decide (found = m.release.sha256))
      "staged installer no longer matches published SHA-256"
  else .ok ()

/-- `_status`. -/
def statusOf (host : Host) (disk : Disk) (verifyConfirmed : Bool) : Except String Status :=
  match disk.marker with
  | none => .ok ⟨none, false, false, .none, none, none, "nothing staged"⟩
  | some m => do
      Check.require (decide (m.size ≤ 16384)) "staged marker exceeds size budget"
      Check.require (buildIdOk 256 m.release.buildId && shaOk m.release.sha256)
        "staged identity invalid"
      let current := disk.installed.buildId
      if m.phase = .rolledBack then
        .ok ⟨m, false, true, .rolledBack, none, none,
          "Previous build restored after a failed update; waiting for a newer release."⟩
      else if m.phase = .applying then
        -- The attempt survives the loss or alteration of its package.
        match digest host disk.package with
        | .ok found =>
            let verified := decide (found = m.release.sha256)
            .ok ⟨m, true, false, .applying, current, verified,
              "installation requires reconciliation" ++
                if verified then "" else "; installer bytes changed"⟩
        | .error e => .ok ⟨m, true, false, .applying, current, false,
            "installation requires reconciliation; " ++ e⟩
      else do
        let confirmedCurrent := decide (m.phase = .confirmed ∧ current = m.release.buildId)
        verifyBytes host disk m (verifyConfirmed || !confirmedCurrent)
        match if m.status current = .staged then disk.installed.orderingRefusal m.release
            else none with
        | some refusal => .ok ⟨m, false, true, .notReady, current, true, refusal⟩
        | none => .ok ⟨m, true, false, m.status current, current,
            verifyConfirmed || !confirmedCurrent, (m.status current).name⟩

/-! ## Answers -/

/-- What an operation answers. -/
structure Answer where
  staged : Option Bool
  buildId : Option String
  status : Option StatusName
  reason : String
  bytesVerified : Option Bool := none
  applied : Option Bool := none
  confirmed : Option Bool := none
  rolledBack : Option Bool := none
  bootStarted : Option Bool := none
  downloaded : Option Bool := none

/-- `_failure`. -/
def failure (reason : String) : Answer := ⟨some false, some "", some .unavailable, reason,
  none, none, none, none, none, none⟩

/-- A status, answered. -/
def Status.answer (held : Status) : Answer :=
  ⟨some held.staged, some ((held.marker.map fun m => m.release.buildId).getD ""), some held.status,
    held.reason, held.bytesVerified, none, none, none, none, none⟩

/-! ## Writes -/

/-- One thing an operation replaces. -/
inductive Write
  | package (bytes : Bytes)
  | mark (m : Marker)
  /-- The installer runs for a marker, and leaves a build installed. -/
  | install (m : Marker) (after : Installed)

/-! ## Staging -/

/-- What the release feed answers: the latest release, and whether a pre-release was seen. -/
structure Feed where
  latest : Option Release
  sawPrerelease : Bool

/-- What `stage_if_newer` is called with, and meets. -/
structure StageCall where
  /-- The channel. -/
  stable : Bool
  feed : Feed
  /-- The bytes that arrive, or what the transfer raises. -/
  download : Except String Bytes

/-- `_keep_held_stage`. -/
def keepHeldStage (held : Status) (latest : Option Release) : Bool :=
  if held.status = .applying then true
  else match latest, held.marker with
    | none, _ => true
    | some _, none => false
    | some r, some m =>
        if m.release.buildId = r.buildId then true
        else match m.release.time, r.time with
          | some heldTime, some latestTime => decide (latestTime ≤ heldTime)
          | _, _ => false

/-- The marker of a release that is staged. -/
def freshMarker (c : StageCall) (r : Release) : Marker :=
  ⟨r, !c.stable && c.feed.sawPrerelease, .staged, false⟩

/-- The download of `stage_if_newer`, once the release is to be staged. -/
def download (host : Host) (c : StageCall) (latest : Release) : Except String Bytes := do
  let bytes ← c.download
  let found ← digest host (some bytes)
  Check.require (decide (found = latest.sha256)) "download did not match published SHA-256"
  .ok bytes

/-- The answer where a release may not follow the installed build. -/
def notReady (latest : Release) (refusal : String) : Answer :=
  ⟨some false, some latest.buildId, some .notReady, refusal, none, none, none, none, none, none⟩

/-- The package is replaced, and then the marker. -/
def stageBytes (host : Host) (c : StageCall) (latest : Release) (bytes : Bytes) (disk : Disk) :
    List Write × Answer :=
  let marker := freshMarker c latest
  ([.package bytes, .mark marker],
    match statusOf host ⟨some marker, some bytes, disk.installed⟩ false with
    | .error e => failure e
    | .ok status => { status.answer with downloaded := some true })

/-- `stage_if_newer`. -/
def stageIfNewer (host : Host) (c : StageCall) (disk : Disk) : List Write × Answer :=
  match statusOf host disk false with
  | .error e => ([], failure e)
  | .ok held =>
      let current := disk.installed.buildId
      -- A build that waits to prove its boot, or is being installed, is not replaced.
      if held.staged && decide (held.status = .applying ∨ held.status = .awaitingBoot) then
        ([], held.answer)
      else if held.staged && decide (held.status ≠ .confirmed) && keepHeldStage held c.feed.latest then
        ([], held.answer)
      else match c.feed.latest with
        | none =>
            if c.feed.sawPrerelease && c.stable then
              ([], ⟨some false, some "", some .ignored, "pre-release ignored", none, some false, none,
                none, none, none⟩)
            else ([], ⟨some false, some "", none, "no release information", none, none, none, none,
              none, none⟩)
        | some latest =>
            if held.status = .rolledBack ∧
                held.marker.map (fun m => m.release.buildId) = some latest.buildId then
              ([], held.answer)
            else if current = "" then
              ([], ⟨some false, some "", none,
                "Installed build identity is missing; install a versioned ArchHub release first.",
                none, none, none, none, none, none⟩)
            else if latest.buildId = current then
              ([], ⟨some false, some current, none, "up to date", none, none, none, none, none, none⟩)
            else match disk.installed.orderingRefusal latest with
              | some refusal => ([], notReady latest refusal)
              | none =>
                  if disk.package.isSome && !held.staged && !held.retained then
                    ([], failure "unowned installer already exists")
                  else match download host c latest with
                    | .error e => ([], failure e)
                    | .ok bytes => match disk.installed.orderingRefusal latest with
                      | some refusal => ([], notReady latest refusal)
                      | none => stageBytes host c latest bytes disk

/-! ## Installing -/

/-- How the installer ends. -/
structure InstallerOutcome where
  /-- What running it raises. -/
  raises : Option String
  exitCode : ℤ
  /-- What its log refuses. -/
  refusal : Option String
  after : Installed

/-- What `apply_staged` is called with, and meets. -/
structure ApplyCall where
  /-- `before_apply`. -/
  admitted : Except String Unit
  /-- `stop_runtime`. -/
  stopped : Except String Unit
  outcome : InstallerOutcome

/-- The answer of an attempt whose outcome is not known. -/
def reconcile (m : Marker) (e : String) : Answer :=
  ⟨some true, some m.release.buildId, some .applying,
    "installer outcome requires reconciliation: " ++ e, none, some false, none, none, none, none⟩

/-- The attempt itself, from the reservation on. -/
def attempt (c : ApplyCall) (m : Marker) : List Write × Answer :=
  let reserved : Write := .mark { m with phase := .applying }
  let run : Write := .install m c.outcome.after
  match c.stopped with
  | .error e => ([reserved], reconcile m e)
  | .ok _ => match c.outcome.raises with
    | some e => ([reserved, run], reconcile m e)
    | none =>
        if c.outcome.exitCode ≠ 0 then
          ([reserved, run, .mark { m with phase := .staged }],
            ⟨some true, some m.release.buildId, some .failed,
              match c.outcome.refusal with
              | some line => "installer failed: " ++ line
              | none => "installer failed (exit " ++ toString c.outcome.exitCode ++ ")",
              none, some false, none, some false, none, none⟩)
        else match c.outcome.after.matchesTarget m.release with
          | .error e => ([reserved, run], reconcile m e)
          | .ok false =>
              ([reserved, run, .mark { m with phase := .staged }],
                ⟨some true, some m.release.buildId, some .failed,
                  match c.outcome.refusal with
                  | some line => "installer failed: " ++ line
                  | none => "installer did not confirm its outcome",
                  none, some false, none, some false, none, none⟩)
          | .ok true =>
              ([reserved, run, .mark { m with phase := .awaitingBoot }],
                ⟨none, some m.release.buildId, some .awaitingBoot,
                  "installer completed; successful new boot acknowledgment required",
                  none, some true, none, none, none, none⟩)

/-- `apply_staged`. -/
def applyStaged (host : Host) (c : ApplyCall) (disk : Disk) : List Write × Answer :=
  match statusOf host disk true with
  | .error e => ([], { failure e with applied := some false })
  | .ok data => match data.marker with
    | none => ([], { data.answer with applied := some false })
    | some m =>
        if !data.staged then ([], { data.answer with applied := some false })
        else if data.installedBuildId = some m.release.buildId then
          ([], { data.answer with
            applied := some false, reason := "already installed; " ++ data.status.name })
        else if data.status ≠ .staged then
          ([], { data.answer with
            applied := some false, reason := "prior attempt requires reconciliation" })
        else match disk.installed.orderingRefusal m.release with
          | some refusal => ([], { data.answer with
              staged := some false, applied := some false, status := some .notReady,
              reason := refusal })
          | none => match c.admitted with
            | .error e => ([], { failure e with applied := some false })
            | .ok _ => match disk.installed.orderingRefusal m.release with
              | some refusal => ([], { data.answer with
                  staged := some false, applied := some false, status := some .notReady,
                  reason := refusal })
              | none => attempt c m

/-- `rollback_staged`: product bytes are not written again. -/
def rollbackStaged (disk : Disk) : List Write × Answer :=
  match disk.marker with
  | none => ([], { failure "no staged marker" with rolledBack := some false })
  | some m =>
      if m.phase = .applying ∨ m.phase = .awaitingBoot then
        ([], ⟨none, some m.release.buildId, none, "new build did not confirm a successful boot",
          none, none, some false, some false, none, none⟩)
      else
        ([], ⟨none, none, none, "no failed installation to roll back", none, none, none, some false,
          none, none⟩)

/-! ## Booting -/

/-- The marker of a boot that has begun. -/
def bootMarker (m : Marker) : Marker := { m with phase := .awaitingBoot, bootStarted := true }

/-- `begin_update_boot`. -/
def beginUpdateBoot (host : Host) (disk : Disk) : List Write × Answer :=
  match statusOf host disk false with
  | .error e => ([], { failure e with status := some .applying })
  | .ok data => match data.marker with
    | none => ([], data.answer)
    | some m =>
        if data.status = .applying ∧ data.bytesVerified = some true then
          match disk.installed.matchesTarget m.release with
          | .error e => ([], { failure e with status := some .applying })
          | .ok true => ([.mark (bootMarker m)], { data.answer with
              status := some .awaitingBoot, bootStarted := some true })
          | .ok false => ([], data.answer)
        else if data.status = .awaitingBoot then ([.mark (bootMarker m)], data.answer)
        else ([], data.answer)

/-- `confirm_applied`. -/
def confirmApplied (host : Host) (rollback : Bool) (disk : Disk) : List Write × Answer :=
  match statusOf host disk true with
  | .error e =>
      let restored := (rollbackStaged disk).2
      if rollback && decide (restored.rolledBack = some true) then ([], restored)
      else ([], { failure e with confirmed := some false })
  | .ok data => match data.marker with
    | none => ([], { data.answer with
        confirmed := some false, reason := "installed BUILD_ID does not match staged build" })
    | some m =>
        if !data.staged ∨ data.installedBuildId ≠ some m.release.buildId ∨
            data.bytesVerified ≠ some true ∨
            ¬(data.status = .applying ∨ data.status = .awaitingBoot ∨ data.status = .confirmed) then
          ([], { data.answer with
            confirmed := some false
            rolledBack := if rollback && decide (data.status = .awaitingBoot) then some false
              else none
            reason := "installed BUILD_ID does not match staged build" })
        else match disk.installed.matchesTarget m.release with
          | .ok true => ([.mark { m with phase := .confirmed }], { data.answer with
              confirmed := some true, status := some .confirmed
              reason := "successful boot acknowledged" })
          | _ => ([], { data.answer with
              confirmed := some false
              rolledBack := if rollback then some false else none
              reason := "installed build metadata does not match the staged release" ++
                if rollback then "" else "; reconciliation required" })

/-! ## Runs -/

/-- An operation. -/
inductive Call
  | stage (c : StageCall)
  | apply (c : ApplyCall)
  | beginBoot
  | confirm (rollback : Bool)
  | rollback

/-- The plan of an operation, and its answer. -/
def plan (host : Host) (disk : Disk) : Call → List Write × Answer
  | .stage c => stageIfNewer host c disk
  | .apply c => applyStaged host c disk
  | .beginBoot => beginUpdateBoot host disk
  | .confirm rollback => confirmApplied host rollback disk
  | .rollback => rollbackStaged disk

/-- A run of the installer: its bytes, the marker it ran for, and what was installed before. -/
structure InstallerRun where
  bytes : Option Bytes
  marker : Marker
  before : Installed

/-- The disk, with what the feed has published and what the installer was run on. -/
structure World where
  disk : Disk
  published : List Release
  runs : List InstallerRun

/-- An empty updates folder beside an installed build. -/
def World.new (installed : Installed) : World := ⟨⟨none, none, installed⟩, [], []⟩

namespace World

/-- One write. -/
def write (w : World) : Write → World
  | .package bytes => { w with disk := { w.disk with package := some bytes } }
  | .mark m => { w with disk := { w.disk with marker := some m } }
  | .install m after => { w with
      disk := { w.disk with installed := after }
      runs := w.runs ++ [⟨w.disk.package, m, w.disk.installed⟩] }

/-- What the feed answers an operation is published. -/
def heard (w : World) : Call → World
  | .stage c => { w with published := w.published ++ c.feed.latest.toList }
  | _ => w

end World

/-- An operation, and after how many of its writes it stops. -/
structure Action where
  call : Call
  stop : Option ℕ

/-- The updates folder under its operations and their crashes. -/
def updater (host : Host) : Machine World Action where
  step w a := cut World.write a.stop (plan host w.disk a.call).1 (w.heard a.call)

end ArchHub.Update

import Mathlib.Algebra.Ring.Int.Defs
import Mathlib.Algebra.Ring.Nat
import StreamServer.Lib.GuardedSystem
import StreamServer.Updater.Installer

/-!
# The update manager

The manager looks for updates, stages them, starts the helper and takes back what it staged, one
operation at a time.  Between two operations its status says what it has, and what it has is on disk.
This holds along the runs in which no operation is left by one of its early returns, no staging fails
over what was staged, and nothing is installed but the version that was last found.

## Main definitions

* `checkForUpdates`, `downloadUpdate`, `installUpdate`, `cancelUpdate` — the operations.
* `updateManager` — the manager as a system whose steps are operations, with what the network, the disk
  and the operating system do in them.
* `Sound` — the status agrees with the candidate, the staged update and the disk.
* `Orderly` — a condition on an operation, in the state it starts from.

## Main results

* `step_sound` — an operation that meets the condition keeps the manager sound.
* `reach_sound` — in every run of such operations the manager is sound.

## References

`server/src/updater/mod.rs`.
-/

namespace StreamServer.Updater

/-- `UpdateOperationState`. -/
inductive UpdateOperationState where
  | idle | checking | available | downloading | staged | waitingForIdle | installing | upToDate | failed
  deriving DecidableEq, Repr

/-- `UpdateStatus`, the fields that the operations change. -/
structure UpdateStatus where
  state : UpdateOperationState
  latestVersion : Option String
  releaseUrl : Option String
  lastCheckedUnixSecs : Option ℤ
  stagedVersion : Option String
  installBlockedBy : List String
  error : Option UpdateErrorKind
  deriving DecidableEq, Repr

/-- A helper that was started: for which version, and which version was the latest then. -/
structure Launch where
  version : String
  latestVersion : Option String
  deriving DecidableEq, Repr

/-- The state of the manager, with the disk and the helpers it has started. -/
structure Manager where
  status : UpdateStatus
  candidate : Option UpdateCandidate
  staged : Option StagedUpdate
  disk : Tree
  launches : List Launch

/-- A manager at its start, where nothing is staged in memory whatever is on disk. -/
def Manager.new (disk : Tree) : Manager where
  status := ⟨.idle, none, none, none, none, [], none⟩
  candidate := none
  staged := none
  disk := disk
  launches := []

namespace Manager

/-- `set_state`. -/
def setState (m : Manager) (state : UpdateOperationState) : Manager :=
  { m with status := { m.status with state := state, error := none, installBlockedBy := [] } }

/-- `fail`. -/
def fail (m : Manager) (error : UpdateErrorKind) : Manager :=
  { m with status := { m.status with state := .failed, error := some error } }

/-! ### Checking -/

/-- What a check is called with, and what it meets. -/
structure Check where
  force : Bool
  intervalHours : ℕ
  now : ℤ
  /-- Whether the client can be made. -/
  client : Bool
  /-- The candidate among the releases, or the error of fetching or selecting. -/
  selected : Except UpdateErrorKind (Option UpdateCandidate)

/-- The seconds between two checks, as the signed number they are compared as. -/
def Check.intervalSecs (c : Check) : ℤ :=
  let secs := min (c.intervalHours * 3600) (2 ^ 64 - 1)
  if secs < 2 ^ 63 then secs else (secs : ℤ) - 2 ^ 64

/-- The difference of two times, within `i64`. -/
def saturatingSub (a b : ℤ) : ℤ := max (-2 ^ 63) (min (a - b) (2 ^ 63 - 1))

/-- Whether the last check was so recent that there is no other. -/
def recentlyChecked (m : Manager) (c : Check) : Bool :=
  !c.force && match m.status.lastCheckedUnixSecs with
    | some last => 0 < c.intervalHours && saturatingSub c.now last < c.intervalSecs
    | none => false

/-- `check_for_updates`. -/
def checkForUpdates (m : Manager) (c : Check) : Manager :=
  if m.recentlyChecked c then m
  else
    let m := m.setState .checking
    if c.client then
      match c.selected with
      | .error error => m.fail error
      | .ok (some candidate) =>
        { m with
          status := { m.status with
            state := .available, lastCheckedUnixSecs := some c.now, installBlockedBy := [],
            error := none, latestVersion := some candidate.version,
            releaseUrl := some candidate.releaseUrl }
          candidate := some candidate }
      | .ok none =>
        { m with
          status := { m.status with
            state := .upToDate, lastCheckedUnixSecs := some c.now, installBlockedBy := [],
            error := none, latestVersion := none, releaseUrl := none }
          candidate := none }
    else m

/-! ### Downloading -/

section Operations

variable (sha256 : Bytes → String) (stagingRoot : FilePath)

/-- What a download meets. -/
structure Download where
  /-- Whether the client can be made. -/
  client : Bool
  delivery : Delivery

/-- `download_update`. -/
def downloadUpdate (m : Manager) (d : Download) : Manager :=
  match m.candidate with
  | none => m
  | some candidate =>
    let m := m.setState .downloading
    if d.client then
      match stageUpdate sha256 d.delivery stagingRoot candidate m.disk with
      | .error place disk => { m with disk := disk }.fail place.kind
      | .ok staged disk =>
        { m with
          status := { m.status with
            state := .staged, stagedVersion := some staged.version, error := none }
          staged := some staged
          disk := disk }
    else m

/-! ### Installing -/

/-- What an installation is called with, and what it meets. -/
structure Install where
  force : Bool
  /-- What the server is busy with. -/
  blockers : List String
  download : Download
  host : Host
  /-- What is in the file of the plan behind a write, or behind one that failed. -/
  planLeft : Option Bytes
  spawned : Bool

/-- Whether the helper is started for a staged update. -/
def Install.starts (i : Install) (staged : StagedUpdate) : Bool :=
  (prepareApplyPlan i.host staged).isOk && i.spawned

/-- The plan is written and the helper started. -/
def startHelper (m : Manager) (i : Install) (staged : StagedUpdate) : Manager :=
  let m := { m with disk := m.disk.spoil (staged.dir.join "apply-plan.json") i.planLeft }
  if i.starts staged then
    { m with
      status := { m.status with state := .installing, installBlockedBy := [], error := none }
      launches := m.launches ++ [⟨staged.version, m.status.latestVersion⟩] }
  else m

/-- `install_update`. -/
def installUpdate (m : Manager) (i : Install) : Manager :=
  if !i.force && i.blockers ≠ [] then
    { m with status := { m.status with
      state := .waitingForIdle, installBlockedBy := i.blockers, error := some .conflict } }
  else
    match m.staged with
    | some staged => m.startHelper i staged
    | none =>
      match m.candidate with
      | none => m
      | some candidate =>
        let m := m.setState .downloading
        if i.download.client then
          match stageUpdate sha256 i.download.delivery stagingRoot candidate m.disk with
          | .error place disk => { m with disk := disk }.fail place.kind
          | .ok staged disk =>
            startHelper
              { m with
                status := { m.status with stagedVersion := some staged.version }
                staged := some staged
                disk := disk } i staged
        else m

/-! ### Cancelling -/

/-- What the removal of a staged update meets. -/
structure Removal where
  fails : Bool
  /-- The paths that a failing removal leaves. -/
  kept : FilePath → Bool

/-- `cancel_update`. -/
def cancelUpdate (m : Manager) (r : Removal) : Manager :=
  let cancelled : Manager :=
    { m with
      status := { m.status with
        state := .idle, stagedVersion := none, installBlockedBy := [], error := none }
      staged := none }
  match m.staged with
  | none => cancelled
  | some staged =>
    if r.fails then { m with disk := m.disk.prune staged.dir r.kept }
    else { cancelled with disk := m.disk.prune staged.dir fun _ => false }

/-! ### The system -/

/-- The operations of the manager, each with what it meets. -/
inductive Operation where
  | check (c : Check)
  | download (d : Download)
  | install (i : Install)
  | cancel (r : Removal)

/-- What an operation does. -/
def step (m : Manager) : Operation → Manager
  | .check c => m.checkForUpdates c
  | .download d => m.downloadUpdate sha256 stagingRoot d
  | .install i => m.installUpdate sha256 stagingRoot i
  | .cancel r => m.cancelUpdate r

/-- The operations hold a lock, so that one follows the other. -/
def updateManager : GuardedSystem Manager Operation where
  guard _ _ := True
  effect m op := m.step sha256 stagingRoot op

/-- The status agrees with what the manager has, and this is on disk; no operation is under way; and
every helper was started for the version that was the latest. -/
structure Sound (m : Manager) : Prop where
  stagedVersion : m.status.stagedVersion = m.staged.map (·.version)
  latestVersion : m.status.latestVersion = m.candidate.map (·.version)
  intact : ∀ staged ∈ m.staged, Intact sha256 m.disk staged
  settled : m.status.state ≠ .checking ∧ m.status.state ≠ .downloading
  launches : ∀ launch ∈ m.launches, ∀ latest ∈ launch.latestVersion, launch.version = latest

/-- An operation that is not left early: the client can be made, no staging fails over what is
staged, an update that is staged on the way is installed, what was staged is installed only as the
latest version, and a removal that fails removes no program. -/
def Orderly (m : Manager) : Operation → Prop
  | .check c => m.recentlyChecked c = false → c.client = true
  | .download d => ∀ candidate ∈ m.candidate, d.client = true ∧
      ∀ place disk, stageUpdate sha256 d.delivery stagingRoot candidate m.disk = .error place disk →
        ∀ staged ∈ m.staged, ∀ path ∈ staged.programs,
          ¬ stagingDir stagingRoot candidate.version <+: path
  | .install i => (i.force = true ∨ i.blockers = []) →
      (∀ staged ∈ m.staged, i.starts staged = true →
        ∀ latest ∈ m.status.latestVersion, staged.version = latest) ∧
      (m.staged = none → ∀ candidate ∈ m.candidate, i.download.client = true ∧
        ∀ staged disk, stageUpdate sha256 i.download.delivery stagingRoot candidate m.disk =
          .ok staged disk → i.starts staged = true)
  | .cancel r => r.fails = true → ∀ staged ∈ m.staged, ∀ path ∈ staged.programs, r.kept path = true

end Operations

/-! ### Every operation keeps the manager sound -/

variable {sha256 : Bytes → String} {stagingRoot : FilePath} {m : Manager}

theorem new_sound (disk : Tree) : Sound sha256 (.new disk) :=
  ⟨rfl, rfl, by simp [Manager.new], by simp [Manager.new], by simp [Manager.new]⟩

/-- The fields that soundness is about, but for the state. -/
theorem Sound.of_state {m' : Manager} (h : Sound sha256 m)
    (hstaged : m'.staged = m.staged ∧ m'.status.stagedVersion = m.status.stagedVersion)
    (hcandidate : m'.candidate = m.candidate ∧ m'.status.latestVersion = m.status.latestVersion)
    (hintact : ∀ staged ∈ m.staged, Intact sha256 m'.disk staged)
    (hlaunches : m'.launches = m.launches)
    (hstate : m'.status.state ≠ .checking ∧ m'.status.state ≠ .downloading) :
    Sound sha256 m' where
  stagedVersion := by rw [hstaged.1, hstaged.2, h.stagedVersion]
  latestVersion := by rw [hcandidate.1, hcandidate.2, h.latestVersion]
  intact := by
    rw [hstaged.1]
    exact hintact
  settled := hstate
  launches := by
    rw [hlaunches]
    exact h.launches

theorem check_sound {c : Check} (h : Sound sha256 m)
    (hc : m.recentlyChecked c = false → c.client = true) : Sound sha256 (m.checkForUpdates c) := by
  unfold checkForUpdates
  split
  · exact h
  · next hrecent =>
    simp only [hc (by simpa using hrecent), if_true]
    cases c.selected with
    | error error => exact h.of_state ⟨rfl, rfl⟩ ⟨rfl, rfl⟩ h.intact rfl (by simp [fail])
    | ok selected =>
      cases selected with
      | none => exact ⟨h.stagedVersion, rfl, h.intact, by simp, h.launches⟩
      | some candidate => exact ⟨h.stagedVersion, rfl, h.intact, by simp, h.launches⟩

/-- A staging that fails leaves what is staged elsewhere. -/
theorem intact_of_sameOutside {staged : StagedUpdate} {dir : FilePath} {tree tree' : Tree}
    (h : Intact sha256 tree staged) (hsame : SameOutside dir tree tree')
    (hout : ∀ path ∈ staged.programs, ¬ dir <+: path) : Intact sha256 tree' staged :=
  fun path hpath => (h path hpath).of_same (hsame path (hout path hpath))

theorem download_sound {d : Download} (h : Sound sha256 m)
    (hd : Orderly sha256 stagingRoot m (.download d)) :
    Sound sha256 (m.downloadUpdate sha256 stagingRoot d) := by
  unfold downloadUpdate
  cases hcandidate : m.candidate with
  | none => exact h
  | some candidate =>
    obtain ⟨hclient, hfails⟩ := hd candidate hcandidate
    simp only [hclient, if_true]
    have hends := @ends_stageUpdate sha256 d.delivery m.disk stagingRoot candidate
    have hdisk : (m.setState .downloading).disk = m.disk := rfl
    rw [hdisk]
    cases hstage : stageUpdate sha256 d.delivery stagingRoot candidate m.disk with
    | error place disk =>
      refine h.of_state ⟨rfl, rfl⟩ ⟨rfl, rfl⟩ (fun staged hstaged => ?_) rfl (by simp [fail])
      exact intact_of_sameOutside (h.intact staged hstaged) (hends.of_error hstage)
        (hfails place disk hstage staged hstaged)
    | ok staged disk =>
      refine ⟨rfl, h.latestVersion, fun staged' hstaged' => ?_, by simp, h.launches⟩
      obtain rfl : staged = staged' := Option.some.inj hstaged'
      exact (hends.of_ok hstage).1.2.2

/-- Starting the helper for what is staged. -/
theorem startHelper_sound {i : Install} {staged : StagedUpdate}
    (hstaged : m.staged = some staged) (hversion : m.status.stagedVersion = some staged.version)
    (hcandidate : m.status.latestVersion = m.candidate.map (·.version))
    (hintact : Intact sha256 m.disk staged)
    (hlaunches : ∀ launch ∈ m.launches, ∀ latest ∈ launch.latestVersion, launch.version = latest)
    (hstate : i.starts staged = false →
      m.status.state ≠ .checking ∧ m.status.state ≠ .downloading)
    (hlatest : i.starts staged = true → ∀ latest ∈ m.status.latestVersion, staged.version = latest) :
    Sound sha256 (m.startHelper i staged) := by
  -- The plan is none of the programs.
  have hkept : Intact sha256 (m.disk.spoil (staged.dir.join "apply-plan.json") i.planLeft) staged :=
    fun path hpath => (hintact path hpath).of_ne (by decide) fun _ hne => FileTree.contents_spoil hne
  unfold startHelper
  split
  · next hstarts =>
    refine ⟨?_, hcandidate, ?_, by simp, ?_⟩
    · rw [hstaged]
      exact hversion
    · rw [hstaged]
      intro staged' hstaged'
      obtain rfl : staged = staged' := Option.some.inj hstaged'
      exact hkept
    · intro launch hlaunch latest hlatestVersion
      rcases List.mem_append.mp hlaunch with hlaunch | hlaunch
      · exact hlaunches launch hlaunch latest hlatestVersion
      · obtain rfl := List.mem_singleton.mp hlaunch
        exact hlatest hstarts latest hlatestVersion
  · next hstarts =>
    refine ⟨?_, hcandidate, ?_, hstate (by simpa using hstarts), hlaunches⟩
    · rw [hstaged]
      exact hversion
    · rw [hstaged]
      intro staged' hstaged'
      obtain rfl : staged = staged' := Option.some.inj hstaged'
      exact hkept

theorem install_sound {i : Install} (h : Sound sha256 m)
    (hi : Orderly sha256 stagingRoot m (.install i)) :
    Sound sha256 (m.installUpdate sha256 stagingRoot i) := by
  unfold installUpdate
  split
  · exact h.of_state ⟨rfl, rfl⟩ ⟨rfl, rfl⟩ h.intact rfl (by simp)
  · next hfree =>
    have hfree : i.force = true ∨ i.blockers = [] := by
      by_cases hforce : i.force = true
      · exact Or.inl hforce
      · exact Or.inr (by simpa [hforce] using hfree)
    obtain ⟨hthere, hnew⟩ := hi hfree
    -- what is staged already is installed, otherwise the candidate is downloaded first
    cases hstaged : m.staged with
    | some staged =>
      refine startHelper_sound hstaged ?_ h.latestVersion (h.intact staged hstaged) h.launches
        (fun _ => h.settled) (hthere staged hstaged)
      rw [h.stagedVersion, hstaged]
      rfl
    | none =>
      cases hcandidate : m.candidate with
      | none => exact h
      | some candidate =>
        obtain ⟨hclient, hstarts⟩ := hnew hstaged candidate hcandidate
        have hends := @ends_stageUpdate sha256 i.download.delivery m.disk stagingRoot candidate
        have hdisk : (m.setState .downloading).disk = m.disk := rfl
        simp only [hclient, if_true, hdisk]
        cases hstage : stageUpdate sha256 i.download.delivery stagingRoot candidate m.disk with
        | error place disk =>
          refine h.of_state ⟨rfl, rfl⟩ ⟨rfl, rfl⟩ (fun staged hstaged' => ?_) rfl (by simp [fail])
          rw [hstaged] at hstaged'
          cases hstaged'
        | ok staged disk =>
          obtain ⟨⟨hversion, -, hintact⟩, -⟩ := hends.of_ok hstage
          refine startHelper_sound rfl rfl h.latestVersion hintact h.launches (fun hnot => ?_)
            fun _ latest hlatest => ?_
          · rw [hstarts staged disk hstage] at hnot
            cases hnot
          · have hlatest : m.status.latestVersion = some latest := hlatest
            rw [h.latestVersion, hcandidate] at hlatest
            rw [hversion]
            exact Option.some.inj hlatest

theorem cancel_sound {r : Removal} (h : Sound sha256 m)
    (hr : Orderly sha256 stagingRoot m (.cancel r)) : Sound sha256 (m.cancelUpdate r) := by
  unfold cancelUpdate
  cases hstaged : m.staged with
  | none => exact ⟨rfl, h.latestVersion, by simp, by simp, h.launches⟩
  | some staged =>
    simp only
    split
    · next hfails =>
      refine h.of_state ⟨hstaged.symm ▸ rfl, rfl⟩ ⟨rfl, rfl⟩ (fun staged' hstaged' => ?_) rfl h.settled
      obtain rfl : staged = staged' := Option.some.inj (hstaged.symm.trans hstaged')
      intro path hpath
      refine (h.intact staged hstaged path hpath).of_same (FileTree.contents_prune fun _ => ?_)
      exact hr hfails staged hstaged path hpath
    · exact ⟨rfl, h.latestVersion, by simp, by simp, h.launches⟩

/-- **An operation that meets the condition keeps the manager sound.** -/
theorem step_sound {op : Operation} (h : Sound sha256 m) (hop : Orderly sha256 stagingRoot m op) :
    Sound sha256 (m.step sha256 stagingRoot op) := by
  cases op with
  | check c => exact check_sound h hop
  | download d => exact download_sound h hop
  | install i => exact install_sound h hop
  | cancel r => exact cancel_sound h hop

/-- One operation more. -/
theorem reach_step {m₀ : Manager} {op : Operation}
    (h : (updateManager sha256 stagingRoot).Reach (Orderly sha256 stagingRoot) m₀ m)
    (hop : Orderly sha256 stagingRoot m op) :
    (updateManager sha256 stagingRoot).Reach (Orderly sha256 stagingRoot) m₀
      (m.step sha256 stagingRoot op) :=
  h.step trivial hop

/-- In every run of operations that meet the condition, the manager is sound. -/
theorem reach_sound {disk : Tree}
    (h : (updateManager sha256 stagingRoot).Reach (Orderly sha256 stagingRoot) (.new disk) m) :
    Sound sha256 m :=
  h.invariant (new_sound disk) fun _ _ hs _ hop => step_sound hs hop

/-! ### A release that is installed -/

/-- The assets of a release without an installer. -/
def sampleAssets : RequiredAssets where
  server := ⟨"stream-server-windows-amd64.exe", "https://example.test/server", 1⟩
  runtime := ⟨"stremio-runtime-windows-amd64.exe", "https://example.test/runtime", 1⟩
  updater := ⟨"stream-server-updater-windows-amd64.exe", "https://example.test/updater", 1⟩
  checksums := ⟨"SHA256SUMS.txt", "https://example.test/sums", 1⟩
  msi := none
  programs := by decide

/-- A candidate with all of its assets. -/
def sampleCandidate : UpdateCandidate := ⟨"2", "v2", "https://example.test/v2", sampleAssets⟩

/-- A check that finds a release, and one for which no client can be made. -/
def sampleCheck (client : Bool) : Check := ⟨true, 6, 0, client, .ok (some sampleCandidate)⟩

/-- What every file is taken to hash to. -/
def zeroHash : String := "0000000000000000000000000000000000000000000000000000000000000000"

/-- Everything is brought, and is on the list. -/
def sampleDelivery : Delivery where
  fault _ := none
  kept _ := false
  checksumText :=
    zeroHash ++ "  stream-server-windows-amd64.exe\n" ++
    zeroHash ++ "  stremio-runtime-windows-amd64.exe\n" ++
    zeroHash ++ "  stream-server-updater-windows-amd64.exe\n"
  body _ := [1]
  manifest _ := [123, 125]

/-- The server runs from a directory it may write to. -/
def sampleHost : Host where
  windows := true
  currentExe := some ["app", "stream-server.exe"]
  parentDirWritable _ := true
  stremioDirs := []
  hasServerJs _ := false
  planWritten := true

/-- The helper is started. -/
def sampleInstall : Install := ⟨true, [], ⟨true, sampleDelivery⟩, sampleHost, none, true⟩

/-- A release is found. -/
def sampleChecked : Manager :=
  (Manager.new fun _ => none).step (fun _ => zeroHash) ["cache"] (.check (sampleCheck true))

/-- It is downloaded. -/
def sampleStaged : Manager :=
  sampleChecked.step (fun _ => zeroHash) ["cache"] (.download sampleInstall.download)

/-- The helper is started for it. -/
def sampleInstalled : Manager :=
  sampleStaged.step (fun _ => zeroHash) ["cache"] (.install sampleInstall)

/-- What is staged is taken away. -/
def sampleCancelled : Manager :=
  sampleInstalled.step (fun _ => zeroHash) ["cache"] (.cancel ⟨false, fun _ => false⟩)

theorem sample_states : sampleStaged.staged.map (·.version) = some "2" ∧
    sampleStaged.status.latestVersion = some "2" ∧ sampleInstalled.status.state = .installing := by
  have hall : (sampleStaged.staged.map (·.version), sampleStaged.status.latestVersion,
      sampleInstalled.status.state) = (some "2", some "2", .installing) := by decide +kernel
  simpa only [Prod.mk.injEq] using hall

theorem sampleCancelled_staged : sampleCancelled.staged = none := by
  rw [sampleCancelled, step, cancelUpdate]
  split <;> rfl

/-- Nothing is staged that might be harmed. -/
theorem sampleDownload_orderly :
    Orderly (fun _ => zeroHash) ["cache"] sampleChecked (.download sampleInstall.download) :=
  fun _ _ => ⟨rfl, fun _ _ _ _ h => nomatch h⟩

/-- What is staged is the latest version. -/
theorem sampleInstall_orderly :
    Orderly (fun _ => zeroHash) ["cache"] sampleStaged (.install sampleInstall) := by
  obtain ⟨hstaged, hlatest, -⟩ := sample_states
  refine fun _ => ⟨fun staged hmem _ latest hversion => ?_, fun hnot => ?_⟩
  · rw [Option.mem_def] at hmem hversion
    rw [hmem, Option.map_some, Option.some.injEq] at hstaged
    rw [hlatest, Option.some.injEq] at hversion
    exact hstaged.trans hversion
  · rw [hnot] at hstaged
    cases hstaged

theorem sampleCancel_orderly : Orderly (fun _ => zeroHash) ["cache"] sampleInstalled
    (.cancel ⟨false, fun _ => false⟩) := fun hfails => nomatch hfails

theorem reach_sound_operations :
    (Sound (fun _ => zeroHash) sampleStaged ∧ sampleStaged.staged.isSome) ∧
    (Sound (fun _ => zeroHash) sampleInstalled ∧ sampleInstalled.status.state = .installing) ∧
    Sound (fun _ => zeroHash) sampleCancelled ∧ sampleCancelled.staged = none := by
  have hchecked := reach_step (GuardedSystem.Reach.refl (.new fun _ => none))
    (show Orderly (fun _ => zeroHash) ["cache"] (.new fun _ => none) (.check (sampleCheck true)) from
      fun _ => rfl)
  have hstaged := reach_step hchecked sampleDownload_orderly
  have hinstalled := reach_step hstaged sampleInstall_orderly
  have hcancelled := reach_step hinstalled sampleCancel_orderly
  have hsome : sampleStaged.staged.isSome := by
    rw [← Option.isSome_map, sample_states.1]
    rfl
  exact ⟨⟨reach_sound hstaged, hsome⟩,
    ⟨reach_sound hinstalled, sample_states.2.2⟩, reach_sound hcancelled,
    sampleCancelled_staged⟩

/-- Without a client, the manager goes on checking for ever. -/
theorem check_not_sound : ∃ m, (updateManager (fun _ => "") []).Reach GuardedSystem.anyStep
    (.new fun _ => none) m ∧ ¬ Sound (fun _ => "") m := by
  refine ⟨_, (GuardedSystem.Reach.refl _).step (a := .check (sampleCheck false)) trivial trivial, ?_⟩
  intro h
  exact h.settled.1 rfl

end Manager

end StreamServer.Updater

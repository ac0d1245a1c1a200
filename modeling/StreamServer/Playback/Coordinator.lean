import Mathlib.Data.Finset.Filter
import StreamServer.Lib.GuardedSystem
import StreamServer.Playback.Native
import StreamServer.Playback.State

/-!
# The playback coordinator

Requests, the worker and the loading of metadata run concurrently on the entry
of one torrent.  This file models them as a guarded transition system.  A step is
the code between two points where a task may be interrupted: an `await`, or the
acquisition of a lock.

Every task that changes the native torrent does so under the *operation lock* of
the entry, which is fair: `World.operation` is the task that holds it, with the
place it has reached, and `World.lockQueue` those that wait, in order.  The
worker handles one command at a time, in queue order, and looks for idle torrents
when no command occupies it.

The model has one torrent, registered throughout; other torrents only keep the
worker busy.  What the native library decides is left open: whether the torrent
is found, whether a pause is confirmed, whether an update is acknowledged, and
which pieces are verified when.  Whether a file is complete is answered by a cache
that `Playback/Completion.lean` models; here the answer is *yes* only for a file
that was complete when the metadata was loaded or whose pieces are all verified,
and *no* only for a file that is not known to be complete from the start.
Reannouncements change nothing that is modelled and are left out.

## Main definitions

* `World` — the entry, the native torrent, and the tasks under way.
* `Action` — the steps, grouped by the task that takes them.
* `coordinator` — the transition system.
* `World.Initial`, `World.Quiescent` — where runs start, and where nothing is under
  way.

## References

`enginefs/src/backend/libtorrent/playback.rs`, `LibtorrentPlaybackCoordinator`.
-/

namespace StreamServer.Playback

/-! ### Tasks -/

/-- A permit to read a file.  `incomplete` records that the file was not
complete when the permit was issued. -/
structure Permit where
  fileIdx : ℕ
  generation : ℕ
  streamId : ℕ
  cancellation : ℕ
  foreground : Bool
  incomplete : Bool
  deriving DecidableEq, Repr

/-- A call of `activate_selection`.  A refresh of HLS activity holds no
permit. -/
structure Activation where
  start : LibtorrentPlaybackStart
  selection : Selection
  complete : Bool
  permit : Option Permit
  deriving DecidableEq, Repr

/-- Who called `perform_pause`. -/
inductive PauseCaller
  | endHls
  /-- The worker, for an idle torrent. -/
  | idle
  /-- The worker, for a file that has become complete. -/
  | completed
  | activation (act : Activation)
  deriving DecidableEq, Repr

/-- A call of `perform_pause`.  `beganIdle` records that the torrent had no
activity when the attempt began. -/
structure Pause where
  generation : ℕ
  caller : PauseCaller
  beganIdle : Bool
  deriving DecidableEq, Repr

/-- Whether the pause takes the selection off at the end. -/
def Pause.clearSelection (p : Pause) : Bool := p.caller == .endHls || p.caller == .idle

/-- The commands the worker handles under the operation lock for its readers. -/
inductive ReaderCommand
  | replaceWindow (fileIdx generation streamId : ℕ) (assignments : List LibtorrentPiecePriority)
  | release (fileIdx generation streamId : ℕ) (foreground : Bool)
  deriving DecidableEq, Repr

/-- The commands that the worker of the coordinator handles. -/
inductive PlaybackCommand
  | reader (command : ReaderCommand)
  | releaseMetadata
  | seedingEnabled (enabled : Bool)
  | pieceVerified (piece : ℤ)
  | pieceInvalidated (piece : ℤ)
  deriving DecidableEq, Repr

/-- The command that the drop of a permit sends. -/
def Permit.release (p : Permit) : ReaderCommand :=
  .release p.fileIdx p.generation p.streamId p.foreground

/-- The command a dropped permit sends. -/
def Permit.releaseCommand (p : Permit) : PlaybackCommand := .reader p.release

/-- What waits for the operation lock. -/
inductive LockRequest
  | metadata
  | activate (act : Activation)
  | pause (p : Pause)
  | reader (command : ReaderCommand)
  | resumeSeeding
  deriving DecidableEq, Repr

/-- Where `activate_selection` has got to. -/
inductive ActivatePc
  | check
  | clearDeadlines
  | fastPath
  | compare
  | record
  | hotWindow
  | verify
  | resume
  | firstPiece
  deriving DecidableEq, Repr

/-- Where `perform_pause` has got to. -/
inductive PausePc
  | check
  | native
  | confirm
  | compare (zeros : List ℤ)
  | finish (zeros : List ℤ) (applied : Bool)
  deriving DecidableEq, Repr

/-- Where `apply_file_priorities` has got to. -/
inductive UpdatePc
  | probe
  | submit
  | acknowledge
  deriving DecidableEq, Repr

/-- Who called `apply_file_priorities` under the operation lock. -/
inductive Updater
  | activation (act : Activation)
  | pause (p : Pause)
  deriving DecidableEq, Repr

/-- Who called `apply_piece_priority_changes`. -/
inductive Changer
  | activation (act : Activation)
  | reader (command : ReaderCommand)
  deriving DecidableEq, Repr

/-- Where `resume_idle_torrents_for_seeding` has got to. -/
inductive ResumePc
  | check
  | native
  | phase
  deriving DecidableEq, Repr

/-- The holder of the operation lock and what it does next. -/
inductive Critical
  | metadataStatus
  /-- The status was read: whether there is metadata, and whether the torrent is
  paused. -/
  | metadataPermit (hasMetadata isPaused : Bool)
  | metadataAnnounce (isPaused : Bool)
  | activate (act : Activation) (pc : ActivatePc)
  | pause (p : Pause) (pc : PausePc)
  | update (priorities : List ℤ) (pc : UpdatePc) (caller : Updater)
  | changes (baseline : ℤ) (changes : List PiecePriorityChange) (caller : Changer)
  | reader (command : ReaderCommand)
  | resumeSeeding (pc : ResumePc)
  deriving DecidableEq, Repr

/-- What a task does first when it gets the operation lock. -/
def LockRequest.start : LockRequest → Critical
  | .metadata => .metadataStatus
  | .activate act => .activate act .check
  | .pause p => .pause p .check
  | .reader command => .reader command
  | .resumeSeeding => .resumeSeeding .check

/-- What a task that updates the priorities asks the operation lock for. -/
def Updater.request : Updater → LockRequest
  | .activation act => .activate act
  | .pause p => .pause p

/-- What a task that changes the priorities asks the operation lock for. -/
def Changer.request : Changer → LockRequest
  | .activation act => .activate act
  | .reader command => .reader command

/-- The task that holds the lock, whatever it has done since. -/
def Critical.request : Critical → LockRequest
  | .metadataStatus | .metadataPermit _ _ | .metadataAnnounce _ => .metadata
  | .activate act _ => .activate act
  | .pause p _ => .pause p
  | .update _ _ caller => caller.request
  | .changes _ _ caller => caller.request
  | .reader command => .reader command
  | .resumeSeeding _ => .resumeSeeding

@[simp] theorem LockRequest.request_start (r : LockRequest) : r.start.request = r := by
  cases r <;> rfl

/-- A call of `end_hls` that has begun a pause and is about to take up the state
again. -/
inductive EndHlsRest
  | keepActiveForSeeding (generation : ℕ)
  | restorePausedIdle (beganIdle : Bool)
  deriving DecidableEq, Repr

/-- What the worker is doing. -/
inductive Worker
  | idle
  /-- It looks for idle torrents, as of that instant. -/
  | ticking (now : ℕ)
  /-- It is about to call `perform_pause`. -/
  | entering (p : Pause)
  /-- `perform_pause` found seeding enabled. -/
  | keepingActive (p : Pause)
  /-- It waits for the operation lock, or holds it. -/
  | awaiting (r : LockRequest)
  /-- `perform_pause` returned an error. -/
  | pauseFailed (p : Pause)
  /-- It asks whether the selected file has become complete. -/
  | checkingComplete (fileIdx generation : ℕ)
  deriving DecidableEq, Repr

/-- The task that loads the metadata; there is at most one. -/
inductive Loader
  | idle
  /-- It waits for the operation lock, or holds it. -/
  | requesting
  | querying
  | updating (pc : UpdatePc)
  | recording
  deriving DecidableEq, Repr

/-- The entry of a torrent, the native torrent, and everything under way. -/
structure World where
  state : TorrentPlaybackState
  native : Native
  layoutLoaded : Bool
  /-- The files known to be complete since the metadata was loaded. -/
  completeFromStart : Finset ℕ
  seedingEnabled : Bool
  now : ℕ
  queue : List PlaybackCommand
  operation : Option Critical
  lockQueue : List LockRequest
  endings : List EndHlsRest
  worker : Worker
  loader : Loader
  /-- The permits readers hold. -/
  permits : List Permit

/-! ### Steps -/

/-- Steps of the surroundings. -/
inductive SurroundingsStep
  | elapse (milliseconds : ℕ)
  | receiveMetadata
  | verifyPiece (piece : ℤ)
  | becomeSeed
  | observePieceVerified (piece : ℤ)
  | observePieceInvalidated (piece : ℤ)
  deriving DecidableEq, Repr

/-- Steps of the callers of the coordinator. -/
inductive RequestStep
  | setSeedingEnabled (enabled : Bool)
  | loadMetadata
  | startPlayback (start : LibtorrentPlaybackStart) (complete : Bool)
  | refreshHls (fileIdx : ℕ) (complete : Bool)
  | endHls (fileIdx : ℕ)
  | finishEndHls (rest : EndHlsRest)
  | replaceWindow (permit : Permit) (assignments : List LibtorrentPiecePriority)
  | dropPermit (permit : Permit)
  deriving DecidableEq, Repr

/-- Steps of `load_metadata_layout` and of `acquire_metadata`, which it calls. -/
inductive LoadStep
  | status
  | statusFail
  | permit (hasMetadata isPaused : Bool)
  | announce (isPaused : Bool)
  | query
  | probe
  | submit
  | acknowledged
  | record (completeFromStart : Finset ℕ)
  | fail (loader : Loader)
  deriving DecidableEq

/-- Steps of `activate_selection`. -/
inductive ActivateStep
  | check
  | clearDeadlines
  | fastPath
  | compare
  | record
  /-- The policy proposes a priority and a deadline for some pieces. -/
  | hotWindow (decision : List (ℤ × ℤ × ℤ)) (order : IterationOrder)
  | verify
  | resume (firstPiecePresent : Bool)
  | firstPiece
  /-- The torrent is not found. -/
  | fail (pc : ActivatePc)

/-- Steps of `perform_pause`. -/
inductive PauseStep
  | check
  | native
  | confirmed
  | compare (zeros : List ℤ)
  | finish (zeros : List ℤ) (applied : Bool)
  /-- The torrent is not found, or the pause is not confirmed in time. -/
  | fail (pc : PausePc)
  deriving DecidableEq

/-- Steps of `apply_file_priorities` under the operation lock. -/
inductive UpdateStep
  | probe
  | submit
  | acknowledged
  /-- The torrent is not found, an error is reported, or the priorities do not
  match in time. -/
  | fail (pc : UpdatePc)
  deriving DecidableEq

/-- Steps of the worker that are not part of an operation above. -/
inductive WorkerStep
  | tick
  | decide (now : ℕ)
  | enterPause (p : Pause)
  | keepActive (p : Pause)
  | failedPause (p : Pause)
  | receive (command : PlaybackCommand)
  | checkComplete (fileIdx generation : ℕ) (complete : Bool)
  | reader (command : ReaderCommand) (order : IterationOrder)
  | resumeCheck
  | resumeNative
  | resumeFail
  | resumePhase

/-- A step of the system: of the surroundings, of a task, or of the worker. -/
inductive Action
  | surroundings (a : SurroundingsStep)
  | request (a : RequestStep)
  /-- The first task in the queue gets the operation lock. -/
  | acquire (r : LockRequest)
  | load (a : LoadStep)
  | activate (act : Activation) (a : ActivateStep)
  | pause (p : Pause) (a : PauseStep)
  | update (priorities : List ℤ) (caller : Updater) (a : UpdateStep)
  /-- `apply_piece_priority_changes`, with the torrent found or not. -/
  | changes (baseline : ℤ) (changes : List PiecePriorityChange) (caller : Changer) (found : Bool)
  | worker (a : WorkerStep)

namespace World

/-! ### What tasks read -/

/-- The files of the loaded layout, as `perform_pause` counts them. -/
def zeros (s : World) : List ℤ :=
  List.replicate (if s.layoutLoaded then s.native.layout.files.length else 0) 0

/-- A possible answer of `file_is_complete_with_layout`. -/
def Answers (s : World) (fileIdx : ℕ) (complete : Bool) : Prop :=
  if complete then fileIdx ∈ s.completeFromStart ∨ s.native.FileVerified fileIdx
  else fileIdx ∉ s.completeFromStart

/-- The attempt to pause that begins in the state `st`. -/
def newPause (now : ℕ) (st : TorrentPlaybackState) (generation : ℕ) (caller : PauseCaller) :
    Pause :=
  ⟨generation, caller, !st.hasActivity now⟩

end World

namespace Activation

/-- The vector of file priorities the activation wants. -/
def desired (act : Activation) (L : TorrentLayout) : List ℤ :=
  L.desiredPriorities act.start.fileIdx act.selection.nativePriority

/-- The generation that the activation was selected with. -/
def generation (act : Activation) : ℕ := act.selection.generation

/-- The piece playback starts with. -/
def firstPiece (act : Activation) (L : TorrentLayout) : ℤ :=
  let file := (L.files[act.start.fileIdx]?).getD default
  Int.bmod ((file.offset.toNat + min act.start.startOffset file.size.toNat) / L.pieceLength : ℕ)
    (2 ^ 32)

/-- The window a proposal of the policy amounts to: the pieces of the file, with
deadlines unless the reader is a background one. -/
def assignments (act : Activation) (L : TorrentLayout) (decision : List (ℤ × ℤ × ℤ)) :
    List LibtorrentPiecePriority :=
  (decision.filter fun assignment => L.FileContains act.start.fileIdx assignment.1).map
    fun assignment =>
      { piece := assignment.1
        priority := assignment.2.1
        deadlineMs := if act.start.intent.isForeground then some assignment.2.2 else none }

/-- The activation `start_playback` goes on to. -/
def ofStart (start : LibtorrentPlaybackStart) (selection : Selection) (complete : Bool) :
    Activation where
  start := start
  selection := selection
  complete := complete
  permit := some
    { fileIdx := start.fileIdx
      generation := selection.generation
      streamId := start.streamId
      cancellation := selection.cancellation
      foreground := start.intent.isForeground
      incomplete := !complete }

/-- The activation `refresh_hls` goes on to. -/
def ofHls (fileIdx : ℕ) (selection : Selection) (complete : Bool) : Activation where
  start := ⟨fileIdx, hlsPriorityStreamId, 0, .hlsInitial⟩
  selection := selection
  complete := complete
  permit := none

end Activation

namespace World

/-! ### How tasks end -/

/-- `activate_selection` returns `Ok`: the caller has its permit. -/
def activationOk (s : World) (act : Activation) : World :=
  { s with operation := none, permits := s.permits ++ act.permit.toList }

/-- `activate_selection` returns an error: the permit is dropped. -/
def activationErr (s : World) (act : Activation) : World :=
  { s with
    operation := none
    queue := s.queue ++ act.permit.toList.map Permit.releaseCommand }

/-- What follows a pause that has gone well, by who asked for it. -/
def pauseOk (s : World) (p : Pause) : World :=
  match p.caller with
  | .endHls => { s with operation := none }
  | .idle | .completed => { s with operation := none, worker := .idle }
  | .activation act => s.activationOk act

/-- What follows a pause that has failed, by who asked for it. -/
def pauseErr (s : World) (p : Pause) : World :=
  match p.caller with
  | .endHls => { s with operation := none }
  | .idle | .completed => { s with operation := none, worker := .pauseFailed p }
  | .activation act => s.activationErr act

/-- The worker gives the operation lock back. -/
def workerDone (s : World) : World := { s with operation := none, worker := .idle }

/-- A selected complete file: the lock is given back, and the torrent paused
unless seeding is enabled. -/
def activateComplete (s : World) (act : Activation) : World :=
  if s.seedingEnabled then s.activationOk act
  else
    { s with
      operation := none
      lockQueue := s.lockQueue ++
        [.pause (newPause s.now s.state act.generation (.activation act))] }

/-- The activation once its file priorities are in force. -/
def activatePrioritized (s : World) (act : Activation) : World :=
  if act.complete then s.activateComplete act
  else { s with operation := some (.activate act .hotWindow) }

/-- The step after the file priorities have been acknowledged. -/
def updateDone (s : World) (priorities : List ℤ) (caller : Updater) : World :=
  match caller with
  | .activation act => { s with operation := some (.activate act .record) }
  | .pause p => { s with operation := some (.pause p (.finish priorities true)) }

/-- What follows priorities that the native library has refused. -/
def updateErr (s : World) (caller : Updater) : World :=
  match caller with
  | .activation act => s.activationErr act
  | .pause p => s.pauseErr p

/-- The step after a list of changes has been applied. -/
def changesDone (s : World) (caller : Changer) : World :=
  match caller with
  | .activation act => { s with operation := some (.activate act .verify) }
  | .reader _ => s.workerDone

/-- What follows single changes that the native library has refused. -/
def changesErr (s : World) (caller : Changer) : World :=
  match caller with
  | .activation act => s.activationErr act
  | .reader _ => s.workerDone

/-- An empty list of changes is not applied. -/
def applyNext (s : World) (baseline : ℤ) (changes : List PiecePriorityChange)
    (caller : Changer) : World :=
  if changes = [] then s.changesDone caller
  else { s with operation := some (.changes baseline changes caller) }

/-- `replace_priority_window_locked`, up to the point where it applies the
changes. -/
def replaceWindowLocked (s : World) (order : IterationOrder) (fileIdx generation streamId : ℕ)
    (assignments : List LibtorrentPiecePriority) (caller : Changer) : World :=
  if s.state.IsCurrent fileIdx generation then
    let replaced := s.state.priorityWindows.replace order streamId assignments
    { s with state := { s.state with priorityWindows := replaced.1 } }.applyNext
      s.state.selectedPriority replaced.2 caller
  else s.changesDone caller

/-- The worker goes on to wait for the operation lock. -/
def awaitLock (s : World) (r : LockRequest) : World :=
  { s with worker := .awaiting r, lockQueue := s.lockQueue ++ [r] }

/-- `perform_pause`, called by the worker, up to the point where it waits. -/
def workerPause (s : World) (p : Pause) : World :=
  if s.seedingEnabled then { s with worker := .keepingActive p } else s.awaitLock (.pause p)

/-- The metadata is loaded, or could not be: the permit is dropped. -/
def loadDone (s : World) : World :=
  { s with loader := .idle, queue := s.queue ++ [.releaseMetadata] }

/-- The worker has handled a command under the lock of the state only. -/
def handled (s : World) : World := { s with queue := s.queue.tail }

end World

/-! ### Guards -/

section Guards

variable (s : World)

/-- When a step of the surroundings can happen. -/
def SurroundingsStep.guard : SurroundingsStep → Prop
  | .becomeSeed => ∀ f < s.native.layout.files.length, s.native.FileVerified f
  | .observePieceVerified piece => piece ∈ s.native.verified
  | _ => True

/-- When a request can come. -/
def RequestStep.guard : RequestStep → Prop
  | .setSeedingEnabled _ | .endHls _ => True
  | .loadMetadata => s.layoutLoaded = false ∧ s.loader = .idle
  | .startPlayback start complete =>
      s.layoutLoaded = true ∧ start.fileIdx < s.native.layout.files.length ∧
        s.Answers start.fileIdx complete
  | .refreshHls fileIdx complete =>
      s.layoutLoaded = true ∧ fileIdx < s.native.layout.files.length ∧ s.Answers fileIdx complete
  | .finishEndHls rest => rest ∈ s.endings
  | .replaceWindow permit assignments =>
      permit ∈ s.permits ∧ permit.cancellation ∉ s.state.cancellation.cancelled ∧
        ∀ a ∈ assignments, s.native.layout.FileContains permit.fileIdx a.piece
  | .dropPermit permit => permit ∈ s.permits

/-- The places where the loading may give up: the torrent is not found, an error
is reported, or the time is up. -/
def Loader.mayFail : Loader → Bool
  | .querying | .updating _ => true
  | _ => false

/-- When the loader of the metadata can go on. -/
def LoadStep.guard : LoadStep → Prop
  | .status | .statusFail => s.operation = some .metadataStatus
  | .permit hasMetadata isPaused => s.operation = some (.metadataPermit hasMetadata isPaused)
  | .announce isPaused => s.operation = some (.metadataAnnounce isPaused)
  | .query => s.loader = .querying ∧ s.native.hasMetadata = true
  | .probe => s.loader = .updating .probe
  | .submit => s.loader = .updating .submit
  | .acknowledged =>
      s.loader = .updating .acknowledge ∧
        s.native.filePriorities = List.replicate s.native.layout.files.length 0
  | .record _ => s.loader = .recording
  | .fail loader => s.loader = loader ∧ loader.mayFail = true

/-- The place a step of an activation is taken from. -/
def ActivateStep.pc : ActivateStep → ActivatePc
  | .check => .check
  | .clearDeadlines => .clearDeadlines
  | .fastPath => .fastPath
  | .compare => .compare
  | .record => .record
  | .hotWindow _ _ => .hotWindow
  | .verify => .verify
  | .resume _ => .resume
  | .firstPiece => .firstPiece
  | .fail pc => pc

/-- The places where an activation looks up the torrent. -/
def ActivatePc.mayFail : ActivatePc → Bool
  | .clearDeadlines | .hotWindow | .resume => true
  | _ => false

/-- What the native library can answer in a step of an activation. -/
def ActivateStep.Possible (act : Activation) : ActivateStep → Prop
  | .fail pc => pc.mayFail = true
  | .hotWindow _ _ => 0 < s.native.layout.pieceLength
  | .resume present => present = true → act.firstPiece s.native.layout ∈ s.native.verified
  | _ => True

/-- The activation has the lock and stands at the step. -/
def ActivateStep.guard (act : Activation) (a : ActivateStep) : Prop :=
  s.operation = some (.activate act a.pc) ∧ a.Possible s act

/-- The pause has the lock and stands at the step. -/
def PauseStep.guard (p : Pause) : PauseStep → Prop
  | .check => s.operation = some (.pause p .check)
  | .native => s.operation = some (.pause p .native)
  | .confirmed => s.operation = some (.pause p .confirm) ∧ s.native.isPaused = true
  | .compare zeros => s.operation = some (.pause p (.compare zeros))
  | .finish zeros applied => s.operation = some (.pause p (.finish zeros applied))
  | .fail pc => s.operation = some (.pause p pc) ∧ (pc = .native ∨ pc = .confirm)

/-- The update has the lock and stands at the step. -/
def UpdateStep.guard (priorities : List ℤ) (caller : Updater) : UpdateStep → Prop
  | .probe => s.operation = some (.update priorities .probe caller)
  | .submit => s.operation = some (.update priorities .submit caller)
  | .acknowledged =>
      s.operation = some (.update priorities .acknowledge caller) ∧
        s.native.filePriorities = priorities
  | .fail pc => s.operation = some (.update priorities pc caller)

/-- When the worker can do a step. -/
def WorkerStep.guard : WorkerStep → Prop
  | .tick => s.worker = .idle
  | .decide now => s.worker = .ticking now
  | .enterPause p => s.worker = .entering p
  | .keepActive p => s.worker = .keepingActive p
  | .failedPause p => s.worker = .pauseFailed p
  | .receive command => s.worker = .idle ∧ s.queue = command :: s.queue.tail
  | .checkComplete fileIdx generation complete =>
      s.worker = .checkingComplete fileIdx generation ∧ s.Answers fileIdx complete
  | .reader command _ => s.operation = some (.reader command)
  | .resumeCheck => s.operation = some (.resumeSeeding .check)
  | .resumeNative | .resumeFail => s.operation = some (.resumeSeeding .native)
  | .resumePhase => s.operation = some (.resumeSeeding .phase)

/-- When an action can happen. -/
def Action.guard : Action → Prop
  | .surroundings a => a.guard s
  | .request a => a.guard s
  | .acquire r => s.operation = none ∧ s.lockQueue = r :: s.lockQueue.tail
  | .load a => a.guard s
  | .activate act a => a.guard s act
  | .pause p a => a.guard s p
  | .update priorities caller a => a.guard s priorities caller
  | .changes baseline cs caller _ => s.operation = some (.changes baseline cs caller)
  | .worker a => a.guard s

instance (a : SurroundingsStep) : Decidable (a.guard s) := by
  cases a <;> (dsimp only [SurroundingsStep.guard]; infer_instance)

instance (fileIdx : ℕ) (complete : Bool) : Decidable (s.Answers fileIdx complete) := by
  cases complete <;> (dsimp only [World.Answers]; infer_instance)

instance (a : RequestStep) : Decidable (a.guard s) := by
  cases a <;> (dsimp only [RequestStep.guard]; infer_instance)

instance (a : LoadStep) : Decidable (a.guard s) := by
  cases a <;> (dsimp only [LoadStep.guard]; infer_instance)

instance (act : Activation) (a : ActivateStep) : Decidable (a.Possible s act) := by
  cases a <;> (dsimp only [ActivateStep.Possible]; infer_instance)

instance (act : Activation) (a : ActivateStep) : Decidable (a.guard s act) :=
  inferInstanceAs (Decidable (_ ∧ _))

instance (p : Pause) (a : PauseStep) : Decidable (a.guard s p) := by
  cases a <;> (dsimp only [PauseStep.guard]; infer_instance)

instance (priorities : List ℤ) (caller : Updater) (a : UpdateStep) :
    Decidable (a.guard s priorities caller) := by
  cases a <;> (dsimp only [UpdateStep.guard]; infer_instance)

instance (a : WorkerStep) : Decidable (a.guard s) := by
  cases a <;> (dsimp only [WorkerStep.guard]; infer_instance)

instance (a : Action) : Decidable (a.guard s) := by
  cases a <;> (dsimp only [Action.guard]; infer_instance)

end Guards

/-! ### Effects -/

section Effects

variable (s : World)

/-- What a step of the surroundings does. -/
def SurroundingsStep.effect : SurroundingsStep → World
  | .elapse milliseconds => { s with now := s.now + milliseconds }
  | .receiveMetadata => { s with native := { s.native with hasMetadata := true } }
  | .verifyPiece piece =>
      { s with native := { s.native with verified := insert piece s.native.verified } }
  | .becomeSeed => { s with native := { s.native with isSeeding := true } }
  | .observePieceVerified piece => { s with queue := s.queue ++ [.pieceVerified piece] }
  | .observePieceInvalidated piece => { s with queue := s.queue ++ [.pieceInvalidated piece] }

/-- `end_hls`: the part under the lock of the state, and where it goes on. -/
def World.endHls (fileIdx : ℕ) : World :=
  let result := s.state.endHls s.seedingEnabled fileIdx
  let s' := { s with state := result.1 }
  match result.2 with
  | .ignored => s'
  | .keepActiveForSeeding generation =>
      { s' with endings := s.endings ++ [.keepActiveForSeeding generation] }
  | .restorePausedIdle =>
      { s' with endings := s.endings ++ [.restorePausedIdle (!result.1.hasActivity s.now)] }
  | .performPause generation =>
      { s' with
        lockQueue := s.lockQueue ++ [.pause (World.newPause s.now result.1 generation .endHls)] }

/-- What `end_hls` does to the state after its pause. -/
def EndHlsRest.effect (st : TorrentPlaybackState) : EndHlsRest → TorrentPlaybackState
  | .keepActiveForSeeding generation => st.keepActiveForSeeding generation
  | .restorePausedIdle _ => { st with phase := .pausedIdle }

/-- What a request does as it comes. -/
def RequestStep.effect : RequestStep → World
  | .setSeedingEnabled enabled =>
      { s with seedingEnabled := enabled, queue := s.queue ++ [.seedingEnabled enabled] }
  | .loadMetadata => { s with loader := .requesting, lockQueue := s.lockQueue ++ [.metadata] }
  | .startPlayback start complete =>
      match s.state.startPlayback s.now s.seedingEnabled start complete with
      | .error _ => s
      | .ok (st, selection) =>
          { s with
            state := st
            lockQueue := s.lockQueue ++ [.activate (.ofStart start selection complete)] }
  | .refreshHls fileIdx complete =>
      let result := s.state.refreshHls s.now s.seedingEnabled fileIdx complete
      if result.2.changed then
        { s with
          state := result.1
          lockQueue := s.lockQueue ++ [.activate (.ofHls fileIdx result.2 complete)] }
      else { s with state := result.1 }
  | .endHls fileIdx => s.endHls fileIdx
  | .finishEndHls rest =>
      { s with state := rest.effect s.state, endings := s.endings.erase rest }
  | .replaceWindow permit assignments =>
      { s with
        queue := s.queue ++
          [.reader (.replaceWindow permit.fileIdx permit.generation permit.streamId assignments)] }
  | .dropPermit permit =>
      { s with permits := s.permits.erase permit, queue := s.queue ++ [permit.releaseCommand] }

/-- What a step of the loader does. -/
def LoadStep.effect : LoadStep → World
  | .status =>
      { s with
        operation := some (.metadataPermit s.native.hasMetadata s.native.isPaused) }
  | .statusFail => { s with operation := none, loader := .idle }
  | .permit hasMetadata isPaused =>
      if hasMetadata then
        { s with
          state := s.state.acquireMetadata hasMetadata, operation := none, loader := .querying }
      else
        { s with
          state := s.state.acquireMetadata hasMetadata
          operation := some (.metadataAnnounce isPaused) }
  | .announce isPaused =>
      { s with
        state := { s.state with metadataAnnounced := true }
        native := { s.native with isPaused := if isPaused then false else s.native.isPaused }
        operation := none
        loader := .querying }
  | .query =>
      { s with
        loader := if s.native.layout.files = [] then .recording else .updating .probe }
  | .probe => { s with loader := if s.native.isSeeding then .recording else .updating .submit }
  | .submit =>
      { s with
        native := s.native.setFilePriorities (List.replicate s.native.layout.files.length 0)
        loader := .updating .acknowledge }
  | .acknowledged => { s with loader := .recording }
  | .record completeFromStart =>
      { s with
        state :=
          { s.state with
            acknowledgedPriorities :=
              if s.native.layout.files = [] then s.state.acknowledgedPriorities
              else some (List.replicate s.native.layout.files.length 0) }
        layoutLoaded := true
        completeFromStart := completeFromStart }.loadDone
  | .fail _ => s.loadDone

/-- Where an activation goes on with its file priorities. -/
def World.activateDesired (act : Activation) : World :=
  { s with
    operation := some (.activate act
      (if act.complete && !s.seedingEnabled then .fastPath else .compare)) }

/-- What a step of an activation does. -/
def ActivateStep.effect (act : Activation) : ActivateStep → World
  | .check =>
      if s.state.IsCurrent act.start.fileIdx act.generation then
        if act.selection.subordinate then s.activationOk act
        else if act.selection.changed then
          { s with operation := some (.activate act .clearDeadlines) }
        else s.activateDesired act
      else s.activationErr act
  | .clearDeadlines => { s with native := s.native.clearPieceDeadlines }.activateDesired act
  | .fastPath =>
      if s.state.phase = .pausedIdle ∧
          s.state.acknowledgedPriorities = some (act.desired s.native.layout) then
        s.activationOk act
      else { s with operation := some (.activate act .compare) }
  | .compare =>
      if s.state.acknowledgedPriorities = some (act.desired s.native.layout) then
        s.activatePrioritized act
      else
        { s with
          operation := some (.update (act.desired s.native.layout) .probe (.activation act)) }
  | .record =>
      if s.state.generation = act.generation then
        { s with
          state :=
            { s.state with
              acknowledgedPriorities := some (act.desired s.native.layout) } }.activatePrioritized
          act
      else s.activationErr act
  | .hotWindow decision order =>
      s.replaceWindowLocked order act.start.fileIdx act.generation act.start.streamId
        (act.assignments s.native.layout decision) (.activation act)
  | .verify =>
      if s.state.IsCurrent act.start.fileIdx act.generation then
        { s with
          state := { s.state with selectedFirstPiece := some (act.firstPiece s.native.layout) }
          operation := some (.activate act .resume) }
      else s.activationErr act
  | .resume firstPiecePresent =>
      if s.state.IsCurrent act.start.fileIdx act.generation then
        let s' := { s with native := { s.native with isPaused := false } }
        if firstPiecePresent then
          { s' with operation := some (.activate act .firstPiece) }
        else s'.activationOk act
      else s.activationErr act
  | .firstPiece =>
      if s.state.generation = act.generation then
        { s with state := { s.state with selectedFirstPiece := none } }.activationOk act
      else s.activationOk act
  | .fail _ => s.activationErr act

/-- What a step of a pause does. -/
def PauseStep.effect (p : Pause) : PauseStep → World
  | .check =>
      if s.state.generation = p.generation then { s with operation := some (.pause p .native) }
      else s.pauseOk p
  | .native =>
      { s with
        native := { s.native.clearPieceDeadlines with isPaused := true }
        operation := some (.pause p .confirm) }
  | .confirmed =>
      if s.state.generation = p.generation then
        { s with operation := some (.pause p (.compare s.zeros)) }
      else s.pauseOk p
  | .compare zeros =>
      if zeros = [] ∨ s.state.acknowledgedPriorities = some zeros then
        { s with operation := some (.pause p (.finish zeros false)) }
      else { s with operation := some (.update zeros .probe (.pause p)) }
  | .finish zeros _ =>
      { s with state := s.state.finishPause p.generation zeros p.clearSelection }.pauseOk p
  | .fail _ => s.pauseErr p

/-- What a step of an update does. -/
def UpdateStep.effect (priorities : List ℤ) (caller : Updater) : UpdateStep → World
  | .probe =>
      if s.native.isSeeding then s.updateDone priorities caller
      else { s with operation := some (.update priorities .submit caller) }
  | .submit =>
      { s with
        native := s.native.setFilePriorities priorities
        operation := some (.update priorities .acknowledge caller) }
  | .acknowledged => s.updateDone priorities caller
  | .fail _ => s.updateErr caller

/-- What a command of a reader does under the lock. -/
def ReaderCommand.effect (order : IterationOrder) : ReaderCommand → World
  | .replaceWindow fileIdx generation streamId assignments =>
      s.replaceWindowLocked order fileIdx generation streamId assignments
        (.reader (.replaceWindow fileIdx generation streamId assignments))
  | .release fileIdx generation streamId foreground =>
      let released := s.state.releasePlayback order s.now generation streamId foreground
      { s with state := released.1 }.applyNext s.state.selectedPriority released.2
        (.reader (.release fileIdx generation streamId foreground))

/-- The handling of `PieceVerified` up to the question whether the selected file
has become complete. -/
def World.pieceVerified (piece : ℤ) : World :=
  let st := s.state.pieceVerified piece
  { s with
    state := st
    worker :=
      match s.seedingEnabled, s.layoutLoaded, st.phase, st.selectedFile with
      | false, true, .active, some fileIdx => .checkingComplete fileIdx st.generation
      | _, _, _, _ => .idle }.handled

/-- What the worker does with a command. -/
def PlaybackCommand.effect : PlaybackCommand → World
  | .reader command => s.handled.awaitLock (.reader command)
  | .releaseMetadata => { s with state := s.state.releaseMetadata s.now }.handled
  | .seedingEnabled true => s.handled.awaitLock .resumeSeeding
  | .seedingEnabled false => { s with state := s.state.scheduleIdleIfNeeded s.now }.handled
  | .pieceVerified piece => s.pieceVerified piece
  | .pieceInvalidated piece =>
      { s with
        completeFromStart :=
          s.completeFromStart.filter fun f => ¬ s.native.layout.FileContains f piece }.handled

/-- What a step of the worker does. -/
def WorkerStep.effect : WorkerStep → World
  | .tick => if s.seedingEnabled then s else { s with worker := .ticking s.now }
  | .decide now =>
      match s.state.pauseIfDue now with
      | (st, none) => { s with state := st, worker := .idle }
      | (st, some generation) =>
          { s with state := st, worker := .entering (World.newPause now st generation .idle) }
  | .enterPause p => s.workerPause p
  | .keepActive p =>
      { s with state := s.state.keepActiveForSeeding p.generation, worker := .idle }
  | .failedPause p =>
      { s with
        state :=
          if p.caller = .completed then
            if s.state.generation = p.generation then { s.state with phase := .active }
            else s.state
          else s.state.retryPause s.now p.generation
        worker := .idle }
  | .receive command => command.effect s
  | .checkComplete fileIdx generation complete =>
      if complete = true ∧ s.state.IsCurrent fileIdx generation ∧ s.state.phase = .active then
        { s with state := { s.state with phase := .pausePending } }.workerPause
          (World.newPause s.now s.state generation .completed)
      else { s with worker := .idle }
  | .reader command order => command.effect s order
  | .resumeCheck =>
      let s' := { s with state := { s.state with idleDeadline := none } }
      if s.state.phase = .active then s'.workerDone
      else { s' with operation := some (.resumeSeeding .native) }
  | .resumeNative =>
      { s with
        native := { s.native with isPaused := false }
        operation := some (.resumeSeeding .phase) }
  | .resumeFail => s.workerDone
  | .resumePhase => { s with state := { s.state with phase := .active } }.workerDone

/-- What an action does. -/
def Action.effect : Action → World
  | .surroundings a => a.effect s
  | .request a => a.effect s
  | .acquire r => { s with operation := some r.start, lockQueue := s.lockQueue.tail }
  | .load a => a.effect s
  | .activate act a => a.effect s act
  | .pause p a => a.effect s p
  | .update priorities caller a => a.effect s priorities caller
  | .changes baseline cs caller found =>
      if found then
        { s with native := s.native.applyChanges baseline cs }.changesDone caller
      else s.changesErr caller
  | .worker a => a.effect s

end Effects

/-! ### The system -/

/-- **The coordinator**, as it works on the entry of one torrent. -/
def coordinator : GuardedSystem World Action where
  guard s a := a.guard s
  effect s a := a.effect s

instance (s : World) (a : Action) : Decidable (coordinator.guard s a) :=
  inferInstanceAs (Decidable (a.guard s))

namespace World

/-- A torrent that has just been registered: it was added paused, and nothing is
under way. -/
structure Initial (s : World) : Prop where
  state : s.state = .new
  isPaused : s.native.isPaused = true
  submitted : s.native.submitted = none
  layoutLoaded : s.layoutLoaded = false
  queue : s.queue = []
  operation : s.operation = none
  lockQueue : s.lockQueue = []
  endings : s.endings = []
  worker : s.worker = .idle
  loader : s.loader = .idle
  permits : s.permits = []

/-- `register_torrent`, for a torrent that has just been added. -/
def registered (native : Native) (seedingEnabled : Bool) : World where
  state := .new
  native := native
  layoutLoaded := false
  completeFromStart := ∅
  seedingEnabled := seedingEnabled
  now := 0
  queue := []
  operation := none
  lockQueue := []
  endings := []
  worker := .idle
  loader := .idle
  permits := []

theorem registered_initial {native : Native} (hp : native.isPaused = true)
    (hs : native.submitted = none) (seedingEnabled : Bool) :
    (registered native seedingEnabled).Initial :=
  ⟨rfl, hp, hs, rfl, rfl, rfl, rfl, rfl, rfl, rfl, rfl⟩

/-- No operation is under way and no command is waiting. -/
structure Quiescent (s : World) : Prop where
  queue : s.queue = []
  operation : s.operation = none
  lockQueue : s.lockQueue = []
  endings : s.endings = []
  worker : s.worker = .idle
  loader : s.loader = .idle

instance (s : World) : Decidable s.Quiescent :=
  decidable_of_iff
    (s.queue = [] ∧ s.operation = none ∧ s.lockQueue = [] ∧ s.endings = [] ∧ s.worker = .idle ∧
      s.loader = .idle)
    ⟨fun ⟨hq, ho, hl, he, hw, hload⟩ => ⟨hq, ho, hl, he, hw, hload⟩,
      fun h => ⟨h.queue, h.operation, h.lockQueue, h.endings, h.worker, h.loader⟩⟩

end World

/-! ### A small torrent

Runs on a torrent with two files of two pieces each show that laws fail, or that
their hypotheses can be met. -/

/-- A torrent with two files, just added. -/
def twoFiles : Native where
  layout := ⟨[⟨0, 200, 0, 1⟩, ⟨200, 200, 2, 3⟩], 100⟩
  isPaused := true
  isSeeding := false
  hasMetadata := true
  filePriorities := [4, 4]
  piecePriority := fun _ => 4
  pieceDeadline := fun _ => none
  verified := ∅
  submitted := none

namespace Run

/-- The metadata is there and its layout gets loaded. -/
def load : List Action :=
  [.request .loadMetadata, .acquire .metadata, .load .status, .load (.permit true true),
    .load .query, .load .probe, .load .submit, .load .acknowledged, .load (.record ∅)]

/-- The update of the file priorities, from the submission to the answer. -/
def update (priorities : List ℤ) (caller : Updater) : List Action :=
  [.update priorities caller .probe, .update priorities caller .submit,
    .update priorities caller .acknowledged]

/-- An activation of a new selection, up to the comparison of the priorities. -/
def activate (act : Activation) : List Action :=
  [.acquire (.activate act), .activate act .check, .activate act .clearDeadlines,
    .activate act .compare]

/-- The rest of an activation with an empty window, up to the resumption. -/
def window (act : Activation) : List Action :=
  [.activate act (.hotWindow [] .stored), .activate act .verify]

/-- The activation of a reader of one of the two files, neither of which is complete. -/
def reader (fileIdx generation : ℕ) : Activation :=
  .ofStart ⟨fileIdx, fileIdx, 0, .directInitial⟩ ⟨generation, generation, true, false, 1⟩ false

/-- A reader of another file than the selected one, up to the point where it resumes
the torrent. -/
def read (act : Activation) (priorities : List ℤ) : List Action :=
  [.request (.startPlayback act.start false)] ++ activate act ++
    update priorities (.activation act) ++ [.activate act .record] ++ window act

/-- The reader goes away, and the worker handles its command. -/
def leave (act : Activation) : List Action :=
  (act.permit.toList.map fun permit =>
    [.request (.dropPermit permit), .worker (.receive permit.releaseCommand),
      .acquire (.reader permit.release), .worker (.reader permit.release .stored)]).flatten

end Run

end StreamServer.Playback

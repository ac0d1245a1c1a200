import StreamServer.Playback.Coordinator

/-!
# The holder of the operation lock

Whatever a task does under the operation lock, it either goes on holding it or gives
it back, and what it gives back with it is always the same: the worker is told how its
call ended, and the permit of a request goes to the reader, is dropped, or is passed
on to the pause of a complete file.  This file states that once.

## Main definitions

* `LockRequest.byWorker`, `LockRequest.permit` — whose task it is, and which permit it
  carries.
* `World.Goes` — how the holder of the lock goes on.

## Main results

* `goes_activate`, `goes_pause`, … — every step of a holder is a change of the state
  and of the native torrent, after which the holder goes on.
-/

namespace StreamServer.Playback

/-! ### What pausing goes by -/

/-- The part of the state that decides whether and when the torrent is paused. -/
structure Attendance where
  phase : LibtorrentNetworkPhase
  generation : ℕ
  selectedFile : Option ℕ
  directPermits : Multiset ℕ
  metadataPermits : ℕ
  hlsLastActivity : Option ℕ
  idleDeadline : Option ℕ

/-- What of the state tells who needs the network. -/
def TorrentPlaybackState.attendance (st : TorrentPlaybackState) : Attendance where
  phase := st.phase
  generation := st.generation
  selectedFile := st.selectedFile
  directPermits := st.directPermits
  metadataPermits := st.metadataPermits
  hlsLastActivity := st.hlsLastActivity
  idleDeadline := st.idleDeadline

/-! ### Tasks and their permits -/

/-- The requests the worker waits for. -/
def LockRequest.byWorker : LockRequest → Bool
  | .pause p => p.caller == .idle || p.caller == .completed
  | .reader _ | .resumeSeeding => true
  | .metadata | .activate _ => false

/-- The permit of the request a pause is part of. -/
def Pause.permit (p : Pause) : Option Permit :=
  match p.caller with
  | .activation act => act.permit
  | .endHls | .idle | .completed => none

/-- The permit a task carries until it returns. -/
def LockRequest.permit : LockRequest → Option Permit
  | .activate act => act.permit
  | .pause p => p.permit
  | .metadata | .reader _ | .resumeSeeding => none

/-- What the worker does once the task has returned `Ok`. -/
def LockRequest.returnOk (r : LockRequest) (w : Worker) : Worker :=
  if r.byWorker then .idle else w

/-- What the worker does once the task has returned an error.  It passes over a reader's
command that has failed. -/
def LockRequest.returnErr (r : LockRequest) (w : Worker) : Worker :=
  match r with
  | .pause p => if r.byWorker then .pauseFailed p else w
  | _ => r.returnOk w

namespace World

/-- How the holder `c` of the lock goes on. -/
inductive Goes (s : World) (c : Critical) : World → Prop
  | moves (d : Critical) (h : d.request = c.request) : Goes s c { s with operation := some d }
  /-- The task returns `Ok`, with its permit. -/
  | granted :
      Goes s c
        { s with
          operation := none
          worker := c.request.returnOk s.worker
          permits := s.permits ++ c.request.permit.toList }
  /-- The task returns an error, and drops its permit. -/
  | dropped :
      Goes s c
        { s with
          operation := none
          worker := c.request.returnErr s.worker
          queue := s.queue ++ c.request.permit.toList.map Permit.releaseCommand }
  /-- The activation of a complete file goes on to pause the torrent. -/
  | handedOver (act : Activation) (h : c.request = .activate act) :
      Goes s c
        { s with
          operation := none
          lockQueue := s.lockQueue ++
            [.pause (newPause s.now s.state act.generation (.activation act))] }

variable {s : World} {c : Critical}

/-! ### How tasks end -/

/-- A task that carries no permit returns. -/
theorem Goes.returned (hp : c.request.permit = none) :
    s.Goes c { s with operation := none, worker := c.request.returnOk s.worker } := by
  have hgo := Goes.granted (s := s) (c := c)
  rwa [hp, Option.toList_none, List.append_nil] at hgo

theorem goes_activationOk {act : Activation} (hc : c.request = .activate act) :
    s.Goes c (s.activationOk act) := by
  have hgo := Goes.granted (s := s) (c := c)
  rwa [hc] at hgo

theorem goes_activationErr {act : Activation} (hc : c.request = .activate act) :
    s.Goes c (s.activationErr act) := by
  have hgo := Goes.dropped (s := s) (c := c)
  rwa [hc] at hgo

theorem goes_pauseOk {p : Pause} (hc : c.request = .pause p) : s.Goes c (s.pauseOk p) := by
  have hgo := Goes.granted (s := s) (c := c)
  unfold World.pauseOk
  split
  all_goals
    next hp =>
      simpa [hc, LockRequest.returnOk, LockRequest.byWorker, LockRequest.permit, Pause.permit, hp,
        World.activationOk] using hgo

theorem goes_pauseErr {p : Pause} (hc : c.request = .pause p) : s.Goes c (s.pauseErr p) := by
  have hgo := Goes.dropped (s := s) (c := c)
  unfold World.pauseErr
  split
  all_goals
    next hp =>
      simpa [hc, LockRequest.returnErr, LockRequest.byWorker, LockRequest.permit, Pause.permit, hp,
        World.activationErr] using hgo

@[simp] theorem operation_pauseOk (s : World) (p : Pause) : (s.pauseOk p).operation = none := by
  unfold World.pauseOk
  split <;> rfl

@[simp] theorem operation_pauseErr (s : World) (p : Pause) :
    (s.pauseErr p).operation = none := by
  unfold World.pauseErr
  split <;> rfl

theorem goes_workerDone (hc : c.request.byWorker = true) (hp : c.request.permit = none) :
    s.Goes c s.workerDone := by
  have hgo := Goes.returned (s := s) hp
  rwa [LockRequest.returnOk, if_pos hc] at hgo

theorem goes_activatePrioritized {act : Activation} (hc : c.request = .activate act) :
    s.Goes c (s.activatePrioritized act) := by
  unfold World.activatePrioritized World.activateComplete
  split
  · split
    · exact goes_activationOk hc
    · exact .handedOver act hc
  · exact .moves _ hc.symm

theorem goes_updateDone {v : List ℤ} {caller : Updater} (hc : c.request = caller.request) :
    s.Goes c (s.updateDone v caller) := by
  cases caller with
  | activation act => exact .moves _ hc.symm
  | pause p => exact .moves _ hc.symm

theorem goes_updateErr {caller : Updater} (hc : c.request = caller.request) :
    s.Goes c (s.updateErr caller) := by
  cases caller with
  | activation act => exact goes_activationErr hc
  | pause p => exact goes_pauseErr hc

theorem goes_changesDone {caller : Changer} (hc : c.request = caller.request) :
    s.Goes c (s.changesDone caller) := by
  cases caller with
  | activation act => exact .moves _ hc.symm
  | reader command => exact goes_workerDone (by rw [hc]; rfl) (by rw [hc]; rfl)

theorem goes_changesErr {caller : Changer} (hc : c.request = caller.request) :
    s.Goes c (s.changesErr caller) := by
  cases caller with
  | activation act => exact goes_activationErr hc
  | reader command => exact goes_workerDone (by rw [hc]; rfl) (by rw [hc]; rfl)

theorem goes_applyNext {caller : Changer} (hc : c.request = caller.request) {baseline : ℤ}
    {cs : List PiecePriorityChange} : s.Goes c (s.applyNext baseline cs caller) := by
  unfold World.applyNext
  split
  · exact goes_changesDone hc
  · exact .moves _ hc.symm

/-! ### The steps of a holder -/

section Steps

/-- The world with another state and another native torrent. -/
abbrev update (s : World) (st : TorrentPlaybackState) (n : Native) : World :=
  { s with state := st, native := n }

/-- An activation goes by the selection and leaves the attendance alone. -/
theorem goes_activate {act : Activation} {a : ActivateStep} (hg : a.guard s act) :
    s.operation = some (.activate act a.pc) ∧
      ∃ st n, (s.update st n).Goes (.activate act a.pc) (a.effect s act) ∧
        st.attendance = s.state.attendance ∧ n.hasMetadata = s.native.hasMetadata ∧
        (n.isPaused = s.native.isPaused ∨
          (∃ present, a = .resume present) ∧ n.isPaused = false) ∧
        st.foregroundPermits = s.state.foregroundPermits ∧
        (st.priorityWindows = s.state.priorityWindows ∨
          s.state.IsCurrent act.start.fileIdx act.generation ∧ ∃ order assignments,
            st.priorityWindows =
              (s.state.priorityWindows.replace order act.start.streamId assignments).1) := by
  refine ⟨hg.1, ?_⟩
  cases a with
  -- an activation that is no longer current is given up
  | check =>
    refine ⟨s.state, s.native, ?_, rfl, rfl, Or.inl rfl, rfl, Or.inl rfl⟩
    dsimp only [ActivateStep.effect, World.activateDesired]
    split
    · split
      · exact goes_activationOk rfl
      · split
        · exact .moves _ rfl
        · exact .moves _ rfl
    · exact goes_activationErr rfl
  | clearDeadlines =>
    exact ⟨s.state, s.native.clearPieceDeadlines, .moves _ rfl, rfl, rfl, Or.inl rfl, rfl, Or.inl rfl⟩
  | fastPath =>
    refine ⟨s.state, s.native, ?_, rfl, rfl, Or.inl rfl, rfl, Or.inl rfl⟩
    dsimp only [ActivateStep.effect]
    split
    · exact goes_activationOk rfl
    · exact .moves _ rfl
  | compare =>
    refine ⟨s.state, s.native, ?_, rfl, rfl, Or.inl rfl, rfl, Or.inl rfl⟩
    dsimp only [ActivateStep.effect]
    split
    · exact goes_activatePrioritized rfl
    · exact .moves _ rfl
  | record =>
    dsimp only [ActivateStep.effect]
    split
    · exact ⟨_, s.native, goes_activatePrioritized rfl, rfl, rfl, Or.inl rfl, rfl, Or.inl rfl⟩
    · exact ⟨s.state, s.native, goes_activationErr rfl, rfl, rfl, Or.inl rfl, rfl, Or.inl rfl⟩
  -- the window is filed only while the selection is current
  | hotWindow decision order =>
    dsimp only [ActivateStep.effect, World.replaceWindowLocked]
    split
    · next hcurrent =>
      exact ⟨_, s.native, goes_applyNext rfl, rfl, rfl, Or.inl rfl, rfl,
        Or.inr ⟨hcurrent, order, _, rfl⟩⟩
    · exact ⟨s.state, s.native, goes_changesDone rfl, rfl, rfl, Or.inl rfl, rfl, Or.inl rfl⟩
  | verify =>
    dsimp only [ActivateStep.effect]
    split
    · exact ⟨_, s.native, .moves (.activate act .resume) rfl, rfl, rfl, Or.inl rfl, rfl, Or.inl rfl⟩
    · exact ⟨s.state, s.native, goes_activationErr rfl, rfl, rfl, Or.inl rfl, rfl, Or.inl rfl⟩
  -- the only step that touches the pause: it takes it off
  | resume present =>
    dsimp only [ActivateStep.effect]
    split
    · refine ⟨s.state, { s.native with isPaused := false }, ?_, rfl, rfl,
        Or.inr ⟨⟨present, rfl⟩, rfl⟩, rfl, Or.inl rfl⟩
      split
      · exact .moves _ rfl
      · exact goes_activationOk rfl
    · exact ⟨s.state, s.native, goes_activationErr rfl, rfl, rfl, Or.inl rfl, rfl, Or.inl rfl⟩
  | firstPiece =>
    dsimp only [ActivateStep.effect]
    split
    · exact ⟨_, s.native, goes_activationOk rfl, rfl, rfl, Or.inl rfl, rfl, Or.inl rfl⟩
    · exact ⟨s.state, s.native, goes_activationOk rfl, rfl, rfl, Or.inl rfl, rfl, Or.inl rfl⟩
  | fail pc => exact ⟨s.state, s.native, goes_activationErr rfl, rfl, rfl, Or.inl rfl, rfl, Or.inl rfl⟩

/-- An update of the file priorities touches nothing that pausing goes by. -/
theorem goes_update {v : List ℤ} {caller : Updater} {a : UpdateStep}
    (hg : a.guard s v caller) :
    ∃ c, s.operation = some c ∧ c.request = caller.request ∧
      ∃ n, (s.update s.state n).Goes c (a.effect s v caller) ∧
        n.hasMetadata = s.native.hasMetadata ∧ n.isPaused = s.native.isPaused := by
  cases a with
  | probe =>
    refine ⟨_, hg, rfl, s.native, ?_, rfl, rfl⟩
    dsimp only [UpdateStep.effect]
    split
    · exact goes_updateDone rfl
    · exact .moves _ rfl
  | submit => exact ⟨_, hg, rfl, s.native.setFilePriorities v, .moves _ rfl, rfl, rfl⟩
  | acknowledged => exact ⟨_, hg.1, rfl, s.native, goes_updateDone rfl, rfl, rfl⟩
  | fail pc => exact ⟨_, hg, rfl, s.native, goes_updateErr rfl, rfl, rfl⟩

theorem goes_changes {baseline : ℤ} {cs : List PiecePriorityChange} {caller : Changer}
    {found : Bool} :
    ∃ n, (s.update s.state n).Goes (.changes baseline cs caller)
        ((Action.changes baseline cs caller found).effect s) ∧
      n.hasMetadata = s.native.hasMetadata ∧ n.isPaused = s.native.isPaused := by
  cases found with
  | true =>
    exact ⟨s.native.applyChanges baseline cs, goes_changesDone rfl,
      Native.hasMetadata_applyChanges .., Native.isPaused_applyChanges ..⟩
  | false => exact ⟨s.native, goes_changesErr rfl, rfl, rfl⟩

/-- A pause leaves the state alone until its end. -/
theorem goes_pause {p : Pause} {a : PauseStep} (hg : a.guard s p) :
    ∃ c, s.operation = some c ∧ c.request = .pause p ∧
      ∃ st n, (s.update st n).Goes c (a.effect s p) ∧
        (st = s.state ∨ ∃ zeros, (∃ applied, a = .finish zeros applied) ∧
          st = s.state.finishPause p.generation zeros p.clearSelection) ∧
        n.hasMetadata = s.native.hasMetadata ∧
        (n.isPaused = s.native.isPaused ∨ a = .native ∧ n.isPaused = true) := by
  cases a with
  | check =>
    refine ⟨_, hg, rfl, s.state, s.native, ?_, Or.inl rfl, rfl, Or.inl rfl⟩
    dsimp only [PauseStep.effect]
    split
    · exact .moves _ rfl
    · exact goes_pauseOk rfl
  | native =>
    exact ⟨_, hg, rfl, s.state, { s.native.clearPieceDeadlines with isPaused := true },
      .moves _ rfl, Or.inl rfl, rfl, Or.inr ⟨rfl, rfl⟩⟩
  | confirmed =>
    refine ⟨_, hg.1, rfl, s.state, s.native, ?_, Or.inl rfl, rfl, Or.inl rfl⟩
    dsimp only [PauseStep.effect]
    split
    · exact .moves _ rfl
    · exact goes_pauseOk rfl
  | compare zeros =>
    refine ⟨_, hg, rfl, s.state, s.native, ?_, Or.inl rfl, rfl, Or.inl rfl⟩
    dsimp only [PauseStep.effect]
    split
    · exact .moves _ rfl
    · exact .moves _ rfl
  | finish zeros applied =>
    exact ⟨_, hg, rfl, _, s.native, goes_pauseOk rfl, Or.inr ⟨zeros, ⟨applied, rfl⟩, rfl⟩, rfl,
      Or.inl rfl⟩
  | fail pc =>
    exact ⟨_, hg.1, rfl, s.state, s.native, goes_pauseErr rfl, Or.inl rfl, rfl, Or.inl rfl⟩

/-- The worker handles a reader's command under the lock. -/
theorem goes_reader (command : ReaderCommand) (order : IterationOrder) :
    ∃ st, (s.update st s.native).Goes (.reader command) (command.effect s order) ∧
      (st.attendance = s.state.attendance ∨
        ∃ fileIdx generation streamId foreground,
          command = .release fileIdx generation streamId foreground ∧
            st = (s.state.releasePlayback order s.now generation streamId foreground).1) := by
  cases command with
  | replaceWindow fileIdx generation streamId assignments =>
    dsimp only [ReaderCommand.effect, World.replaceWindowLocked]
    split
    · exact ⟨_, goes_applyNext rfl, Or.inl rfl⟩
    · exact ⟨s.state, goes_changesDone rfl, Or.inl rfl⟩
  | release fileIdx generation streamId foreground =>
    exact ⟨_, goes_applyNext rfl, Or.inr ⟨_, _, _, _, rfl, rfl⟩⟩

end Steps

end World

end StreamServer.Playback

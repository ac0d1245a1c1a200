import StreamServer.Playback.Registry
import StreamServer.Playback.Tasks

/-!
# Probes and the foreground

A probe or a background reader may read a file while somebody plays it, but it must not
take the torrent away from the player.  If it asks for another file than the selected one
it is turned away.  If it asks for the selected file it *joins*: it gets a permit of the
current generation, and its activation does nothing but look whether that generation is
still current.

That somebody plays is told by the count of foreground permits of the current generation,
so the law rests on that count: whoever holds such a permit is counted.  An entry that was
made anew for its torrent can lose a count to a permit of the entry before.

## Main definitions

* `LockRequest.activation`, `Action.activation` — the activation a task or a step belongs to.
* `World.JoinersWait` — the activation of a reader that has joined has done nothing yet.
* `openCoordinator` — the tasks of an entry, when there are other entries of the torrent.
* `StateStep` — the ways in which the registry changes the state of an entry.
* `Registry.ForegroundFits` — the condition: the release of a foreground permit is handled
  where the permit was issued, or where it can be mistaken for no other.

## Main results

* `startPlayback_joins` — what a start in the background does to the state.
* `joinersWait_step`, `joinersWait_of_reach` — a reader that has joined only ever looks
  whether it is current.
* `stateStep_effect` — the tasks of an entry change its state as the registry does.
* `foregroundCounted_step` — a step that meets the condition keeps foreground permits
  counted.
* `probe_leavesForeground` — **probes never disturb the foreground.**
* `removedTorrent_probed` — a probe that takes a torrent away from its player.

## References

`enginefs/src/backend/libtorrent/playback.rs`, `start_playback`, `select`,
`activate_selection`, `remove_torrent`, `handle_command`.
-/

namespace StreamServer.Playback

/-! ### The activation behind a step -/

/-- The activation that asked for the pause, if one did. -/
def Pause.activation (p : Pause) : Option Activation :=
  match p.caller with
  | .activation act => some act
  | .endHls | .idle | .completed => none

/-- The activation a task is part of. -/
def LockRequest.activation : LockRequest → Option Activation
  | .activate act => some act
  | .pause p => p.activation
  | .metadata | .reader _ | .resumeSeeding => none

/-- The activation a step is part of. -/
def Action.activation : Action → Option Activation
  | .activate act _ => some act
  | .pause p _ => p.activation
  | .update _ caller _ => caller.request.activation
  | .changes _ _ caller _ => caller.request.activation
  | _ => none

/-! ### Joining -/

namespace TorrentPlaybackState

variable (st : TorrentPlaybackState) (now : ℕ)

/-- While somebody plays in the foreground, a start in the background is turned away, or
counts one permit and leaves the selection alone. -/
theorem startPlayback_joins (seedingEnabled : Bool) {start : LibtorrentPlaybackStart}
    (complete : Bool) (hforeground : 0 < st.activeForegroundPermits)
    (hstart : start.intent.isForeground = false) :
    (st.selectedFile ≠ some start.fileIdx →
      ∃ message, st.startPlayback now seedingEnabled start complete = .error message) ∧
    (st.selectedFile = some start.fileIdx → ∃ selection,
      selection.subordinate = true ∧
        st.startPlayback now seedingEnabled start complete =
          .ok ({ st with
            directPermits := st.generation ::ₘ st.directPermits
            phase := if !complete || seedingEnabled then .active else st.phase
            idleDeadline := none }, selection)) := by
  constructor
  · intro hother
    refine ⟨_, if_pos ⟨?_, hforeground, hother⟩⟩
    simp [hstart]
  · intro hsame
    -- the priority that is selected is asked for, so nothing is selected anew
    have hpriority : st.startPriority start complete = st.selectedPriority := by
      rw [startPriority, if_pos ⟨by simp [hstart], hforeground, hsame⟩]
    have hunchanged : st.changes start.fileIdx st.selectedPriority = false := by
      simp [changes, hsame]
    have hjoins : st.joinsForeground start.fileIdx true false = true := by
      simp [joinsForeground, hsame, hforeground]
    refine ⟨⟨st.generation, st.cancellation.current, false, true, st.selectedPriority⟩, ?_, ?_⟩
    · rfl
    · rw [startPlayback, if_neg fun h => h.2.2 hsame, hpriority, hstart]
      rcases st.select_spec now start.fileIdx st.selectedPriority true false
        (!complete || seedingEnabled) false with ⟨-, heq⟩ | ⟨hchanged, -⟩
      · rw [heq, hjoins]
        rfl
      · rw [hunchanged] at hchanged
        cases hchanged

end TorrentPlaybackState

namespace World

/-! ### Readers that have joined -/

/-- The activation of a reader that has joined waits, or is about to look whether it is
current. -/
structure JoinersWait (s : World) : Prop where
  holder : ∀ c ∈ s.operation, ∀ act ∈ c.request.activation,
    act.selection.subordinate = true → c = .activate act .check
  waiting : ∀ r ∈ s.lockQueue, ∀ act ∈ r.activation,
    act.selection.subordinate = true → r = .activate act

section Steps

variable {s t : World} (h : s.JoinersWait)

include h

theorem JoinersWait.keep (hop : t.operation = s.operation)
    (hq : t.lockQueue = s.lockQueue) : t.JoinersWait := by
  constructor
  · rw [hop]
    exact h.holder
  · rw [hq]
    exact h.waiting

/-- The holder leaves. -/
theorem JoinersWait.leave (hop : t.operation = none)
    (hq : t.lockQueue = s.lockQueue) : t.JoinersWait := by
  constructor
  · rw [hop]
    rintro c ⟨⟩
  · rw [hq]
    exact h.waiting

/-- A task that is no pause of an activation starts to wait. -/
theorem JoinersWait.wait (r : LockRequest) (hr : ∀ act ∈ r.activation, r = .activate act)
    (hop : t.operation = s.operation)
    (hq : t.lockQueue = s.lockQueue ++ [r]) : t.JoinersWait := by
  constructor
  · rw [hop]
    exact h.holder
  · intro r' hr' act hact hsub
    rw [hq, List.mem_append, List.mem_singleton] at hr'
    rcases hr' with hr' | rfl
    · exact h.waiting r' hr' act hact hsub
    · exact hr act hact

/-- However a holder goes on that is not about to look whether it is current. -/
theorem JoinersWait.goes {c : Critical} (hop : s.operation = some c)
    (hc : ∀ act, c ≠ .activate act .check) (hgo : s.Goes c t) : t.JoinersWait := by
  have hfree : ∀ act ∈ c.request.activation, act.selection.subordinate ≠ true :=
    fun act hact hsub => hc act (h.holder c hop act hact hsub)
  cases hgo with
  | moves d hd =>
    refine ⟨?_, h.waiting⟩
    rintro _ ⟨⟩ act hact hsub
    rw [hd] at hact
    exact absurd hsub (hfree act hact)
  | granted => exact h.leave rfl rfl
  | dropped => exact h.leave rfl rfl
  | handedOver act hact =>
    refine ⟨by rintro _ ⟨⟩, fun r hr act' hact' hsub => ?_⟩
    rcases List.mem_append.mp hr with hr | hr
    · exact h.waiting r hr act' hact' hsub
    · -- the pause of a complete file, whose activation has not joined
      rw [List.mem_singleton] at hr
      rw [hr] at hact'
      rw [← Option.mem_some_iff.mp hact'] at hsub
      exact absurd hsub (hfree act (by rw [hact]; rfl))

theorem joinersWait_request {a : RequestStep} : (a.effect s).JoinersWait := by
  cases a with
  | loadMetadata => exact h.wait .metadata (by rintro act ⟨⟩) rfl rfl
  | startPlayback start complete =>
    dsimp only [RequestStep.effect]
    split
    · exact h
    · next st selection _ =>
      refine h.wait (.activate (.ofStart start selection complete)) (fun act hact => ?_) rfl rfl
      rw [Option.mem_some_iff.mp hact]
  | refreshHls fileIdx complete =>
    dsimp only [RequestStep.effect]
    split
    · refine h.wait (.activate (.ofHls fileIdx _ complete)) (fun act hact => ?_) rfl rfl
      rw [Option.mem_some_iff.mp hact]
    · exact h.keep rfl rfl
  | endHls fileIdx =>
    dsimp only [RequestStep.effect, World.endHls]
    split
    · exact h.keep rfl rfl
    · exact h.keep rfl rfl
    · exact h.keep rfl rfl
    · exact h.wait (.pause (newPause s.now _ _ .endHls)) (by rintro act ⟨⟩) rfl rfl
  | _ => exact h.keep rfl rfl

theorem joinersWait_load {a : LoadStep} (hg : a.guard s) : (a.effect s).JoinersWait := by
  cases a with
  | status => exact h.goes hg (by rintro act ⟨⟩) (.moves _ rfl)
  | statusFail => exact h.leave rfl rfl
  | permit hasMetadata isPaused =>
    dsimp only [LoadStep.effect]
    split
    · exact h.leave rfl rfl
    · refine ⟨?_, h.waiting⟩
      rintro _ ⟨⟩ act ⟨⟩
  | announce isPaused => exact h.leave rfl rfl
  | _ => exact h.keep rfl rfl

/-- The activation of a reader that has joined returns when it has looked. -/
theorem joinersWait_activate {act : Activation} {a : ActivateStep} (hg : a.guard s act) :
    (a.effect s act).JoinersWait := by
  have hrest : a.pc ≠ .check → (a.effect s act).JoinersWait := by
    intro hpc
    obtain ⟨hop, st, n, hgo, -⟩ := goes_activate hg
    have hs : (s.update st n).JoinersWait := h.keep rfl rfl
    refine hs.goes hop (fun act' heq => ?_) hgo
    injection heq with _ heq
    exact hpc heq
  cases a with
  | check =>
    dsimp only [ActivateStep.effect, World.activateDesired]
    split
    · split
      · exact h.leave rfl rfl
      · next hsub =>
        -- a reader that has not joined goes on
        have hmoved : ∀ d : Critical, d.request = .activate act →
            ({ s with operation := some d } : World).JoinersWait := by
          intro d hd
          refine ⟨?_, h.waiting⟩
          rintro _ ⟨⟩ act' hact' hsub'
          rw [hd, ← Option.mem_some_iff.mp hact'] at *
          exact absurd hsub' hsub
        split
        · exact hmoved _ rfl
        · exact hmoved _ rfl
    · exact h.leave rfl rfl
  | fail pc =>
    refine hrest ?_
    rintro rfl
    cases hg.2
  | _ => exact hrest (by rintro ⟨⟩)

theorem joinersWait_receive {command : PlaybackCommand} : (command.effect s).JoinersWait := by
  cases command with
  | reader command => exact h.wait (.reader command) (by rintro act ⟨⟩) rfl rfl
  | seedingEnabled enabled =>
    cases enabled with
    | true => exact h.wait .resumeSeeding (by rintro act ⟨⟩) rfl rfl
    | false => exact h.keep rfl rfl
  | _ => exact h.keep rfl rfl

theorem joinersWait_worker (hl : s.TasksLinked) {a : WorkerStep} (hg : a.guard s) :
    (a.effect s).JoinersWait := by
  -- the pauses of the worker are no activations
  have hpause : ∀ {t : World} {p : Pause}, t.JoinersWait → p.activation = none →
      (t.workerPause p).JoinersWait := by
    intro t p ht hp
    unfold World.workerPause
    split
    · exact ht.keep rfl rfl
    · refine ht.wait (.pause p) (fun act hact => ?_) rfl rfl
      rw [LockRequest.activation, hp] at hact
      cases hact
  cases a with
  | tick =>
    dsimp only [WorkerStep.effect]
    split <;> exact h.keep rfl rfl
  | decide now =>
    dsimp only [WorkerStep.effect]
    split <;> exact h.keep rfl rfl
  | enterPause p =>
    refine hpause h ?_
    rcases hl.caller p (by rw [show s.worker = _ from hg]; rfl) with hp | hp <;>
      rw [Pause.activation, hp]
  | receive command => exact joinersWait_receive h
  | checkComplete fileIdx generation complete =>
    dsimp only [WorkerStep.effect]
    split
    · have hs : World.JoinersWait { s with state := { s.state with phase := .pausePending } } :=
        h.keep rfl rfl
      exact hpause hs rfl
    · exact h.keep rfl rfl
  | reader command order =>
    obtain ⟨st, hgo, -⟩ := goes_reader command order
    have hs : (s.update st s.native).JoinersWait := h.keep rfl rfl
    exact hs.goes hg (by rintro act ⟨⟩) hgo
  | resumeCheck =>
    dsimp only [WorkerStep.effect]
    split
    · exact h.leave rfl rfl
    · refine ⟨?_, h.waiting⟩
      rintro _ ⟨⟩ act ⟨⟩
  | resumeNative =>
    refine ⟨?_, h.waiting⟩
    rintro _ ⟨⟩ act ⟨⟩
  | resumeFail => exact h.leave rfl rfl
  | resumePhase => exact h.leave rfl rfl
  | _ => exact h.keep rfl rfl

theorem joinersWait_step (hl : s.TasksLinked) {a : Action} (hg : a.guard s) :
    (a.effect s).JoinersWait := by
  cases a with
  | surroundings a => cases a <;> exact h.keep rfl rfl
  | request a => exact joinersWait_request h
  | acquire r =>
    have hmem : r ∈ s.lockQueue := by
      rw [hg.2]
      exact List.mem_cons_self
    refine ⟨?_, fun r' hr' => h.waiting r' (List.mem_of_mem_tail hr')⟩
    rintro _ ⟨⟩ act hact hsub
    rw [LockRequest.request_start] at hact
    rw [h.waiting r hmem act hact hsub]
    rfl
  | load a => exact joinersWait_load h hg
  | activate act a => exact joinersWait_activate h hg
  | pause p a =>
    obtain ⟨c, hop, hreq, st, n, hgo, -⟩ := goes_pause hg
    have hs : (s.update st n).JoinersWait := h.keep rfl rfl
    refine hs.goes hop (fun act heq => ?_) hgo
    rw [heq] at hreq
    cases hreq
  | update priorities caller a =>
    have hs : ∀ n, (s.update s.state n).JoinersWait := fun _ => h.keep rfl rfl
    obtain ⟨c, hop, -, n, hgo, -⟩ := goes_update hg
    refine (hs n).goes hop (fun act heq => ?_) hgo
    -- the holder is in the middle of an update
    rw [heq] at hop
    cases a with
    | acknowledged =>
      rw [hg.1] at hop
      cases hop
    | _ =>
      rw [show s.operation = _ from hg] at hop
      cases hop
  | changes baseline cs caller found =>
    obtain ⟨n, hgo, -⟩ := goes_changes
    have hs : (s.update s.state n).JoinersWait := h.keep rfl rfl
    exact hs.goes hg (by rintro act ⟨⟩) hgo
  | worker a => exact joinersWait_worker h hl hg

end Steps

theorem Initial.joinersWait {s : World} (h : s.Initial) : s.JoinersWait := by
  constructor
  · rw [h.operation]
    rintro c ⟨⟩
  · rw [h.lockQueue]
    rintro r ⟨⟩

/-- The only step of an activation that has joined is to look whether it is current, and it
ends the activation. -/
theorem JoinersWait.only_check {s : World} (h : s.JoinersWait) {a : Action} {act : Activation}
    (hg : a.guard s) (hact : a.activation = some act) (hsub : act.selection.subordinate = true) :
    a = .activate act .check ∧ (a.effect s).native = s.native ∧ (a.effect s).state = s.state ∧
      (a.effect s).operation = none := by
  -- the holder the step belongs to
  have hholder : ∀ c, s.operation = some c → c.request.activation = some act →
      c = .activate act .check := fun c hop hc => h.holder c hop act hc hsub
  cases a with
  | activate act' a =>
    rw [Option.some.inj hact] at hg ⊢
    have hpc := hholder _ hg.1 rfl
    cases a with
    | check =>
      refine ⟨rfl, ?_⟩
      simp only [Action.effect, ActivateStep.effect, if_pos hsub]
      split
      · exact ⟨rfl, rfl, rfl⟩
      · exact ⟨rfl, rfl, rfl⟩
    | fail pc =>
      have hmay := hg.2
      injection hpc with _ hpc
      rw [show pc = .check from hpc] at hmay
      cases hmay
    | _ => cases hpc
  | pause p a =>
    obtain ⟨c, hop, hreq, -⟩ := goes_pause hg
    rw [hholder c hop (by rw [hreq]; exact hact)] at hreq
    cases hreq
  | update priorities caller a =>
    cases a with
    | acknowledged => cases hholder _ hg.1 hact
    | _ => cases hholder _ hg hact
  | changes baseline cs caller found => cases hholder _ hg hact
  | _ => cases hact

end World

/-! ### The tasks of one entry among others -/

/-- What happens to the tasks of an entry.  A command carries the info hash only, so those of
the readers of one entry may be handled on another entry of the torrent. -/
inductive OpenStep
  | own (a : Action)
  /-- A command comes in for a reader of another entry. -/
  | sent (command : PlaybackCommand)
  /-- A command is handled on another entry, or on none. -/
  | missed (command : PlaybackCommand)

/-- The step can be taken. -/
def OpenStep.guard (s : World) : OpenStep → Prop
  | .own a => a.guard s
  | .sent _ => True
  | .missed command => command ∈ s.queue

/-- The entry and its tasks once the step is taken. -/
def OpenStep.effect (s : World) : OpenStep → World
  | .own a => a.effect s
  | .sent command => { s with queue := s.queue ++ [command] }
  | .missed command => { s with queue := s.queue.erase command }

/-- **The coordinator**, as it works on one of several entries. -/
def openCoordinator : GuardedSystem World OpenStep where
  guard := OpenStep.guard
  effect := OpenStep.effect

namespace World

theorem tasksLinked_open {s : World} {a : OpenStep} (h : s.TasksLinked)
    (hg : openCoordinator.guard s a) : (openCoordinator.effect s a).TasksLinked := by
  cases a with
  | own a => exact tasksLinked_step h hg
  | sent command | missed command => exact h.congr rfl rfl rfl rfl

theorem joinersWait_open {s : World} {a : OpenStep} (h : s.JoinersWait) (hl : s.TasksLinked)
    (hg : openCoordinator.guard s a) : (openCoordinator.effect s a).JoinersWait := by
  cases a with
  | own a => exact joinersWait_step h hl hg
  | sent command | missed command => exact h.keep rfl rfl

/-- **A reader that has joined only ever looks whether it is current**, whatever becomes of
the entry. -/
theorem joinersWait_of_reach {s t : World} (hs : s.Initial)
    (h : openCoordinator.Reach GuardedSystem.anyStep s t) : t.JoinersWait := by
  have hlinked : ∀ u, openCoordinator.Reach GuardedSystem.anyStep s u → u.TasksLinked :=
    fun u hu => hu.invariant hs.tasksLinked fun _ _ hi hg _ => tasksLinked_open hi hg
  exact h.invariant_of hlinked hs.joinersWait fun _ _ hk hi hg _ => joinersWait_open hi hk hg

/-! ### The changes of a state -/

/-- The ways in which a step of the registry changes the state of an entry. -/
inductive StateStep (st : TorrentPlaybackState) : TorrentPlaybackState → Prop
  | same : StateStep st st
  | started {now : ℕ} {seedingEnabled complete : Bool} {start : LibtorrentPlaybackStart}
      {st' : TorrentPlaybackState} {selection : Selection}
      (h : st.startPlayback now seedingEnabled start complete = .ok (st', selection)) :
      StateStep st st'
  | acquired (hasMetadata : Bool) : StateStep st (st.acquireMetadata hasMetadata)
  | updated (change : EntryUpdate) : StateStep st (change.apply st)
  | released (order : IterationOrder) (now : ℕ) (command : ReleaseCommand) :
      StateStep st (command.apply order now st)

theorem Goes.state {s t : World} {c : Critical} (h : s.Goes c t) : t.state = s.state := by
  cases h <;> rfl

/-- How an activation goes on does not matter to the state. -/
theorem StateStep.goes {st : TorrentPlaybackState} {s t : World} {c : Critical} (h : s.Goes c t)
    (hst : StateStep st s.state) : StateStep st t.state := by
  rw [h.state]
  exact hst

section StateSteps

variable (s : World)

theorem stateStep_replaceWindow (order : IterationOrder) (fileIdx generation streamId : ℕ)
    (assignments : List LibtorrentPiecePriority) (caller : Changer) :
    StateStep s.state
      (s.replaceWindowLocked order fileIdx generation streamId assignments caller).state := by
  have hupdated : StateStep s.state
      ((EntryUpdate.replaceWindow order fileIdx generation streamId assignments).apply s.state) :=
    .updated _
  have hgoes : ∀ {u v : World}, u.Goes (.changes 0 [] caller) v →
      StateStep s.state u.state → StateStep s.state v.state := fun h hst => StateStep.goes h hst
  rw [replaceWindowLocked]
  dsimp only [EntryUpdate.apply] at hupdated
  split
  · next hcurrent =>
    rw [if_pos hcurrent] at hupdated
    exact hgoes (goes_applyNext rfl) hupdated
  · exact hgoes (goes_changesDone rfl) .same

theorem stateStep_request (a : RequestStep) : StateStep s.state (a.effect s).state := by
  cases a with
  | startPlayback start complete =>
    dsimp only [RequestStep.effect]
    split
    · exact .same
    · next hgranted => exact .started hgranted
  | refreshHls fileIdx complete =>
    have hupdated : StateStep s.state
        ((EntryUpdate.refreshHls s.now s.seedingEnabled fileIdx complete).apply s.state) := .updated _
    dsimp only [RequestStep.effect]
    split <;> exact hupdated
  | endHls fileIdx =>
    have hupdated : StateStep s.state
        ((EntryUpdate.endHls s.seedingEnabled fileIdx).apply s.state) := .updated _
    dsimp only [RequestStep.effect, World.endHls]
    split <;> exact hupdated
  | finishEndHls rest =>
    cases rest with
    | keepActiveForSeeding generation => exact .updated (.keepActiveForSeeding generation)
    | restorePausedIdle _ => exact .updated (.setPhase .pausedIdle)
  | _ => exact .same

theorem stateStep_load (a : LoadStep) : StateStep s.state (a.effect s).state := by
  cases a with
  | permit hasMetadata isPaused =>
    dsimp only [LoadStep.effect]
    split <;> exact .acquired hasMetadata
  | announce isPaused => exact .updated .announceMetadata
  | record completeFromStart =>
    dsimp only [LoadStep.effect, loadDone]
    split
    · exact .same
    · exact .updated (.acknowledge _)
  | _ => exact .same

theorem stateStep_activate (act : Activation) (a : ActivateStep) :
    StateStep s.state (a.effect s act).state := by
  have hgoes : ∀ {u v : World}, u.Goes (.activate act .check) v →
      StateStep s.state u.state → StateStep s.state v.state := fun h hst => StateStep.goes h hst
  cases a with
  | check =>
    dsimp only [ActivateStep.effect, activateDesired]
    (repeat' split) <;> exact .same
  | clearDeadlines => exact .same
  | fastPath =>
    dsimp only [ActivateStep.effect]
    split <;> exact .same
  | compare =>
    dsimp only [ActivateStep.effect]
    split
    · exact hgoes (goes_activatePrioritized rfl) .same
    · exact .same
  | record =>
    dsimp only [ActivateStep.effect]
    split
    · exact hgoes (goes_activatePrioritized rfl) (.updated (.acknowledge _))
    · exact .same
  | hotWindow decision order => exact stateStep_replaceWindow s _ _ _ _ _ _
  | verify =>
    dsimp only [ActivateStep.effect]
    split
    · exact .updated (.selectFirstPiece _)
    · exact .same
  | resume present =>
    dsimp only [ActivateStep.effect]
    (repeat' split) <;> exact .same
  | firstPiece =>
    dsimp only [ActivateStep.effect]
    split
    · exact .updated (.selectFirstPiece none)
    · exact .same
  | fail pc => exact .same

theorem stateStep_receive (command : PlaybackCommand) :
    StateStep s.state (command.effect s).state := by
  cases command with
  | releaseMetadata => exact .released .stored s.now (.releaseMetadata ⟨"", 0, 0⟩)
  | seedingEnabled enabled =>
    cases enabled with
    | true => exact .same
    | false => exact .updated (.scheduleIdle s.now)
  | pieceVerified piece => exact .updated (.pieceVerified piece)
  | _ => exact .same

theorem stateStep_worker (a : WorkerStep) : StateStep s.state (a.effect s).state := by
  cases a with
  | tick =>
    dsimp only [WorkerStep.effect]
    split <;> exact .same
  | decide now =>
    have hupdated : StateStep s.state ((EntryUpdate.pauseIfDue now).apply s.state) := .updated _
    dsimp only [WorkerStep.effect]
    split <;> (next heq => rw [EntryUpdate.apply, heq] at hupdated; exact hupdated)
  | enterPause p =>
    dsimp only [WorkerStep.effect, workerPause]
    split <;> exact .same
  | keepActive p => exact .updated (.keepActiveForSeeding p.generation)
  | failedPause p =>
    dsimp only [WorkerStep.effect]
    split
    · split
      · exact .updated (.setPhase .active)
      · exact .same
    · exact .updated (.retryPause s.now p.generation)
  | receive command => exact stateStep_receive s command
  | checkComplete fileIdx generation complete =>
    dsimp only [WorkerStep.effect, workerPause]
    split
    · split <;> exact .updated (.setPhase .pausePending)
    · exact .same
  | reader command order =>
    cases command with
    | replaceWindow fileIdx generation streamId assignments =>
      exact stateStep_replaceWindow s _ _ _ _ _ _
    | release fileIdx generation streamId foreground =>
      have hreleased : StateStep s.state
          (s.state.releasePlayback order s.now generation streamId foreground).1 :=
        .released order s.now (.releasePlayback ⟨"", 0, fileIdx, generation, streamId, foreground⟩)
      have hgo : ∀ {u v : World},
          u.Goes (.reader (.release fileIdx generation streamId foreground)) v →
            StateStep s.state u.state → StateStep s.state v.state := fun h hst => StateStep.goes h hst
      exact hgo (goes_applyNext rfl) hreleased
  | resumeCheck =>
    dsimp only [WorkerStep.effect]
    split <;> exact .updated .clearDeadline
  | resumeNative => exact .same
  | resumeFail => exact .same
  | resumePhase => exact .updated (.setPhase .active)

/-- **The tasks of an entry change its state in no other way than the registry does.** -/
theorem stateStep_effect {a : OpenStep} (hg : openCoordinator.guard s a) :
    StateStep s.state (openCoordinator.effect s a).state := by
  cases a with
  | own a =>
    cases a with
    | surroundings a => cases a <;> exact .same
    | request a => exact stateStep_request s a
    | acquire r => exact .same
    | load a => exact stateStep_load s a
    | activate act a => exact stateStep_activate s act a
    | pause p a =>
      obtain ⟨c, -, -, st, n, hgo, hst, -⟩ := goes_pause hg
      refine StateStep.goes hgo ?_
      rcases hst with rfl | ⟨zeros, -, rfl⟩
      · exact .same
      · exact .updated (.finishPause p.generation zeros p.clearSelection)
    | update priorities caller a =>
      obtain ⟨c, -, -, n, hgo, -⟩ := goes_update hg
      exact StateStep.goes hgo .same
    | changes baseline cs caller found =>
      obtain ⟨n, hgo, -⟩ := goes_changes
      exact StateStep.goes hgo .same
    | worker a => exact stateStep_worker s a
  | sent command | missed command => exact .same

end StateSteps

end World

/-! ### Foreground permits are counted -/

namespace Registry

/-- The generations of the foreground permits the entry has issued and not seen released. -/
def foregroundOf (s : Registry) (id : ℕ) : Multiset ℕ :=
  ((s.issuedBy id).filter fun p => p.foreground = true).map IssuedPermit.generation

/-- **The condition.**  The release of a foreground permit is handled on the entry that issued
it, or on one that has no foreground permit of that generation out. -/
def ForegroundFits (s : Registry) : RegistryStep → Prop
  | .release (.releasePlayback p) id _ _ =>
      p.foreground = true → p.issuer ≠ id → p.generation ∉ s.foregroundOf id
  | _ => True

instance (s : Registry) (a : RegistryStep) : Decidable (s.ForegroundFits a) := by
  unfold ForegroundFits
  split <;> infer_instance

/-- Every entry, registered or not, counts the foreground permits it has out. -/
structure ForegroundCounted (s : Registry) : Prop where
  entries : ∀ infoHash id, s.entries infoHash = some id → id < s.states.length
  holders : ∀ x ∈ s.holders, x.2 < s.states.length
  permits : ∀ p ∈ s.unreleased, p.issuer < s.states.length
  worker : ∀ c id, s.worker = some (c, id) → id < s.states.length
  counted : ∀ id, s.foregroundOf id ≤ (s.state id).foregroundPermits

section Invariant

variable {s t : Registry}

theorem foregroundOf_congr (h : t.unreleased = s.unreleased) (id : ℕ) :
    t.foregroundOf id = s.foregroundOf id := by
  rw [foregroundOf, issuedBy, h, foregroundOf, issuedBy]

theorem ForegroundCounted.foregroundOf_eq_zero (h : s.ForegroundCounted) {id : ℕ}
    (hid : s.states.length ≤ id) : s.foregroundOf id = 0 := by
  have hnone : s.issuedBy id = 0 := by
    refine Multiset.filter_eq_nil.mpr fun q hq heq => ?_
    have hlt := h.permits q hq
    omega
  rw [foregroundOf, hnone]
  rfl

theorem entry_lt (h : s.ForegroundCounted) (infoHash : String) :
    s.entry infoHash < (s.lookedUp infoHash).states.length := by
  rcases entries_lookedUp (entries_entry (s := s) infoHash) with hold | ⟨-, heq, hstates⟩
  · exact lt_of_lt_of_le (h.entries _ _ hold) (length_lookedUp infoHash)
  · rw [heq, hstates]
    simp

/-- Looking up an entry, by whomever. -/
theorem ForegroundCounted.lookedUp (h : s.ForegroundCounted) (infoHash : String)
    (hstates : t.states = (s.lookedUp infoHash).states)
    (hentries : t.entries = (s.lookedUp infoHash).entries)
    (hholders : ∀ x ∈ t.holders, x ∈ s.holders ∨ x.2 = s.entry infoHash)
    (hpermits : t.unreleased = s.unreleased)
    (hworker : ∀ c id, t.worker = some (c, id) →
      s.worker = some (c, id) ∨ id = s.entry infoHash) : t.ForegroundCounted := by
  have hle : s.states.length ≤ t.states.length := by
    rw [hstates]
    exact length_lookedUp infoHash
  have hentry : s.entry infoHash < t.states.length := by
    rw [hstates]
    exact entry_lt h infoHash
  constructor
  · intro infoHash' id he
    rw [hentries] at he
    rcases entries_lookedUp he with hold | ⟨-, rfl, hnew⟩
    · exact lt_of_lt_of_le (h.entries _ _ hold) hle
    · rw [hstates, hnew]
      simp
  · intro x hx
    rcases hholders x hx with hold | heq
    · exact lt_of_lt_of_le (h.holders x hold) hle
    · rwa [heq]
  · intro p hp
    rw [hpermits] at hp
    exact lt_of_lt_of_le (h.permits p hp) hle
  · intro c id hw
    rcases hworker c id hw with hold | heq
    · exact lt_of_lt_of_le (h.worker c id hold) hle
    · rwa [heq]
  · intro id
    rw [foregroundOf_congr hpermits]
    rcases Nat.lt_or_ge id s.states.length with hlt | hge
    · rw [state, hstates, ← state, state_lookedUp hlt]
      exact h.counted id
    · rw [h.foregroundOf_eq_zero hge]
      exact Multiset.zero_le _

/-- A step that makes no entry, and after which the entries are held by no one else. -/
theorem ForegroundCounted.next (h : s.ForegroundCounted)
    (hstates : t.states.length = s.states.length)
    (hentries : ∀ infoHash id, t.entries infoHash = some id → s.entries infoHash = some id)
    (hholders : ∀ x ∈ t.holders, x ∈ s.holders)
    (hpermits : ∀ p ∈ t.unreleased, p ∈ s.unreleased ∨ p.issuer < s.states.length)
    (hworker : ∀ c id, t.worker = some (c, id) → s.worker = some (c, id))
    (hcounted : ∀ id, t.foregroundOf id ≤ (t.state id).foregroundPermits) :
    t.ForegroundCounted := by
  constructor
  · intro infoHash id he
    rw [hstates]
    exact h.entries infoHash id (hentries infoHash id he)
  · intro x hx
    rw [hstates]
    exact h.holders x (hholders x hx)
  · intro p hp
    rw [hstates]
    exact (hpermits p hp).elim (h.permits p) id
  · intro c id hw
    rw [hstates]
    exact h.worker c id (hworker c id hw)
  · exact hcounted

/-- A permit is issued by the entry that counts it. -/
theorem foregroundCounted_startPlayback (h : s.ForegroundCounted) {infoHash : String}
    {id now : ℕ} {seedingEnabled complete : Bool} {start : LibtorrentPlaybackStart}
    (hg : (infoHash, id) ∈ s.holders) :
    (RegistryStep.effect s
      (.startPlayback infoHash id now seedingEnabled start complete)).ForegroundCounted := by
  have hlen := h.holders _ hg
  dsimp only [RegistryStep.effect]
  split
  · exact h.next rfl (fun _ _ hx => hx) (fun x hx => List.mem_of_mem_erase hx) (fun _ => Or.inl)
      (fun _ _ hx => hx) h.counted
  · next st selection hgranted =>
    obtain ⟨-, hforeground, -⟩ := TorrentPlaybackState.startPlayback_permits _ _ hgranted
    set p : IssuedPermit :=
      { infoHash := infoHash
        issuer := id
        fileIdx := start.fileIdx
        generation := selection.generation
        streamId := start.streamId
        foreground := start.intent.isForeground } with hp
    set t : Registry :=
      { s.setState id st with
        holders := s.holders.erase (infoHash, id), permits := s.permits ++ [p] } with ht
    -- the new permit is counted by the entry that issues it, and by no other
    have hunreleased : t.unreleased = p ::ₘ s.unreleased := by
      simp only [unreleased, commands, ht, setState]
      rw [← Multiset.coe_add, Multiset.coe_singleton, add_right_comm, add_comm,
        Multiset.singleton_add]
    refine h.next (by simp [ht, setState]) (fun _ _ hx => hx)
      (fun x hx => List.mem_of_mem_erase hx) (fun q hq => ?_) (fun _ _ hx => hx) fun id' => ?_
    · rw [hunreleased, Multiset.mem_cons] at hq
      rcases hq with rfl | hq
      · exact Or.inr hlen
      · exact Or.inl hq
    · by_cases hid : id = id'
      · subst hid
        have hself : t.state id = st := state_setState_self hlen st
        have hissued : t.issuedBy id = p ::ₘ s.issuedBy id := by
          rw [issuedBy, hunreleased, Multiset.filter_cons_of_pos _ (by rw [hp]), ← issuedBy]
        rw [hself, hforeground, foregroundOf, hissued, Multiset.filter_cons]
        cases hfg : start.intent.isForeground with
        | true =>
          simp only [hp, hfg, if_true, Multiset.singleton_add, Multiset.map_cons]
          exact Multiset.cons_le_cons _ (h.counted id)
        | false =>
          simp only [hp, hfg, Bool.false_eq_true, if_false, zero_add]
          exact h.counted id
      · have hother : t.state id' = s.state id' := state_setState_ne hid st
        have hissued : t.issuedBy id' = s.issuedBy id' := by
          rw [issuedBy, hunreleased, Multiset.filter_cons_of_neg _ (by rw [hp]; exact hid),
            ← issuedBy]
        rw [hother, foregroundOf, hissued]
        exact h.counted id'

/-- A command is handled on an entry that has issued the permit, or that has no permit like
it out. -/
theorem foregroundCounted_release (h : s.ForegroundCounted) {c : ReleaseCommand} {id now : ℕ}
    {order : IterationOrder} (hw : s.worker = some (c, id))
    (hc : s.ForegroundFits (.release c id now order)) :
    (RegistryStep.effect s (.release c id now order)).ForegroundCounted := by
  have hlen := h.worker c id hw
  obtain ⟨hp, -⟩ := unreleased_release now order hw
  set t := RegistryStep.effect s (.release c id now order) with ht
  have hself : t.state id = c.apply order now (s.state id) := state_setState_self hlen _
  -- whoever issued the permit, nobody has more of them unreleased than before
  have hle : ∀ id', t.foregroundOf id' ≤ s.foregroundOf id' := by
    intro id'
    rw [foregroundOf, issuedBy, foregroundOf, issuedBy, hp]
    refine Multiset.map_le_map (Multiset.filter_le_filter _ (Multiset.filter_le_filter _ ?_))
    exact Multiset.le_add_left _ _
  refine h.next (by simp [ht, RegistryStep.effect, setState]) (fun _ _ hx => hx) (fun _ hx => hx)
    (fun q hq => Or.inl ?_) (by rintro _ _ ⟨⟩) fun id' => ?_
  · rw [hp]
    exact Multiset.mem_add.mpr (Or.inr hq)
  · by_cases hid : id = id'
    · subst hid
      have htables := apply_permits order now (s.state id) c
      rw [hself]
      cases c with
      | releaseMetadata p =>
        rw [htables.2.1]
        exact (hle id).trans (h.counted id)
      | releasePlayback p =>
        rw [htables.2.1]
        cases hfg : p.foreground with
        | false => exact (hle id).trans (h.counted id)
        | true =>
          rw [if_pos rfl]
          by_cases hown : p.issuer = id
          · -- the count of the permit itself is taken
            have hissued : s.issuedBy id = p ::ₘ t.issuedBy id := by
              rw [issuedBy, hp, ReleaseCommand.playback?, Option.toList_some,
                Multiset.coe_singleton, Multiset.singleton_add]
              exact Multiset.filter_cons_of_pos
                (p := fun p : IssuedPermit => p.issuer = id) _ hown
            have hcons : s.foregroundOf id = p.generation ::ₘ t.foregroundOf id := by
              rw [foregroundOf, hissued,
                Multiset.filter_cons_of_pos (p := fun p : IssuedPermit => p.foreground = true) _ hfg,
                Multiset.map_cons, ← foregroundOf]
            have herase := Multiset.erase_le_erase p.generation (h.counted id)
            rwa [hcons, Multiset.erase_cons_head] at herase
          · -- the entry has no permit of that generation to lose
            have herase := Multiset.erase_le_erase p.generation (h.counted id)
            rw [Multiset.erase_of_notMem (hc hfg hown)] at herase
            exact (hle id).trans herase
    · have hother : t.state id' = s.state id' := state_setState_ne hid _
      rw [hother]
      exact (hle id').trans (h.counted id')

/-- **A step that meets the condition keeps foreground permits counted.** -/
theorem foregroundCounted_step {a : RegistryStep} (h : s.ForegroundCounted)
    (hg : registry.guard s a) (hc : s.ForegroundFits a) :
    (registry.effect s a).ForegroundCounted := by
  -- entries that keep their foreground permits
  have hkeeps : ∀ {id : ℕ} {st : TorrentPlaybackState}, id < s.states.length →
      st.foregroundPermits = (s.state id).foregroundPermits →
        ∀ id', ((s.setState id st).state id').foregroundPermits =
          (s.state id').foregroundPermits := by
    intro id st hlen hst id'
    by_cases hid : id = id'
    · rw [← hid, state_setState_self hlen, hst]
    · rw [state_setState_ne hid]
  cases a with
  | registerTorrent infoHash =>
    refine h.lookedUp infoHash rfl rfl (fun x hx => Or.inl ?_) ?_ fun c id hw => Or.inl ?_
    · simpa [registry, RegistryStep.effect, Registry.lookedUp, apply_ite Registry.holders] using hx
    · simp only [registry, RegistryStep.effect, Registry.lookedUp]
      split <;> rfl
    · simpa [registry, RegistryStep.effect, Registry.lookedUp, apply_ite Registry.worker] using hw
  | removeTorrent infoHash =>
    refine h.next rfl (fun infoHash' id he => ?_) (fun _ hx => hx) (fun _ => Or.inl) (fun _ _ hx => hx)
      h.counted
    dsimp only [registry, RegistryStep.effect] at he
    by_cases heq : infoHash' = infoHash
    · rw [heq, Function.update_self] at he
      cases he
    · rwa [Function.update_of_ne heq] at he
  | lookUp infoHash =>
    refine h.lookedUp infoHash rfl rfl (fun x hx => ?_) ?_ fun c id hw => Or.inl ?_
    · rcases List.mem_append.mp hx with hold | hnew
      · exact Or.inl hold
      · rw [List.mem_singleton.mp hnew]
        exact Or.inr rfl
    · simp only [registry, RegistryStep.effect, Registry.lookedUp]
      split <;> rfl
    · simpa [registry, RegistryStep.effect, Registry.lookedUp, apply_ite Registry.worker] using hw
  | startPlayback infoHash id now seedingEnabled start complete =>
    exact foregroundCounted_startPlayback h hg
  | acquireMetadata infoHash id hasMetadata =>
    refine h.next (by simp [registry, RegistryStep.effect, setState]) (fun _ _ hx => hx)
      (fun x hx => List.mem_of_mem_erase hx) (fun _ => Or.inl) (fun _ _ hx => hx) fun id' => ?_
    have hstate := hkeeps (h.holders _ hg)
      (show ((s.state id).acquireMetadata hasMetadata).foregroundPermits = _ from rfl) id'
    exact le_of_le_of_eq (h.counted id') hstate.symm
  | update id change =>
    refine h.next (by simp [registry, RegistryStep.effect, setState]) (fun _ _ hx => hx)
      (fun _ hx => hx) (fun _ => Or.inl) (fun _ _ hx => hx) fun id' => ?_
    have hstate := hkeeps hg (apply_keepsPermits change (s.state id)).2.1 id'
    exact le_of_le_of_eq (h.counted id') hstate.symm
  | dropPermit permit =>
    have hsame := unreleased_dropPermit hg
    refine h.next rfl (fun _ _ hx => hx) (fun _ hx => hx) (fun q hq => Or.inl (hsame ▸ hq)) (fun _ _ hx => hx)
      fun id => ?_
    exact (foregroundOf_congr hsame id).trans_le (h.counted id)
  | dropMetadata permit =>
    have hsame : (registry.effect s (.dropMetadata permit)).unreleased = s.unreleased := by
      simp [registry, RegistryStep.effect, unreleased, commands, List.filterMap_cons,
        ReleaseCommand.playback?]
    refine h.next rfl (fun _ _ hx => hx) (fun _ hx => hx) (fun q hq => Or.inl (hsame ▸ hq)) (fun _ _ hx => hx)
      fun id => ?_
    exact (foregroundOf_congr hsame id).trans_le (h.counted id)
  | receive command =>
    obtain ⟨hidle, hqueue⟩ := hg
    refine h.lookedUp command.infoHash rfl rfl (fun x hx => Or.inl ?_) ?_ fun c id hw => Or.inr ?_
    · simpa [registry, RegistryStep.effect, Registry.lookedUp, apply_ite Registry.holders] using hx
    · have hcommands : (registry.effect s (.receive command)).commands = s.commands := by
        rw [commands, commands, hidle]
        exact hqueue.symm
      have hpermits : (registry.effect s (.receive command)).permits = s.permits := by
        simp only [registry, RegistryStep.effect, Registry.lookedUp]
        split <;> rfl
      rw [unreleased, hcommands, hpermits, unreleased]
    · injection hw with hw
      exact (congrArg Prod.snd hw).symm
  | release command id now order => exact foregroundCounted_release h hg hc

theorem foregroundCounted_empty : empty.ForegroundCounted where
  entries := by rintro infoHash id ⟨⟩
  holders := by rintro x ⟨⟩
  permits := by rintro p ⟨⟩
  worker := by rintro c id ⟨⟩
  counted := fun _ => Multiset.zero_le _

/-- **Whoever holds a foreground permit of an entry is counted by it.** -/
theorem mem_foregroundPermits (h : registry.Reach ForegroundFits empty s) {p : IssuedPermit}
    (hp : p ∈ s.permits) (hforeground : p.foreground = true) :
    p.generation ∈ (s.state p.issuer).foregroundPermits := by
  have hcounted : s.ForegroundCounted :=
    h.invariant foregroundCounted_empty fun _ _ hi hg hc => foregroundCounted_step hi hg hc
  refine Multiset.mem_of_le (hcounted.counted p.issuer) ?_
  refine Multiset.mem_map.mpr ⟨p, Multiset.mem_filter.mpr ⟨?_, hforeground⟩, rfl⟩
  refine Multiset.mem_filter.mpr ⟨?_, rfl⟩
  rw [unreleased, Multiset.mem_add, Multiset.mem_coe]
  exact Or.inl hp

end Invariant

/-- A torrent is removed and added again; the permit of its first reader is released before
somebody plays it anew. -/
def playedAgain : List RegistryStep :=
  [.registerTorrent "magnet"] ++ startsReading 0 ++
    [.removeTorrent "magnet", .registerTorrent "magnet"] ++ dropsPermit 0 1 ++ startsReading 1 ++
    [.lookUp "magnet"]

/-- A torrent is removed and added again while its first reader holds a permit, and that
permit is released when somebody plays the torrent anew. -/
def playedThroughRemoval : List RegistryStep :=
  [.registerTorrent "magnet"] ++ startsReading 0 ++
    [.removeTorrent "magnet", .registerTorrent "magnet"] ++ startsReading 1 ++ dropsPermit 0 1 ++
    [.lookUp "magnet"]

end Registry

end StreamServer.Playback

import StreamServer.Playback.Tasks

/-!
# Generations

A generation only ever goes up, and no task under way is of a later generation than
the state.  So a task whose generation is still current has not been overtaken, and a
new generation overtakes every task, until the counter runs out.

## Main definitions

* `LockRequest.generation`, `Worker.generation` — what a task takes for current.
* `World.GenerationsBounded` — no task is ahead of the state.

## Main results

* `generationsBounded_step` — every step keeps the bound.
* `generationsBounded_of_reach` — no task is ahead of the state in any reachable state.
-/

namespace StreamServer.Playback

/-- The generation a task takes for current. -/
def LockRequest.generation : LockRequest → ℕ
  | .activate act => act.generation
  | .pause p => p.generation
  | .metadata | .reader _ | .resumeSeeding => 0

/-- The generation the worker goes by, if it goes by one. -/
def Worker.generation : Worker → ℕ
  | .entering p | .keepingActive p | .pauseFailed p => p.generation
  | .awaiting r => r.generation
  | .checkingComplete _ generation => generation
  | .idle | .ticking _ => 0

namespace World

/-- No task is ahead of the state. -/
structure GenerationsBounded (s : World) : Prop where
  max : s.state.generation ≤ maxGeneration
  inflight : ∀ r ∈ s.inflight, r.generation ≤ s.state.generation
  worker : s.worker.generation ≤ s.state.generation

section Steps

variable {s t : World} (h : s.GenerationsBounded)

include h

/-- A step of the state, with new tasks of at most its generation. -/
theorem GenerationsBounded.next (hle : s.state.generation ≤ t.state.generation)
    (hmax : t.state.generation ≤ maxGeneration)
    (hin : ∀ r ∈ t.inflight, r ∈ s.inflight ∨ r.generation ≤ t.state.generation)
    (hw : t.worker.generation ≤ t.state.generation) : t.GenerationsBounded := by
  refine ⟨hmax, fun r hr => ?_, hw⟩
  rcases hin r hr with hr | hr
  · exact (h.inflight r hr).trans hle
  · exact hr

/-- A step that keeps the generation and starts no task. -/
theorem GenerationsBounded.keep
    (hgen : t.state.generation = s.state.generation)
    (hin : t.inflight = s.inflight)
    (hw : t.worker.generation ≤ s.state.generation) :
    t.GenerationsBounded := by
  refine h.next hgen.ge ?_ (fun r hr => Or.inl ?_) ?_
  · rw [hgen]
    exact h.max
  · rwa [← hin]
  · rwa [hgen]

/-- Another task starts to wait. -/
theorem GenerationsBounded.wait (new : LockRequest)
    (hle : s.state.generation ≤ t.state.generation)
    (hmax : t.state.generation ≤ maxGeneration)
    (hnew : new.generation ≤ t.state.generation) (hin : t.inflight = s.inflight ++ [new])
    (hw : t.worker.generation ≤ t.state.generation) : t.GenerationsBounded := by
  refine h.next hle hmax (fun r hr => ?_) hw
  rw [hin, List.mem_append, List.mem_singleton] at hr
  rcases hr with hr | rfl
  · exact Or.inl hr
  · exact Or.inr hnew

/-- However the holder of the lock goes on, the bound stays. -/
theorem GenerationsBounded.goes {c : Critical} (hop : s.operation = some c)
    (hgo : s.Goes c t) : t.GenerationsBounded := by
  have hc : c.request.generation ≤ s.state.generation :=
    h.inflight c.request (by rw [inflight_of_held hop]; exact List.mem_cons_self)
  have hqueue : ∀ r ∈ s.lockQueue, r ∈ s.inflight := by
    intro r hr
    rw [inflight_of_held hop]
    exact List.mem_cons_of_mem _ hr
  -- what the worker keeps of a holder that returns is no newer than what it had before
  have hok : (c.request.returnOk s.worker).generation ≤ s.state.generation := by
    unfold LockRequest.returnOk
    split
    · exact Nat.zero_le _
    · exact h.worker
  have herr : (c.request.returnErr s.worker).generation ≤ s.state.generation := by
    unfold LockRequest.returnErr
    split
    · next p hp =>
      split
      · rwa [hp] at hc
      · exact h.worker
    · exact hok
  cases hgo with
  | moves d hd => exact h.keep rfl (inflight_move hop rfl hd rfl) h.worker
  | granted => exact h.next le_rfl h.max (fun r hr => Or.inl (hqueue r hr)) hok
  | dropped => exact h.next le_rfl h.max (fun r hr => Or.inl (hqueue r hr)) herr
  | handedOver act hact =>
    refine h.next le_rfl h.max (fun r hr => ?_) h.worker
    rw [inflight_of_free rfl] at hr
    rcases List.mem_append.mp hr with hr | hr
    · exact Or.inl (hqueue r hr)
    · rw [List.mem_singleton] at hr
      rw [hact] at hc
      subst hr
      exact Or.inr hc

theorem GenerationsBounded.update (st : TorrentPlaybackState) (n : Native)
    (hst : st.generation = s.state.generation) : (s.update st n).GenerationsBounded :=
  h.keep hst rfl h.worker

theorem generationsBounded_request {a : RequestStep} : (a.effect s).GenerationsBounded := by
  have hnext := le_nextGeneration h.max
  have hmax : nextGeneration s.state.generation ≤ maxGeneration := min_le_right _ _
  cases a with
  | loadMetadata =>
    exact h.wait .metadata le_rfl h.max (Nat.zero_le _) (inflight_wait (s := s) rfl rfl) h.worker
  -- a selection keeps the generation or takes the next one, and the task that waits has the same
  | startPlayback start complete =>
    dsimp only [RequestStep.effect]
    split
    · exact h
    · next st selection hgranted =>
      have hsel := TorrentPlaybackState.startPlayback_spec _ _ hgranted
      obtain ⟨hgen, hcases⟩ := s.state.select_generation s.now start.fileIdx
        (s.state.startPriority start complete) true false (!complete || s.seedingEnabled)
        start.intent.isForeground
      rw [← hsel] at hgen hcases
      have hle : s.state.generation ≤ selection.generation := by
        rcases hcases with heq | heq <;> rw [heq]
        exact hnext
      have hbound : selection.generation ≤ maxGeneration := by
        rcases hcases with heq | heq <;> rw [heq]
        · exact h.max
        · exact hmax
      have hst : st.generation = selection.generation := hgen
      refine h.wait (.activate (.ofStart start selection complete)) ?_ ?_ ?_
        (inflight_wait (s := s) rfl rfl) ?_
      · exact hle.trans hst.ge
      · exact hst.le.trans hbound
      · exact hst.ge
      · exact h.worker.trans (hle.trans hst.ge)
  -- the selection of HLS playback is like that of a reader
  | refreshHls fileIdx complete =>
    obtain ⟨hgen, hcases⟩ := s.state.select_generation s.now fileIdx
      (TorrentPlaybackState.hlsPriority complete) false true (!complete || s.seedingEnabled) false
    set selected := s.state.refreshHls s.now s.seedingEnabled fileIdx complete with hselected
    have hgen' : selected.1.generation = selected.2.generation := hgen
    have hcases' : selected.2.generation = s.state.generation ∨
        selected.2.generation = nextGeneration s.state.generation := hcases
    have hle : s.state.generation ≤ selected.1.generation := by
      rcases hcases' with heq | heq <;> rw [hgen', heq]
      exact hnext
    have hbound : selected.1.generation ≤ maxGeneration := by
      rcases hcases' with heq | heq <;> rw [hgen', heq]
      · exact h.max
      · exact hmax
    dsimp only [RequestStep.effect]
    split
    · exact h.wait (.activate (.ofHls fileIdx selected.2 complete)) hle hbound hgen'.ge
        (inflight_wait (s := s) rfl rfl) (h.worker.trans hle)
    · exact h.next hle hbound (fun r hr => Or.inl hr) (h.worker.trans hle)
  -- the pause that waits has the generation it has begun with
  | endHls fileIdx =>
    dsimp only [RequestStep.effect, World.endHls, TorrentPlaybackState.endHls]
    by_cases hignored : s.state.selectedFile ≠ some fileIdx ∧ s.state.hlsLastActivity = none
    · rw [if_pos hignored]
      exact h
    · rw [if_neg hignored]
      split
      · next heq => split_ifs at heq
      · exact h.next hnext hmax (fun r hr => Or.inl hr) (h.worker.trans hnext)
      · exact h.next hnext hmax (fun r hr => Or.inl hr) (h.worker.trans hnext)
      · next generation heq =>
        have hg : nextGeneration s.state.generation = generation := by
          split_ifs at heq
          exact EndHls.performPause.inj heq
        refine h.wait (.pause (newPause s.now s.state.beginPause generation .endHls)) hnext hmax
          hg.ge ?_
          (h.worker.trans hnext)
        exact inflight_wait (s := s) rfl rfl
  | finishEndHls rest =>
    refine h.keep ?_ rfl h.worker
    cases rest with
    | keepActiveForSeeding generation =>
      rcases s.state.keepActiveForSeeding_spec generation with heq | ⟨-, -, heq⟩ <;>
        simp only [RequestStep.effect, EndHlsRest.effect, heq]
    | restorePausedIdle beganIdle => rfl
  | _ => exact h.keep rfl rfl h.worker

theorem generationsBounded_load {a : LoadStep} (hg : a.guard s) :
    (a.effect s).GenerationsBounded := by
  cases a with
  | status => exact h.goes hg (.moves _ rfl)
  | statusFail =>
    have hleft := h.goes hg (.returned rfl)
    exact hleft.keep rfl rfl hleft.worker
  | permit hasMetadata isPaused =>
    have hs := h.update (s.state.acquireMetadata hasMetadata) s.native rfl
    dsimp only [LoadStep.effect]
    split
    · have hleft := hs.goes hg (.returned rfl)
      exact hleft.keep rfl rfl hleft.worker
    · exact hs.goes hg (.moves _ rfl)
  | announce isPaused =>
    have hs := h.update { s.state with metadataAnnounced := true }
      { s.native with isPaused := if isPaused then false else s.native.isPaused } rfl
    have hleft := hs.goes hg (.returned rfl)
    exact hleft.keep rfl rfl hleft.worker
  | _ => exact h.keep rfl rfl h.worker

theorem generationsBounded_pause {p : Pause} {a : PauseStep} (hg : a.guard s p) :
    (a.effect s p).GenerationsBounded := by
  obtain ⟨c, hop, -, st, n, hgo, hst, -⟩ := goes_pause hg
  refine (h.update st n ?_).goes hop hgo
  rcases hst with rfl | ⟨zeros, -, rfl⟩
  · rfl
  · unfold TorrentPlaybackState.finishPause
    split <;> rfl

/-- The worker starts to wait for the lock, or finds seeding enabled. -/
theorem GenerationsBounded.workerPause {p : Pause} (hp : p.generation ≤ s.state.generation) :
    (s.workerPause p).GenerationsBounded := by
  unfold World.workerPause
  split
  · exact h.keep rfl rfl hp
  · exact h.wait (.pause p) le_rfl h.max hp (inflight_wait (s := s) rfl rfl) hp

theorem generationsBounded_receive {command : PlaybackCommand} :
    (command.effect s).GenerationsBounded := by
  have hzero : 0 ≤ s.state.generation := Nat.zero_le _
  cases command with
  | reader command => exact h.wait (.reader command) le_rfl h.max hzero (inflight_wait (s := s) rfl rfl) hzero
  | releaseMetadata =>
    obtain ⟨deadline, heq, -⟩ := TorrentPlaybackState.scheduleIdleIfNeeded_spec
      { s.state with metadataPermits := s.state.metadataPermits - 1 } s.now
    refine h.keep ?_ rfl h.worker
    simp only [PlaybackCommand.effect, TorrentPlaybackState.releaseMetadata, World.handled, heq]
  | seedingEnabled enabled =>
    cases enabled with
    | true => exact h.wait .resumeSeeding le_rfl h.max hzero (inflight_wait (s := s) rfl rfl) hzero
    | false =>
      obtain ⟨deadline, heq, -⟩ := s.state.scheduleIdleIfNeeded_spec s.now
      refine h.keep ?_ rfl h.worker
      simp only [PlaybackCommand.effect, World.handled, heq]
  | pieceVerified piece =>
    refine h.keep rfl rfl ?_
    simp only [PlaybackCommand.effect, World.pieceVerified, World.handled]
    split
    · exact le_rfl
    · exact hzero
  | pieceInvalidated piece => exact h.keep rfl rfl h.worker

theorem generationsBounded_worker {a : WorkerStep} (hg : a.guard s) :
    (a.effect s).GenerationsBounded := by
  have hnext := le_nextGeneration h.max
  have hmax : nextGeneration s.state.generation ≤ maxGeneration := min_le_right _ _
  have hzero : 0 ≤ s.state.generation := Nat.zero_le _
  have hworker := h.worker
  cases a with
  | tick =>
    dsimp only [WorkerStep.effect]
    split
    · exact h
    · exact h.keep rfl rfl hzero
  | decide now =>
    dsimp only [WorkerStep.effect]
    rcases s.state.pauseIfDue_spec now with heq | heq | ⟨-, -, hls, heq⟩ | ⟨-, heq⟩ <;> rw [heq]
    · exact h.keep rfl rfl hzero
    · exact h.keep rfl rfl hzero
    · exact h.keep rfl rfl le_rfl
    · exact h.next hnext hmax (fun r hr => Or.inl hr) le_rfl
  | enterPause p =>
    rw [show s.worker = .entering p from hg] at hworker
    exact h.workerPause hworker
  | keepActive p =>
    refine h.keep ?_ rfl hzero
    rcases s.state.keepActiveForSeeding_spec p.generation with heq | ⟨-, -, heq⟩ <;>
      simp only [WorkerStep.effect, heq]
  -- a retry sets a deadline, and the worker has no pause any more
  | failedPause p =>
    refine h.keep ?_ rfl hzero
    dsimp only [WorkerStep.effect, TorrentPlaybackState.retryPause]
    split
    · split <;> rfl
    · split <;> rfl
  | receive command => exact generationsBounded_receive h
  | checkComplete fileIdx generation complete =>
    dsimp only [WorkerStep.effect]
    split
    · next hcond =>
      have hs := h.update { s.state with phase := .pausePending } s.native rfl
      exact hs.workerPause hcond.2.1.1.ge
    · exact h.keep rfl rfl hzero
  -- a window or a release goes by the generation and does not change it
  | reader command order =>
    obtain ⟨st, hgo, hst⟩ := goes_reader command order
    refine (h.update st s.native ?_).goes hg hgo
    rcases hst with heq | ⟨_, generation, streamId, foreground, -, rfl⟩
    · exact congrArg Attendance.generation heq
    · obtain ⟨deadline, heq, -⟩ :=
        s.state.releasePlayback_spec s.now generation order streamId foreground
      rw [heq]
      rfl
  | resumeCheck =>
    have hs := h.update { s.state with idleDeadline := none } s.native rfl
    dsimp only [WorkerStep.effect]
    split
    · exact hs.goes hg (goes_workerDone rfl rfl)
    · exact hs.goes hg (.moves _ rfl)
  | resumeNative =>
    exact (h.update s.state { s.native with isPaused := false } rfl).goes hg (.moves _ rfl)
  | resumeFail => exact h.goes hg (goes_workerDone rfl rfl)
  | resumePhase =>
    exact (h.update { s.state with phase := .active } s.native rfl).goes hg (goes_workerDone rfl rfl)

/-- **Every step keeps the bound.** -/
theorem generationsBounded_step {a : Action} (hg : a.guard s) :
    (a.effect s).GenerationsBounded := by
  cases a with
  | surroundings a => cases a <;> exact h.keep rfl rfl h.worker
  | request a => exact generationsBounded_request h
  | acquire r => exact h.keep rfl (inflight_acquire hg.1 hg.2) h.worker
  | load a => exact generationsBounded_load h hg
  | activate act a =>
    obtain ⟨hop, st, n, hgo, hst, -⟩ := goes_activate hg
    exact (h.update st n (congrArg Attendance.generation hst)).goes hop hgo
  | pause p a => exact generationsBounded_pause h hg
  | update priorities caller a =>
    obtain ⟨c, hop, -, n, hgo, -⟩ := goes_update hg
    exact (h.update s.state n rfl).goes hop hgo
  | changes baseline cs caller found =>
    obtain ⟨n, hgo, -⟩ := goes_changes
    exact (h.update s.state n rfl).goes hg hgo
  | worker a => exact generationsBounded_worker h hg

end Steps

theorem Initial.generationsBounded {s : World} (h : s.Initial) : s.GenerationsBounded := by
  refine ⟨?_, ?_, ?_⟩
  · rw [h.state]
    exact Nat.zero_le _
  · rw [inflight_of_free h.operation, h.lockQueue]
    rintro r ⟨⟩
  · rw [h.worker]
    exact Nat.zero_le _

theorem generationsBounded_of_reach {C : World → Action → Prop} {s t : World} (hs : s.Initial)
    (h : coordinator.Reach C s t) : t.GenerationsBounded :=
  h.invariant hs.generationsBounded fun _ _ hi hg _ => generationsBounded_step hi hg

end World

end StreamServer.Playback

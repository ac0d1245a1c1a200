import StreamServer.Playback.Generations

/-!
# No torrent is left running unattended

A torrent that nobody uses is paused by a later tick of the worker, provided that a
deadline is armed or the time of the last HLS activity is kept.  Every exit of every
operation has to see to that.  One exit does not: when the pause that `end_hls` has
begun fails, the deadline and the HLS activity it took off are not put back.

While seeding is enabled nothing has to be armed, because the command that turns it
off arms every torrent; that command is still in the queue if seeding has been turned
off meanwhile.

## Main definitions

* `Attendance.Watched` — there is activity, or something is armed.
* `World.SeedingOrdered` — commands about seeding are handled in order.
* `World.Supervised` — the invariant: a torrent that runs is watched, or is about to
  be paused.
* `World.LeavesWatched` — the condition on a step.

## Main results

* `supervised_step` — every step that meets the condition keeps the invariant.
* `never_unattended` — **a torrent at rest that is not paused and not used will be
  paused by a later tick.**

## References

`enginefs/src/backend/libtorrent/playback.rs`, `schedule_idle_if_needed`,
`begin_pause`, `end_hls`, `handle_command`, `pause_due_torrents`.
-/

namespace StreamServer.Playback

/-! ### Who watches the torrent -/

/-- There is activity that will end, or something armed that will end it. -/
def Attendance.Watched (a : Attendance) : Prop :=
  a.directPermits ≠ 0 ∨ a.metadataPermits ≠ 0 ∨ a.idleDeadline ≠ none ∨ a.hlsLastActivity ≠ none

instance (a : Attendance) : Decidable a.Watched := inferInstanceAs (Decidable (_ ∨ _ ∨ _ ∨ _))

/-- The attempt to pause the worker is engaged in. -/
def Worker.pausing : Worker → Option Pause
  | .entering p | .keepingActive p | .pauseFailed p | .awaiting (.pause p) => some p
  | _ => none

/-- The worker has found seeding enabled and relies on it. -/
def Worker.reliesOnSeeding : Worker → Bool
  | .keepingActive _ | .awaiting .resumeSeeding => true
  | _ => false

/-- A call of `end_hls` that will set the phase back to paused. -/
def EndHlsRest.restores : EndHlsRest → Bool
  | .restorePausedIdle _ => true
  | .keepActiveForSeeding _ => false

namespace World

/-- Seeding is enabled, or the command that it is not is still to be handled. -/
def Seeds (s : World) : Prop :=
  s.seedingEnabled = true ∨ PlaybackCommand.seedingEnabled false ∈ s.queue

/-- Someone needs the network, or the torrent seeds. -/
def Covered (s : World) : Prop := s.state.attendance.Watched ∨ s.Seeds

/-- The worker is about to pause the torrent because it is idle. -/
def PausesIdle (s : World) : Prop :=
  ∃ p ∈ s.worker.pausing, p.caller = .idle ∧ p.generation = s.state.generation

/-- A call of `end_hls` is about to pause the torrent. -/
def PausesEnded (s : World) : Prop :=
  ∃ p : Pause, .pause p ∈ s.inflight ∧ p.caller = .endHls ∧ p.generation = s.state.generation

/-- A call of `end_hls` is about to set the phase back to paused. -/
def Restores (s : World) : Prop := ∃ rest ∈ s.endings, rest.restores = true

instance (s : World) : Decidable s.Seeds := inferInstanceAs (Decidable (_ ∨ _))

instance (s : World) : Decidable s.Covered := inferInstanceAs (Decidable (_ ∨ _))

instance (s : World) : Decidable s.PausesIdle :=
  inferInstanceAs (Decidable (∃ p ∈ s.worker.pausing, _))

instance (s : World) : Decidable s.Restores :=
  inferInstanceAs (Decidable (∃ rest ∈ s.endings, _))

/-- The pause that `end_hls` has begun may fail only if somebody else sees to the
torrent. -/
def FailsWatched (s : World) (p : Pause) : Prop :=
  p.caller = .endHls → p.generation = s.state.generation →
    s.state.phase = .pausedIdle ∨ s.Covered ∨ s.PausesIdle ∨ s.Restores

instance (s : World) (p : Pause) : Decidable (s.FailsWatched p) :=
  inferInstanceAs (Decidable (_ → _ → _))

/-- **The condition.**  A pause begun by `end_hls` that fails leaves the torrent
paused, watched, or to another call; and the generations have not run out when one is
begun. -/
def LeavesWatched (s : World) : Action → Prop
  | .pause p (.fail _) => s.FailsWatched p
  | .update _ (.pause p) (.fail _) => s.FailsWatched p
  | .request (.endHls _) => s.state.generation < maxGeneration
  | _ => True

instance (s : World) (a : Action) : Decidable (s.LeavesWatched a) := by
  unfold LeavesWatched
  split <;> infer_instance

/-! ### Commands about seeding -/

/-- A command that seeding is enabled is outdated only if a later one says so, and the
worker relies on seeding only while it is enabled or has just been turned off. -/
structure SeedingOrdered (s : World) : Prop where
  queued : ∀ before after, s.queue = before ++ .seedingEnabled true :: after →
    s.seedingEnabled = true ∨ PlaybackCommand.seedingEnabled false ∈ after
  worker : s.worker.reliesOnSeeding = true → s.Seeds

section Seeding

variable {s t : World} (h : s.SeedingOrdered)

include h

/-- A step that handles no command and queues none about seeding. -/
theorem SeedingOrdered.enqueue (commands : List PlaybackCommand)
    (hqueue : t.queue = s.queue ++ commands)
    (hcommands : ∀ enabled, .seedingEnabled enabled ∉ commands)
    (hseed : t.seedingEnabled = s.seedingEnabled)
    (hw : t.worker.reliesOnSeeding = true →
      s.worker.reliesOnSeeding = true ∨ s.seedingEnabled = true) : t.SeedingOrdered := by
  constructor
  · intro before after heq
    rw [hseed]
    rw [hqueue, List.append_eq_append_iff] at heq
    rcases heq with ⟨rest, hbefore, hafter⟩ | ⟨rest, hbefore, hafter⟩
    · have hmem : PlaybackCommand.seedingEnabled true ∈ commands := by
        rw [hafter]
        simp
      exact absurd hmem (hcommands true)
    · cases rest with
      | nil =>
        rw [List.nil_append] at hafter
        exact absurd (hafter ▸ List.mem_cons_self) (hcommands true)
      | cons c rest =>
        obtain ⟨rfl, rfl⟩ := List.cons.inj hafter
        exact (h.queued before rest hbefore).imp_right (List.mem_append_left _)
  · intro hrelies
    have hseeds : s.Seeds := (hw hrelies).elim h.worker Or.inl
    rw [Seeds, hseed, hqueue]
    exact hseeds.imp_right (List.mem_append_left _)

/-- A step that handles no command and queues none. -/
theorem SeedingOrdered.keep (hqueue : t.queue = s.queue)
    (hseed : t.seedingEnabled = s.seedingEnabled)
    (hw : t.worker.reliesOnSeeding = true →
      s.worker.reliesOnSeeding = true ∨ s.seedingEnabled = true) : t.SeedingOrdered := by
  refine h.enqueue [] ?_ (by simp) hseed hw
  rw [hqueue, List.append_nil]

/-- However the holder of the lock goes on. -/
theorem SeedingOrdered.goes {c : Critical} (hgo : s.Goes c t) : t.SeedingOrdered := by
  have hok : (c.request.returnOk s.worker).reliesOnSeeding = true →
      s.worker.reliesOnSeeding = true := by
    unfold LockRequest.returnOk
    split
    · rintro ⟨⟩
    · exact id
  have herr : (c.request.returnErr s.worker).reliesOnSeeding = true →
      s.worker.reliesOnSeeding = true := by
    unfold LockRequest.returnErr
    split
    · split
      · rintro ⟨⟩
      · exact id
    · exact hok
  cases hgo with
  | moves d hd => exact h.keep rfl rfl Or.inl
  | granted => exact h.keep rfl rfl fun hw => Or.inl (hok hw)
  | dropped =>
    refine h.enqueue _ rfl ?_ rfl fun hw => Or.inl (herr hw)
    intro enabled hmem
    obtain ⟨p, -, hp⟩ := List.mem_map.mp hmem
    cases hp
  | handedOver act hact => exact h.keep rfl rfl Or.inl

/-- A command that has been handled is out of the queue; what the worker relies on
comes after it. -/
theorem SeedingOrdered.receive {command : PlaybackCommand}
    (hq : s.queue = command :: s.queue.tail)
    (hqueue : t.queue = s.queue.tail) (hseed : t.seedingEnabled = s.seedingEnabled)
    (hw : t.worker.reliesOnSeeding = true → command = .seedingEnabled true) :
    t.SeedingOrdered := by
  constructor
  · intro before after heq
    rw [hseed]
    refine h.queued (command :: before) after ?_
    rw [hq, ← hqueue, heq, List.cons_append]
  · intro hrelies
    rw [hw hrelies] at hq
    have hahead := h.queued [] s.queue.tail (by rw [List.nil_append]; exact hq)
    rwa [Seeds, hseed, hqueue]

theorem seedingOrdered_receive {command : PlaybackCommand}
    (hg : (WorkerStep.receive command).guard s) : (command.effect s).SeedingOrdered := by
  obtain ⟨hidle, hq⟩ := hg
  have hrest : ∀ {P : Prop}, s.worker.reliesOnSeeding = true → P := by
    intro P hw
    rw [hidle] at hw
    cases hw
  cases command with
  | reader command => exact h.receive hq rfl rfl (by rintro ⟨⟩)
  | releaseMetadata => exact h.receive hq rfl rfl hrest
  | seedingEnabled enabled =>
    cases enabled with
    | true => exact h.receive hq rfl rfl fun _ => rfl
    | false => exact h.receive hq rfl rfl hrest
  | pieceVerified piece =>
    refine h.receive hq rfl rfl ?_
    simp only [PlaybackCommand.effect, World.pieceVerified, World.handled]
    split <;> rintro ⟨⟩
  | pieceInvalidated piece => exact h.receive hq rfl rfl hrest

theorem seedingOrdered_request {a : RequestStep} : (a.effect s).SeedingOrdered := by
  cases a with
  | setSeedingEnabled enabled =>
    cases enabled with
    | true =>
      constructor
      · exact fun _ _ _ => Or.inl rfl
      · exact fun _ => Or.inl rfl
    | false =>
      have hlast : PlaybackCommand.seedingEnabled false ∈ s.queue ++ [.seedingEnabled false] := by
        simp
      constructor
      · intro before after heq
        right
        -- the new command is the last one, so it comes after the outdated one
        rcases List.eq_nil_or_concat' after with rfl | ⟨rest, c, rfl⟩
        · have hend := congrArg List.getLast? heq
          simp [RequestStep.effect] at hend
        · have hend := congrArg List.getLast? heq
          rw [← List.cons_append, ← List.append_assoc] at hend
          simp only [RequestStep.effect, List.getLast?_append, List.getLast?_singleton,
            Option.some_or, Option.some.injEq] at hend
          rw [← hend]
          simp
      · exact fun _ => Or.inr hlast
  | startPlayback start complete =>
    dsimp only [RequestStep.effect]
    split
    · exact h
    · exact h.keep rfl rfl Or.inl
  | refreshHls fileIdx complete =>
    dsimp only [RequestStep.effect]
    split <;> exact h.keep rfl rfl Or.inl
  | endHls fileIdx =>
    dsimp only [RequestStep.effect, World.endHls]
    split <;> exact h.keep rfl rfl Or.inl
  | replaceWindow permit assignments => exact h.enqueue _ rfl (by simp) rfl Or.inl
  | dropPermit permit => exact h.enqueue _ rfl (by simp [Permit.releaseCommand]) rfl Or.inl
  | loadMetadata => exact h.keep rfl rfl Or.inl
  | finishEndHls rest => exact h.keep rfl rfl Or.inl

theorem SeedingOrdered.workerPause {p : Pause} : (s.workerPause p).SeedingOrdered := by
  unfold World.workerPause
  split
  · next hseed => exact h.keep rfl rfl fun _ => Or.inr hseed
  · exact h.keep rfl rfl (by rintro ⟨⟩)

theorem seedingOrdered_worker {a : WorkerStep} (hg : a.guard s) :
    (a.effect s).SeedingOrdered := by
  cases a with
  | tick =>
    dsimp only [WorkerStep.effect]
    split
    · exact h
    · exact h.keep rfl rfl (by rintro ⟨⟩)
  | decide now =>
    dsimp only [WorkerStep.effect]
    split <;> exact h.keep rfl rfl (by rintro ⟨⟩)
  | enterPause p => exact h.workerPause
  | keepActive p => exact h.keep rfl rfl (by rintro ⟨⟩)
  | failedPause p => exact h.keep rfl rfl (by rintro ⟨⟩)
  | receive command => exact seedingOrdered_receive h hg
  | checkComplete fileIdx generation complete =>
    dsimp only [WorkerStep.effect]
    split
    · have hs : ({ s with state := { s.state with phase := .pausePending } } :
          World).SeedingOrdered := h.keep rfl rfl Or.inl
      exact hs.workerPause
    · exact h.keep rfl rfl (by rintro ⟨⟩)
  | reader command order =>
    obtain ⟨st, hgo, -⟩ := goes_reader command order
    have hs : (s.update st s.native).SeedingOrdered := h.keep rfl rfl Or.inl
    exact hs.goes hgo
  | resumeCheck =>
    dsimp only [WorkerStep.effect]
    split
    · exact h.keep rfl rfl (by rintro ⟨⟩)
    · exact h.keep rfl rfl Or.inl
  | resumeNative => exact h.keep rfl rfl Or.inl
  | resumeFail => exact h.keep rfl rfl (by rintro ⟨⟩)
  | resumePhase => exact h.keep rfl rfl (by rintro ⟨⟩)

/-- Every step keeps the commands about seeding in order. -/
theorem seedingOrdered_step {a : Action} (hg : a.guard s) : (a.effect s).SeedingOrdered := by
  have hupdate : ∀ st n, (s.update st n).SeedingOrdered := fun _ _ => h.keep rfl rfl Or.inl
  cases a with
  | surroundings a =>
    cases a with
    | observePieceVerified piece => exact h.enqueue _ rfl (by simp) rfl Or.inl
    | observePieceInvalidated piece => exact h.enqueue _ rfl (by simp) rfl Or.inl
    | _ => exact h.keep rfl rfl Or.inl
  | request a => exact seedingOrdered_request h
  | acquire r => exact h.keep rfl rfl Or.inl
  | load a =>
    cases a with
    | permit hasMetadata isPaused =>
      dsimp only [Action.effect, LoadStep.effect]
      split <;> exact h.keep rfl rfl Or.inl
    | record completeFromStart => exact h.enqueue [.releaseMetadata] rfl (by simp) rfl Or.inl
    | fail loader => exact h.enqueue [.releaseMetadata] rfl (by simp) rfl Or.inl
    | _ => exact h.keep rfl rfl Or.inl
  | activate act a =>
    obtain ⟨-, st, n, hgo, -⟩ := goes_activate hg
    exact (hupdate st n).goes hgo
  | pause p a =>
    obtain ⟨c, -, -, st, n, hgo, -⟩ := goes_pause hg
    exact (hupdate st n).goes hgo
  | update priorities caller a =>
    obtain ⟨c, -, -, n, hgo, -⟩ := goes_update hg
    exact (hupdate _ n).goes hgo
  | changes baseline cs caller found =>
    obtain ⟨n, hgo, -⟩ := goes_changes
    exact (hupdate _ n).goes hgo
  | worker a => exact seedingOrdered_worker h hg

end Seeding

theorem Initial.seedingOrdered {s : World} (h : s.Initial) : s.SeedingOrdered := by
  constructor
  · intro before after heq
    rw [h.queue] at heq
    simp at heq
  · rw [h.worker]
    rintro ⟨⟩

theorem seedingOrdered_of_reach {C : World → Action → Prop} {s t : World} (hs : s.Initial)
    (h : coordinator.Reach C s t) : t.SeedingOrdered :=
  h.invariant hs.seedingOrdered fun _ _ hi hg _ => seedingOrdered_step hi hg

end World

/-! ### What arms the torrent -/

namespace TorrentPlaybackState

variable (st : TorrentPlaybackState) (now : ℕ)

theorem watched_of_hasActivity (h : st.hasActivity now = true) : st.attendance.Watched := by
  simp only [hasActivity, Bool.or_eq_true, decide_eq_true_eq] at h
  rcases h with (hdirect | hmeta) | hhls
  · left
    intro hzero
    rw [activePlaybackPermits, show st.directPermits = 0 from hzero] at hdirect
    simp at hdirect
  · right
    left
    exact (Nat.pos_iff_ne_zero.mp hmeta : st.metadataPermits ≠ 0)
  · right
    right
    right
    intro hnone
    rw [hlsIsActive, show st.hlsLastActivity = none from hnone] at hhls
    cases hhls

/-- Scheduling leaves the torrent watched. -/
theorem watched_scheduleIdleIfNeeded : (st.scheduleIdleIfNeeded now).attendance.Watched := by
  obtain ⟨deadline, heq, hnone⟩ := st.scheduleIdleIfNeeded_spec now
  rw [heq]
  cases deadline with
  | none => exact watched_of_hasActivity { st with idleDeadline := none } now (hnone rfl)
  | some deadline => exact Or.inr (Or.inr (Or.inl (Option.some_ne_none deadline)))

theorem watched_releasePlayback (order : IterationOrder) (generation streamId : ℕ)
    (foreground : Bool) :
    (st.releasePlayback order now generation streamId foreground).1.attendance.Watched :=
  watched_scheduleIdleIfNeeded _ now

end TorrentPlaybackState

/-! ### The invariant -/

namespace World

/-- A torrent with a selection, or that is not paused, is watched or about to be
paused; and a file that has become complete is paused in a watched torrent. -/
structure Supervised (s : World) : Prop where
  selected : s.state.selectedFile ≠ none → s.Covered ∨ s.PausesIdle
  running : s.state.phase ≠ .pausedIdle →
    s.Covered ∨ s.PausesIdle ∨ s.PausesEnded ∨ s.Restores
  completed : ∀ p ∈ s.worker.pausing, p.caller = .completed →
    p.generation = s.state.generation → s.Covered

section Frame

variable {s t : World}

theorem Covered.supervised (h : t.Covered) : t.Supervised :=
  ⟨fun _ => Or.inl h, fun _ => Or.inl h, fun _ _ _ _ => h⟩

theorem Covered.congr (h : s.Covered) (hst : t.state.attendance = s.state.attendance)
    (hseeds : s.Seeds → t.Seeds) : t.Covered := by
  rw [Covered, hst]
  exact h.imp_right hseeds

/-- Commands that are added to the queue leave seeding as it is. -/
theorem Seeds.enqueue (h : s.Seeds) (commands : List PlaybackCommand)
    (hqueue : t.queue = s.queue ++ commands) (hseed : t.seedingEnabled = s.seedingEnabled) :
    t.Seeds := by
  rw [Seeds, hqueue, hseed]
  exact h.imp_right (List.mem_append_left _)

/-- A step that changes nothing that pausing goes by. -/
theorem Supervised.frame (h : s.Supervised)
    (hst : t.state.attendance = s.state.attendance) (hseeds : s.Seeds → t.Seeds)
    (hw : t.worker.pausing = s.worker.pausing) (hend : t.endings = s.endings)
    (hin : ∀ p : Pause, p.caller = .endHls → .pause p ∈ s.inflight → .pause p ∈ t.inflight) :
    t.Supervised := by
  have hgen : t.state.generation = s.state.generation := congrArg Attendance.generation hst
  have hcovered : s.Covered → t.Covered := fun hc => hc.congr hst hseeds
  have hidle : s.PausesIdle → t.PausesIdle := by
    rw [PausesIdle, PausesIdle, hgen, hw]
    exact id
  have hended : s.PausesEnded → t.PausesEnded := by
    rintro ⟨p, hmem, hcaller, hp⟩
    exact ⟨p, hin p hcaller hmem, hcaller, hgen ▸ hp⟩
  have hrestores : s.Restores → t.Restores := by
    rw [Restores, Restores, hend]
    exact id
  constructor
  · intro hsel
    rw [show t.state.selectedFile = s.state.selectedFile from
      congrArg Attendance.selectedFile hst] at hsel
    exact (h.selected hsel).imp hcovered hidle
  · intro hphase
    rw [show t.state.phase = s.state.phase from congrArg Attendance.phase hst] at hphase
    exact (h.running hphase).imp hcovered fun hr =>
      hr.imp hidle fun hr => hr.imp hended hrestores
  · intro p hp hcaller heq
    rw [hgen] at heq
    rw [hw] at hp
    exact hcovered (h.completed p hp hcaller heq)

/-- A step that changes at most the commands in the queue and whether seeding is on. -/
theorem Supervised.stays (h : s.Supervised) (hsame :
    (t.state.attendance, t.worker.pausing, t.endings, t.inflight) =
      (s.state.attendance, s.worker.pausing, s.endings, s.inflight))
    (hseeds : s.Seeds → t.Seeds) : t.Supervised := by
  simp only [Prod.mk.injEq] at hsame
  obtain ⟨hst, hw, hend, hin⟩ := hsame
  exact h.frame hst hseeds hw hend fun p _ hp => hin ▸ hp

/-- A step of the worker after which it is engaged in no pause, and before which it was
not engaged in pausing an idle torrent. -/
theorem Supervised.work (h : s.Supervised) (hidle : ¬ s.PausesIdle)
    (hst : t.state.attendance = s.state.attendance) (hseeds : s.Seeds → t.Seeds)
    (hw : t.worker.pausing = none) (hend : t.endings = s.endings)
    (hin : t.inflight = s.inflight) : t.Supervised := by
  have hgen : t.state.generation = s.state.generation := congrArg Attendance.generation hst
  have hcovered : s.Covered → t.Covered := fun hc => hc.congr hst hseeds
  constructor
  · intro hsel
    rw [show t.state.selectedFile = s.state.selectedFile from
      congrArg Attendance.selectedFile hst] at hsel
    exact Or.inl (hcovered ((h.selected hsel).resolve_right hidle))
  · intro hphase
    rw [show t.state.phase = s.state.phase from congrArg Attendance.phase hst] at hphase
    rcases h.running hphase with hc | hi | hended | hrest
    · exact Or.inl (hcovered hc)
    · exact absurd hi hidle
    · right; right; left
      rw [PausesEnded, hin, hgen]
      exact hended
    · right; right; right
      rw [Restores, hend]
      exact hrest
  · intro p hp
    rw [hw] at hp
    cases hp

/-- What the worker is not pausing, it does not pause because it is idle. -/
theorem not_pausesIdle (hw : ∀ p ∈ s.worker.pausing, p.caller = .completed ∨
    p.generation ≠ s.state.generation) : ¬ s.PausesIdle := by
  rintro ⟨p, hp, hcaller, hgen⟩
  rcases hw p hp with hc | hne
  · rw [hc] at hcaller
    cases hcaller
  · exact hne hgen

/-- The worker waits for the holder that is its task. -/
theorem TasksLinked.pausing_holder (hl : s.TasksLinked) {c : Critical}
    (hop : s.operation = some c) (hc : c.request.byWorker = true) :
    s.worker = .awaiting c.request := (hl.holder hop hc).1

/-- The holder leaves, and the attempt of the worker it may have been is over: the
torrent is paused then, or the attempt was overtaken. -/
theorem Supervised.leave (h : s.Supervised) (hl : s.TasksLinked) {c : Critical}
    (hop : s.operation = some c)
    (hc : ∀ p, c.request = .pause p → p.generation = s.state.generation →
      (p.caller = .idle → s.state.selectedFile = none) ∧
        (p.caller = .idle ∨ p.caller = .endHls → s.state.phase = .pausedIdle))
    (hst : t.state = s.state) (hseeds : s.Seeds → t.Seeds)
    (hw : t.worker = c.request.returnOk s.worker) (hend : t.endings = s.endings)
    (hop' : t.operation = none) (hq : ∀ r ∈ s.lockQueue, r ∈ t.lockQueue) : t.Supervised := by
  have hcovered : s.Covered → t.Covered := fun hcov =>
    hcov.congr (congrArg TorrentPlaybackState.attendance hst) hseeds
  -- unless it leaves in one of the two ways, the attempt to pause an idle torrent goes on
  have hidle : s.PausesIdle → t.PausesIdle ∨
      s.state.selectedFile = none ∧ s.state.phase = .pausedIdle := by
    rintro ⟨p, hp, hcaller, hgen⟩
    cases hby : c.request.byWorker with
    | false =>
      left
      refine ⟨p, ?_, hcaller, by rw [hst]; exact hgen⟩
      rw [hw, LockRequest.returnOk, hby]
      exact hp
    | true =>
      right
      rw [hl.pausing_holder hop hby] at hp
      have hreq : c.request = .pause p := by
        cases hr : c.request with
        | pause q =>
          rw [hr] at hp
          rw [Option.some.inj hp]
        | _ => rw [hr] at hp; cases hp
      obtain ⟨hsel, hphase⟩ := hc p hreq hgen
      exact ⟨hsel hcaller, hphase (Or.inl hcaller)⟩
  have hended : s.PausesEnded → t.PausesEnded ∨ s.state.phase = .pausedIdle := by
    rintro ⟨p, hmem, hcaller, hgen⟩
    rw [inflight_of_held hop, List.mem_cons] at hmem
    rcases hmem with hreq | hmem
    · exact Or.inr ((hc p hreq.symm hgen).2 (Or.inr hcaller))
    · left
      refine ⟨p, ?_, hcaller, by rw [hst]; exact hgen⟩
      rw [inflight_of_free hop']
      exact hq _ hmem
  constructor
  · intro hsel
    rw [hst] at hsel
    rcases h.selected hsel with hcov | hi
    · exact Or.inl (hcovered hcov)
    · rcases hidle hi with hi | ⟨hnone, -⟩
      · exact Or.inr hi
      · exact absurd hnone hsel
  · intro hphase
    rw [hst] at hphase
    rcases h.running hphase with hcov | hi | he | hr
    · exact Or.inl (hcovered hcov)
    · rcases hidle hi with hi | ⟨-, hpaused⟩
      · exact Or.inr (Or.inl hi)
      · exact absurd hpaused hphase
    · rcases hended he with he | hpaused
      · exact Or.inr (Or.inr (Or.inl he))
      · exact absurd hpaused hphase
    · right; right; right
      rw [Restores, hend]
      exact hr
  · intro p hp hcaller hgen
    rw [hst] at hgen
    rw [hw, LockRequest.returnOk] at hp
    split at hp
    · cases hp
    · exact hcovered (h.completed p hp hcaller hgen)

/-- A pause that failed stays the worker's attempt. -/
theorem Supervised.failed (h : s.Supervised) (hl : s.TasksLinked) {c : Critical} {p : Pause}
    (hop : s.operation = some c) (hc : c.request = .pause p)
    (hp : p.caller = .idle ∨ p.caller = .completed)
    (hst : t.state = s.state) (hseeds : s.Seeds → t.Seeds) (hw : t.worker = .pauseFailed p)
    (hend : t.endings = s.endings) (hop' : t.operation = none)
    (hq : t.lockQueue = s.lockQueue) : t.Supervised := by
  have hby : c.request.byWorker = true := by simp [hc, LockRequest.byWorker, hp]
  refine h.frame (congrArg TorrentPlaybackState.attendance hst) hseeds ?_ hend ?_
  · rw [hw, hl.pausing_holder hop hby, hc]
    rfl
  · intro q hcaller hmem
    rw [inflight_leave hop hop' hq, List.mem_cons, hc] at hmem
    rcases hmem with hreq | hmem
    · cases hreq
      rcases hp with hp | hp <;> rw [hp] at hcaller <;> cases hcaller
    · exact hmem

/-- However the holder of the lock goes on, the torrent stays supervised, unless it was
about to pause it and does not. -/
theorem Supervised.goes (h : s.Supervised) (hl : s.TasksLinked) {c : Critical}
    (hop : s.operation = some c)
    (hc : ∀ p, c.request = .pause p → p.generation = s.state.generation →
      (p.caller = .idle → s.state.selectedFile = none) ∧
        (p.caller = .idle ∨ p.caller = .endHls → s.state.phase = .pausedIdle))
    (hgo : s.Goes c t) : t.Supervised := by
  cases hgo with
  | moves d hd =>
    refine h.frame rfl id rfl rfl fun p _ hp => ?_
    have hsame : World.inflight { s with operation := some d } = s.inflight :=
      inflight_move hop rfl hd rfl
    rw [hsame]
    exact hp
  | granted => exact h.leave hl hop hc rfl id rfl rfl rfl fun _ => id
  | dropped =>
    by_cases hp : ∃ p, c.request = .pause p ∧ (p.caller = .idle ∨ p.caller = .completed)
    · obtain ⟨p, hreq, hcaller⟩ := hp
      refine h.failed hl hop hreq hcaller rfl (fun hs => hs.enqueue _ rfl rfl) ?_ rfl rfl rfl
      simp [hreq, LockRequest.returnErr, LockRequest.byWorker, hcaller]
    · refine h.leave hl hop hc rfl (fun hs => hs.enqueue _ rfl rfl) ?_ rfl rfl fun _ => id
      cases hreq : c.request with
      | pause p =>
        have hby : (LockRequest.pause p).byWorker = false := by
          have hcaller := fun hcaller => hp ⟨p, hreq, hcaller⟩
          simpa [LockRequest.byWorker] using hcaller
        simp [LockRequest.returnErr, LockRequest.returnOk, hby]
      | _ => rfl
  | handedOver act hact =>
    refine h.leave hl hop hc rfl id ?_ rfl rfl fun _ => List.mem_append_left _
    rw [hact]
    rfl

/-- A pause that fails leaves the torrent to the worker's next attempt, or meets the
condition. -/
theorem Supervised.pauseErr (h : s.Supervised) (hl : s.TasksLinked) {c : Critical} {p : Pause}
    (hop : s.operation = some c) (hc : c.request = .pause p) (hf : s.FailsWatched p) :
    (s.pauseErr p).Supervised := by
  cases hcaller : p.caller with
  | endHls =>
    by_cases hgen : p.generation = s.state.generation
    · have ht : s.pauseErr p = { s with operation := none } := by
        unfold World.pauseErr
        rw [hcaller]
      rw [ht]
      refine ⟨h.selected, fun hphase => ?_, h.completed⟩
      rcases hf hcaller hgen with hpaused | hcov | hi | hr
      · exact absurd hpaused hphase
      · exact Or.inl hcov
      · exact Or.inr (Or.inl hi)
      · exact Or.inr (Or.inr (Or.inr hr))
    · refine h.goes hl hop (fun q hq hgen' => ?_) (goes_pauseErr hc)
      rw [hc] at hq
      cases hq
      exact absurd hgen' hgen
  | idle =>
    refine h.failed hl hop hc (Or.inl hcaller) ?_ ?_ ?_ ?_ ?_ ?_ <;>
      simp only [World.pauseErr, hcaller]
    exact id
  | completed =>
    refine h.failed hl hop hc (Or.inr hcaller) ?_ ?_ ?_ ?_ ?_ ?_ <;>
      simp only [World.pauseErr, hcaller]
    exact id
  | activation act =>
    refine h.goes hl hop (fun q hq _ => ?_) (goes_pauseErr hc)
    rw [hc] at hq
    cases hq
    simp [hcaller]

end Frame

/-! ### Every step keeps the torrent supervised -/

section Steps

variable {s : World} (h : s.Supervised)

include h

theorem Supervised.update {st : TorrentPlaybackState} (n : Native)
    (hst : st.attendance = s.state.attendance) : (s.update st n).Supervised :=
  h.frame hst id rfl rfl fun _ _ => id

/-- The holder of the lock goes on with another native torrent. -/
theorem Supervised.moves {c d : Critical} (n : Native) (hop : s.operation = some c)
    (hd : d.request = c.request) :
    ({ s with native := n, operation := some d } : World).Supervised := by
  refine h.frame rfl id rfl rfl fun q _ hq => ?_
  have hsame : World.inflight { s with native := n, operation := some d } = s.inflight :=
    inflight_move hop rfl hd rfl
  rw [hsame]
  exact hq

theorem supervised_request {a : RequestStep} (hg : a.guard s) (hb : s.GenerationsBounded)
    (hc : s.LeavesWatched (.request a)) : (a.effect s).Supervised := by
  cases a with
  | setSeedingEnabled enabled =>
    refine h.stays rfl fun hseeds => ?_
    cases enabled with
    | true => exact Or.inl rfl
    | false => exact Or.inr (List.mem_append_right _ (List.mem_singleton_self _))
  | loadMetadata =>
    refine h.frame rfl id rfl rfl fun p _ hp => ?_
    have hwait : (RequestStep.loadMetadata.effect s).inflight = s.inflight ++ [.metadata] :=
      inflight_wait rfl rfl
    rw [hwait]
    exact List.mem_append_left _ hp
  | startPlayback start complete =>
    dsimp only [RequestStep.effect]
    split
    · exact h
    · next st selection hgranted =>
      refine Covered.supervised (Or.inl (Or.inl ?_))
      have hpermits := (TorrentPlaybackState.startPlayback_permits _ _ hgranted).1
      exact fun hzero => Multiset.cons_ne_zero (hpermits.symm.trans hzero)
  | refreshHls fileIdx complete =>
    have hhls : (s.state.refreshHls s.now s.seedingEnabled fileIdx complete).1.hlsLastActivity =
        some s.now := by
      rcases s.state.select_spec s.now fileIdx (TorrentPlaybackState.hlsPriority complete) false
        true (!complete || s.seedingEnabled) false with ⟨-, heq⟩ | ⟨-, heq⟩ <;>
        rw [TorrentPlaybackState.refreshHls, heq] <;> rfl
    have hwatched : (s.state.refreshHls s.now s.seedingEnabled fileIdx
        complete).1.attendance.Watched := by
      right; right; right
      exact fun hnone => Option.some_ne_none _ (hhls.symm.trans hnone)
    dsimp only [RequestStep.effect]
    split
    · exact Covered.supervised (Or.inl hwatched)
    · exact Covered.supervised (Or.inl hwatched)
  | endHls fileIdx =>
    -- the new generation overtakes whatever attempt the worker is engaged in
    have hfresh : ∀ p ∈ s.worker.pausing, p.generation ≠ nextGeneration s.state.generation := by
      intro p hp
      have hle : p.generation ≤ s.state.generation := by
        refine le_trans ?_ hb.worker
        cases hw : s.worker with
        | awaiting r =>
          rw [hw] at hp
          cases r with
          | pause q => exact (Option.some.inj hp ▸ le_rfl : p.generation ≤ q.generation)
          | _ => cases hp
        | _ => rw [hw] at hp; cases hp <;> exact le_rfl
      rw [nextGeneration_of_lt hc]
      omega
    dsimp only [RequestStep.effect, World.endHls, TorrentPlaybackState.endHls]
    by_cases hignored : s.state.selectedFile ≠ some fileIdx ∧ s.state.hlsLastActivity = none
    · rw [if_pos hignored]
      exact h
    · rw [if_neg hignored]
      split
      · next heq => split_ifs at heq
      · next heq =>
        have hseed : s.seedingEnabled = true := by
          by_contra hoff
          rw [if_neg hoff] at heq
          split_ifs at heq
        exact Covered.supervised (Or.inr (Or.inl hseed))
      · refine ⟨fun hsel => absurd rfl hsel, fun _ => Or.inr (Or.inr (Or.inr ?_)), ?_⟩
        · exact ⟨_, List.mem_append_right _ (List.mem_singleton_self _), rfl⟩
        · exact fun p hp _ hgen => absurd hgen (hfresh p hp)
      · next generation heq =>
        have hg : nextGeneration s.state.generation = generation := by
          split_ifs at heq
          exact EndHls.performPause.inj heq
        refine ⟨fun hsel => absurd rfl hsel, fun _ => Or.inr (Or.inr (Or.inl ?_)), ?_⟩
        · refine ⟨newPause s.now s.state.beginPause generation .endHls, ?_, rfl, hg.symm⟩
          exact mem_inflight_wait (s := s) rfl rfl
        · exact fun p hp _ hgen => absurd hgen (hfresh p hp)
  | finishEndHls rest =>
    cases rest with
    | keepActiveForSeeding generation =>
      have hrestores : s.Restores → ∃ rest ∈ s.endings.erase (.keepActiveForSeeding generation),
          rest.restores = true := by
        rintro ⟨rest, hmem, hr⟩
        refine ⟨rest, (List.mem_erase_of_ne ?_).mpr hmem, hr⟩
        rintro rfl
        cases hr
      dsimp only [RequestStep.effect, EndHlsRest.effect]
      rcases s.state.keepActiveForSeeding_spec generation with heq | ⟨-, hphase, heq⟩
      · rw [heq]
        refine ⟨h.selected, fun hp => ?_, h.completed⟩
        exact (h.running hp).imp id fun hr => hr.imp id fun hr => hr.imp id hrestores
      · rw [heq]
        refine ⟨h.selected, fun _ => ?_, h.completed⟩
        have hp : s.state.phase ≠ .pausedIdle := by
          rw [hphase]
          decide
        exact (h.running hp).imp id fun hr => hr.imp id fun hr => hr.imp id hrestores
    | restorePausedIdle beganIdle => exact ⟨h.selected, fun hp => absurd rfl hp, h.completed⟩
  | replaceWindow permit assignments => exact h.stays rfl fun hs => hs.enqueue _ rfl rfl
  | dropPermit permit => exact h.stays rfl fun hs => hs.enqueue _ rfl rfl

theorem supervised_load (hl : s.TasksLinked) {a : LoadStep} (hg : a.guard s) :
    (a.effect s).Supervised := by
  cases a with
  | status => exact h.goes hl hg (by rintro p ⟨⟩) (.moves _ rfl)
  | statusFail =>
    have hleft := h.goes hl hg (by rintro p ⟨⟩) (.returned rfl)
    exact hleft.stays rfl id
  | permit hasMetadata isPaused =>
    have hpermits : (s.state.acquireMetadata hasMetadata).metadataPermits ≠ 0 := Nat.succ_ne_zero _
    dsimp only [LoadStep.effect]
    split
    · exact Covered.supervised (Or.inl (Or.inr (Or.inl hpermits)))
    · exact Covered.supervised (Or.inl (Or.inr (Or.inl hpermits)))
  | announce isPaused =>
    have hleft := h.goes hl hg (by rintro p ⟨⟩) (.returned rfl)
    exact hleft.stays rfl id
  | record completeFromStart => exact h.stays rfl fun hs => hs.enqueue _ rfl rfl
  | fail loader => exact h.stays rfl fun hs => hs.enqueue _ rfl rfl
  | _ => exact h.stays rfl id

theorem supervised_pause (hl : s.TasksLinked) {p : Pause} {a : PauseStep} (hg : a.guard s p)
    (hc : s.LeavesWatched (.pause p a)) : (a.effect s p).Supervised := by
  -- a pause that finds its generation overtaken was not what supervised the torrent
  have hstale : ∀ {c : Critical}, s.operation = some c → c.request = .pause p →
      s.state.generation ≠ p.generation → (s.pauseOk p).Supervised := by
    intro c hop hreq hne
    refine h.goes hl hop (fun q hq hgen => ?_) (goes_pauseOk hreq)
    rw [hreq] at hq
    cases hq
    exact absurd hgen.symm hne
  cases a with
  | check =>
    dsimp only [PauseStep.effect]
    split
    · exact h.moves s.native hg rfl
    · next hne => exact hstale hg rfl hne
  | native => exact h.moves _ hg rfl
  | confirmed =>
    dsimp only [PauseStep.effect]
    split
    · exact h.moves s.native hg.1 rfl
    · next hne => exact hstale hg.1 rfl hne
  | compare zeros =>
    dsimp only [PauseStep.effect]
    split
    · exact h.moves s.native hg rfl
    · exact h.moves s.native hg rfl
  | finish zeros applied =>
    dsimp only [PauseStep.effect, TorrentPlaybackState.finishPause]
    by_cases hgen : s.state.generation = p.generation
    · rw [if_pos hgen]
      set st : TorrentPlaybackState := { s.state with
        phase := .pausedIdle
        acknowledgedPriorities := if zeros = [] then none else some zeros
        selectedFile := if p.clearSelection then none else s.state.selectedFile
        selectedPriority := if p.clearSelection then 0 else s.state.selectedPriority } with hst
      have hs : ({ s with state := st } : World).Supervised := by
        refine ⟨fun hsel => ?_, fun hphase => absurd rfl hphase, h.completed⟩
        refine h.selected fun hnone => hsel ?_
        simp [hst, hnone]
      refine hs.goes (hl.withState st) hg (fun q hq _ => ?_) (goes_pauseOk rfl)
      cases hq
      refine ⟨fun hcaller => ?_, fun _ => rfl⟩
      simp [hst, Pause.clearSelection, hcaller]
    · rw [if_neg hgen]
      exact hstale hg rfl hgen
  | fail pc => exact h.pauseErr hl hg.1 rfl hc

theorem supervised_update (hl : s.TasksLinked) {v : List ℤ} {caller : Updater} {a : UpdateStep}
    (hg : a.guard s v caller) (hc : s.LeavesWatched (.update v caller a)) :
    (a.effect s v caller).Supervised := by
  cases caller with
  | activation act =>
    obtain ⟨c, hop, hreq, n, hgo, -⟩ := goes_update hg
    refine (h.update n rfl).goes ?_ hop (fun p hp => ?_) hgo
    · exact hl.withNative n
    · rw [hreq] at hp
      cases hp
  | pause p =>
    cases a with
    | probe =>
      dsimp only [UpdateStep.effect]
      split
      · exact h.moves s.native hg rfl
      · exact h.moves s.native hg rfl
    | submit => exact h.moves _ hg rfl
    | acknowledged => exact h.moves s.native hg.1 rfl
    | fail pc => exact h.pauseErr hl hg rfl hc

theorem supervised_receive {command : PlaybackCommand} (hg : (WorkerStep.receive command).guard s) :
    (command.effect s).Supervised := by
  obtain ⟨hidle, hq⟩ := hg
  have hnone : ¬ s.PausesIdle := not_pausesIdle (by rw [hidle]; rintro p ⟨⟩)
  -- another command leaves the one that turns seeding off in the queue
  have hseeds : command ≠ .seedingEnabled false → ∀ {t : World}, t.queue = s.queue.tail →
      t.seedingEnabled = s.seedingEnabled → s.Seeds → t.Seeds := by
    intro hne t hqueue hseed hs
    rw [Seeds, hqueue, hseed]
    refine hs.imp_right fun hmem => ?_
    rw [hq, List.mem_cons] at hmem
    exact hmem.resolve_left hne.symm
  have hwait : ∀ {r : LockRequest} {p : Pause}, .pause p ∈ s.inflight →
      LockRequest.pause p ∈ (s.handled.awaitLock r).inflight := by
    intro r p hp
    rw [show (s.handled.awaitLock r).inflight = s.inflight ++ [r] from inflight_wait (s := s) rfl rfl]
    exact List.mem_append_left _ hp
  cases command with
  | reader command =>
    refine h.frame rfl (hseeds (by rintro ⟨⟩) rfl rfl) ?_ rfl fun p _ => hwait
    rw [hidle]
    rfl
  | releaseMetadata =>
    exact Covered.supervised (Or.inl (TorrentPlaybackState.watched_scheduleIdleIfNeeded _ _))
  | seedingEnabled enabled =>
    cases enabled with
    | true =>
      refine h.frame rfl (hseeds (by rintro ⟨⟩) rfl rfl) ?_ rfl fun p _ => hwait
      rw [hidle]
      rfl
    | false =>
      exact Covered.supervised (Or.inl (TorrentPlaybackState.watched_scheduleIdleIfNeeded _ _))
  | pieceVerified piece =>
    refine h.work hnone rfl (hseeds (by rintro ⟨⟩) rfl rfl) ?_ rfl rfl
    simp only [PlaybackCommand.effect, World.pieceVerified, World.handled]
    split <;> rfl
  | pieceInvalidated piece =>
    refine h.work hnone rfl (hseeds (by rintro ⟨⟩) rfl rfl) ?_ rfl rfl
    simp only [PlaybackCommand.effect, World.handled, hidle]
    rfl

theorem supervised_worker (hl : s.TasksLinked) (ho : s.SeedingOrdered) {a : WorkerStep}
    (hg : a.guard s) : (a.effect s).Supervised := by
  cases a with
  | tick =>
    have hw : s.worker = .idle := hg
    dsimp only [WorkerStep.effect]
    split
    · exact h
    · exact h.work (not_pausesIdle (by rw [hw]; rintro p ⟨⟩)) rfl id rfl rfl rfl
  | decide now =>
    have hw : s.worker = .ticking now := hg
    have hnone : ¬ s.PausesIdle := not_pausesIdle (by rw [hw]; rintro p ⟨⟩)
    dsimp only [WorkerStep.effect]
    rcases s.state.pauseIfDue_spec now with heq | heq | ⟨-, -, hls, heq⟩ | ⟨-, heq⟩ <;> rw [heq]
    · exact h.work hnone rfl id rfl rfl rfl
    · exact Covered.supervised (Or.inl (Or.inr (Or.inr (Or.inl (Option.some_ne_none now)))))
    · -- the deadline is taken off for an attempt of the worker
      have hi : World.PausesIdle
          { s with
            state := { s.state with hlsLastActivity := hls, idleDeadline := none }
            worker := .entering (newPause now
              { s.state with hlsLastActivity := hls, idleDeadline := none } s.state.generation
              .idle) } := ⟨_, rfl, rfl, rfl⟩
      exact ⟨fun _ => Or.inr hi, fun _ => Or.inr (Or.inl hi), by rintro p ⟨⟩ ⟨⟩⟩
    · have hi : World.PausesIdle
          { s with
            state := s.state.beginPause
            worker := .entering (newPause now s.state.beginPause
              (nextGeneration s.state.generation) .idle) } := ⟨_, rfl, rfl, rfl⟩
      exact ⟨fun _ => Or.inr hi, fun _ => Or.inr (Or.inl hi), by rintro p ⟨⟩ ⟨⟩⟩
  -- a pause that waits for the lock is under way like one that holds it
  | enterPause p =>
    have hw : s.worker = .entering p := hg
    dsimp only [WorkerStep.effect, World.workerPause]
    split
    · refine h.frame rfl id ?_ rfl fun _ _ => id
      rw [hw]
      rfl
    · refine h.frame rfl id ?_ rfl fun q _ hq => ?_
      · rw [hw]
        rfl
      · rw [show (s.awaitLock (.pause p)).inflight = s.inflight ++ [.pause p] from
          inflight_wait (s := s) rfl rfl]
        exact List.mem_append_left _ hq
  | keepActive p =>
    have hw : s.worker = .keepingActive p := hg
    exact Covered.supervised (Or.inr (ho.worker (by rw [hw]; rfl)))
  -- an attempt of the current generation is retried with a new deadline, an older one is not
  | failedPause p =>
    have hw : s.worker = .pauseFailed p := hg
    have hpausing : s.worker.pausing = some p := by rw [hw]; rfl
    dsimp only [WorkerStep.effect, TorrentPlaybackState.retryPause]
    by_cases hgen : s.state.generation = p.generation
    · split
      · next hcaller =>
        have hcov := h.completed p hpausing hcaller hgen.symm
        exact Covered.supervised hcov
      · exact Covered.supervised (Or.inl (Or.inr (Or.inr (Or.inl (Option.some_ne_none _)))))
    · have hnone : ¬ s.PausesIdle := by
        refine not_pausesIdle fun q hq => Or.inr ?_
        rw [hpausing, Option.mem_some_iff] at hq
        exact hq ▸ Ne.symm hgen
      rw [if_neg hgen, if_neg hgen, ite_self]
      exact h.work hnone rfl id rfl rfl rfl
  | receive command => exact supervised_receive h hg
  -- a file is selected, so the torrent is covered before the pause and after it
  | checkComplete fileIdx generation complete =>
    have hw : s.worker = .checkingComplete fileIdx generation := hg.1
    have hnone : ¬ s.PausesIdle := not_pausesIdle (by rw [hw]; rintro p ⟨⟩)
    dsimp only [WorkerStep.effect]
    split
    · next hcond =>
      have hsel : s.state.selectedFile ≠ none := by
        rw [hcond.2.1.2]
        exact Option.some_ne_none _
      have hcov : s.Covered := (h.selected hsel).resolve_right hnone
      dsimp only [World.workerPause]
      split
      · exact Covered.supervised hcov
      · exact Covered.supervised hcov
    · exact h.work hnone rfl id rfl rfl rfl
  | reader command order =>
    obtain ⟨st, hgo, hst⟩ := goes_reader command order
    have hop : s.operation = some (.reader command) := hg
    have hs : (s.update st s.native).Supervised := by
      rcases hst with heq | ⟨_, generation, streamId, foreground, -, rfl⟩
      · exact h.update s.native heq
      · exact Covered.supervised (Or.inl (TorrentPlaybackState.watched_releasePlayback ..))
    exact hs.goes (hl.withState st) hop (by rintro p ⟨⟩) hgo
  -- the worker resumes for seeding alone, and then nothing has to be paused
  | resumeCheck =>
    have hop : s.operation = some (.resumeSeeding .check) := hg
    have hseeds : s.Seeds := ho.worker (by rw [hl.pausing_holder hop rfl]; rfl)
    dsimp only [WorkerStep.effect]
    split
    · exact Covered.supervised (Or.inr hseeds)
    · exact Covered.supervised (Or.inr hseeds)
  | resumeNative => exact h.moves _ hg rfl
  | resumeFail => exact h.goes hl hg (by rintro p ⟨⟩) (goes_workerDone rfl rfl)
  | resumePhase =>
    have hop : s.operation = some (.resumeSeeding .phase) := hg
    have hseeds : s.Seeds := ho.worker (by rw [hl.pausing_holder hop rfl]; rfl)
    exact Covered.supervised (Or.inr hseeds)

/-- **Every step that meets the condition keeps the torrent supervised.** -/
theorem supervised_step (hl : s.TasksLinked) (hb : s.GenerationsBounded)
    (ho : s.SeedingOrdered) {a : Action} (hg : a.guard s) (hc : s.LeavesWatched a) :
    (a.effect s).Supervised := by
  cases a with
  | surroundings a =>
    cases a with
    | observePieceVerified piece => exact h.stays rfl fun hs => hs.enqueue _ rfl rfl
    | observePieceInvalidated piece => exact h.stays rfl fun hs => hs.enqueue _ rfl rfl
    | _ => exact h.stays rfl id
  | request a => exact supervised_request h hg hb hc
  | acquire r =>
    refine h.frame rfl id rfl rfl fun p _ hp => ?_
    rw [inflight_acquire hg.1 hg.2]
    exact hp
  | load a => exact supervised_load h hl hg
  | activate act a =>
    obtain ⟨hop, st, n, hgo, hst, -⟩ := goes_activate hg
    refine (h.update n hst).goes ?_ hop (by rintro p ⟨⟩) hgo
    exact (hl.withState st).withNative n
  | pause p a => exact supervised_pause h hl hg hc
  | update v caller a => exact supervised_update h hl hg hc
  | changes baseline cs caller found =>
    obtain ⟨n, hgo, -⟩ := goes_changes
    refine (h.update n rfl).goes ?_ hg (fun p hp => ?_) hgo
    · exact hl.withNative n
    · cases caller <;> cases hp
  | worker a => exact supervised_worker h hl ho hg

end Steps

theorem Initial.supervised {s : World} (h : s.Initial) : s.Supervised := by
  refine ⟨fun hsel => ?_, fun hphase => ?_, ?_⟩
  · rw [h.state] at hsel
    exact absurd rfl hsel
  · rw [h.state] at hphase
    exact absurd rfl hphase
  · rw [h.worker]
    rintro p ⟨⟩

theorem supervised_of_reach {s t : World} (hs : s.Initial)
    (h : coordinator.Reach LeavesWatched s t) : t.Supervised := by
  have hknown : ∀ u, coordinator.Reach LeavesWatched s u →
      u.TasksLinked ∧ u.GenerationsBounded ∧ u.SeedingOrdered := fun u hu =>
    ⟨tasksLinked_of_reach hs hu, generationsBounded_of_reach hs hu, seedingOrdered_of_reach hs hu⟩
  exact h.invariant_of hknown hs.supervised fun u a hk hi hg hc =>
    supervised_step hi hk.1 hk.2.1 hk.2.2 hg hc

end World

/-! ### Later ticks -/

/-- A torrent that is watched though nobody uses it is due from some instant on. -/
theorem TorrentPlaybackState.due_of_watched {st : TorrentPlaybackState}
    (h : st.attendance.Watched) (hdirect : st.directPermits = 0) (hmeta : st.metadataPermits = 0)
    (hphase : st.phase ≠ .pausedIdle) :
    (st.idleDeadline ≠ none ∨ st.hlsLastActivity ≠ none) ∧
      ∃ n, ∀ now ≥ n, (st.pauseIfDue now).2.isSome := by
  have harmed : st.idleDeadline ≠ none ∨ st.hlsLastActivity ≠ none :=
    (h.resolve_left (absurd hdirect ·)).resolve_left (absurd hmeta ·)
  refine ⟨harmed, st.idleDeadline.getD 0 + st.hlsLastActivity.getD 0 + hlsActivityTtl,
    fun now hnow => ?_⟩
  have hinactive : st.hlsIsActive now = false := by
    unfold hlsIsActive
    cases hls : st.hlsLastActivity with
    | none => rfl
    | some last =>
      rw [hls, Option.getD_some] at hnow
      simp only [Option.any_some, decide_eq_false_iff_not]
      omega
  -- whichever was armed, the deadline has passed
  have hdue : (st.expireHls now).IsDue now := by
    unfold expireHls
    cases hls : st.hlsLastActivity with
    | some last =>
      rw [if_pos ⟨rfl, by rw [hinactive]; rfl⟩]
      refine ⟨?_, ⟨now, rfl, le_rfl⟩, hphase⟩
      simp [hasActivity, activePlaybackPermits, hlsIsActive, hdirect, hmeta]
    | none =>
      rw [if_neg (by simp)]
      obtain ⟨deadline, hdeadline⟩ :=
        Option.ne_none_iff_exists'.mp (harmed.resolve_right (absurd hls ·))
      rw [hdeadline, Option.getD_some] at hnow
      refine ⟨?_, ⟨deadline, hdeadline, by omega⟩, hphase⟩
      simp [hasActivity, activePlaybackPermits, hinactive, hdirect, hmeta]
  unfold pauseIfDue
  rw [if_pos hdue]
  split <;> rfl

namespace World

/-- At rest, nobody but the worker's next tick sees to the torrent. -/
theorem Supervised.watched {s : World} (h : s.Supervised) (hq : s.Quiescent)
    (hseed : s.seedingEnabled = false) (hphase : s.state.phase ≠ .pausedIdle) :
    s.state.attendance.Watched := by
  rcases h.running hphase with (hw | hseeds | hqueue) | hi | ⟨p, hp, -⟩ | ⟨rest, hrest, -⟩
  · exact hw
  · rw [hseed] at hseeds
    cases hseeds
  · rw [hq.queue] at hqueue
    cases hqueue
  · exact absurd hi (not_pausesIdle (by rw [hq.worker]; rintro p ⟨⟩))
  · rw [inflight_of_free hq.operation, hq.lockQueue] at hp
    cases hp
  · rw [hq.endings] at hrest
    cases hrest

/-- **No torrent is left running unattended.**  In every run whose steps leave the
torrent watched, whenever nothing is under way, seeding is off, nobody holds a permit and
the torrent is not paused, something is armed, and every tick from some instant on pauses
the torrent. -/
theorem never_unattended {s t : World} (hs : s.Initial)
    (h : coordinator.Reach LeavesWatched s t) (hq : t.Quiescent)
    (hseed : t.seedingEnabled = false) (hdirect : t.state.directPermits = 0)
    (hmeta : t.state.metadataPermits = 0) (hphase : t.state.phase ≠ .pausedIdle) :
    (t.state.idleDeadline ≠ none ∨ t.state.hlsLastActivity ≠ none) ∧
      ∃ n, ∀ now ≥ n, (t.state.pauseIfDue now).2.isSome :=
  TorrentPlaybackState.due_of_watched ((supervised_of_reach hs h).watched hq hseed hphase)
    hdirect hmeta hphase

/-- The reader of the first file, and the loading of the metadata before it. -/
def loadAndRead : List Action :=
  Run.load ++ [Action.worker (.receive .releaseMetadata)] ++ Run.read (Run.reader 0 1) [1, 0] ++
    [.activate (Run.reader 0 1) (.resume false)]

/-- A reader plays the first file and goes away. -/
theorem never_unattended_afterReader :
    ∃ t, coordinator.Reach LeavesWatched (registered twoFiles false) t ∧
      t.state.phase = .active ∧ ∃ n, ∀ now ≥ n, (t.state.pauseIfDue now).2.isSome := by
  obtain ⟨t, ht, hq, hseed, hdirect, hmeta, hphase⟩ :
      ∃ t, coordinator.Reach LeavesWatched (registered twoFiles false) t ∧
        (t.Quiescent ∧ t.seedingEnabled = false ∧ t.state.directPermits = 0 ∧
          t.state.metadataPermits = 0 ∧ t.state.phase = .active) :=
    GuardedSystem.exists_reach_of_exec (loadAndRead ++ Run.leave (Run.reader 0 1)) (by decide)
  have hinit : (registered twoFiles false).Initial := registered_initial rfl rfl false
  have hrunning : t.state.phase ≠ .pausedIdle := by
    rw [hphase]
    decide
  exact ⟨t, ht, hphase, (never_unattended hinit ht hq hseed hdirect hmeta hrunning).2⟩

/-- The player of the first file says it is done, and the pause is not confirmed in time:
the torrent goes on downloading, and nothing is armed to stop it. -/
theorem failedEndHls_leavesUnattended :
    ∃ s, s.Initial ∧ ∃ t, coordinator.Reach GuardedSystem.anyStep s t ∧
      (t.Quiescent ∧ t.seedingEnabled = false ∧ t.state.directPermits = 0 ∧
        t.state.metadataPermits = 0 ∧ t.state.phase = .pausePending ∧
        t.native.isPaused = false ∧ t.state.idleDeadline = none ∧
        t.state.hlsLastActivity = none) :=
  let pause : Pause := ⟨2, .endHls, true⟩
  ⟨registered twoFiles false, registered_initial rfl rfl false,
    GuardedSystem.exists_reach_of_exec
      (loadAndRead ++ Run.leave (Run.reader 0 1) ++
        [.request (.endHls 0), .acquire (.pause pause), .pause pause .check,
          .pause pause (.fail .native)])
      (by decide)⟩

end World

end StreamServer.Playback

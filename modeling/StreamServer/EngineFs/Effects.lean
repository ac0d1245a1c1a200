import StreamServer.EngineFs.Steps

/-!
# What a stretch leaves alone

Most stretches look something up and go on.  For each map there are a few that write it; for
the others the lemmas of this module say that they leave it as it is.

## Main results

* `Instr.frame_run` — what a stretch leaves alone.
* `run_engines`, `run_session`, `run_activeStreams`, `run_activeFileStreams`, `run_streams`,
  `run_selections`, `run_leases`, `run_idlePaused` — the same, for each map.
-/

namespace StreamServer.EngineFs

/-! ### Single changes -/

namespace Shared

variable (s : Shared) (h : String) (a : ℕ) (f : Engine → Engine) (g : Torrent → Torrent)

@[simp] theorem update_engines : (s.update a f).engines = s.engines := rfl

@[simp] theorem touch_engines : (s.touch a).engines = s.engines := rfl

@[simp] theorem setTorrent_engines : (s.setTorrent h g).engines = s.engines := rfl

@[simp] theorem update_session : (s.update a f).session = s.session := rfl

@[simp] theorem touch_session : (s.touch a).session = s.session := rfl

@[simp] theorem update_activeStreams : (s.update a f).activeStreams = s.activeStreams := rfl

@[simp] theorem touch_activeStreams : (s.touch a).activeStreams = s.activeStreams := rfl

@[simp] theorem setTorrent_activeStreams : (s.setTorrent h g).activeStreams = s.activeStreams := rfl

@[simp] theorem update_activeFileStreams : (s.update a f).activeFileStreams = s.activeFileStreams := rfl

@[simp] theorem touch_activeFileStreams : (s.touch a).activeFileStreams = s.activeFileStreams := rfl

@[simp] theorem setTorrent_activeFileStreams : (s.setTorrent h g).activeFileStreams = s.activeFileStreams := rfl

@[simp] theorem update_streams : (s.update a f).streams = s.streams := rfl

@[simp] theorem touch_streams : (s.touch a).streams = s.streams := rfl

@[simp] theorem setTorrent_streams : (s.setTorrent h g).streams = s.streams := rfl

@[simp] theorem update_selections : (s.update a f).selections = s.selections := rfl

@[simp] theorem touch_selections : (s.touch a).selections = s.selections := rfl

@[simp] theorem setTorrent_selections : (s.setTorrent h g).selections = s.selections := rfl

@[simp] theorem update_leases : (s.update a f).leases = s.leases := rfl

@[simp] theorem touch_leases : (s.touch a).leases = s.leases := rfl

@[simp] theorem setTorrent_leases : (s.setTorrent h g).leases = s.leases := rfl

@[simp] theorem update_now : (s.update a f).now = s.now := rfl

@[simp] theorem touch_now : (s.touch a).now = s.now := rfl

@[simp] theorem setTorrent_now : (s.setTorrent h g).now = s.now := rfl

@[simp] theorem update_priorityGeneration : (s.update a f).priorityGeneration = s.priorityGeneration := rfl

@[simp] theorem update_native : (s.update a f).native = s.native := rfl

@[simp] theorem touch_native : (s.touch a).native = s.native := rfl

@[simp] theorem setTorrent_native : (s.setTorrent h g).native = s.native := rfl

@[simp] theorem update_newStream : (s.update a f).newStream = s.newStream := rfl

@[simp] theorem touch_newStream : (s.touch a).newStream = s.newStream := rfl

@[simp] theorem setTorrent_newStream : (s.setTorrent h g).newStream = s.newStream := rfl

@[simp] theorem touch_priorityGeneration : (s.touch a).priorityGeneration = s.priorityGeneration := rfl

@[simp] theorem setTorrent_priorityGeneration : (s.setTorrent h g).priorityGeneration = s.priorityGeneration := rfl

theorem setTorrent_session : (s.setTorrent h g).session = Function.update s.session h ((s.session h).map g) :=
  rfl

/-- The torrents of the session stay in it. -/
@[simp] theorem setTorrent_isSome (h' : String) :
    ((s.setTorrent h g).session h').isSome = (s.session h').isSome := by
  rw [setTorrent_session]
  rcases eq_or_ne h' h with rfl | hne
  · rw [Function.update_self, Option.isSome_map]
  · rw [Function.update_of_ne hne]

/-- The engine that is found is touched and handed out, and nothing else happens. -/
theorem getEngine_same {α : Type} (p : Shared → α)
    (hp : ∀ a t, p { s.touch a with handedOut := t } = p s) : p (s.getEngine h) = p s := by
  unfold getEngine
  split
  · rfl
  · exact hp _ _

@[simp] theorem getEngine_engines : (s.getEngine h).engines = s.engines :=
  s.getEngine_same h (·.engines) fun _ _ => rfl

@[simp] theorem getEngine_session : (s.getEngine h).session = s.session :=
  s.getEngine_same h (·.session) fun _ _ => rfl

@[simp] theorem getEngine_activeStreams : (s.getEngine h).activeStreams = s.activeStreams :=
  s.getEngine_same h (·.activeStreams) fun _ _ => rfl

@[simp] theorem getEngine_activeFileStreams : (s.getEngine h).activeFileStreams = s.activeFileStreams :=
  s.getEngine_same h (·.activeFileStreams) fun _ _ => rfl

@[simp] theorem getEngine_streams : (s.getEngine h).streams = s.streams :=
  s.getEngine_same h (·.streams) fun _ _ => rfl

@[simp] theorem getEngine_selections : (s.getEngine h).selections = s.selections :=
  s.getEngine_same h (·.selections) fun _ _ => rfl

@[simp] theorem getEngine_leases : (s.getEngine h).leases = s.leases :=
  s.getEngine_same h (·.leases) fun _ _ => rfl

@[simp] theorem getEngine_now : (s.getEngine h).now = s.now :=
  s.getEngine_same h (·.now) fun _ _ => rfl

@[simp] theorem getEngine_native : (s.getEngine h).native = s.native :=
  s.getEngine_same h (·.native) fun _ _ => rfl

@[simp] theorem getEngine_newStream : (s.getEngine h).newStream = s.newStream :=
  s.getEngine_same h (·.newStream) fun _ _ => rfl

@[simp] theorem getEngine_generation : (s.getEngine h).priorityGeneration = s.priorityGeneration :=
  s.getEngine_same h (·.priorityGeneration) fun _ _ => rfl

@[simp] theorem getEngine_engine (h' : String) : (s.getEngine h).engine h' = s.engine h' := by
  rw [engine, getEngine_engines, engine]

/-- Only the time of the last access changes. -/
@[simp] theorem getEngine_idlePaused (a : ℕ) :
    ((s.getEngine h).arena a).idlePaused = (s.arena a).idlePaused := by
  unfold getEngine
  split
  · rfl
  · next a' _ =>
    show (Function.update s.arena a' _ a).idlePaused = _
    rcases eq_or_ne a a' with rfl | hne
    · rw [Function.update_self]
    · rw [Function.update_of_ne hne]

@[simp] theorem touch_idlePaused (a' : ℕ) :
    ((s.touch a).arena a').idlePaused = (s.arena a').idlePaused := by
  show (Function.update s.arena a _ a').idlePaused = _
  rcases eq_or_ne a' a with rfl | hne
  · rw [Function.update_self]
  · rw [Function.update_of_ne hne]

end Shared

/-! ### The map of engines -/

theorem lookup_filter (p : String → Bool) (h : String) (entries : List (String × ℕ)) :
    (entries.filter fun entry => p entry.1).lookup h = if p h then entries.lookup h else none := by
  induction entries with
  | nil => simp
  | cons entry entries ih =>
    obtain ⟨h', a⟩ := entry
    by_cases heq : h = h'
    · subst heq
      cases hp : p h with
      | false => simpa [hp] using ih
      | true => simp [hp]
    · have hlook : ((h', a) :: entries).lookup h = entries.lookup h := by
        rw [List.lookup_cons, beq_eq_false_iff_ne.mpr heq]
      rw [hlook, ← ih, List.filter_cons]
      split
      · rw [List.lookup_cons, beq_eq_false_iff_ne.mpr heq]
      · rfl

/-! ### Checks and loops -/

namespace Instr

theorem finishChecks_shared (s : Shared) (h : String) (now : ℕ) (busy : Bool) (goal : Goal) :
    (finishChecks s h now busy goal).shared = s := by
  unfold finishChecks
  repeat' split
  all_goals rfl

@[simp] theorem runCheck_shared (s : Shared) (checks : List Check) (h : String) (now : ℕ)
    (busy : Bool) (goal : Goal) : (runCheck s checks h now busy goal).shared = s := by
  unfold runCheck
  dsimp only
  repeat' split
  all_goals first | rfl | exact finishChecks_shared ..

/-- The lock is given back in the end. -/
theorem runScanNext_shared (s : Shared) (todo : List String) (now : ℕ) (removing : List String) :
    ∃ n, (runScanNext s todo now removing).shared = { s with engineReaders := n } := by
  unfold runScanNext
  repeat' split
  all_goals exact ⟨_, rfl⟩

theorem runIdleNext_shared (s : Shared) (todo : List String) (now : ℕ) :
    ∃ n, (runIdleNext s todo now).shared = { s with engineReaders := n } := by
  unfold runIdleNext
  repeat' split
  all_goals exact ⟨_, rfl⟩

theorem runResumeNext_shared (s : Shared) (todo : List String) :
    (∃ n, (runResumeNext s todo).shared = { s with engineReaders := n }) ∨
      ∃ a, (runResumeNext s todo).shared = s.update a fun engine => { engine with idlePaused := false } := by
  unfold runResumeNext
  repeat' split
  all_goals first
    | exact Or.inl ⟨_, rfl⟩
    | exact Or.inr ⟨_, rfl⟩

/-! ### Who writes what -/

/-- The stretch writes the map of engines. -/
def writesEngines : Instr → Bool
  | .insertEngine _ | .removeEngine _ | .removeEngines _ => true
  | _ => false

/-- The stretch writes the counts of the streams on torrents. -/
def writesActiveStreams : Instr → Bool
  | .countStream _ | .endStream _ => true
  | _ => false

/-- The stretch writes the counts of the streams on files. -/
def writesActiveFileStreams : Instr → Bool
  | .countFile _ | .endFile _ _ | .retainStreams _ _ => true
  | _ => false

/-- The stretch writes what has been started. -/
def writesStreams : Instr → Bool
  | .countFile _ | .dropGuard _ => true
  | _ => false

/-- The stretch writes the selections. -/
def writesSelections : Instr → Bool
  | .select _ _ _ | .clearSelection _ _ _ => true
  | _ => false

/-- The stretch writes the leases. -/
def writesLeases : Instr → Bool
  | .retainLeases _ _ | .refreshLease _ _ _ _ _ | .endHls _ _ | .expireLeases _ => true
  | _ => false

/-- The stretch writes the session. -/
def writesSession : Instr → Bool
  | .addTorrent _ | .removeBackend _ | .resumeTorrent _ _ | .resumeSeeding _ _ | .pauseTorrent _ _
  | .reconcileFiles _ _ => true
  | _ => false

/-- The stretch writes the flags of pauses. -/
def writesIdlePaused : Instr → Bool
  | .insertEngine _ | .clearIdle _ | .pauseStats _ _ _ | .unpaused _ | .resumeNext _
  | .pausedAgain _ => true
  | _ => false

/-- The stretch writes the generation of priorities. -/
def writesGeneration : Instr → Bool
  | .multifileCount _ _ _ => true
  | _ => false

/-- What a stretch leaves as it is: the maps it does not write. -/
structure Frame (k : Instr) (s s' : Shared) : Prop where
  engines : k.writesEngines = false → s'.engines = s.engines
  activeStreams : k.writesActiveStreams = false → s'.activeStreams = s.activeStreams
  activeFileStreams : k.writesActiveFileStreams = false → s'.activeFileStreams = s.activeFileStreams
  streams : k.writesStreams = false → s'.streams = s.streams
  selections : k.writesSelections = false → s'.selections = s.selections
  leases : k.writesLeases = false → s'.leases = s.leases
  session : k.writesSession = false → s'.session = s.session
  idlePaused : k.writesIdlePaused = false → ∀ a, (s'.arena a).idlePaused = (s.arena a).idlePaused
  generation : k.writesGeneration = false → s'.priorityGeneration = s.priorityGeneration
  native : s'.native = s.native
  newStream : s'.newStream = s.newStream

namespace Frame

variable {k : Instr} {s s' : Shared}

theorem refl : Frame k s s := by
  constructor <;> intros <;> rfl

theorem touch (a : ℕ) : Frame k s (s.touch a) := by
  constructor <;> intros <;> first | rfl | exact s.touch_idlePaused a _

theorem getEngine (h : String) : Frame k s (s.getEngine h) := by
  constructor <;> intros <;> simp

/-- A change of what is not mapped. -/
theorem change (hframe : Frame k s s') (t : Option (String × ℕ)) (n : ℕ) :
    Frame k s { s' with activeFile := t, engineReaders := n } := by
  obtain ⟨_, _, _, _, _, _, _, _, _, _, _⟩ := hframe
  constructor <;> assumption

end Frame

variable {k : Instr} (s : Shared) (b : Answer)

/-- **What a stretch leaves alone.** -/
theorem frame_run : Frame k s (k.run s b).shared := by
  cases k with
  | check checks h now busy goal =>
    rw [run, runCheck_shared]
    exact .refl
  | scanNext todo now removing =>
    obtain ⟨n, hn⟩ := runScanNext_shared s todo now removing
    rw [run, hn]
    exact Frame.refl.change _ n
  | idleNext todo now =>
    obtain ⟨n, hn⟩ := runIdleNext_shared s todo now
    rw [run, hn]
    exact Frame.refl.change _ n
  | resumeNext todo =>
    rw [run]
    rcases runResumeNext_shared s todo with ⟨n, hn⟩ | ⟨a, ha⟩
    · rw [hn]
      exact Frame.refl.change _ n
    · rw [ha]
      constructor <;> intros <;> first | rfl | contradiction
  | _ =>
    dsimp only [run, runResumeSeeding, runInsertEngine, runStartStream, runActivateFile, runActivateCount, runResumeTorrent,
      runActivateForPlayback, runActivateMultifile, runMultifileCount, runReconcile, runRefreshLease,
      runEndHlsEngine, runEndEngine, runScheduleCleanup, runClearFile, runClearSelection, runClearActive,
      runPauseStats, runPauseTorrent, runExpireLeases, runValidate, goOn, stop]
    (repeat' split) <;> first
      | exact .refl
      | exact .touch _
      | exact .getEngine _
      | exact .change .refl _ _
      | (constructor <;> intros <;> first | rfl | contradiction | simp)

theorem run_engines (h : k.writesEngines = false) : (k.run s b).shared.engines = s.engines :=
  (frame_run s b).engines h

theorem run_activeStreams (h : k.writesActiveStreams = false) : (k.run s b).shared.activeStreams = s.activeStreams :=
  (frame_run s b).activeStreams h

theorem run_activeFileStreams (h : k.writesActiveFileStreams = false) : (k.run s b).shared.activeFileStreams = s.activeFileStreams :=
  (frame_run s b).activeFileStreams h

theorem run_streams (h : k.writesStreams = false) : (k.run s b).shared.streams = s.streams :=
  (frame_run s b).streams h

theorem run_selections (h : k.writesSelections = false) : (k.run s b).shared.selections = s.selections :=
  (frame_run s b).selections h

theorem run_leases (h : k.writesLeases = false) : (k.run s b).shared.leases = s.leases :=
  (frame_run s b).leases h

theorem run_session (h : k.writesSession = false) : (k.run s b).shared.session = s.session :=
  (frame_run s b).session h

theorem run_idlePaused (h : k.writesIdlePaused = false) (a : ℕ) :
    ((k.run s b).shared.arena a).idlePaused = (s.arena a).idlePaused :=
  (frame_run s b).idlePaused h a

theorem run_generation (h : k.writesGeneration = false) :
    (k.run s b).shared.priorityGeneration = s.priorityGeneration :=
  (frame_run s b).generation h

/-- The backend stays the same. -/
theorem run_native : (k.run s b).shared.native = s.native :=
  (frame_run s b).native

/-- Streams get their numbers from calls. -/
theorem run_newStream : (k.run s b).shared.newStream = s.newStream :=
  (frame_run s b).newStream

end Instr

end StreamServer.EngineFs

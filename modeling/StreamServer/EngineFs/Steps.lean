import StreamServer.EngineFs.State
import StreamServer.Lib.TaskSystem

/-!
# The tasks of the registry

Requests, delayed cleanups, delayed pauses, the resumes when seeding is turned on and the loop of the
registry are tasks.  A
constructor of `Instr` is a stretch of a task between two places where it waits: it takes a
lock, or gets the answer of the backend, and runs on from there.  A stretch that calls an
asynchronous function has the stretches of this function put on the stack.

What does not change the registry is left out: what is logged, the trackers, how the backend
sets priorities.  The loops over engines take one step for each engine, so that other tasks
can run in more places than in the program.

## Main definitions

* `Cause`, `Goal` — what a cleanup and a row of checks are for.
* `Instr` — the stretches.
* `Answer` — what the backend and the iteration over a map answer.
* `Instr.run` — what a stretch does.
* `Call` — what comes from outside.
* `engineFs` — all of it; a request may be dropped or not.
* `World.new` — the registry as it is made.

## References

`enginefs/src/lib.rs`; `server/src/routes/stream.rs`, `stream_video`;
`server/src/routes/engine.rs`, `remove_engine`, `remove_all_engines`.
-/

namespace StreamServer.EngineFs

/-- Why the selection of a file is cleared. -/
inductive Cause
  /-- A delayed cleanup, with the generation of the selection when it was scheduled. -/
  | cleanup (scheduled : Option ℕ)
  | leaseExpired
  deriving DecidableEq, Repr

/-- What a row of checks is for. -/
inductive Goal
  /-- The delayed pause of a torrent. -/
  | pause
  /-- The loop pauses idle torrents. -/
  | idle (todo : List String)
  /-- The loop looks for torrents to remove. -/
  | remove (todo removing : List String)
  deriving DecidableEq, Repr

/-- What a task does between two places where it waits, under the names of the functions. -/
inductive Instr
  -- `add_torrent`, `get_engine`, `get_or_add_engine`, `remove_engine`, `list_engines`
  | addTorrent (h : String)
  | insertEngine (h : String)
  | getEngine (h : String)
  | getOrAdd (h : String)
  | removeEngine (h : String)
  | listEngines
  -- `on_stream_start`
  | startStream (x : OpenStream)
  | countStream (x : OpenStream)
  | countFile (x : OpenStream)
  -- `activate_file`
  | activateFile (h : String) (f : ℕ)
  | activateCount (h : String) (f a : ℕ)
  | resumeTorrent (h : String) (a : ℕ)
  | clearIdle (a : ℕ)
  | setActiveFile (h : String) (f : ℕ)
  -- `activate_multifile_file`
  | activateForPlayback (h : String) (f : ℕ)
  | activateMultifile (h : String) (f : ℕ)
  | multifileCount (h : String) (f a : ℕ)
  | select (h : String) (f generation : ℕ)
  | retainLeases (h : String) (f : ℕ)
  | retainStreams (h : String) (f : ℕ)
  | multifileActive (h : String) (f a : ℕ)
  | reconcile (h : String) (wanted : Option ℕ)
  | reconcileFiles (h : String) (wanted : Option ℕ)
  -- `refresh_hls_playback`, `refresh_existing_hls_playback`, `end_hls_playback`
  | refreshHls (h : String) (f : ℕ) (existing : Bool)
  | refreshEngine (h : String) (f now : ℕ) (existing : Bool)
  | refreshLease (h : String) (f : ℕ) (a : Option ℕ) (now : ℕ) (existing : Bool)
  | endHls (h : String) (f : ℕ)
  | endHlsEngine (h : String) (f : ℕ) (removed : Bool)
  -- `on_stream_end`
  | endStream (x : OpenStream)
  | endFile (x : OpenStream) (hashLeft : Bool)
  | endEngine (x : OpenStream) (hashLeft fileLeft : Bool)
  | schedulePause (h : String)
  | scheduleCleanup (h : String) (f : ℕ)
  | scheduleGeneration (h : String) (f : ℕ)
  -- Timers
  | sleep (delay : ℕ)
  | sleepUntil (time : ℕ)
  -- Cleanups
  | clearFile (h : String) (f : ℕ) (cause : Cause)
  | clearLease (h : String) (f : ℕ) (scheduled : Option ℕ)
  | clearSelection (h : String) (f : ℕ) (cause : Cause)
  | clearActive (h : String) (f : ℕ) (selection : Option Selection)
  | clearEngine (h : String) (selection : Option Selection)
  -- Pauses
  | pauseWake (h : String)
  | check (checks : List Check) (h : String) (now : ℕ) (busy : Bool) (goal : Goal)
  | pauseEngine (h : String)
  | pauseStats (h : String) (a : ℕ) (delayed : Bool)
  | pauseTorrent (h : String) (a : ℕ)
  | unpaused (a : ℕ)
  -- The loop
  | loop
  | loopWake
  | expireLeases (now : ℕ)
  | scanLock (now : ℕ)
  | scanNext (todo : List String) (now : ℕ) (removing : List String)
  | removeEngines (hs : List String)
  | removeBackend (h : String)
  | idleStart (now : ℕ)
  | idleLock (now : ℕ)
  | idleNext (todo : List String) (now : ℕ)
  -- `set_seeding_enabled`
  | resumeAll
  | resumeNext (todo : List String)
  | resumeSeeding (h : String) (a : ℕ)
  | pausedAgain (a : ℕ)
  -- `stream_video`
  | validate (x : OpenStream) (hls : Bool)
  | makeGuard (x : OpenStream)
  | serve (x : OpenStream)
  | dropGuard (x : OpenStream)
  deriving DecidableEq, Repr

/-- What is met outside: whether the backend succeeds, what it says of the torrent, and the
order in which a map is gone through. -/
structure Answer where
  ok : Bool
  fileCount : ℕ
  hasMetadata : Bool
  order : List String
  deriving DecidableEq, Repr

/-- What a stretch leaves. -/
abbrev Outcome := TaskOutcome Shared Instr

/-- It goes on with `next`. -/
@[simp] def goOn (s : Shared) (next : List Instr) : Outcome := ⟨s, next, []⟩

/-- The function returns. -/
@[simp] def stop (s : Shared) : Outcome := ⟨s, [], []⟩

/-! ### The tasks that are started -/

/-- `schedule_torrent_pause`. -/
def pauseTask (h : String) : List Instr := [.sleep pauseGrace, .pauseWake h]

/-- `schedule_file_cleanup`. -/
def cleanupTask (h : String) (f : ℕ) (scheduled : Option ℕ) : List Instr :=
  [.sleep cleanupDelay, .clearFile h f (.cleanup scheduled)]

/-- The checks before a pause. -/
def pauseChecks : List Check := [.streams, .fileStreams, .leases, .selection]

/-- The checks before a removal. -/
def removeChecks : List Check := [.streams, .fileStreams, .leases, .activeFile, .selection]

/-! ### What a stretch does -/

namespace Instr

variable (s : Shared) (b : Answer)

/-- `add_torrent`, behind the backend. -/
@[simp] def runInsertEngine (h : String) : Outcome :=
  match s.engine h with
  | some a => stop (s.touch a)
  | none =>
      stop { s.update s.newEngine fun _ => ⟨s.now, 0, false⟩ with
        engines := (h, s.newEngine) :: s.engines
        newEngine := s.newEngine + 1 }

/-- `on_stream_start`. -/
@[simp] def runStartStream (x : OpenStream) : Outcome :=
  goOn (s.getEngine x.infoHash)
    (if s.managed x.infoHash then
      [.getEngine x.infoHash, .setActiveFile x.infoHash x.fileIdx, .countStream x]
    else [.activateFile x.infoHash x.fileIdx, .countStream x])

/-- `activate_file`. -/
@[simp] def runActivateFile (h : String) (f : ℕ) : Outcome :=
  match s.engine h with
  | none => goOn s [.setActiveFile h f]
  | some a =>
      goOn (s.getEngine h) [if s.native then .setActiveFile h f else .activateCount h f a]

/-- Activation of a file goes on by the number of files of the torrent. -/
@[simp] def runActivateCount (h : String) (f a : ℕ) : Outcome :=
  goOn s ([.resumeTorrent h a, .setActiveFile h f] ++
    if 1 < b.fileCount then [.activateMultifile h f] else [])

/-- The torrent is resumed, and then the flag is cleared. -/
@[simp] def runResumeTorrent (h : String) (a : ℕ) : Outcome :=
  if b.ok then goOn (s.setTorrent h fun t => { t with paused := false }) [.clearIdle a]
  else stop s

/-- `activate_multifile_file_for_playback`. -/
@[simp] def runActivateForPlayback (h : String) (f : ℕ) : Outcome :=
  goOn (s.getEngine h) (if s.managed h then [] else [.activateMultifile h f])

/-- `activate_multifile_file`. -/
@[simp] def runActivateMultifile (h : String) (f : ℕ) : Outcome :=
  match s.engine h with
  | none => stop s
  | some a => goOn (s.getEngine h) [.multifileCount h f a]

/-- A torrent of several files gets a new generation of priorities. -/
@[simp] def runMultifileCount (h : String) (f a : ℕ) : Outcome :=
  if b.fileCount ≤ 1 then stop s
  else
    goOn { s with priorityGeneration := s.priorityGeneration + 1 }
      [.select h f (s.priorityGeneration + 1), .retainLeases h f, .retainStreams h f,
        .multifileActive h f a, .resumeTorrent h a, .reconcile h (some f)]

/-- `reconcile_multifile_engine`. -/
@[simp] def runReconcile (h : String) (wanted : Option ℕ) : Outcome :=
  if s.native ∨ b.fileCount ≤ 1 then stop s else goOn s [.reconcileFiles h wanted]

/-- `refresh_hls_playback` and `refresh_existing_hls_playback`, at the lease. -/
@[simp] def runRefreshLease (h : String) (f : ℕ) (a : Option ℕ) (now : ℕ) (existing : Bool) : Outcome :=
  let expires := now + if a.isSome && s.native then nativeLeaseTtl else leaseTtl
  let others := s.leases.filter fun lease => lease.1 != (h, f)
  if existing && !s.leaseActive (h, f) now then stop { s with leases := others }
  else
    let s := { s with leases := ((h, f), expires) :: others }
    match a with
    | none => stop s
    | some a =>
        if s.native then
          if existing then stop (s.touch a) else goOn (s.touch a) [.setActiveFile h f]
        else if existing then goOn s [.activateFile h f]
        else goOn (s.touch a) [.activateFile h f]

/-- `end_hls_playback`, behind the lease. -/
@[simp] def runEndHlsEngine (h : String) (f : ℕ) (removed : Bool) : Outcome :=
  goOn (s.getEngine h)
    (if removed && !s.managed h then [.scheduleCleanup h f, .schedulePause h] else [])

/-- `on_stream_end`, behind the counts. -/
@[simp] def runEndEngine (x : OpenStream) (hashLeft fileLeft : Bool) : Outcome :=
  if s.managed x.infoHash then stop (s.getEngine x.infoHash)
  else
    ⟨s.getEngine x.infoHash, if fileLeft then [] else [.scheduleCleanup x.infoHash x.fileIdx],
      if hashLeft || fileLeft then [] else [pauseTask x.infoHash]⟩

/-- The end of a stream schedules the cleanup, where the backend does not manage playback. -/
@[simp] def runScheduleCleanup (h : String) (f : ℕ) : Outcome :=
  goOn (s.getEngine h) (if s.managed h then [] else [.scheduleGeneration h f])

/-- The generation of the selection, if the file is selected. -/
def scheduledGeneration (h : String) (f : ℕ) : Option ℕ :=
  ((s.selections h).filter fun selection => selection.fileIdx == f).map (·.generation)

/-- The file has a stream, as far as the map knows. -/
@[simp] def runClearFile (h : String) (f : ℕ) (cause : Cause) : Outcome :=
  if (h, f) ∈ s.activeFileStreams then stop s
  else
    match cause with
    | .cleanup scheduled => goOn s [.clearLease h f scheduled]
    | .leaseExpired => goOn s [.clearSelection h f .leaseExpired]

/-- A cleanup leaves a selection of a later generation alone. -/
@[simp] def runClearSelection (h : String) (f : ℕ) (cause : Cause) : Outcome :=
  match s.selections h with
  | none => goOn s [.clearActive h f none]
  | some selection =>
      if selection.fileIdx = f then
        if cause = .leaseExpired ∨ cause = .cleanup (some selection.generation) then
          goOn { s with selections := Function.update s.selections h none } [.clearActive h f none]
        else stop s
      else goOn s [.clearActive h f (some selection)]

/-- The active file is cleared, or put to the file that is still selected. -/
@[simp] def runClearActive (h : String) (f : ℕ) (selection : Option Selection) : Outcome :=
  goOn
    { s with
      activeFile :=
        if s.activeFile = some (h, f) then selection.map fun selection => (h, selection.fileIdx)
        else s.activeFile }
    [.clearEngine h selection]

/-- What comes of a row of checks. -/
def finishChecks (h : String) (now : ℕ) (busy : Bool) : Goal → Outcome
  | .pause => if busy then stop s else goOn s [.pauseEngine h]
  | .idle todo =>
      match s.engine h with
      | none => goOn s [.idleNext todo now]
      | some a =>
          if busy || 0 < (s.arena a).readers then goOn s [.idleNext todo now]
          else goOn s [.pauseStats h a false, .idleNext todo now]
  | .remove todo removing =>
      goOn s [.scanNext todo now (if busy then removing else removing ++ [h])]

/-- One check.  A delayed pause looks at the clock anew. -/
def runCheck (checks : List Check) (h : String) (now : ℕ) (busy : Bool) (goal : Goal) : Outcome :=
  match checks with
  | [] => finishChecks s h now busy goal
  | c :: checks =>
      let busy := busy || s.active h now c
      if checks = [] then finishChecks s h now busy goal
      else goOn s [.check checks h (if goal = .pause then s.now else now) busy goal]

/-- The metadata are there, and nobody has paused the torrent. -/
@[simp] def runPauseStats (h : String) (a : ℕ) (delayed : Bool) : Outcome :=
  if b.hasMetadata then
    let s := if delayed then s.touch a else s
    if (s.arena a).idlePaused then stop s
    else goOn (s.update a fun engine => { engine with idlePaused := true }) [.pauseTorrent h a]
  else stop s

/-- The idle torrent is paused; a failure takes the flag back. -/
@[simp] def runPauseTorrent (h : String) (a : ℕ) : Outcome :=
  if b.ok then stop (s.setTorrent h fun t => { t with paused := true })
  else goOn s [.unpaused a]

/-- The leases that have expired are cleared up one after another. -/
@[simp] def runExpireLeases (now : ℕ) : Outcome :=
  goOn { s with leases := s.leases.filter fun lease => now < lease.2 }
    ((s.leases.filter fun lease => !(decide (now < lease.2))).map
        (fun lease => .clearFile lease.1.1 lease.1.2 .leaseExpired) ++ [.scanLock now])

/-- The next engine, if it has not been accessed for a while. -/
def runScanNext (todo : List String) (now : ℕ) (removing : List String) : Outcome :=
  match todo with
  | [] =>
      goOn { s with engineReaders := s.engineReaders - 1 }
        (if removing = [] then [.idleStart now] else [.removeEngines removing, .idleStart now])
  | h :: todo =>
      match s.engine h with
      | none => goOn s [.scanNext todo now removing]
      | some a =>
          if now - (s.arena a).lastAccessed ≤ removeTimeout then goOn s [.scanNext todo now removing]
          else goOn s [.check removeChecks h now (0 < (s.arena a).readers) (.remove todo removing)]

/-- The idle check goes to the next torrent of the list. -/
def runIdleNext (todo : List String) (now : ℕ) : Outcome :=
  match todo with
  | [] => goOn { s with engineReaders := s.engineReaders - 1 } [.loop]
  | h :: todo =>
      if s.native then goOn s [.idleNext todo now]
      else goOn s [.check pauseChecks h now false (.idle todo)]

/-- The next engine: if the registry has paused its torrent, this is resumed. -/
def runResumeNext (todo : List String) : Outcome :=
  match todo with
  | [] => stop { s with engineReaders := s.engineReaders - 1 }
  | h :: todo =>
      match s.engine h with
      | none => goOn s [.resumeNext todo]
      | some a =>
          if s.native ∨ (s.arena a).idlePaused = false then goOn s [.resumeNext todo]
          else
            goOn (s.update a fun engine => { engine with idlePaused := false })
              [.resumeSeeding h a, .resumeNext todo]

/-- A torrent is resumed for seeding; a failure pauses it again. -/
@[simp] def runResumeSeeding (h : String) (a : ℕ) : Outcome :=
  if b.ok then stop (s.setTorrent h fun t => { t with paused := false })
  else goOn s [.pausedAgain a]

/-- `stream_video`, from `on_stream_start` on. -/
@[simp] def runValidate (x : OpenStream) (hls : Bool) : Outcome :=
  if b.ok then
    goOn s (.startStream x :: (if hls then [.refreshHls x.infoHash x.fileIdx false] else []) ++
      (if s.native then [] else [.activateForPlayback x.infoHash x.fileIdx]) ++ [.makeGuard x])
  else stop s

/-- **What a stretch does.** -/
def run : Instr → Outcome
  | .addTorrent h =>
      if b.ok then
        goOn { s with
          session := Function.update s.session h (some ((s.session h).getD ⟨false, none⟩)) }
          [.insertEngine h]
      else stop s
  | .insertEngine h => runInsertEngine s h
  | .getEngine h => stop (s.getEngine h)
  | .getOrAdd h => goOn (s.getEngine h) (if (s.engine h).isSome then [] else [.addTorrent h])
  | .removeEngine h => stop { s with engines := s.engines.filter fun entry => entry.1 != h }
  | .listEngines => goOn s (b.order.map .removeEngine)
  | .startStream x => runStartStream s x
  | .countStream x => goOn { s with activeStreams := x.infoHash :: s.activeStreams } [.countFile x]
  | .countFile x =>
      stop { s with
        activeFileStreams := (x.infoHash, x.fileIdx) :: s.activeFileStreams
        streams := x :: s.streams }
  | .activateFile h f => runActivateFile s h f
  | .activateCount h f a => runActivateCount s b h f a
  | .resumeTorrent h a => runResumeTorrent s b h a
  | .clearIdle a => stop (s.update a fun engine => { engine with idlePaused := false })
  | .setActiveFile h f => stop { s with activeFile := some (h, f) }
  | .activateForPlayback h f => runActivateForPlayback s h f
  | .activateMultifile h f => runActivateMultifile s h f
  | .multifileCount h f a => runMultifileCount s b h f a
  | .select h f generation =>
      stop { s with selections := Function.update s.selections h (some ⟨f, generation⟩) }
  | .retainLeases h f => stop { s with leases := Shared.keepFile h f (·.1) s.leases }
  | .retainStreams h f =>
      stop { s with activeFileStreams := Shared.keepFile h f id s.activeFileStreams }
  | .multifileActive h f a => stop { s.touch a with activeFile := some (h, f) }
  | .reconcile h wanted => runReconcile s b h wanted
  | .reconcileFiles h wanted =>
      if b.ok then stop (s.setTorrent h fun t => { t with wanted := wanted }) else stop s
  | .refreshHls h f existing => goOn s [.refreshEngine h f s.now existing]
  | .refreshEngine h f now existing =>
      goOn (s.getEngine h) [.refreshLease h f (s.engine h) now existing]
  | .refreshLease h f a now existing => runRefreshLease s h f a now existing
  | .endHls h f =>
      goOn { s with leases := s.leases.filter fun lease => lease.1 != (h, f) }
        [.endHlsEngine h f (s.leases.any fun lease => lease.1 == (h, f))]
  | .endHlsEngine h f removed => runEndHlsEngine s h f removed
  | .endStream x =>
      let left := s.activeStreams.erase x.infoHash
      goOn { s with activeStreams := left } [.endFile x (left.contains x.infoHash)]
  | .endFile x hashLeft =>
      let left := s.activeFileStreams.erase (x.infoHash, x.fileIdx)
      goOn { s with activeFileStreams := left }
        [.endEngine x hashLeft (left.contains (x.infoHash, x.fileIdx))]
  | .endEngine x hashLeft fileLeft => runEndEngine s x hashLeft fileLeft
  | .schedulePause h => ⟨s, [], [pauseTask h]⟩
  | .scheduleCleanup h f => runScheduleCleanup s h f
  | .scheduleGeneration h f => ⟨s, [], [cleanupTask h f (scheduledGeneration s h f)]⟩
  | .sleep delay => goOn s [.sleepUntil (s.now + delay)]
  | .sleepUntil _ => stop s
  | .clearFile h f cause => runClearFile s h f cause
  | .clearLease h f scheduled =>
      if s.leaseActive (h, f) s.now then stop s
      else goOn s [.clearSelection h f (.cleanup scheduled)]
  | .clearSelection h f cause => runClearSelection s h f cause
  | .clearActive h f selection => runClearActive s h f selection
  | .clearEngine h selection =>
      match s.engine h with
      | none => stop s
      | some _ => goOn s [.reconcile h (selection.map (·.fileIdx))]
  | .pauseWake h =>
      if s.seedingEnabled then stop s else goOn s [.check pauseChecks h s.now false .pause]
  | .check checks h now busy goal => runCheck s checks h now busy goal
  | .pauseEngine h =>
      match s.engine h with
      | none => stop s
      | some a => if 0 < (s.arena a).readers then stop s else goOn s [.pauseStats h a true]
  | .pauseStats h a delayed => runPauseStats s b h a delayed
  | .pauseTorrent h a => runPauseTorrent s b h a
  | .unpaused a => stop (s.update a fun engine => { engine with idlePaused := false })
  | .loop => goOn s [.sleep loopPeriod, .loopWake]
  | .loopWake => goOn s [.expireLeases s.now]
  | .expireLeases now => runExpireLeases s now
  | .scanLock now =>
      goOn { s with engineReaders := s.engineReaders + 1 } [.scanNext b.order now []]
  | .scanNext todo now removing => runScanNext s todo now removing
  | .removeEngines hs =>
      goOn { s with engines := s.engines.filter fun entry => !hs.contains entry.1 }
        (hs.map .removeBackend)
  | .removeBackend h =>
      if b.ok then stop { s with session := Function.update s.session h none } else stop s
  | .idleStart now => goOn s (if s.seedingEnabled then [.loop] else [.idleLock now])
  | .idleLock now => goOn { s with engineReaders := s.engineReaders + 1 } [.idleNext b.order now]
  | .idleNext todo now => runIdleNext s todo now
  | .resumeAll => goOn { s with engineReaders := s.engineReaders + 1 } [.resumeNext b.order]
  | .resumeNext todo => runResumeNext s todo
  | .resumeSeeding h a => runResumeSeeding s b h a
  | .pausedAgain a => stop (s.update a fun engine => { engine with idlePaused := true })
  | .validate x hls => runValidate s b x hls
  | .makeGuard x => goOn s [.serve x, .dropGuard x]
  | .serve _ => stop s
  | .dropGuard x => ⟨{ s with streams := s.streams.erase x }, [], [[.endStream x]]⟩

/-- A lock can be had only while nobody else has it, a timer has to elapse, and all of a map
is gone through. -/
def ready : Instr → Prop
  | .insertEngine _ | .removeEngine _ | .removeEngines _ => s.engineReaders = 0
  | .listEngines | .scanLock _ | .idleLock _ | .resumeAll => b.order.Perm s.hashes
  | .sleepUntil time => time ≤ s.now
  | _ => True

end Instr

/-! ### Calls -/

/-- The calls that can arrive. -/
inductive Call
  | addTorrent (h : String)
  | getEngine (h : String)
  | getOrAdd (h : String)
  | removeEngine (h : String)
  | removeAll
  | startStream (h : String) (f : ℕ)
  | endStream (x : OpenStream)
  | activateForPlayback (h : String) (f : ℕ)
  | refreshHls (h : String) (f : ℕ)
  | refreshExistingHls (h : String) (f : ℕ)
  | endHls (h : String) (f : ℕ)
  | streamVideo (h : String) (f : ℕ) (hls : Bool)
  /-- A reader of the torrent is opened. -/
  | openReader (a : ℕ)
  | closeReader (a : ℕ)
  | setSeeding (enabled : Bool)
  | tick (seconds : ℕ)
  deriving DecidableEq, Repr

namespace Call

/-- Every end matches a start. -/
def accepted (s : Shared) : Call → Prop
  | .endStream x => x ∈ s.streams ∧ x.guarded = false
  | _ => True

/-- The tasks a call starts. -/
def arrive (s : Shared) : Call → Shared × List (List Instr)
  | .addTorrent h => (s, [[.addTorrent h]])
  | .getEngine h => (s, [[.getEngine h]])
  | .getOrAdd h => (s, [[.getOrAdd h]])
  | .removeEngine h => (s, [[.removeEngine h]])
  | .removeAll => (s, [[.listEngines]])
  | .startStream h f =>
      ({ s with newStream := s.newStream + 1 }, [[.startStream ⟨s.newStream, h, f, false⟩]])
  | .endStream x => ({ s with streams := s.streams.erase x }, [[.endStream x]])
  | .activateForPlayback h f => (s, [[.activateForPlayback h f]])
  | .refreshHls h f => (s, [[.refreshHls h f false]])
  | .refreshExistingHls h f => (s, [[.refreshHls h f true]])
  | .endHls h f => (s, [[.endHls h f]])
  | .streamVideo h f hls =>
      ({ s with newStream := s.newStream + 1 },
        [[.getOrAdd h, .validate ⟨s.newStream, h, f, true⟩ hls]])
  | .openReader a => (s.update a fun engine => { engine with readers := engine.readers + 1 }, [])
  | .closeReader a => (s.update a fun engine => { engine with readers := engine.readers - 1 }, [])
  | .setSeeding enabled =>
      ({ s with seedingEnabled := enabled }, if enabled then [[.resumeAll]] else [])
  | .tick seconds => ({ s with now := s.now + seconds }, [])

end Call

/-! ### Dropping requests -/

namespace Instr

/-- The task is a request: its guard has been made, or will be. -/
def ofRequest : Instr → Bool
  | .validate _ _ | .makeGuard _ | .dropGuard _ => true
  | _ => false

/-- It does not wait. -/
def synchronous : Instr → Bool
  | .makeGuard _ | .dropGuard _ => true
  | _ => false

/-- What a stack owns. -/
def guard? : Instr → Option OpenStream
  | .dropGuard x => some x
  | _ => none

end Instr

/-- A client that goes away has its request dropped where it waits. -/
def waitingRequest (stack : List Instr) : Prop :=
  stack.any Instr.ofRequest = true ∧ (stack.head?.any Instr.synchronous) = false

/-- The guards on a stack tell of the ends. -/
def releaseGuards (s : Shared) (stack : List Instr) : Shared × List (List Instr) :=
  let guards := stack.filterMap Instr.guard?
  ({ s with streams := s.streams.diff guards }, guards.map fun x => [.endStream x])

/-- **The registry and all that uses it**; requests are dropped only if `drops` says so. -/
def engineFs (drops : Bool) : TaskSystem Shared Instr Answer Call where
  ready s k b := k.ready s b
  run s k b := k.run s b
  accepts s c := c.accepted s
  arrive s c := c.arrive s
  droppable stack := drops = true ∧ waitingRequest stack
  release s stack := releaseGuards s stack

/-- The registry as it is made, with the torrents the backend has restored. -/
def Shared.new (native : Bool) (restored : List String) : Shared where
  native := native
  seedingEnabled := true
  now := 0
  engines := restored.zipIdx
  engineReaders := 0
  arena _ := ⟨0, 0, false⟩
  newEngine := restored.length
  session h := if h ∈ restored then some ⟨false, none⟩ else none
  activeStreams := []
  activeFileStreams := []
  activeFile := none
  leases := []
  selections _ := none
  priorityGeneration := 0
  newStream := 0
  streams := []
  handedOut _ := none

/-- The shared state with the tasks that are under way. -/
abbrev World := TaskSystem.World Shared Instr

/-- The steps of the tasks, the arrivals and the drops. -/
abbrev Action := TaskSystem.Action Instr Answer Call

/-- The engines as they are restored, with the cleanup loop under way. -/
def World.new (native : Bool) (restored : List String) : World := ⟨.new native restored, [[.loop]]⟩

/-! ### Evaluating runs -/

/-- The backend succeeds, and the torrent has one file. -/
def Answer.fine : Answer := ⟨true, 1, true, []⟩

instance (s : Shared) (b : Answer) : ∀ k : Instr, Decidable (k.ready s b)
  | .insertEngine _ | .removeEngine _ | .removeEngines _ => inferInstanceAs (Decidable (_ = _))
  | .listEngines | .scanLock _ | .idleLock _ | .resumeAll =>
      inferInstanceAs (Decidable (List.Perm _ _))
  | .sleepUntil _ => inferInstanceAs (Decidable (_ ≤ _))
  | .addTorrent _ | .getEngine _ | .getOrAdd _ | .startStream _ | .countStream _ | .countFile _
  | .activateFile .. | .activateCount .. | .resumeTorrent .. | .clearIdle _ | .setActiveFile ..
  | .activateForPlayback .. | .activateMultifile .. | .multifileCount .. | .select ..
  | .retainLeases .. | .retainStreams .. | .multifileActive .. | .reconcile ..
  | .reconcileFiles .. | .refreshHls .. | .refreshEngine .. | .refreshLease .. | .endHls ..
  | .endHlsEngine .. | .endStream _ | .endFile .. | .endEngine .. | .schedulePause _
  | .scheduleCleanup .. | .scheduleGeneration .. | .sleep _ | .clearFile .. | .clearLease ..
  | .clearSelection .. | .clearActive .. | .clearEngine .. | .pauseWake _ | .check ..
  | .pauseEngine _ | .pauseStats .. | .pauseTorrent .. | .unpaused _ | .loop | .loopWake
  | .expireLeases _ | .scanNext .. | .removeBackend _ | .idleStart _ | .idleNext ..
  | .resumeNext _ | .resumeSeeding .. | .pausedAgain _ | .validate .. | .makeGuard _ | .serve _ | .dropGuard _ => inferInstanceAs (Decidable True)

instance (s : Shared) : ∀ c : Call, Decidable (c.accepted s)
  | .endStream _ => inferInstanceAs (Decidable (_ ∧ _))
  | .addTorrent _ | .getEngine _ | .getOrAdd _ | .removeEngine _ | .removeAll | .startStream ..
  | .activateForPlayback .. | .refreshHls .. | .refreshExistingHls .. | .endHls ..
  | .streamVideo .. | .openReader _ | .closeReader _ | .setSeeding _ | .tick _ =>
      inferInstanceAs (Decidable True)

instance (stack : List Instr) : Decidable (waitingRequest stack) :=
  inferInstanceAs (Decidable (_ ∧ _))

instance (drops : Bool) (s : World) (a : Action) : Decidable ((engineFs drops).system.guard s a) :=
  match a with
  | .run _ k b => inferInstanceAs (Decidable (_ ∧ k.ready s.shared b))
  | .arrive c => inferInstanceAs (Decidable (c.accepted s.shared))
  | .drop i =>
      inferInstanceAs (Decidable (∃ stack ∈ s.tasks[i]?, drops = true ∧ waitingRequest stack))

end StreamServer.EngineFs

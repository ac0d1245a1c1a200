import StreamServer.EngineFs.Effects

/-!
# What a stretch goes on with

Which stretch can follow which is a matter of the text of the program, whatever the maps hold.
Where a law counts stretches of some kind, all stretches that lead to none of them are done
with at once.

## Main definitions

* `Instr.leadsTo` — the stretches that a stretch puts in its place.
* `Instr.starts` — the stretches of the tasks it starts.

## Main results

* `Instr.mem_next`, `Instr.countP_next` — in the place of a stretch.
* `Instr.mem_spawned`, `Instr.countP_spawned` — in the tasks it starts.
* `Call.mem_setSeeding` — the task of a call.
* `counted_run`, `counted_run_same`, `counted_arrive` — how many stretches of a kind there are.
-/

namespace StreamServer.EngineFs

namespace Instr

/-- The one can put the other in its place. -/
def leadsTo : Instr → Instr → Bool
  | .addTorrent _, .insertEngine _ => true
  | .getOrAdd _, .addTorrent _ => true
  | .listEngines, .removeEngine _ => true
  | .startStream _, .getEngine _ | .startStream _, .setActiveFile .. | .startStream _, .countStream _
  | .startStream _, .activateFile .. => true
  | .countStream _, .countFile _ => true
  | .activateFile .., .setActiveFile .. | .activateFile .., .activateCount .. => true
  | .activateCount .., .resumeTorrent .. | .activateCount .., .setActiveFile ..
  | .activateCount .., .activateMultifile .. => true
  | .resumeTorrent .., .clearIdle _ => true
  | .activateForPlayback .., .activateMultifile .. => true
  | .activateMultifile .., .multifileCount .. => true
  | .multifileCount .., .select .. | .multifileCount .., .retainLeases ..
  | .multifileCount .., .retainStreams .. | .multifileCount .., .multifileActive ..
  | .multifileCount .., .resumeTorrent .. | .multifileCount .., .reconcile .. => true
  | .reconcile .., .reconcileFiles .. => true
  | .refreshHls .., .refreshEngine .. => true
  | .refreshEngine .., .refreshLease .. => true
  | .refreshLease .., .setActiveFile .. | .refreshLease .., .activateFile .. => true
  | .endHls .., .endHlsEngine .. => true
  | .endHlsEngine .., .scheduleCleanup .. | .endHlsEngine .., .schedulePause _ => true
  | .endStream _, .endFile .. => true
  | .endFile .., .endEngine .. => true
  | .endEngine .., .scheduleCleanup .. => true
  | .scheduleCleanup .., .scheduleGeneration .. => true
  | .sleep _, .sleepUntil _ => true
  | .clearFile .., .clearLease .. | .clearFile .., .clearSelection .. => true
  | .clearLease .., .clearSelection .. => true
  | .clearSelection .., .clearActive .. => true
  | .clearActive .., .clearEngine .. => true
  | .clearEngine .., .reconcile .. => true
  | .pauseWake _, .check .. => true
  | .check .., .check .. | .check .., .pauseEngine _ | .check .., .pauseStats ..
  | .check .., .idleNext .. | .check .., .scanNext .. => true
  | .pauseEngine _, .pauseStats .. => true
  | .pauseStats .., .pauseTorrent .. => true
  | .pauseTorrent .., .unpaused _ => true
  | .loop, .sleep _ | .loop, .loopWake => true
  | .loopWake, .expireLeases _ => true
  | .expireLeases _, .clearFile .. | .expireLeases _, .scanLock _ => true
  | .scanLock _, .scanNext .. => true
  | .scanNext .., .scanNext .. | .scanNext .., .check .. | .scanNext .., .removeEngines _
  | .scanNext .., .idleStart _ => true
  | .removeEngines _, .removeBackend _ => true
  | .idleStart _, .loop | .idleStart _, .idleLock _ => true
  | .idleLock _, .idleNext .. => true
  | .idleNext .., .idleNext .. | .idleNext .., .check .. | .idleNext .., .loop => true
  | .resumeAll, .resumeNext _ => true
  | .resumeNext _, .resumeNext _ | .resumeNext _, .resumeSeeding .. => true
  | .resumeSeeding .., .pausedAgain _ => true
  | .validate .., .startStream _ | .validate .., .refreshHls .. | .validate .., .activateForPlayback ..
  | .validate .., .makeGuard _ => true
  | .makeGuard _, .serve _ | .makeGuard _, .dropGuard _ => true
  | _, _ => false

/-- The one can start a task that holds the other. -/
def starts : Instr → Instr → Bool
  | .endEngine .., .sleep _ | .endEngine .., .pauseWake _ => true
  | .schedulePause _, .sleep _ | .schedulePause _, .pauseWake _ => true
  | .scheduleGeneration .., .sleep _ | .scheduleGeneration .., .clearFile .. => true
  | .dropGuard _, .endStream _ => true
  | _, _ => false

variable {k : Instr} (s : Shared) (b : Answer)

theorem all_finishChecks (s : Shared) (checks : List Check) (h : String) (now : ℕ) (busy busy' : Bool)
    (goal : Goal) :
    (finishChecks s h now busy' goal).next.all (Instr.check checks h now busy goal).leadsTo = true := by
  unfold finishChecks
  repeat' split
  all_goals rfl

theorem all_next : (k.run s b).next.all k.leadsTo = true := by
  cases k with
  | check checks h now busy goal =>
    simp only [run]
    unfold runCheck
    dsimp only
    split
    · exact all_finishChecks ..
    · split
      · exact all_finishChecks ..
      · rfl
  | scanNext todo now removing =>
    simp only [run]
    unfold runScanNext
    (repeat' split) <;> rfl
  | idleNext todo now =>
    simp only [run]
    unfold runIdleNext
    (repeat' split) <;> rfl
  | resumeNext todo =>
    simp only [run]
    unfold runResumeNext
    (repeat' split) <;> rfl
  | listEngines | expireLeases _ | removeEngines _ => simp [run, leadsTo]
  | _ =>
    dsimp [run] <;> (repeat' split) <;> rfl

/-- **What a stretch goes on with.** -/
theorem mem_next {k' : Instr} (h : k' ∈ (k.run s b).next) : k.leadsTo k' = true :=
  List.all_eq_true.mp (all_next s b) k' h

theorem countP_next {p : Instr → Bool} (hp : ∀ k', k.leadsTo k' = true → p k' = false) :
    (k.run s b).next.countP p = 0 := by
  rw [List.countP_eq_zero]
  intro k' hk'
  rw [hp k' (mem_next s b hk')]
  exact Bool.false_ne_true

theorem all_spawned : (k.run s b).spawned.flatten.all k.starts = true := by
  cases k with
  | check checks h now busy goal =>
    simp only [run]
    unfold runCheck finishChecks
    dsimp only
    (repeat' split) <;> rfl
  | scanNext todo now removing =>
    simp only [run]
    unfold runScanNext
    (repeat' split) <;> rfl
  | idleNext todo now =>
    simp only [run]
    unfold runIdleNext
    (repeat' split) <;> rfl
  | resumeNext todo =>
    simp only [run]
    unfold runResumeNext
    (repeat' split) <;> rfl
  | _ =>
    simp [run] <;> (repeat' split) <;> simp [starts, pauseTask, cleanupTask]

/-- **What a stretch starts.** -/
theorem mem_spawned {k' : Instr} (h : k' ∈ (k.run s b).spawned.flatten) : k.starts k' = true :=
  List.all_eq_true.mp (all_spawned s b) k' h

theorem countP_spawned {p : Instr → Bool} (hp : ∀ k', k.starts k' = true → p k' = false) :
    (k.run s b).spawned.flatten.countP p = 0 := by
  rw [List.countP_eq_zero]
  intro k' hk'
  rw [hp k' (mem_spawned s b hk')]
  exact Bool.false_ne_true

end Instr

/-- Turning seeding on starts one task, turning it off none. -/
theorem Call.stack_setSeeding {s : Shared} {enabled : Bool} {stack : List Instr}
    (h : stack ∈ (Call.arrive s (.setSeeding enabled)).2) : stack = [.resumeAll] := by
  cases enabled with
  | false => cases h
  | true => exact List.mem_singleton.mp h

theorem Call.mem_setSeeding {s : Shared} {enabled : Bool} {k : Instr}
    (h : k ∈ (Call.arrive s (.setSeeding enabled)).2.flatten) : k = .resumeAll := by
  obtain ⟨stack, hstack, hk⟩ := List.mem_flatten.mp h
  rw [Call.stack_setSeeding hstack] at hk
  exact List.mem_singleton.mp hk

/-! ### Steps -/

section Steps

variable {drops : Bool} {w : World} {i : ℕ} {k : Instr} {b : Answer}

@[simp] theorem shared_run :
    ((engineFs drops).system.effect w (.run i k b)).shared = (k.run w.shared b).shared := rfl

@[simp] theorem shared_arrive (call : Call) :
    ((engineFs drops).system.effect w (.arrive call)).shared = (call.arrive w.shared).1 := rfl

theorem counted_run (hg : (engineFs drops).system.guard w (.run i k b)) (p : Instr → Bool) :
    ((engineFs drops).system.effect w (.run i k b)).pending p + (p k).toNat =
      w.pending p + (k.run w.shared b).next.countP p +
        (k.run w.shared b).spawned.flatten.countP p :=
  TaskSystem.pending_run hg p

/-- A stretch that neither is of the kind nor leads to it. -/
theorem counted_run_same (hg : (engineFs drops).system.guard w (.run i k b)) {p : Instr → Bool}
    (hk : p k = false) (hnext : ∀ k', k.leadsTo k' = true → p k' = false)
    (hspawned : ∀ k', k.starts k' = true → p k' = false) :
    ((engineFs drops).system.effect w (.run i k b)).pending p = w.pending p :=
  TaskSystem.pending_run_same hg hk (Instr.countP_next _ _ hnext) (Instr.countP_spawned _ _ hspawned)

theorem counted_arrive (call : Call) (p : Instr → Bool) :
    ((engineFs drops).system.effect w (.arrive call)).pending p =
      w.pending p + (call.arrive w.shared).2.flatten.countP p :=
  TaskSystem.pending_arrive call p

end Steps

end StreamServer.EngineFs

import StreamServer.Playback.Holder

/-!
# The tasks of the coordinator

Facts about the tasks under way that hold in every reachable state, whatever the
steps of the run.

## Main definitions

* `World.inflight` — the tasks that hold the operation lock or wait for it, in the
  order in which they get it.
* `World.TasksLinked` — the worker and the loading of the metadata each have at most
  one of them.

## Main results

* `tasksLinked_step` — every step keeps them linked.
* `tasksLinked_of_reach` — they are linked in every reachable state.
-/

namespace StreamServer.Playback

/-! ### Tasks at the operation lock -/

namespace World

/-- The tasks that hold the operation lock or wait for it. -/
def inflight (s : World) : List LockRequest :=
  (s.operation.map Critical.request).toList ++ s.lockQueue

theorem inflight_of_free {s : World} (h : s.operation = none) : s.inflight = s.lockQueue := by
  rw [inflight, h]
  rfl

theorem inflight_of_held {s : World} {c : Critical} (h : s.operation = some c) :
    s.inflight = c.request :: s.lockQueue := by
  rw [inflight, h]
  rfl

/-- The holder goes on: the tasks stay the same. -/
theorem inflight_move {s t : World} {c d : Critical} (hop : s.operation = some c)
    (hop' : t.operation = some d) (hcd : d.request = c.request)
    (hq : t.lockQueue = s.lockQueue) : t.inflight = s.inflight := by
  rw [inflight_of_held hop', inflight_of_held hop, hq, hcd]

/-- The holder leaves: only its own task is gone. -/
theorem inflight_leave {s t : World} {c : Critical} (hop : s.operation = some c)
    (hop' : t.operation = none) (hq : t.lockQueue = s.lockQueue) :
    s.inflight = c.request :: t.inflight := by
  rw [inflight_of_held hop, inflight_of_free hop', hq]

/-- The first task in the queue gets the lock: the tasks stay the same. -/
theorem inflight_acquire {s : World} {r : LockRequest} (h : s.operation = none)
    (hq : s.lockQueue = r :: s.lockQueue.tail) :
    ((Action.acquire r).effect s).inflight = s.inflight := by
  rw [inflight_of_free h, hq]
  simp [Action.effect, inflight]

/-- Another task starts to wait. -/
theorem inflight_wait {s t : World} {new : List LockRequest}
    (hop : t.operation = s.operation)
    (hq : t.lockQueue = s.lockQueue ++ new) : t.inflight = s.inflight ++ new := by
  rw [inflight, inflight, hop, hq, List.append_assoc]

theorem mem_inflight_wait {s t : World} {r : LockRequest} (hop : t.operation = s.operation)
    (hq : t.lockQueue = s.lockQueue ++ [r]) : r ∈ t.inflight := by
  rw [inflight_wait hop hq]
  exact List.mem_append_right _ (List.mem_singleton_self r)

/-- However the holder goes on, no task is new but the pause of a complete file. -/
theorem Goes.inflight {s t : World} {c : Critical} (hgo : s.Goes c t)
    (hop : s.operation = some c) :
    ∀ r ∈ t.inflight, r ∈ s.inflight ∨ ∃ act, c.request = .activate act ∧
      r = .pause (newPause s.now s.state act.generation (.activation act)) := by
  have hqueue : ∀ r ∈ s.lockQueue, r ∈ s.inflight := by
    intro r hr
    rw [inflight_of_held hop]
    exact List.mem_cons_of_mem _ hr
  cases hgo with
  | moves d hd =>
    intro r hr
    have hsame : World.inflight { s with operation := some d } = s.inflight :=
      inflight_move hop rfl hd rfl
    rw [hsame] at hr
    exact Or.inl hr
  | granted => exact fun r hr => Or.inl (hqueue r hr)
  | dropped => exact fun r hr => Or.inl (hqueue r hr)
  | handedOver act hact =>
    intro r hr
    rw [inflight_of_free rfl] at hr
    rcases List.mem_append.mp hr with hr | hr
    · exact Or.inl (hqueue r hr)
    · exact Or.inr ⟨act, hact, List.mem_singleton.mp hr⟩

end World

/-- The request of the task that loads the metadata. -/
def LockRequest.isMetadata : LockRequest → Bool
  | .metadata => true
  | _ => false

/-- What the worker waits for. -/
def Worker.awaited : Worker → Option LockRequest
  | .awaiting r => some r
  | _ => none

/-- What the task that loads the metadata waits for. -/
def Loader.awaited : Loader → Option LockRequest
  | .requesting => some .metadata
  | _ => none

/-- The attempt to pause the worker is about. -/
def Worker.attempt : Worker → Option Pause
  | .entering p | .keepingActive p | .pauseFailed p => some p
  | _ => none

namespace World

/-- The worker has at most one task at the operation lock, the one it waits for,
and pauses idle torrents and completed files only; so has the task that loads the
metadata, which runs until the layout is there. -/
structure TasksLinked (s : World) : Prop where
  worker : s.inflight.filter LockRequest.byWorker = s.worker.awaited.toList
  caller : ∀ p, s.worker.attempt = some p → p.caller = .idle ∨ p.caller = .completed
  loader : s.inflight.filter LockRequest.isMetadata = s.loader.awaited.toList
  loading : s.loader ≠ .idle → s.layoutLoaded = false

theorem TasksLinked.holder {s : World} (h : s.TasksLinked) {c : Critical}
    (hop : s.operation = some c) (hc : c.request.byWorker = true) :
    s.worker = .awaiting c.request ∧ s.lockQueue.filter LockRequest.byWorker = [] := by
  have hw := h.worker
  rw [inflight_of_held hop, List.filter_cons, if_pos hc] at hw
  cases hworker : s.worker with
  | awaiting r =>
    rw [hworker] at hw
    simp only [Worker.awaited, Option.toList_some, List.cons.injEq] at hw
    exact ⟨by rw [hw.1], hw.2⟩
  | _ => rw [hworker] at hw; simp [Worker.awaited] at hw

theorem TasksLinked.metadataHolder {s : World} (h : s.TasksLinked) {c : Critical}
    (hop : s.operation = some c) (hc : c.request = .metadata) :
    s.loader = .requesting ∧ s.layoutLoaded = false ∧
      s.lockQueue.filter LockRequest.isMetadata = [] := by
  have hl := h.loader
  rw [inflight_of_held hop, hc, List.filter_cons_of_pos rfl] at hl
  have hreq : s.loader = .requesting := by
    cases hloader : s.loader with
    | requesting => rfl
    | _ => rw [hloader] at hl; cases hl
  rw [hreq] at hl
  refine ⟨hreq, h.loading (by rw [hreq]; decide), ?_⟩
  simpa [Loader.awaited] using hl

/-- A step that changes neither the tasks at the lock nor the two tasks. -/
theorem TasksLinked.congr {s t : World} (h : s.TasksLinked) (hi : t.inflight = s.inflight)
    (hw : t.worker = s.worker) (hl : t.loader = s.loader)
    (hll : t.layoutLoaded = s.layoutLoaded) : t.TasksLinked := by
  constructor
  · rw [hi, hw]; exact h.worker
  · rw [hw]; exact h.caller
  · rw [hi, hl]; exact h.loader
  · rw [hl, hll]; exact h.loading

/-- The holder of the lock goes on: it is still the same task. -/
theorem TasksLinked.move {s t : World} (h : s.TasksLinked) {c d : Critical}
    (hop : s.operation = some c) (hop' : t.operation = some d) (hcd : d.request = c.request)
    (hq : t.lockQueue = s.lockQueue) (hw : t.worker = s.worker) (hl : t.loader = s.loader)
    (hll : t.layoutLoaded = s.layoutLoaded) : t.TasksLinked := by
  refine h.congr ?_ hw hl hll
  rw [inflight_of_held hop', hq, hcd, ← inflight_of_held hop]

/-- A task that is neither the worker's nor the loading gives the lock back. -/
theorem TasksLinked.leave {s t : World} (h : s.TasksLinked) {c : Critical}
    (hop : s.operation = some c) (hop' : t.operation = none) (hc : c.request.byWorker = false)
    (hm : c.request.isMetadata = false) (hq : t.lockQueue = s.lockQueue)
    (hw : t.worker = s.worker) (hl : t.loader = s.loader)
    (hll : t.layoutLoaded = s.layoutLoaded) : t.TasksLinked := by
  have hworker := h.worker
  have hloader := h.loader
  rw [inflight_of_held hop, List.filter_cons_of_neg (by simp [hc])] at hworker
  rw [inflight_of_held hop, List.filter_cons_of_neg (by simp [hm])] at hloader
  constructor
  · rw [inflight_of_free hop', hq, hworker, hw]
  · rw [hw]; exact h.caller
  · rw [inflight_of_free hop', hq, hloader, hl]
  · rw [hl, hll]; exact h.loading

/-- The worker gives the lock back. -/
theorem TasksLinked.done {s t : World} (h : s.TasksLinked) {c : Critical}
    (hop : s.operation = some c) (hop' : t.operation = none) (hc : c.request.byWorker = true)
    (hq : t.lockQueue = s.lockQueue) (hw : t.worker.awaited = none)
    (hcaller : ∀ p, t.worker.attempt = some p → p.caller = .idle ∨ p.caller = .completed)
    (hl : t.loader = s.loader) (hll : t.layoutLoaded = s.layoutLoaded) : t.TasksLinked := by
  have hm : c.request.isMetadata = false := by
    cases hr : c.request with
    | metadata => rw [hr] at hc; cases hc
    | _ => rfl
  have hloader := h.loader
  rw [inflight_of_held hop, List.filter_cons_of_neg (by simp [hm])] at hloader
  constructor
  · rw [inflight_of_free hop', hq, (h.holder hop hc).2, hw]
    rfl
  · exact hcaller
  · rw [inflight_of_free hop', hq, hloader, hl]
  · rw [hl, hll]; exact h.loading

/-- A task that is neither the worker's nor the loading starts to wait for the
lock. -/
theorem TasksLinked.wait {s t : World} (h : s.TasksLinked) (r : LockRequest)
    (hr : r.byWorker = false) (hm : r.isMetadata = false) (hi : t.inflight = s.inflight ++ [r])
    (hw : t.worker = s.worker) (hl : t.loader = s.loader)
    (hll : t.layoutLoaded = s.layoutLoaded) : t.TasksLinked := by
  constructor
  · rw [hi, List.filter_append, List.filter_cons_of_neg (by simp [hr]), hw]
    simpa using h.worker
  · rw [hw]; exact h.caller
  · rw [hi, List.filter_append, List.filter_cons_of_neg (by simp [hm]), hl]
    simpa using h.loader
  · rw [hl, hll]; exact h.loading

/-- The worker, with no task at the lock, goes on to something else. -/
theorem TasksLinked.work {s t : World} (h : s.TasksLinked) (hs : s.worker.awaited = none)
    (hi : t.inflight = s.inflight) (hw : t.worker.awaited = none)
    (hcaller : ∀ p, t.worker.attempt = some p → p.caller = .idle ∨ p.caller = .completed)
    (hl : t.loader = s.loader) (hll : t.layoutLoaded = s.layoutLoaded) : t.TasksLinked := by
  constructor
  · rw [hi, h.worker, hs, hw]
  · exact hcaller
  · rw [hi, hl]; exact h.loader
  · rw [hl, hll]; exact h.loading

/-- The worker starts to wait for the lock. -/
theorem TasksLinked.await {s t : World} (h : s.TasksLinked) (r : LockRequest)
    (hs : s.worker.awaited = none) (hr : r.byWorker = true) (hi : t.inflight = s.inflight ++ [r])
    (hw : t.worker = .awaiting r) (hl : t.loader = s.loader)
    (hll : t.layoutLoaded = s.layoutLoaded) : t.TasksLinked := by
  have hm : r.isMetadata = false := by
    cases r with
    | metadata => cases hr
    | _ => rfl
  constructor
  · rw [hi, List.filter_append, h.worker, hs, hw]
    simp [hr, Worker.awaited]
  · rw [hw]
    intro p hp
    cases hp
  · rw [hi, List.filter_append, List.filter_cons_of_neg (by simp [hm]), hl]
    simpa using h.loader
  · rw [hl, hll]; exact h.loading

/-- The loading of the metadata gives the lock back. -/
theorem TasksLinked.acquired {s t : World} (h : s.TasksLinked) {c : Critical}
    (hop : s.operation = some c) (hop' : t.operation = none) (hc : c.request = .metadata)
    (hq : t.lockQueue = s.lockQueue) (hw : t.worker = s.worker) (hl : t.loader.awaited = none)
    (hll : t.layoutLoaded = s.layoutLoaded) : t.TasksLinked := by
  obtain ⟨-, hloaded, hnone⟩ := h.metadataHolder hop hc
  have hworker := h.worker
  rw [inflight_of_held hop, hc, List.filter_cons_of_neg (by decide)] at hworker
  constructor
  · rw [inflight_of_free hop', hq, hworker, hw]
  · rw [hw]; exact h.caller
  · rw [inflight_of_free hop', hq, hnone, hl]
    rfl
  · intro _
    rw [hll, hloaded]

/-- The loading of the metadata, with no task at the lock, goes on. -/
theorem TasksLinked.load {s t : World} (h : s.TasksLinked) (hs : s.loader.awaited = none)
    (hi : t.inflight = s.inflight) (hw : t.worker = s.worker) (hl : t.loader.awaited = none)
    (hll : t.loader ≠ .idle → t.layoutLoaded = false) : t.TasksLinked := by
  constructor
  · rw [hi, hw]; exact h.worker
  · rw [hw]; exact h.caller
  · rw [hi, h.loader, hs, hl]
  · exact hll

theorem TasksLinked.withState {s : World} (h : s.TasksLinked) (st : TorrentPlaybackState) :
    ({ s with state := st } : World).TasksLinked := h.congr rfl rfl rfl rfl

theorem TasksLinked.withNative {s : World} (h : s.TasksLinked) (n : Native) :
    ({ s with native := n } : World).TasksLinked := h.congr rfl rfl rfl rfl

/-- However the holder of the lock goes on, the tasks stay linked. -/
theorem TasksLinked.goes {s t : World} (h : s.TasksLinked) {c : Critical}
    (hop : s.operation = some c) (hm : c.request ≠ .metadata) (hgo : s.Goes c t) :
    t.TasksLinked := by
  have hmeta : c.request.isMetadata = false := by
    cases hr : c.request with
    | metadata => exact absurd hr hm
    | _ => rfl
  cases hgo with
  | moves d hd => exact h.move hop rfl hd rfl rfl rfl rfl
  | granted =>
    cases hby : c.request.byWorker with
    | false => exact h.leave hop rfl hby hmeta rfl (by simp [LockRequest.returnOk, hby]) rfl rfl
    | true =>
      refine h.done hop rfl hby rfl ?_ ?_ rfl rfl
      · simp [LockRequest.returnOk, hby, Worker.awaited]
      · simp [LockRequest.returnOk, hby, Worker.attempt]
  | dropped =>
    cases hby : c.request.byWorker with
    | false =>
      refine h.leave hop rfl hby hmeta rfl ?_ rfl rfl
      dsimp only [LockRequest.returnErr]
      split <;> simp_all [LockRequest.returnOk]
    | true =>
      -- only a pause tells the worker that it has failed
      refine h.done hop rfl hby rfl ?_ ?_ rfl rfl
      · dsimp only [LockRequest.returnErr]
        split <;> simp_all [LockRequest.returnOk, Worker.awaited]
      · dsimp only [LockRequest.returnErr]
        split
        · next p hp =>
          rw [if_pos hby]
          rw [hp] at hby
          rintro _ ⟨⟩
          simpa [LockRequest.byWorker] using hby
        · rw [LockRequest.returnOk, if_pos hby]
          rintro _ ⟨⟩
  | handedOver act hc =>
    have hleft : ({ s with operation := none } : World).TasksLinked :=
      h.leave hop rfl (by rw [hc]; rfl) hmeta rfl rfl rfl rfl
    exact hleft.wait (.pause (newPause s.now s.state act.generation (.activation act))) rfl rfl
      (by simp [inflight]) rfl rfl rfl

theorem TasksLinked.awaitLock {s : World} (h : s.TasksLinked) (hs : s.worker.awaited = none)
    {r : LockRequest} (hr : r.byWorker = true) : (s.awaitLock r).TasksLinked :=
  h.await r hs hr (by simp [World.awaitLock, inflight]) rfl rfl rfl

theorem TasksLinked.workerPause {s : World} (h : s.TasksLinked) (hs : s.worker.awaited = none)
    {p : Pause} (hp : p.caller = .idle ∨ p.caller = .completed) :
    (s.workerPause p).TasksLinked := by
  dsimp only [World.workerPause]
  split
  · exact h.work hs rfl rfl (by rintro _ ⟨⟩; exact hp) rfl rfl
  · exact h.awaitLock hs (by simp [LockRequest.byWorker, hp])

/-! ### Every step keeps the worker linked -/

section Steps

variable {s : World} (h : s.TasksLinked)

include h

theorem tasksLinked_request {a : RequestStep} (hg : a.guard s) : (a.effect s).TasksLinked := by
  cases a with
  | loadMetadata =>
    have hi : (RequestStep.loadMetadata.effect s).inflight = s.inflight ++ [.metadata] := by
      simp [RequestStep.effect, inflight]
    have hworker := h.worker
    have hloader := h.loader
    rw [hg.2] at hloader
    constructor
    · rw [hi, List.filter_append, hworker]
      simp [LockRequest.byWorker, RequestStep.effect]
    · exact h.caller
    · rw [hi, List.filter_append, hloader]
      rfl
    · exact fun _ => hg.1
  | startPlayback start complete =>
    dsimp only [RequestStep.effect]
    split
    · exact h
    · next st selection _ =>
      have hst : ({ s with state := st } : World).TasksLinked := h.congr rfl rfl rfl rfl
      exact hst.wait (.activate (.ofStart start selection complete)) rfl rfl (by simp [inflight]) rfl rfl rfl
  | refreshHls fileIdx complete =>
    dsimp only [RequestStep.effect]
    split
    · exact h.wait (.activate (.ofHls fileIdx _ complete)) rfl rfl (by simp [inflight]; rfl) rfl rfl rfl
    · exact h.congr rfl rfl rfl rfl
  | endHls fileIdx =>
    dsimp only [RequestStep.effect, World.endHls]
    split
    · exact h.congr rfl rfl rfl rfl
    · exact h.congr rfl rfl rfl rfl
    · exact h.congr rfl rfl rfl rfl
    · exact h.wait (.pause (newPause s.now _ _ .endHls)) rfl rfl (by simp [inflight]; rfl) rfl rfl rfl
  | _ => exact h.congr rfl rfl rfl rfl

theorem tasksLinked_load {a : LoadStep} (hg : a.guard s) : (a.effect s).TasksLinked := by
  have hawaited : ∀ {l : Loader}, s.loader = l → l.awaited = none → s.loader.awaited = none :=
    fun hl hn => hl ▸ hn
  cases a with
  | status => exact h.move hg rfl rfl rfl rfl rfl rfl
  | statusFail => exact h.acquired hg rfl rfl rfl rfl rfl rfl
  | permit hasMetadata isPaused =>
    dsimp only [LoadStep.effect]
    split
    · exact h.acquired hg rfl rfl rfl rfl rfl rfl
    · exact h.move hg rfl rfl rfl rfl rfl rfl
  | announce isPaused => exact h.acquired hg rfl rfl rfl rfl rfl rfl
  | query =>
    refine h.load (hawaited hg.1 rfl) rfl rfl ?_ (fun _ => h.loading ?_)
    · dsimp only [LoadStep.effect]
      split <;> rfl
    · rw [hg.1]; decide
  | probe =>
    refine h.load (hawaited hg rfl) rfl rfl ?_ (fun _ => h.loading ?_)
    · dsimp only [LoadStep.effect]
      split <;> rfl
    · rw [show s.loader = _ from hg]; decide
  | submit =>
    refine h.load (hawaited hg rfl) rfl rfl rfl (fun _ => h.loading ?_)
    rw [show s.loader = _ from hg]; decide
  | acknowledged =>
    refine h.load (hawaited hg.1 rfl) rfl rfl rfl (fun _ => h.loading ?_)
    rw [hg.1]; decide
  | record => exact h.load (hawaited hg rfl) rfl rfl rfl fun hl => absurd rfl hl
  | fail loader =>
    refine h.load (hawaited hg.1 ?_) rfl rfl rfl fun hl => absurd rfl hl
    cases loader with
    | requesting => cases hg.2
    | _ => rfl

theorem tasksLinked_activate {act : Activation} {a : ActivateStep} (hg : a.guard s act) :
    (a.effect s act).TasksLinked := by
  obtain ⟨hop, st, n, hgo, -⟩ := goes_activate hg
  exact (h.withState st |>.withNative n).goes hop (by rintro ⟨⟩) hgo

theorem tasksLinked_pause {p : Pause} {a : PauseStep} (hg : a.guard s p) :
    (a.effect s p).TasksLinked := by
  obtain ⟨c, hop, hc, st, n, hgo, -⟩ := goes_pause hg
  exact (h.withState st |>.withNative n).goes hop (by rw [hc]; rintro ⟨⟩) hgo

theorem tasksLinked_update {priorities : List ℤ} {caller : Updater} {a : UpdateStep}
    (hg : a.guard s priorities caller) : (a.effect s priorities caller).TasksLinked := by
  obtain ⟨c, hop, hc, n, hgo, -⟩ := goes_update hg
  refine (h.withNative n).goes hop ?_ hgo
  rw [hc]
  cases caller <;> rintro ⟨⟩

theorem tasksLinked_changes {baseline : ℤ} {cs : List PiecePriorityChange} {caller : Changer}
    (hop : s.operation = some (.changes baseline cs caller)) (found : Bool) :
    ((Action.changes baseline cs caller found).effect s).TasksLinked := by
  obtain ⟨n, hgo, -⟩ := goes_changes
  refine (h.withNative n).goes hop ?_ hgo
  cases caller <;> rintro ⟨⟩

theorem tasksLinked_receive {command : PlaybackCommand} (hs : s.worker = .idle) :
    (command.effect s).TasksLinked := by
  have hnone : s.worker.awaited = none := by rw [hs]; rfl
  cases command with
  | reader command =>
    have hpop : s.handled.TasksLinked := h.congr rfl rfl rfl rfl
    exact hpop.awaitLock (r := .reader command) hnone rfl
  | seedingEnabled enabled =>
    cases enabled with
    | true =>
      have hpop : s.handled.TasksLinked := h.congr rfl rfl rfl rfl
      exact hpop.awaitLock (r := .resumeSeeding) hnone rfl
    | false => exact h.congr rfl rfl rfl rfl
  | pieceVerified piece =>
    refine h.work hnone rfl ?_ ?_ rfl rfl
    all_goals
      simp only [PlaybackCommand.effect, World.pieceVerified, World.handled]
      split <;> simp [Worker.awaited, Worker.attempt]
  | _ => exact h.congr rfl rfl rfl rfl

theorem tasksLinked_worker {a : WorkerStep} (hg : a.guard s) : (a.effect s).TasksLinked := by
  cases a with
  | tick =>
    have hnone : s.worker.awaited = none := by rw [show s.worker = .idle from hg]; rfl
    dsimp only [WorkerStep.effect]
    split
    · exact h
    · exact h.work hnone rfl rfl (by rintro _ ⟨⟩) rfl rfl
  | decide now =>
    have hnone : s.worker.awaited = none := by rw [show s.worker = .ticking now from hg]; rfl
    dsimp only [WorkerStep.effect]
    split
    · exact h.work hnone rfl rfl (by rintro _ ⟨⟩) rfl rfl
    · exact h.work hnone rfl rfl (by rintro _ ⟨⟩; exact Or.inl rfl) rfl rfl
  | enterPause p =>
    have hnone : s.worker.awaited = none := by rw [show s.worker = .entering p from hg]; rfl
    refine h.workerPause hnone (h.caller p ?_)
    rw [show s.worker = .entering p from hg]
    rfl
  | keepActive p =>
    have hnone : s.worker.awaited = none := by rw [show s.worker = .keepingActive p from hg]; rfl
    exact h.work hnone rfl rfl (by rintro _ ⟨⟩) rfl rfl
  | failedPause p =>
    have hnone : s.worker.awaited = none := by rw [show s.worker = .pauseFailed p from hg]; rfl
    exact h.work hnone rfl rfl (by rintro _ ⟨⟩) rfl rfl
  | receive command => exact tasksLinked_receive h hg.1
  | checkComplete fileIdx generation complete =>
    have hnone : s.worker.awaited = none := by
      rw [show s.worker = .checkingComplete fileIdx generation from hg.1]; rfl
    dsimp only [WorkerStep.effect]
    split
    · refine (h.withState _).workerPause ?_ (Or.inr ?_)
      · exact hnone
      · rfl
    · exact h.work hnone rfl rfl (by rintro _ ⟨⟩) rfl rfl
  | reader command order =>
    obtain ⟨st, hgo, -⟩ := goes_reader command order
    exact (h.withState st).goes hg (by rintro ⟨⟩) hgo
  | resumeCheck =>
    dsimp only [WorkerStep.effect]
    split
    · exact h.done hg rfl rfl rfl rfl (by rintro _ ⟨⟩) rfl rfl
    · exact h.move hg rfl rfl rfl rfl rfl rfl
  | resumeNative => exact h.move hg rfl rfl rfl rfl rfl rfl
  | resumeFail => exact h.done hg rfl rfl rfl rfl (by rintro _ ⟨⟩) rfl rfl
  | resumePhase => exact h.done hg rfl rfl rfl rfl (by rintro _ ⟨⟩) rfl rfl

/-- **Every step keeps the worker linked.** -/
theorem tasksLinked_step {a : Action} (hg : a.guard s) : (a.effect s).TasksLinked := by
  cases a with
  | surroundings a => cases a <;> exact h.congr rfl rfl rfl rfl
  | request a => exact tasksLinked_request h hg
  | acquire r =>
    refine h.congr ?_ rfl rfl rfl
    rw [inflight_of_free hg.1, hg.2]
    simp [Action.effect, inflight]
  | load a => exact tasksLinked_load h hg
  | activate act a => exact tasksLinked_activate h hg
  | pause p a => exact tasksLinked_pause h hg
  | update priorities caller a => exact tasksLinked_update h hg
  | changes baseline cs caller found => exact tasksLinked_changes h hg found
  | worker a => exact tasksLinked_worker h hg

end Steps

theorem Initial.tasksLinked {s : World} (h : s.Initial) : s.TasksLinked := by
  constructor
  · rw [inflight_of_free h.operation, h.lockQueue, h.worker]
    rfl
  · rw [h.worker]
    rintro _ ⟨⟩
  · rw [inflight_of_free h.operation, h.lockQueue, h.loader]
    rfl
  · exact fun _ => h.layoutLoaded

/-- In every run the worker has at most the one task it waits for. -/
theorem tasksLinked_of_reach {C : World → Action → Prop} {s t : World} (hs : s.Initial)
    (h : coordinator.Reach C s t) : t.TasksLinked :=
  h.invariant hs.tasksLinked fun _ _ hi hg _ => tasksLinked_step hi hg

end World

end StreamServer.Playback

import StreamServer.Playback.Generations
import StreamServer.Playback.Permits

/-!
# Idle pauses and the permits acquired after them

An attempt to pause that began while nobody used the torrent has to be given up when
somebody comes in the meantime.  What invalidates it is a new generation: an attempt
compares its generation with the current one before it goes to the native torrent, and
again before it sets the phase.

Not everybody who comes starts a generation, and the comparison and the native pause
are separate steps.  So the loading of metadata is paused by an attempt that waits for
the lock, a reader by one that has just compared, and either by a call of `end_hls` that
is about to set the phase.  As long as nobody comes at such a moment, no attempt does
harm.

## Main definitions

* `World.Needed` — somebody holds a permit that needs the network.
* `World.Undisturbed` — no attempt that began idle can take effect any more.
* `World.AcquiresUndisturbed` — the condition on a step.
* `World.PausesIdly` — the steps by which an attempt that began idle takes effect.

## Main results

* `sparesNeeded_step` — while the torrent is needed, no attempt that began idle can take
  effect: every step that meets the condition keeps this.
* `never_pausedWhileNeeded` — **no attempt that began idle takes effect while the torrent
  is needed.**

## References

`enginefs/src/backend/libtorrent/playback.rs`, `acquire_metadata`, `pause_due_torrents`,
`perform_pause`, `end_hls`.
-/

namespace StreamServer.Playback

/-! ### Attempts -/

/-- The attempt to pause a task makes. -/
def LockRequest.attempt : LockRequest → Option Pause
  | .pause p => some p
  | _ => none

/-- The attempt the worker is about to make. -/
def Worker.entering? : Worker → Option Pause
  | .entering p => some p
  | _ => none

/-- An attempt that began idle has compared its generation and goes to the native
torrent. -/
def Critical.pausesIdly : Critical → Bool
  | .pause p .native => p.beganIdle
  | _ => false

namespace World

/-- The attempts to pause that may still take effect. -/
def attempts (s : World) : List Pause :=
  s.inflight.filterMap LockRequest.attempt ++ s.worker.entering?.toList

/-- Somebody holds a permit that needs the network: the one for the metadata, while there
is none, or one for a file that was incomplete. -/
def Needed (s : World) : Prop :=
  s.holdsMetadata = true ∧ s.native.hasMetadata = false ∨ ∃ p ∈ s.held, p.incomplete = true

/-- No attempt of this generation has begun as an idle one. -/
def NoIdleAttempt (s : World) : Prop :=
  ∀ p ∈ s.attempts, p.beganIdle = true → p.generation ≠ s.state.generation

/-- The holder of the lock does not pause an idle torrent. -/
def NoIdleHolder (s : World) : Prop := s.operation.elim false Critical.pausesIdly = false

/-- No `end_hls` is left that would restore a torrent paused idly. -/
def NoIdleRest (s : World) : Prop := EndHlsRest.restorePausedIdle true ∉ s.endings

/-- No attempt that began idle can take effect any more. -/
structure Undisturbed (s : World) : Prop where
  attempt : s.NoIdleAttempt
  holder : s.NoIdleHolder
  rest : s.NoIdleRest

instance (s : World) : Decidable s.Needed :=
  inferInstanceAs (Decidable (_ ∨ ∃ p ∈ s.held, _))

instance (s : World) : Decidable s.NoIdleAttempt :=
  inferInstanceAs (Decidable (∀ p ∈ s.attempts, _ → _))

instance (s : World) : Decidable s.NoIdleHolder := inferInstanceAs (Decidable (_ = _))

instance (s : World) : Decidable s.NoIdleRest := inferInstanceAs (Decidable (¬ _))

instance (s : World) : Decidable s.Undisturbed :=
  decidable_of_iff (s.NoIdleAttempt ∧ s.NoIdleHolder ∧ s.NoIdleRest)
    ⟨fun ⟨ha, hh, hr⟩ => ⟨ha, hh, hr⟩, fun h => ⟨h.attempt, h.holder, h.rest⟩⟩

/-- The request starts a generation, which overtakes every attempt. -/
def Overtakes (s : World) (start : LibtorrentPlaybackStart) (complete : Bool) : Prop :=
  s.state.changes start.fileIdx (s.state.startPriority start complete) = true ∧
    s.state.generation < maxGeneration

instance (s : World) (start : LibtorrentPlaybackStart) (complete : Bool) :
    Decidable (s.Overtakes start complete) := inferInstanceAs (Decidable (_ ∧ _))

/-- **The condition.**  The loading of missing metadata gets its permit, and a reader that
for an incomplete file, only when no attempt that began idle can take effect any more. -/
def AcquiresUndisturbed (s : World) : Action → Prop
  | .load (.permit false _) => s.Undisturbed
  | .request (.startPlayback start false) =>
      (s.state.startPlayback s.now s.seedingEnabled start false).isOk = true →
        (s.Overtakes start false ∨ s.NoIdleAttempt) ∧ s.NoIdleHolder ∧ s.NoIdleRest
  | _ => True

instance (s : World) (a : Action) : Decidable (s.AcquiresUndisturbed a) := by
  unfold AcquiresUndisturbed
  split <;> infer_instance

/-- An attempt that began idle pauses the native torrent or sets the phase. -/
def PausesIdly (s : World) : Action → Prop
  | .pause p .native => p.beganIdle = true
  | .pause p (.finish _ _) => p.beganIdle = true ∧ s.state.generation = p.generation
  | .request (.finishEndHls (.restorePausedIdle beganIdle)) => beganIdle = true
  | _ => False

instance (s : World) (a : Action) : Decidable (s.PausesIdly a) := by
  unfold PausesIdly
  split <;> infer_instance

/-! ### The invariant -/

/-- While the torrent is needed, no attempt that began idle can take effect. -/
structure SparesNeeded (s : World) : Prop where
  needed : s.Needed → s.Undisturbed
  /-- Metadata that has been seen is there. -/
  seen : ∀ isPaused, s.operation = some (.metadataPermit true isPaused) →
    s.native.hasMetadata = true

section Frame

variable {s t : World}

/-- A torrent with a permit counted is in use. -/
theorem hasActivity_of_counted (st : TorrentPlaybackState)
    (h : st.directPermits ≠ 0 ∨ st.metadataPermits ≠ 0) (now : ℕ) :
    st.hasActivity now = true := by
  simp only [TorrentPlaybackState.hasActivity, Bool.or_eq_true, decide_eq_true_eq]
  rcases h with h | h
  · exact Or.inl (Or.inl (Multiset.card_pos.mpr h))
  · exact Or.inl (Or.inr (Nat.pos_of_ne_zero h))

/-- A torrent that is needed has a permit counted. -/
theorem PermitsCounted.needed (h : s.PermitsCounted) (hn : s.Needed) :
    s.state.directPermits ≠ 0 ∨ s.state.metadataPermits ≠ 0 := by
  by_contra hzero
  rw [not_or, not_not, not_not] at hzero
  obtain ⟨hheld, hmeta⟩ := h.nobody hzero.1 hzero.2
  rcases hn with ⟨hholds, -⟩ | ⟨p, hp, -⟩
  · rw [hmeta] at hholds
    cases hholds
  · rw [hheld] at hp
    cases hp

/-- An attempt that begins while a permit is counted does not begin idle. -/
theorem beganIdle_of_active {st : TorrentPlaybackState} {now generation : ℕ}
    {caller : PauseCaller} (h : st.hasActivity now = true) :
    (newPause now st generation caller).beganIdle = false := by
  rw [newPause, h]
  rfl

theorem pausesIdly_of_request {c : Critical} (hc : ∀ p, c.request ≠ .pause p) :
    c.pausesIdly = false := by
  cases c with
  | pause p pc => exact absurd rfl (hc p)
  | _ => rfl

/-- The attempt of the holder is under way. -/
theorem mem_attempts_of_holder {c : Critical} {p : Pause}
    (hop : s.operation = some c) (hc : c.request = .pause p) : p ∈ s.attempts := by
  refine List.mem_append_left _ (List.mem_filterMap.mpr ⟨.pause p, ?_, rfl⟩)
  rw [inflight_of_held hop, hc]
  exact List.mem_cons_self

/-- No attempt is ahead of the state. -/
theorem GenerationsBounded.attempt (hb : s.GenerationsBounded) {p : Pause}
    (hp : p ∈ s.attempts) : p.generation ≤ s.state.generation := by
  rcases List.mem_append.mp hp with hp | hp
  · obtain ⟨r, hr, hrp⟩ := List.mem_filterMap.mp hp
    cases r with
    | pause q =>
      rw [← Option.some.inj hrp]
      exact hb.inflight _ hr
    | _ => cases hrp
  · have hw := hb.worker
    cases hworker : s.worker with
    | entering q =>
      rw [hworker] at hp hw
      rw [List.mem_singleton.mp hp]
      exact hw
    | _ => rw [hworker] at hp; cases hp

/-- Attempts stay overtaken, whatever generation comes next. -/
theorem NoIdleAttempt.next (h : s.NoIdleAttempt) (hb : s.GenerationsBounded)
    (hle : s.state.generation ≤ t.state.generation)
    (hatt : ∀ p ∈ t.attempts, p ∈ s.attempts ∨ p.beganIdle = false) : t.NoIdleAttempt := by
  intro p hp hidle
  rcases hatt p hp with hmem | hbusy
  · have hne := h p hmem hidle
    have hbound := hb.attempt hmem
    omega
  · rw [hbusy] at hidle
    cases hidle

/-- A step by which nobody comes. -/
theorem SparesNeeded.next (h : s.SparesNeeded) (hb : s.GenerationsBounded)
    (hheld : ∀ p ∈ t.held, p.incomplete = true → p ∈ s.held)
    (hloading : t.holdsMetadata = true → t.native.hasMetadata = false → s.holdsMetadata = true)
    (hle : s.state.generation ≤ t.state.generation)
    (hatt : s.Needed → ∀ p ∈ t.attempts, p ∈ s.attempts ∨ p.beganIdle = false)
    (hop : (s.Needed → t.NoIdleHolder) ∨ t.operation = s.operation)
    (hend : s.Needed → s.NoIdleRest → t.NoIdleRest)
    (hmeta : s.native.hasMetadata = true → t.native.hasMetadata = true)
    (hseen : t.operation = s.operation ∨ ∀ isPaused,
      t.operation = some (.metadataPermit true isPaused) → t.native.hasMetadata = true) :
    t.SparesNeeded := by
  have hneeded : t.Needed → s.Needed := by
    rintro (⟨hholds, hnone⟩ | ⟨p, hp, hincomplete⟩)
    · refine Or.inl ⟨hloading hholds hnone, ?_⟩
      by_contra hs
      rw [hmeta (eq_true_of_ne_false hs)] at hnone
      cases hnone
    · exact Or.inr ⟨p, hheld p hp hincomplete, hincomplete⟩
  refine ⟨fun hn => ?_, fun isPaused ht => ?_⟩
  · have hs := h.needed (hneeded hn)
    refine ⟨hs.attempt.next hb hle (hatt (hneeded hn)), ?_, hend (hneeded hn) hs.rest⟩
    rcases hop with hnone | hsame
    · exact hnone (hneeded hn)
    · rw [NoIdleHolder, hsame]
      exact hs.holder
  · rcases hseen with hsame | hseen
    · rw [hsame] at ht
      exact hmeta (h.seen isPaused ht)
    · exact hseen isPaused ht

/-- The attempts that are new are among the new tasks, or the worker's. -/
theorem attempts_new (hin : ∀ r ∈ t.inflight, r ∈ s.inflight ∨ ∀ p ∈ r.attempt, p.beganIdle = false)
    (hw : ∀ p ∈ t.worker.entering?, p ∈ s.worker.entering? ∨ p.beganIdle = false) :
    ∀ p ∈ t.attempts, p ∈ s.attempts ∨ p.beganIdle = false := by
  intro p hp
  rcases List.mem_append.mp hp with hp | hp
  · obtain ⟨r, hr, hrp⟩ := List.mem_filterMap.mp hp
    rcases hin r hr with hr | hbusy
    · exact Or.inl (List.mem_append_left _ (List.mem_filterMap.mpr ⟨r, hr, hrp⟩))
    · exact Or.inr (hbusy p hrp)
  · rcases hw p (Option.mem_toList.mp hp) with hp | hbusy
    · exact Or.inl (List.mem_append_right _ (Option.mem_toList.mpr hp))
    · exact Or.inr hbusy

/-- The same, for a step that changes little. -/
theorem SparesNeeded.frame (h : s.SparesNeeded) (hb : s.GenerationsBounded)
    (hheld : ∀ p ∈ t.held, p.incomplete = true → p ∈ s.held)
    (hloading : t.holdsMetadata = true → t.native.hasMetadata = false →
      s.holdsMetadata = true)
    (hle : s.state.generation ≤ t.state.generation)
    (hin : s.Needed → ∀ r ∈ t.inflight, r ∈ s.inflight ∨ ∀ p ∈ r.attempt, p.beganIdle = false)
    (hw : s.Needed → ∀ p ∈ t.worker.entering?, p ∈ s.worker.entering? ∨ p.beganIdle = false)
    (hop : (s.Needed → t.NoIdleHolder) ∨ t.operation = s.operation)
    (hend : s.Needed → s.NoIdleRest → t.NoIdleRest)
    (hmeta : s.native.hasMetadata = true → t.native.hasMetadata = true)
    (hseen : t.operation = s.operation ∨ ∀ isPaused,
      t.operation = some (.metadataPermit true isPaused) → t.native.hasMetadata = true) : t.SparesNeeded :=
  h.next hb hheld hloading hle (fun hn => attempts_new (hin hn) (hw hn)) hop hend hmeta hseen

/-- What the tasks of the torrent have and wait for, and whether its metadata is there. -/
def possessions (s : World) :=
  (s.permits, s.lockQueue, s.operation, s.loader, s.endings, s.native.hasMetadata)

/-- The tasks stay as they are, and the worker takes up no new attempt that began idle. -/
theorem SparesNeeded.stays (h : s.SparesNeeded) (hb : s.GenerationsBounded)
    (hsame : t.possessions = s.possessions) (hgen : s.state.generation ≤ t.state.generation)
    (hw : s.Needed → ∀ p ∈ t.worker.entering?, p ∈ s.worker.entering? ∨ p.beganIdle = false) :
    t.SparesNeeded := by
  simp only [possessions, Prod.mk.injEq] at hsame
  obtain ⟨hp, hq, hop, hl, hend, hn⟩ := hsame
  have hin : t.inflight = s.inflight := by rw [inflight, inflight, hop, hq]
  refine h.frame hb ?_ ?_ hgen ?_ hw (Or.inr hop) ?_ ?_ (Or.inl hop)
  · rw [held, held, hp, hin]
    exact fun _ hp _ => hp
  · rw [holdsMetadata, holdsMetadata, hl, hop]
    exact fun hm _ => hm
  · rw [hin]
    exact fun _ _ => Or.inl
  · rw [NoIdleRest, NoIdleRest, hend]
    exact fun _ => id
  · rw [hn]
    exact id

/-- Only the loading of the metadata looks whether it is there. -/
theorem not_seen {c : Critical} (hc : c.request ≠ .metadata) (isPaused : Bool) :
    c ≠ .metadataPermit true isPaused := by
  rintro rfl
  exact hc rfl

theorem held_wait {r : LockRequest} (hr : r.permit = none)
    (hin : t.inflight = s.inflight ++ [r]) (hp : t.permits = s.permits) :
    t.held = s.held := by
  rw [held, held, hp, hin]
  simp [hr]

/-- A task without a permit starts to wait; if it is an attempt, it did not begin idle, or
nobody is there. -/
theorem SparesNeeded.wait (h : s.SparesNeeded) (hb : s.GenerationsBounded) (r : LockRequest)
    (hr : r.permit = none) (hatt : s.Needed → ∀ p ∈ r.attempt, p.beganIdle = false)
    (hin : t.inflight = s.inflight ++ [r]) (hp : t.permits = s.permits)
    (hloading : t.holdsMetadata = s.holdsMetadata)
    (hle : s.state.generation ≤ t.state.generation)
    (hw : s.Needed → ∀ p ∈ t.worker.entering?, p ∈ s.worker.entering? ∨ p.beganIdle = false)
    (hop : t.operation = s.operation) (hend : t.endings = s.endings)
    (hmeta : t.native = s.native) : t.SparesNeeded := by
  refine h.frame hb ?_ ?_ hle (fun hn r' hr' => ?_) hw (Or.inr hop) ?_ ?_ (Or.inl hop)
  · rw [held_wait hr hin hp]
    exact fun _ hp _ => hp
  · rw [hloading]
    exact fun hm _ => hm
  · rw [hin, List.mem_append, List.mem_singleton] at hr'
    rcases hr' with hr' | rfl
    · exact Or.inl hr'
    · exact Or.inr (hatt hn)
  · rw [NoIdleRest, NoIdleRest, hend]
    exact fun _ => id
  · rw [hmeta]
    exact id

/-- The worker does not go on to an attempt. -/
theorem Goes.entering {c : Critical} (hgo : s.Goes c t) :
    ∀ p ∈ t.worker.entering?, p ∈ s.worker.entering? := by
  have hok : ∀ p ∈ (c.request.returnOk s.worker).entering?, p ∈ s.worker.entering? := by
    unfold LockRequest.returnOk
    split
    · rintro p ⟨⟩
    · exact fun _ => id
  cases hgo with
  | granted => exact hok
  | dropped =>
    unfold LockRequest.returnErr
    split
    · split
      · rintro p ⟨⟩
      · exact fun _ => id
    · exact hok
  | _ => exact fun _ => id

/-- However the holder of the lock goes on, nobody comes; it must not be an attempt that
has just found itself current. -/
theorem SparesNeeded.goes (h : s.SparesNeeded) (hb : s.GenerationsBounded) {c : Critical}
    (hop : s.operation = some c) (hc : c.request ≠ .metadata) (hgo : s.Goes c t)
    (hbusy : s.Needed → (∃ act, c.request = .activate act) → s.state.hasActivity s.now = true)
    (hholder : (∀ p, c.request ≠ .pause p) ∨ (s.Needed → t.NoIdleHolder)) :
    t.SparesNeeded := by
  have hattempt : s.Needed → ∀ r ∈ t.inflight, r ∈ s.inflight ∨
      ∀ p ∈ r.attempt, p.beganIdle = false := by
    intro hn r hr
    rcases hgo.inflight hop r hr with hr | ⟨act, hact, rfl⟩
    · exact Or.inl hr
    · right
      rintro p ⟨⟩
      exact beganIdle_of_active (hbusy hn ⟨act, hact⟩)
  have hheld := hgo.held hop
  have hloading := hgo.holdsMetadata hop hc
  have hentering := hgo.entering
  cases hgo with
  | moves d hd =>
    have hmoved : s.Needed → World.NoIdleHolder { s with operation := some d } := by
      rcases hholder with hreq | hnone
      · exact fun _ => pausesIdly_of_request (by rwa [hd])
      · exact hnone
    refine h.frame hb (fun p hp _ => hheld p hp) (fun hm _ => hloading ▸ hm) le_rfl hattempt
      (fun _ p hp => Or.inl (hentering p hp)) (Or.inl hmoved) (fun _ => id) id (Or.inr ?_)
    intro isPaused ht
    exact absurd (Option.some.inj ht) (not_seen (by rwa [hd]) isPaused)
  | _ =>
    exact h.frame hb (fun p hp _ => hheld p hp) (fun hm _ => hloading ▸ hm) le_rfl hattempt
      (fun _ p hp => Or.inl (hentering p hp)) (Or.inl fun _ => rfl) (fun _ => id) id
      (Or.inr (by rintro _ ⟨⟩))

end Frame

/-! ### Every step keeps it -/

section Steps

variable {s : World} (h : s.SparesNeeded) (hb : s.GenerationsBounded) (hcount : s.PermitsCounted)

include h hb hcount

omit hcount in
/-- The state is changed, but neither the permits nor the tasks. -/
theorem SparesNeeded.update (st : TorrentPlaybackState) (n : Native)
    (hst : st.generation = s.state.generation)
    (hn : n.hasMetadata = s.native.hasMetadata) : (s.update st n).SparesNeeded :=
  h.frame hb (fun _ hp _ => hp) (fun hm _ => hm) hst.ge (fun _ _ => Or.inl)
    (fun _ _ => Or.inl) (Or.inr rfl) (fun _ => id) (fun hs => hn.trans hs) (Or.inl rfl)

omit hcount in
/-- A reader of a file that is known to be complete, or one that comes when nothing is to be
feared. -/
theorem sparesNeeded_startPlayback {start : LibtorrentPlaybackStart} {complete : Bool}
    (hc : s.AcquiresUndisturbed (.request (.startPlayback start complete))) :
    ((RequestStep.startPlayback start complete).effect s).SparesNeeded := by
  dsimp only [RequestStep.effect]
  split
  · exact h
  · next st selection hgranted =>
    have hsel := TorrentPlaybackState.startPlayback_spec _ _ hgranted
    have hspec := s.state.select_spec s.now start.fileIdx (s.state.startPriority start complete)
      true false (!complete || s.seedingEnabled) start.intent.isForeground
    rw [← hsel] at hspec
    have hle : s.state.generation ≤ st.generation := by
      rcases hspec with ⟨-, heq⟩ | ⟨-, heq⟩
      · exact (congrArg TorrentPlaybackState.generation (Prod.ext_iff.mp heq).1).ge
      · exact (le_nextGeneration hb.max).trans
          (congrArg TorrentPlaybackState.generation (Prod.ext_iff.mp heq).1).ge
    obtain ⟨t, ht⟩ : ∃ t : World, t = { s with
        state := st
        lockQueue := s.lockQueue ++ [.activate (.ofStart start selection complete)] } := ⟨_, rfl⟩
    have hin : t.inflight = s.inflight ++ [.activate (.ofStart start selection complete)] :=
      inflight_wait (by rw [ht]) (by rw [ht])
    -- an activation that waits is no attempt to pause
    have hattempts : t.attempts = s.attempts := by
      rw [attempts, attempts, hin, ht, List.filterMap_append]
      simp [LockRequest.attempt]
    rw [← ht]
    cases complete with
    | true =>
      refine h.frame hb ?_ ?_ (by rw [ht]; exact hle) ?_ ?_ (Or.inr (by rw [ht])) ?_ ?_
        (Or.inl (by rw [ht]))
      · intro p hp hincomplete
        rw [held, hin, List.flatMap_append, ← List.append_assoc, ht, List.mem_append] at hp
        rcases hp with hp | hp
        · exact hp
        · -- the permit of a complete file
          rw [List.flatMap_singleton] at hp
          rw [← Option.mem_some_iff.mp (Option.mem_toList.mp hp)] at hincomplete
          cases hincomplete
      · rw [ht]
        exact fun hm _ => hm
      · intro _ r hr
        rw [hin, List.mem_append, List.mem_singleton] at hr
        rcases hr with hr | rfl
        · exact Or.inl hr
        · exact Or.inr (by rintro p ⟨⟩)
      · rw [ht]
        exact fun _ _ => Or.inl
      · rw [ht]
        exact fun _ => id
      · rw [ht]
        exact id
    | false =>
      obtain ⟨hattempt, hholder, hrest⟩ := hc (by rw [hgranted]; rfl)
      have hnone : t.NoIdleAttempt := by
        rcases hattempt with ⟨hchanged, hlt⟩ | hnone
        · -- the new generation overtakes whatever is under way
          have hnew : t.state.generation = s.state.generation + 1 := by
            rw [ht, ← nextGeneration_of_lt hlt]
            rcases hspec with ⟨hsame, -⟩ | ⟨-, heq⟩
            · rw [hchanged] at hsame
              cases hsame
            · exact congrArg TorrentPlaybackState.generation (Prod.ext_iff.mp heq).1
          intro p hp _
          rw [hattempts] at hp
          have hbound := hb.attempt hp
          omega
        · refine hnone.next hb (by rw [ht]; exact hle) fun p hp => Or.inl ?_
          rwa [hattempts] at hp
      rw [ht] at hnone ⊢
      exact ⟨fun _ => ⟨hnone, hholder, hrest⟩, h.seen⟩

theorem sparesNeeded_request {a : RequestStep} (hg : a.guard s)
    (hc : s.AcquiresUndisturbed (.request a)) : (a.effect s).SparesNeeded := by
  have hnext := le_nextGeneration hb.max
  cases a with
  | setSeedingEnabled enabled => exact h.stays hb rfl le_rfl fun _ _ => Or.inl
  | loadMetadata =>
    refine h.wait hb .metadata rfl (by rintro _ p ⟨⟩) (inflight_wait (s := s) rfl rfl) rfl ?_
      le_rfl (fun _ _ => Or.inl) rfl rfl rfl
    simp [holdsMetadata, RequestStep.effect, hg.2, Loader.holdsPermit]
  | startPlayback start complete => exact sparesNeeded_startPlayback h hb hc
  -- HLS playback acquires nothing, so nothing is needed that was not needed before
  | refreshHls fileIdx complete =>
    obtain ⟨hgen, hcases⟩ := s.state.select_generation s.now fileIdx
      (TorrentPlaybackState.hlsPriority complete) false true (!complete || s.seedingEnabled) false
    have hle : s.state.generation ≤
        (s.state.refreshHls s.now s.seedingEnabled fileIdx complete).1.generation := by
      rw [TorrentPlaybackState.refreshHls]
      rcases hcases with heq | heq <;> omega
    dsimp only [RequestStep.effect]
    split
    · exact h.wait hb (.activate (.ofHls fileIdx _ complete)) rfl (by rintro _ p ⟨⟩)
        (inflight_wait (s := s) rfl rfl) rfl rfl hle (fun _ _ => Or.inl) rfl rfl rfl
    · exact h.stays hb rfl hle fun _ _ => Or.inl
  | endHls fileIdx =>
    dsimp only [RequestStep.effect, World.endHls, TorrentPlaybackState.endHls]
    by_cases hignored : s.state.selectedFile ≠ some fileIdx ∧ s.state.hlsLastActivity = none
    · rw [if_pos hignored]
      exact h
    · rw [if_neg hignored]
      split
      · exact h.stays hb rfl hnext fun _ _ => Or.inl
      · refine h.frame hb (fun _ hp _ => hp) (fun hm _ => hm) hnext (fun _ _ => Or.inl)
          (fun _ _ => Or.inl) (Or.inr rfl) (fun _ hr => ?_) id (Or.inl rfl)
        simpa [NoIdleRest] using hr
      · refine h.frame hb (fun _ hp _ => hp) (fun hm _ => hm) hnext (fun _ _ => Or.inl)
          (fun _ _ => Or.inl) (Or.inr rfl) (fun hn hr => ?_) id (Or.inl rfl)
        have hactive : s.state.beginPause.hasActivity s.now = true :=
          hasActivity_of_counted s.state.beginPause (hcount.needed hn) s.now
        rw [NoIdleRest, hactive]
        simpa [NoIdleRest] using hr
      · next generation _ =>
        refine h.wait hb (.pause (newPause s.now s.state.beginPause generation .endHls)) rfl ?_
          (inflight_wait (s := s) rfl rfl) rfl rfl hnext (fun _ _ => Or.inl) rfl rfl rfl
        -- a permit that is held counts as activity: the pause does not begin idle
        rintro hn p ⟨⟩
        exact beganIdle_of_active
          (hasActivity_of_counted s.state.beginPause (hcount.needed hn) s.now)
  | finishEndHls rest =>
    refine h.frame hb (fun _ hp _ => hp) (fun hm _ => hm) ?_ (fun _ _ => Or.inl)
      (fun _ _ => Or.inl) (Or.inr rfl) (fun _ hr hmem => hr (List.mem_of_mem_erase hmem)) id
      (Or.inl rfl)
    cases rest with
    | keepActiveForSeeding generation =>
      rcases s.state.keepActiveForSeeding_spec generation with heq | ⟨-, -, heq⟩ <;>
        simp only [RequestStep.effect, EndHlsRest.effect, heq, le_refl]
    | restorePausedIdle beganIdle => exact le_rfl
  | replaceWindow permit assignments => exact h.stays hb rfl le_rfl fun _ _ => Or.inl
  -- fewer permits are held, and no pause is begun
  | dropPermit permit =>
    refine h.frame hb (fun p hp _ => ?_) (fun hm _ => hm) le_rfl (fun _ _ => Or.inl) (fun _ _ => Or.inl)
      (Or.inr rfl) (fun _ => id) id (Or.inl rfl)
    rcases List.mem_append.mp hp with hp | hp
    · exact List.mem_append_left _ (List.mem_of_mem_erase hp)
    · exact List.mem_append_right _ hp

omit hcount in
/-- The task that loads the metadata goes on under the lock, or gives it back. -/
theorem SparesNeeded.loads {t : World} {c : Critical} (hop : s.operation = some c)
    (hc : c.request = .metadata)
    (hop' : t.operation = none ∨ ∃ d, t.operation = some d ∧ d.request = .metadata)
    (hloading : t.holdsMetadata = true → t.native.hasMetadata = false → s.holdsMetadata = true)
    (hseen : ∀ isPaused, t.operation = some (.metadataPermit true isPaused) →
      s.native.hasMetadata = true)
    (hp : t.permits = s.permits) (hq : t.lockQueue = s.lockQueue)
    (hw : t.worker = s.worker) (hend : t.endings = s.endings)
    (hgen : t.state.generation = s.state.generation)
    (hmeta : t.native.hasMetadata = s.native.hasMetadata) : t.SparesNeeded := by
  have hin : ∀ r ∈ t.inflight, r ∈ s.inflight := by
    intro r hr
    rcases hop' with hnone | ⟨d, hd, hreq⟩
    · rw [inflight_of_free hnone, hq] at hr
      exact List.mem_append_right _ hr
    · rwa [inflight_move hop hd (hreq.trans hc.symm) hq] at hr
  have hheld : ∀ p ∈ t.held, p ∈ s.held := by
    intro p hmem
    rcases List.mem_append.mp hmem with hmem | hmem
    · rw [hp] at hmem
      exact List.mem_append_left _ hmem
    · obtain ⟨r, hr, hrp⟩ := List.mem_flatMap.mp hmem
      exact List.mem_append_right _ (List.mem_flatMap.mpr ⟨r, hin r hr, hrp⟩)
  have hholder : t.NoIdleHolder := by
    rw [NoIdleHolder]
    rcases hop' with hnone | ⟨d, hd, hreq⟩
    · rw [hnone]
      rfl
    · rw [hd]
      exact pausesIdly_of_request (by rw [hreq]; rintro p ⟨⟩)
  refine h.frame hb (fun p hmem _ => hheld p hmem) hloading hgen.ge
    (fun _ r hr => Or.inl (hin r hr)) ?_ (Or.inl fun _ => hholder) ?_ (fun hs => hmeta.trans hs)
    (Or.inr fun isPaused ht => hmeta.trans (hseen isPaused ht))
  · rw [hw]
    exact fun _ _ => Or.inl
  · rw [NoIdleRest, NoIdleRest, hend]
    exact fun _ => id

omit hcount in
theorem sparesNeeded_load {a : LoadStep} (hg : a.guard s)
    (hc : s.AcquiresUndisturbed (.load a)) : (a.effect s).SparesNeeded := by
  cases a with
  | status =>
    refine h.loads hb hg rfl (Or.inr ⟨_, rfl, rfl⟩) ?_ (fun isPaused ht => ?_) rfl rfl rfl
      rfl rfl rfl
    · simp only [holdsMetadata, LoadStep.effect, Option.elim_some, Critical.holdsMetadata,
        Bool.or_false]
      exact fun hm _ => by rw [hm, Bool.true_or]
    · simp only [LoadStep.effect, Option.some.injEq, Critical.metadataPermit.injEq] at ht
      exact ht.1
  | statusFail =>
    refine h.loads hb hg rfl (Or.inl rfl) ?_ (by rintro _ ⟨⟩) rfl rfl rfl rfl rfl rfl
    rintro ⟨⟩
  | permit hasMetadata isPaused =>
    have hop : s.operation = some (.metadataPermit hasMetadata isPaused) := hg
    cases hasMetadata with
    | true =>
      have hmeta := h.seen isPaused hop
      refine h.loads hb hop rfl (Or.inl rfl) (fun _ hnone => ?_) (fun _ _ => hmeta)
        rfl rfl rfl rfl rfl rfl
      rw [show s.native.hasMetadata = false from hnone] at hmeta
      cases hmeta
    | false =>
      -- the torrent is needed from now on, and nothing is to be feared
      have hs : s.Undisturbed := hc
      refine ⟨fun _ => ⟨fun p hp => ?_, rfl, hs.rest⟩, by rintro _ ⟨⟩⟩
      refine hs.attempt p ?_
      rwa [attempts, inflight_move (t := (LoadStep.permit false isPaused).effect s) hop rfl rfl rfl] at hp
  | announce isPaused =>
    have hop : s.operation = some (.metadataAnnounce isPaused) := hg
    refine h.loads hb hop rfl (Or.inl rfl) (fun _ _ => ?_) (by rintro _ ⟨⟩) rfl rfl rfl rfl rfl rfl
    rw [holdsMetadata, hop]
    exact Bool.or_true _
  | query =>
    refine h.frame hb (fun _ hp _ => hp) (fun _ _ => ?_) le_rfl (fun _ _ => Or.inl) (fun _ _ => Or.inl)
      (Or.inr rfl) (fun _ => id) id (Or.inl rfl)
    rw [holdsMetadata, hg.1]
    rfl
  | probe =>
    refine h.frame hb (fun _ hp _ => hp) (fun _ _ => ?_) le_rfl (fun _ _ => Or.inl) (fun _ _ => Or.inl)
      (Or.inr rfl) (fun _ => id) id (Or.inl rfl)
    rw [holdsMetadata, show s.loader = _ from hg]
    rfl
  | submit =>
    refine h.frame hb (fun _ hp _ => hp) (fun _ _ => ?_) le_rfl (fun _ _ => Or.inl) (fun _ _ => Or.inl)
      (Or.inr rfl) (fun _ => id) id (Or.inl rfl)
    rw [holdsMetadata, show s.loader = _ from hg]
    rfl
  | acknowledged =>
    refine h.frame hb (fun _ hp _ => hp) (fun _ _ => ?_) le_rfl (fun _ _ => Or.inl) (fun _ _ => Or.inl)
      (Or.inr rfl) (fun _ => id) id (Or.inl rfl)
    rw [holdsMetadata, hg.1]
    rfl
  | record completeFromStart =>
    refine h.frame hb (fun _ hp _ => hp) (fun _ _ => ?_) le_rfl (fun _ _ => Or.inl) (fun _ _ => Or.inl)
      (Or.inr rfl) (fun _ => id) id (Or.inl rfl)
    rw [holdsMetadata, show s.loader = _ from hg]
    rfl
  | fail loader =>
    refine h.frame hb (fun _ hp _ => hp) (fun hm _ => ?_) le_rfl (fun _ _ => Or.inl) (fun _ _ => Or.inl)
      (Or.inr rfl) (fun _ => id) id (Or.inl rfl)
    simp only [holdsMetadata, LoadStep.effect, loadDone, Loader.holdsPermit, Bool.false_or] at hm
    rw [holdsMetadata, hm, Bool.or_true]

omit hcount in
theorem sparesNeeded_pause {p : Pause} {a : PauseStep} (hg : a.guard s p) :
    (a.effect s p).SparesNeeded := by
  obtain ⟨c, hop, hreq, st, n, hgo, hst, hmeta, -⟩ := goes_pause hg
  have hgen : st.generation = s.state.generation := by
    rcases hst with rfl | ⟨zeros, -, rfl⟩
    · rfl
    · unfold TorrentPlaybackState.finishPause
      split <;> rfl
  have hmine : p ∈ s.attempts := mem_attempts_of_holder hop hreq
  have hfree : ∀ {t : World}, t.operation = none → t.NoIdleHolder := by
    intro t ht
    rw [NoIdleHolder, ht]
    rfl
  refine (h.update hb st n hgen hmeta).goes (hb.update st n hgen) hop
    (by rw [hreq]; rintro ⟨⟩) hgo ?_ (Or.inr fun hn => ?_)
  · rintro - ⟨act, hact⟩
    rw [hreq] at hact
    cases hact
  have hneeded : s.Needed := by
    rw [Needed, ← hmeta]
    exact hn
  cases a with
  | check =>
    dsimp only [PauseStep.effect]
    split
    · next hcurrent =>
      -- an attempt that finds itself current did not begin idle
      by_contra hidle
      exact (h.needed hneeded).attempt p hmine (eq_true_of_ne_false hidle) hcurrent.symm
    · exact hfree (operation_pauseOk s p)
  | native => exact rfl
  | confirmed =>
    dsimp only [PauseStep.effect]
    split
    · exact rfl
    · exact hfree (operation_pauseOk s p)
  | compare zeros =>
    dsimp only [PauseStep.effect]
    split <;> exact rfl
  | finish zeros applied => exact hfree (operation_pauseOk _ p)
  | fail pc => exact hfree (operation_pauseErr s p)

theorem sparesNeeded_update {v : List ℤ} {caller : Updater} {a : UpdateStep}
    (hg : a.guard s v caller) : (a.effect s v caller).SparesNeeded := by
  obtain ⟨c, hop, hreq, n, hgo, hmeta, -⟩ := goes_update hg
  have hc : c.request ≠ .metadata := by
    rw [hreq]
    cases caller <;> rintro ⟨⟩
  have hcounts : (s.update s.state n).PermitsCounted := hcount.keep ⟨rfl, rfl⟩ rfl rfl rfl
  refine (h.update hb s.state n rfl hmeta).goes (hb.update s.state n rfl) hop hc hgo
    (fun hn _ => hasActivity_of_counted s.state (hcounts.needed hn) s.now) (Or.inr fun _ => ?_)
  -- an update goes on to the end of the pause
  have hdone : (s.updateDone v caller).NoIdleHolder := by cases caller <;> rfl
  cases a with
  | probe =>
    dsimp only [UpdateStep.effect]
    split
    · exact hdone
    · exact rfl
  | submit => exact rfl
  | acknowledged => exact hdone
  | fail pc =>
    cases caller with
    | activation act => exact rfl
    | pause p =>
      rw [NoIdleHolder, show ((UpdateStep.fail pc).effect s v (.pause p)).operation = none from
        operation_pauseErr s p]
      rfl

omit hcount in
/-- The worker goes on; an attempt in its hand is not new or did not begin idle. -/
theorem SparesNeeded.works (st : TorrentPlaybackState) (w : Worker)
    (hgen : s.state.generation ≤ st.generation)
    (hw : s.Needed → ∀ p ∈ w.entering?, p ∈ s.worker.entering? ∨ p.beganIdle = false) :
    ({ s with state := st, worker := w } : World).SparesNeeded :=
  h.stays hb rfl hgen hw

omit hcount in
/-- The worker goes on to wait for the lock, with an attempt that is under way already or
did not begin idle. -/
theorem SparesNeeded.workerPause {p : Pause} (hp : p.permit = none)
    (hidle : s.Needed → p ∈ s.attempts ∨ p.beganIdle = false) :
    (s.workerPause p).SparesNeeded := by
  unfold World.workerPause
  split
  · exact h.works hb s.state (.keepingActive p) le_rfl (by rintro _ q ⟨⟩)
  · have hin : (s.awaitLock (.pause p)).inflight = s.inflight ++ [.pause p] :=
      inflight_wait (s := s) rfl rfl
    refine h.next hb ?_ (fun hm _ => hm) le_rfl (fun hn q hq => ?_) (Or.inr rfl)
      (fun _ => id) id (Or.inl rfl)
    · rw [held_wait (r := .pause p) hp hin rfl]
      exact fun _ hp _ => hp
    · rw [attempts, hin, List.filterMap_append, List.append_assoc] at hq
      rcases List.mem_append.mp hq with hq | hq
      · exact Or.inl (List.mem_append_left _ hq)
      · rw [List.mem_singleton.mp hq]
        exact hidle hn

omit hcount in
theorem sparesNeeded_receive {command : PlaybackCommand} : (command.effect s).SparesNeeded := by
  -- a command that waits for the lock
  have hwait : ∀ r : LockRequest, r.permit = none → r.attempt = none →
      (s.handled.awaitLock r).SparesNeeded := by
    intro r hr hattempt
    refine h.wait hb r hr ?_ (inflight_wait (s := s) rfl rfl) rfl rfl le_rfl (by rintro _ p ⟨⟩) rfl rfl rfl
    intro _ p hp
    rw [hattempt] at hp
    cases hp
  cases command with
  | reader command => exact hwait (.reader command) rfl rfl
  | releaseMetadata =>
    obtain ⟨deadline, heq, -⟩ := TorrentPlaybackState.scheduleIdleIfNeeded_spec
      { s.state with metadataPermits := s.state.metadataPermits - 1 } s.now
    refine h.stays hb rfl ?_ fun _ _ => Or.inl
    simp only [PlaybackCommand.effect, TorrentPlaybackState.releaseMetadata, World.handled, heq,
      le_refl]
  | seedingEnabled enabled =>
    cases enabled with
    | true => exact hwait .resumeSeeding rfl rfl
    | false =>
      obtain ⟨deadline, heq, -⟩ := s.state.scheduleIdleIfNeeded_spec s.now
      refine h.stays hb rfl ?_ fun _ _ => Or.inl
      simp only [PlaybackCommand.effect, World.handled, heq, le_refl]
  | pieceVerified piece =>
    refine h.stays hb rfl le_rfl ?_
    simp only [PlaybackCommand.effect, World.pieceVerified, World.handled]
    split <;> rintro _ p ⟨⟩
  | pieceInvalidated piece => exact h.stays hb rfl le_rfl fun _ _ => Or.inl

theorem sparesNeeded_worker (hl : s.TasksLinked) {a : WorkerStep} (hg : a.guard s) :
    (a.effect s).SparesNeeded := by
  have hnext := le_nextGeneration hb.max
  -- the worker goes on to something that is no attempt
  have hwork : ∀ {st : TorrentPlaybackState} {w : Worker}, st.generation = s.state.generation →
      w.entering? = none → ({ s with state := st, worker := w } : World).SparesNeeded := by
    intro st w hst hw
    refine h.works hb st w hst.ge fun _ p hp => ?_
    rw [hw] at hp
    cases hp
  cases a with
  | tick =>
    dsimp only [WorkerStep.effect]
    split
    · exact h
    · exact hwork rfl rfl
  | decide now =>
    -- an attempt begins idle only if nobody holds a permit
    have hbegin : ∀ {st : TorrentPlaybackState} {generation : ℕ},
        s.state.generation ≤ st.generation → st.directPermits = s.state.directPermits →
          st.metadataPermits = s.state.metadataPermits →
            World.SparesNeeded
              { s with state := st, worker := .entering (newPause now st generation .idle) } := by
      intro st generation hle hd hm
      refine h.works hb st _ hle ?_
      rintro hn p ⟨⟩
      refine Or.inr (beganIdle_of_active (hasActivity_of_counted st ?_ now))
      rw [hd, hm]
      exact hcount.needed hn
    dsimp only [WorkerStep.effect]
    rcases s.state.pauseIfDue_spec now with heq | heq | ⟨-, -, hls, heq⟩ | ⟨-, heq⟩ <;> rw [heq]
    · exact hwork rfl rfl
    · exact hwork rfl rfl
    · exact hbegin le_rfl rfl rfl
    · exact hbegin hnext rfl rfl
  | enterPause p =>
    have hw : s.worker = .entering p := hg
    refine h.workerPause hb ?_ fun _ => Or.inl (List.mem_append_right _ ?_)
    · rcases hl.caller p (by rw [hw]; rfl) with hp | hp <;> rw [Pause.permit, hp]
    · rw [hw]
      exact List.mem_singleton_self p
  | keepActive p =>
    dsimp only [WorkerStep.effect]
    rcases s.state.keepActiveForSeeding_spec p.generation with heq | ⟨-, -, heq⟩ <;> rw [heq] <;>
      exact hwork rfl rfl
  | failedPause p =>
    dsimp only [WorkerStep.effect, TorrentPlaybackState.retryPause]
    refine hwork ?_ rfl
    split <;> split <;> rfl
  | receive command => exact sparesNeeded_receive h hb
  | checkComplete fileIdx generation complete =>
    dsimp only [WorkerStep.effect]
    split
    · have hs := h.update hb { s.state with phase := .pausePending } s.native rfl rfl
      have hbs := hb.update { s.state with phase := .pausePending } s.native rfl
      refine hs.workerPause hbs rfl fun hn => Or.inr ?_
      exact beganIdle_of_active (hasActivity_of_counted s.state (hcount.needed hn) s.now)
    · exact hwork rfl rfl
  | reader command order =>
    obtain ⟨st, hgo, hst⟩ := goes_reader command order
    have hgen : st.generation = s.state.generation := by
      rcases hst with heq | ⟨_, generation, streamId, foreground, -, rfl⟩
      · exact congrArg Attendance.generation heq
      · obtain ⟨deadline, heq, -⟩ :=
          s.state.releasePlayback_spec s.now generation order streamId foreground
        rw [heq]
        rfl
    exact (h.update hb st s.native hgen rfl).goes (hb.update st s.native hgen) hg (by rintro ⟨⟩)
      hgo (by rintro - ⟨act, ⟨⟩⟩) (Or.inl (by rintro p ⟨⟩))
  | resumeCheck =>
    have hs := h.update hb { s.state with idleDeadline := none } s.native rfl rfl
    have hbs := hb.update { s.state with idleDeadline := none } s.native rfl
    dsimp only [WorkerStep.effect]
    split
    · exact hs.goes hbs hg (by rintro ⟨⟩) (goes_workerDone rfl rfl) (by rintro - ⟨act, ⟨⟩⟩)
        (Or.inl (by rintro p ⟨⟩))
    · exact hs.goes hbs hg (by rintro ⟨⟩) (.moves _ rfl) (by rintro - ⟨act, ⟨⟩⟩)
        (Or.inl (by rintro p ⟨⟩))
  | resumeNative =>
    exact (h.update hb s.state { s.native with isPaused := false } rfl rfl).goes
      (hb.update s.state { s.native with isPaused := false } rfl) hg (by rintro ⟨⟩) (.moves _ rfl)
      (by rintro - ⟨act, ⟨⟩⟩) (Or.inl (by rintro p ⟨⟩))
  | resumeFail =>
    exact h.goes hb hg (by rintro ⟨⟩) (goes_workerDone rfl rfl) (by rintro - ⟨act, ⟨⟩⟩)
      (Or.inl (by rintro p ⟨⟩))
  | resumePhase =>
    exact (h.update hb { s.state with phase := .active } s.native rfl rfl).goes
      (hb.update { s.state with phase := .active } s.native rfl) hg (by rintro ⟨⟩)
      (goes_workerDone rfl rfl) (by rintro - ⟨act, ⟨⟩⟩) (Or.inl (by rintro p ⟨⟩))

/-- **Every step that meets the condition keeps it.** -/
theorem sparesNeeded_step (hl : s.TasksLinked) {a : Action} (hg : a.guard s)
    (hc : s.AcquiresUndisturbed a) : (a.effect s).SparesNeeded := by
  cases a with
  | surroundings a =>
    cases a with
    | receiveMetadata =>
      exact h.frame hb (fun _ hp _ => hp) (fun hm _ => hm) le_rfl (fun _ _ => Or.inl)
        (fun _ _ => Or.inl) (Or.inr rfl) (fun _ => id) (fun _ => rfl) (Or.inl rfl)
    | _ => exact h.stays hb rfl le_rfl fun _ _ => Or.inl
  | request a => exact sparesNeeded_request h hb hcount hg hc
  -- the holder of the lock has what the request had
  | acquire r =>
    have hin := inflight_acquire hg.1 hg.2
    have hmeta : r.start.holdsMetadata = false := by cases r <;> rfl
    refine h.frame hb ?_ ?_ le_rfl ?_ (fun _ _ => Or.inl) (Or.inl fun _ => ?_) (fun _ => id) id
      (Or.inr ?_)
    · rw [held, hin]
      exact fun _ hp _ => hp
    · intro hm _
      simpa [holdsMetadata, Action.effect, hmeta, hg.1] using hm
    · rw [hin]
      exact fun _ _ => Or.inl
    · cases r <;> rfl
    · cases r <;> rintro _ ⟨⟩
  | load a => exact sparesNeeded_load h hb hg hc
  | activate act a =>
    obtain ⟨hop, st, n, hgo, hst, hmeta, -, hforeground, -⟩ := goes_activate hg
    have hgen : st.generation = s.state.generation := congrArg Attendance.generation hst
    have hcounts : (s.update st n).PermitsCounted := hcount.keep
      ⟨congrArg Attendance.directPermits hst, hforeground⟩
      (congrArg Attendance.metadataPermits hst) rfl rfl
    exact (h.update hb st n hgen hmeta).goes (hb.update st n hgen) hop (by rintro ⟨⟩) hgo
      (fun hn _ => hasActivity_of_counted st (hcounts.needed hn) s.now)
      (Or.inl (by rintro p ⟨⟩))
  | pause p a => exact sparesNeeded_pause h hb hg
  | update v caller a => exact sparesNeeded_update h hb hcount hg
  | changes baseline cs caller found =>
    obtain ⟨n, hgo, hmeta, -⟩ := goes_changes
    have hcounts : (s.update s.state n).PermitsCounted := hcount.keep ⟨rfl, rfl⟩ rfl rfl rfl
    refine (h.update hb s.state n rfl hmeta).goes (hb.update s.state n rfl) hg ?_ hgo
      (fun hn _ => hasActivity_of_counted s.state (hcounts.needed hn) s.now) (Or.inl ?_)
    · cases caller <;> rintro ⟨⟩
    · cases caller <;> rintro p ⟨⟩
  | worker a => exact sparesNeeded_worker h hb hcount hl hg

end Steps

theorem Initial.sparesNeeded {s : World} (h : s.Initial) : s.SparesNeeded := by
  have hnobody := h.permitsCounted.nobody (by rw [h.state]; rfl) (by rw [h.state]; rfl)
  refine ⟨?_, fun isPaused hop => ?_⟩
  · rintro (⟨hholds, -⟩ | ⟨p, hp, -⟩)
    · rw [hnobody.2] at hholds
      cases hholds
    · rw [hnobody.1] at hp
      cases hp
  · rw [h.operation] at hop
    cases hop

theorem sparesNeeded_of_reach {s t : World} (hs : s.Initial)
    (h : coordinator.Reach AcquiresUndisturbed s t) : t.SparesNeeded := by
  have hknown : ∀ u, coordinator.Reach AcquiresUndisturbed s u →
      u.GenerationsBounded ∧ u.PermitsCounted ∧ u.TasksLinked := fun u hu =>
    ⟨generationsBounded_of_reach hs hu, permitsCounted_of_reach hs hu, tasksLinked_of_reach hs hu⟩
  exact h.invariant_of hknown hs.sparesNeeded fun u a hk hi hg hc =>
    sparesNeeded_step hi hk.1 hk.2.1 hk.2.2 hg hc

/-- **Never paused while needed.**  In every run whose permits are acquired undisturbed, no
attempt that began idle pauses the native torrent or sets the phase to paused while somebody
holds a permit that needs the network. -/
theorem never_pausedWhileNeeded {s t : World} (hs : s.Initial)
    (h : coordinator.Reach AcquiresUndisturbed s t) {a : Action} (hg : a.guard t)
    (ha : t.PausesIdly a) : ¬ t.Needed := by
  intro hn
  have hspared := (sparesNeeded_of_reach hs h).needed hn
  unfold PausesIdly at ha
  split at ha
  · next p =>
    have hholder := hspared.holder
    rw [NoIdleHolder, show t.operation = some (.pause p .native) from hg] at hholder
    rw [show p.beganIdle = false from hholder] at ha
    cases ha
  · next p zeros applied =>
    exact hspared.attempt p (mem_attempts_of_holder hg rfl) ha.1 ha.2.symm
  · next beganIdle =>
    rw [ha] at hg
    exact hspared.rest hg
  · exact ha

/-- The metadata is asked for, and the loading gives up; after the grace period the worker
begins to pause the torrent. -/
def giveUpLoading : List Action :=
  [.request .loadMetadata, .acquire .metadata, .load .status, .load (.permit false true),
    .load (.announce true), .load (.fail .querying), .worker (.receive .releaseMetadata),
    .surroundings (.elapse 15000), .worker .tick, .worker (.decide 15000)]

/-- A torrent whose metadata is not there yet. -/
def unknownFiles : Native := { twoFiles with hasMetadata := false }

/-- Nobody comes back, and the attempt to pause goes ahead. -/
theorem never_pausedWhileNeeded_givenUp :
    ∃ t, coordinator.Reach AcquiresUndisturbed (registered unknownFiles false) t ∧
      t.PausesIdly (.pause ⟨1, .idle, true⟩ .native) ∧ ¬ t.Needed := by
  let pause : Pause := ⟨1, .idle, true⟩
  obtain ⟨t, ht, hg⟩ :
      ∃ t, coordinator.Reach AcquiresUndisturbed (registered unknownFiles false) t ∧
        (Action.pause ⟨1, .idle, true⟩ .native).guard t :=
    GuardedSystem.exists_reach_of_exec
      (giveUpLoading ++ [Action.worker (.enterPause pause), .acquire (.pause pause),
        .pause pause .check])
      (by decide)
  have hinit : (registered unknownFiles false).Initial := registered_initial rfl rfl false
  exact ⟨t, ht, rfl, never_pausedWhileNeeded hinit ht hg rfl⟩

/-- The metadata is asked for again while the attempt to pause waits for the lock.  The
loading has its permit and resumes the torrent, starts no generation, and is paused all the
same. -/
theorem metadataLoading_isPaused :
    ∃ s, s.Initial ∧ s.seedingEnabled = false ∧
      ∃ t, coordinator.Reach GuardedSystem.anyStep s t ∧
        ((Action.pause ⟨1, .idle, true⟩ .native).guard t ∧
          t.PausesIdly (.pause ⟨1, .idle, true⟩ .native) ∧ t.Needed) :=
  let pause : Pause := ⟨1, .idle, true⟩
  ⟨registered unknownFiles false, registered_initial rfl rfl false, rfl,
    GuardedSystem.exists_reach_of_exec
      (giveUpLoading ++ [Action.request .loadMetadata, .worker (.enterPause pause),
        .acquire .metadata, .load .status, .load (.permit false false), .load (.announce false),
        .acquire (.pause pause), .pause pause .check])
      (by decide)⟩

end World

end StreamServer.Playback

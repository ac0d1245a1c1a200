import Mathlib.Algebra.Group.Nat.Defs
import Mathlib.Data.Finset.Insert
import Mathlib.Data.Multiset.AddSub
import StreamServer.Playback.Windows

/-!
# The playback state of one torrent

The coordinator keeps, for every torrent, which file is selected, at which
native priority, and how many readers hold a permit of each *generation*.  A new
generation starts whenever another selection is made or a pause begins; starting
one cancels the token the readers of the previous generation hold.

This file gives the state and every update the coordinator makes while it holds
the lock of the state.  What happens between two such updates is the matter of
`Playback/Coordinator.lean`.

Instants are milliseconds.  A table of permit counts by generation is the
multiset of the generations: a count is its multiplicity, and an entry that
reaches zero disappears from both.

## Main definitions

* `CancellationSource` — the current token and the tokens cancelled before it.
* `TorrentPlaybackState` — the state.
* `TorrentPlaybackState.select`, `beginPause` — the two updates that start a
  generation.
* `TorrentPlaybackState.startPlayback`, `refreshHls`, `endHls` — the requests, up to
  the point where they first let go of the state.

## References

`enginefs/src/backend/libtorrent/playback.rs`, `TorrentPlaybackState`.
-/

namespace StreamServer.Playback

/-! ### Constants -/

/-- How long a torrent without activity stays active. -/
def idlePauseGrace : ℕ := 15000

/-- How long a request of HLS counts as activity. -/
def hlsActivityTtl : ℕ := 15000

/-- How long after a failure the pause is tried again. -/
def pauseRetryDelay : ℕ := 5000

/-- The stream under which HLS files its window, `usize::MAX`. -/
def hlsPriorityStreamId : ℕ := 2 ^ 64 - 1

/-- The greatest generation, `u64::MAX`. -/
def maxGeneration : ℕ := 2 ^ 64 - 1

/-- `generation.saturating_add(1)`. -/
def nextGeneration (generation : ℕ) : ℕ := min (generation + 1) maxGeneration

theorem nextGeneration_of_lt {generation : ℕ} (h : generation < maxGeneration) :
    nextGeneration generation = generation + 1 := min_eq_left h

theorem le_nextGeneration {generation : ℕ} (h : generation ≤ maxGeneration) :
    generation ≤ nextGeneration generation := le_min (Nat.le_succ _) h

/-! ### The data -/

/-- `LibtorrentNetworkPhase`. -/
inductive LibtorrentNetworkPhase
  | active
  | pausePending
  | pausedIdle
  deriving DecidableEq, Repr

/-- `PlaybackIntent`. -/
inductive PlaybackIntent
  | directInitial
  | directSeek
  | directSequential
  | hlsInitial
  | hlsSeek
  | hlsSequential
  | downloadFull
  | downloadRange
  | containerMetadata
  | internalProbe
  | background
  deriving DecidableEq, Repr

/-- Probes and background readers do not claim the torrent for themselves. -/
def PlaybackIntent.isForeground : PlaybackIntent → Bool
  | .internalProbe | .background => false
  | _ => true

/-- A request to play a file. -/
structure LibtorrentPlaybackStart where
  fileIdx : ℕ
  streamId : ℕ
  startOffset : ℕ
  intent : PlaybackIntent
  deriving DecidableEq, Repr

/-- The token of the current generation, and the tokens cancelled so far.
Tokens are numbered in the order they are made, so the current one is always
live. -/
structure CancellationSource where
  current : ℕ
  cancelled : Finset ℕ
  fresh : ∀ token ∈ cancelled, token < current

namespace CancellationSource

/-- `CancellationToken::new()`, for a torrent not seen before. -/
def new : CancellationSource := ⟨0, ∅, by simp⟩

/-- Cancel the current token and make a new one. -/
def renew (c : CancellationSource) : CancellationSource where
  current := c.current + 1
  cancelled := insert c.current c.cancelled
  fresh := by
    intro token h
    rcases Finset.mem_insert.mp h with rfl | h
    · exact Nat.lt_succ_self _
    · exact Nat.lt_succ_of_lt (c.fresh token h)

theorem current_notMem (c : CancellationSource) : c.current ∉ c.cancelled :=
  fun h => lt_irrefl _ (c.fresh _ h)

theorem renew_ne (c : CancellationSource) : c.renew ≠ c := by
  intro h
  have hcur : c.current + 1 = c.current := congrArg current h
  omega

/-- Whoever holds the current token finds it cancelled afterwards. -/
theorem current_mem_renew (c : CancellationSource) : c.current ∈ c.renew.cancelled :=
  Finset.mem_insert_self _ _

end CancellationSource

/-- The state the coordinator keeps of one torrent. -/
structure TorrentPlaybackState where
  phase : LibtorrentNetworkPhase
  generation : ℕ
  selectedFile : Option ℕ
  selectedPriority : ℤ
  selectedFirstPiece : Option ℤ
  directPermits : Multiset ℕ
  foregroundPermits : Multiset ℕ
  metadataPermits : ℕ
  hlsLastActivity : Option ℕ
  idleDeadline : Option ℕ
  cancellation : CancellationSource
  acknowledgedPriorities : Option (List ℤ)
  metadataAnnounced : Bool
  priorityWindows : ActivePriorityWindows

/-- What a selection tells the request that made it. -/
structure Selection where
  generation : ℕ
  cancellation : ℕ
  changed : Bool
  subordinate : Bool
  nativePriority : ℤ
  deriving DecidableEq, Repr

/-- How `end_hls` goes on once it lets go of the state. -/
inductive EndHls
  /-- Neither this file is selected nor is there HLS activity. -/
  | ignored
  /-- Seeding is on: the phase goes back to active. -/
  | keepActiveForSeeding (generation : ℕ)
  /-- The torrent was paused before. -/
  | restorePausedIdle
  /-- The torrent has to be paused. -/
  | performPause (generation : ℕ)
  deriving DecidableEq, Repr

namespace TorrentPlaybackState

/-- The state of a torrent that has just been added. -/
def new : TorrentPlaybackState where
  -- every torrent is added paused; the network is used on request only
  phase := .pausedIdle
  generation := 0
  selectedFile := none
  selectedPriority := 0
  selectedFirstPiece := none
  directPermits := 0
  foregroundPermits := 0
  metadataPermits := 0
  hlsLastActivity := none
  idleDeadline := none
  cancellation := .new
  acknowledgedPriorities := none
  metadataAnnounced := false
  priorityWindows := default

/-! ### Activity -/

/-- The number of permits for direct playback. -/
def activePlaybackPermits (st : TorrentPlaybackState) : ℕ := st.directPermits.card

/-- The number of foreground permits of this generation. -/
def activeForegroundPermits (st : TorrentPlaybackState) : ℕ :=
  st.foregroundPermits.count st.generation

/-- The last request of HLS is not too old. -/
def hlsIsActive (st : TorrentPlaybackState) (now : ℕ) : Bool :=
  st.hlsLastActivity.any fun last => now - last < hlsActivityTtl

/-- Someone needs the network. -/
def hasActivity (st : TorrentPlaybackState) (now : ℕ) : Bool :=
  0 < st.activePlaybackPermits || 0 < st.metadataPermits || st.hlsIsActive now

/-- The time of the idle pause is set, or given up while there is activity. -/
def scheduleIdleIfNeeded (st : TorrentPlaybackState) (now : ℕ) : TorrentPlaybackState :=
  if st.hasActivity now then { st with idleDeadline := none }
  else
    { st with
      idleDeadline :=
        some (max ((st.hlsLastActivity.map (· + hlsActivityTtl)).getD (now + idlePauseGrace)) now) }

/-! ### Starting a generation -/

/-- The part of `select` that starts a generation for another selection. -/
def reselect (st : TorrentPlaybackState) (fileIdx : ℕ) (nativePriority : ℤ) :
    TorrentPlaybackState :=
  { st with
    generation := nextGeneration st.generation
    cancellation := st.cancellation.renew
    selectedFile := some fileIdx
    selectedPriority := nativePriority
    selectedFirstPiece := none
    priorityWindows := st.priorityWindows.clearTracking }

/-- The part of `select` that counts the permit and records the activity. -/
def grant (st : TorrentPlaybackState) (now : ℕ)
    (directPermit hlsActivity networkRequired foreground : Bool) : TorrentPlaybackState :=
  { st with
    directPermits := if directPermit then st.generation ::ₘ st.directPermits else st.directPermits
    foregroundPermits :=
      if directPermit && foreground then st.generation ::ₘ st.foregroundPermits
      else st.foregroundPermits
    hlsLastActivity := if hlsActivity then some now else st.hlsLastActivity
    -- a complete file is read locally and leaves a paused torrent paused
    phase := if networkRequired then .active else st.phase
    idleDeadline := none }

/-- Whether selecting the file at this priority starts a generation. -/
def changes (st : TorrentPlaybackState) (fileIdx : ℕ) (nativePriority : ℤ) : Bool :=
  st.selectedFile != some fileIdx || st.selectedPriority != nativePriority

/-- Whether a reader joins, in the background, the readers of the selected
file. -/
def joinsForeground (st : TorrentPlaybackState) (fileIdx : ℕ) (directPermit foreground : Bool) :
    Bool :=
  directPermit && !foreground && st.selectedFile == some fileIdx && 0 < st.activeForegroundPermits

/-- A file is selected; a change of it begins a new generation. -/
def select (st : TorrentPlaybackState) (now fileIdx : ℕ) (nativePriority : ℤ)
    (directPermit hlsActivity networkRequired foreground : Bool) :
    TorrentPlaybackState × Selection :=
  let changed := st.changes fileIdx nativePriority
  let st₁ := if changed then st.reselect fileIdx nativePriority else st
  (st₁.grant now directPermit hlsActivity networkRequired foreground,
    { generation := st₁.generation
      cancellation := st₁.cancellation.current
      changed := changed
      subordinate := st.joinsForeground fileIdx directPermit foreground
      nativePriority := nativePriority })

/-- The pause begins, and with it a new generation without a file. -/
def beginPause (st : TorrentPlaybackState) : TorrentPlaybackState :=
  { st with
    generation := nextGeneration st.generation
    cancellation := st.cancellation.renew
    selectedFile := none
    selectedPriority := 0
    selectedFirstPiece := none
    priorityWindows := st.priorityWindows.clearTracking
    hlsLastActivity := none
    idleDeadline := none
    phase := .pausePending }

/-- The pause that was begun is given up, since the torrent seeds. -/
def keepActiveForSeeding (st : TorrentPlaybackState) (generation : ℕ) : TorrentPlaybackState :=
  if st.generation = generation ∧ st.phase = .pausePending then { st with phase := .active } else st

/-- `selection_is_current`. -/
def IsCurrent (st : TorrentPlaybackState) (fileIdx generation : ℕ) : Prop :=
  st.generation = generation ∧ st.selectedFile = some fileIdx

instance (st : TorrentPlaybackState) (fileIdx generation : ℕ) :
    Decidable (st.IsCurrent fileIdx generation) := inferInstanceAs (Decidable (_ ∧ _))

/-! ### Requests -/

/-- The native priority a request asks for its file. -/
def requestedNativePriority (intent : PlaybackIntent) (complete : Bool) : ℤ :=
  if complete then 0
  else if intent = .downloadFull ∨ intent = .downloadRange then 7 else 1

/-- A background reader of the file in the foreground asks for nothing else than
is selected. -/
def startPriority (st : TorrentPlaybackState) (start : LibtorrentPlaybackStart)
    (complete : Bool) : ℤ :=
  if !start.intent.isForeground ∧ 0 < st.activeForegroundPermits ∧
      st.selectedFile = some start.fileIdx then
    st.selectedPriority
  else requestedNativePriority start.intent complete

/-- The part of `start_playback` under the lock of the state. -/
def startPlayback (st : TorrentPlaybackState) (now : ℕ) (seedingEnabled : Bool)
    (start : LibtorrentPlaybackStart) (complete : Bool) :
    Except String (TorrentPlaybackState × Selection) :=
  if !start.intent.isForeground ∧ 0 < st.activeForegroundPermits ∧
      st.selectedFile ≠ some start.fileIdx then
    .error "Background probe rejected because a different playback file is active"
  else
    .ok (st.select now start.fileIdx (st.startPriority start complete) true false
      (!complete || seedingEnabled) start.intent.isForeground)

/-- The native priority an HLS refresh asks for its file. -/
def hlsPriority (complete : Bool) : ℤ := if complete then 0 else 1

/-- The part of `refresh_hls` under the lock of the state. -/
def refreshHls (st : TorrentPlaybackState) (now : ℕ) (seedingEnabled : Bool) (fileIdx : ℕ)
    (complete : Bool) : TorrentPlaybackState × Selection :=
  st.select now fileIdx (hlsPriority complete) false true (!complete || seedingEnabled) false

/-- The part of `end_hls` under the lock of the state. -/
def endHls (st : TorrentPlaybackState) (seedingEnabled : Bool) (fileIdx : ℕ) :
    TorrentPlaybackState × EndHls :=
  if st.selectedFile ≠ some fileIdx ∧ st.hlsLastActivity = none then (st, .ignored)
  else
    let st' := st.beginPause
    (st',
      if seedingEnabled then .keepActiveForSeeding st'.generation
      else if st.phase = .pausedIdle then .restorePausedIdle
      else .performPause st'.generation)

/-! ### Updates by the worker and by operations -/

/-- The part of `acquire_metadata` under the lock of the state. -/
def acquireMetadata (st : TorrentPlaybackState) (hasMetadata : Bool) : TorrentPlaybackState :=
  { st with
    metadataPermits := st.metadataPermits + 1
    phase := if hasMetadata then st.phase else .active
    idleDeadline := none }

/-- A metadata permit comes back. -/
def releaseMetadata (st : TorrentPlaybackState) (now : ℕ) : TorrentPlaybackState :=
  { st with metadataPermits := st.metadataPermits - 1 }.scheduleIdleIfNeeded now

/-- Give back a permit of the generation. -/
def dropPermit (st : TorrentPlaybackState) (generation : ℕ) (foreground : Bool) :
    TorrentPlaybackState :=
  { st with
    directPermits := st.directPermits.erase generation
    foregroundPermits :=
      if foreground then st.foregroundPermits.erase generation else st.foregroundPermits }

/-- The handling of `ReleasePlayback` under the lock of the state: the new state
and the changes the native torrent has to make. -/
def releasePlayback (st : TorrentPlaybackState) (order : IterationOrder) (now generation : ℕ)
    (streamId : ℕ) (foreground : Bool) : TorrentPlaybackState × List PiecePriorityChange :=
  let st₁ := st.dropPermit generation foreground
  let released :=
    if st₁.generation = generation then st₁.priorityWindows.release order streamId
    else (st₁.priorityWindows, [])
  ({ st₁ with priorityWindows := released.1 }.scheduleIdleIfNeeded now, released.2)

/-- The handling of `PieceVerified` under the lock of the state. -/
def pieceVerified (st : TorrentPlaybackState) (piece : ℤ) : TorrentPlaybackState :=
  { st with
    priorityWindows := st.priorityWindows.markPieceVerified piece
    selectedFirstPiece :=
      if st.selectedFirstPiece = some piece then none else st.selectedFirstPiece }

/-- HLS activity that has run out makes the torrent due. -/
def expireHls (st : TorrentPlaybackState) (now : ℕ) : TorrentPlaybackState :=
  if st.hlsLastActivity.isSome ∧ !st.hlsIsActive now then
    { st with hlsLastActivity := none, idleDeadline := some now }
  else st

/-- Whether the worker has to pause the torrent. -/
def IsDue (st : TorrentPlaybackState) (now : ℕ) : Prop :=
  st.hasActivity now = false ∧ (∃ deadline ∈ st.idleDeadline, deadline ≤ now) ∧
    st.phase ≠ .pausedIdle

instance (st : TorrentPlaybackState) (now : ℕ) : Decidable (st.IsDue now) :=
  inferInstanceAs (Decidable (_ ∧ (∃ deadline ∈ st.idleDeadline, _) ∧ _))

/-- The part of `pause_due_torrents` under the lock of the state: the new state
and the generation to pause, if the torrent is due. -/
def pauseIfDue (st : TorrentPlaybackState) (now : ℕ) : TorrentPlaybackState × Option ℕ :=
  let st₁ := st.expireHls now
  if st₁.IsDue now then
    if st₁.phase = .pausePending then
      ({ st₁ with idleDeadline := none }, some st₁.generation)
    else (st₁.beginPause, some st₁.beginPause.generation)
  else (st₁, none)

/-- A pause of an idle torrent that failed is tried again. -/
def retryPause (st : TorrentPlaybackState) (now generation : ℕ) : TorrentPlaybackState :=
  if st.generation = generation then
    { st with phase := .pausePending, idleDeadline := some (now + pauseRetryDelay) }
  else st

/-- The end of `perform_pause`. -/
def finishPause (st : TorrentPlaybackState) (generation : ℕ) (zeros : List ℤ)
    (clearSelection : Bool) : TorrentPlaybackState :=
  if st.generation = generation then
    { st with
      phase := .pausedIdle
      acknowledgedPriorities := if zeros = [] then none else some zeros
      selectedFile := if clearSelection then none else st.selectedFile
      selectedPriority := if clearSelection then 0 else st.selectedPriority }
  else st

/-! ### What the updates do -/

variable (st : TorrentPlaybackState) (now generation : ℕ)

/-- Scheduling sets the deadline and nothing else, and leaves none only when
there is activity. -/
theorem scheduleIdleIfNeeded_spec :
    ∃ deadline, st.scheduleIdleIfNeeded now = { st with idleDeadline := deadline } ∧
      (deadline = none → st.hasActivity now = true) := by
  unfold scheduleIdleIfNeeded
  split
  · next h => exact ⟨none, rfl, fun _ => h⟩
  · exact ⟨_, rfl, fun h => by cases h⟩

/-- A selection grants the request on top of the old generation or of a new
one. -/
theorem select_spec (fileIdx : ℕ) (nativePriority : ℤ)
    (directPermit hlsActivity networkRequired foreground : Bool) :
    st.changes fileIdx nativePriority = false ∧
        st.select now fileIdx nativePriority directPermit hlsActivity networkRequired foreground =
          (st.grant now directPermit hlsActivity networkRequired foreground,
            ⟨st.generation, st.cancellation.current, false,
              st.joinsForeground fileIdx directPermit foreground, nativePriority⟩) ∨
      st.changes fileIdx nativePriority = true ∧
        st.select now fileIdx nativePriority directPermit hlsActivity networkRequired foreground =
          ((st.reselect fileIdx nativePriority).grant now directPermit hlsActivity networkRequired
              foreground,
            ⟨nextGeneration st.generation, st.cancellation.current + 1, true,
              st.joinsForeground fileIdx directPermit foreground, nativePriority⟩) := by
  cases h : st.changes fileIdx nativePriority with
  | false => exact Or.inl ⟨rfl, by simp only [select, h]; rfl⟩
  | true => exact Or.inr ⟨rfl, by simp only [select, h]; rfl⟩

/-- A selection keeps the generation or starts the next one, and tells it. -/
theorem select_generation (fileIdx : ℕ) (nativePriority : ℤ)
    (directPermit hlsActivity networkRequired foreground : Bool) :
    let selected := st.select now fileIdx nativePriority directPermit hlsActivity networkRequired
      foreground
    selected.1.generation = selected.2.generation ∧
      (selected.2.generation = st.generation ∨
        selected.2.generation = nextGeneration st.generation) := by
  rcases st.select_spec now fileIdx nativePriority directPermit hlsActivity networkRequired
    foreground with ⟨-, heq⟩ | ⟨-, heq⟩
  · rw [heq]
    exact ⟨rfl, Or.inl rfl⟩
  · rw [heq]
    exact ⟨rfl, Or.inr rfl⟩

/-- A request that is granted selects its file. -/
theorem startPlayback_spec {seedingEnabled complete : Bool} {start : LibtorrentPlaybackStart}
    {granted : TorrentPlaybackState × Selection}
    (h : st.startPlayback now seedingEnabled start complete = .ok granted) :
    granted = st.select now start.fileIdx (st.startPriority start complete) true false
      (!complete || seedingEnabled) start.intent.isForeground := by
  unfold startPlayback at h
  split at h
  · cases h
  · exact (Except.ok.inj h).symm

/-- A request that is granted counts one permit, of the generation it is told. -/
theorem startPlayback_permits {seedingEnabled complete : Bool} {start : LibtorrentPlaybackStart}
    {granted : TorrentPlaybackState × Selection}
    (h : st.startPlayback now seedingEnabled start complete = .ok granted) :
    granted.1.directPermits = granted.2.generation ::ₘ st.directPermits ∧
      granted.1.foregroundPermits =
        (if start.intent.isForeground then granted.2.generation ::ₘ st.foregroundPermits
        else st.foregroundPermits) ∧
      granted.1.metadataPermits = st.metadataPermits := by
  rw [startPlayback_spec st now h]
  rcases select_spec st now start.fileIdx (st.startPriority start complete) true false
    (!complete || seedingEnabled) start.intent.isForeground with ⟨-, heq⟩ | ⟨-, heq⟩
  · rw [heq]
    exact ⟨rfl, rfl, rfl⟩
  · rw [heq]
    exact ⟨rfl, rfl, rfl⟩

/-- The phase goes from pending to active, or nothing changes. -/
theorem keepActiveForSeeding_spec :
    st.keepActiveForSeeding generation = st ∨
      st.generation = generation ∧ st.phase = .pausePending ∧
        st.keepActiveForSeeding generation = { st with phase := .active } := by
  unfold keepActiveForSeeding
  split
  · next h => exact Or.inr ⟨h.1, h.2, rfl⟩
  · exact Or.inl rfl

/-- A permit given back: the windows change only for the current generation. -/
theorem releasePlayback_spec (order : IterationOrder) (streamId : ℕ) (foreground : Bool) :
    ∃ deadline,
      st.releasePlayback order now generation streamId foreground =
        ({ st.dropPermit generation foreground with
            priorityWindows :=
              if st.generation = generation then (st.priorityWindows.release order streamId).1
              else st.priorityWindows
            idleDeadline := deadline },
          if st.generation = generation then (st.priorityWindows.release order streamId).2
          else []) ∧
        (deadline = none → (st.dropPermit generation foreground).hasActivity now = true) := by
  by_cases h : st.generation = generation
  · obtain ⟨deadline, hd, hnone⟩ := scheduleIdleIfNeeded_spec
      { st.dropPermit generation foreground with
        priorityWindows := (st.priorityWindows.release order streamId).1 } now
    refine ⟨deadline, ?_, hnone⟩
    have hcur : (st.dropPermit generation foreground).generation = generation := h
    simp only [releasePlayback, if_pos hcur, if_pos h]
    exact congrArg₂ Prod.mk hd rfl
  · obtain ⟨deadline, hd, hnone⟩ := scheduleIdleIfNeeded_spec
      { st.dropPermit generation foreground with priorityWindows := st.priorityWindows } now
    refine ⟨deadline, ?_, hnone⟩
    have hcur : (st.dropPermit generation foreground).generation ≠ generation := h
    simp only [releasePlayback, if_neg hcur, if_neg h]
    exact congrArg₂ Prod.mk hd rfl

/-- What the worker finds when it looks at the torrent: nothing to do, HLS
activity that has run out, a pause to retry, or a pause to begin. -/
theorem pauseIfDue_spec :
    st.pauseIfDue now = (st, none) ∨
      st.pauseIfDue now =
          ({ st with hlsLastActivity := none, idleDeadline := some now }, none) ∨
      st.hasActivity now = false ∧ st.phase = .pausePending ∧
        (∃ hls, st.pauseIfDue now =
          ({ st with hlsLastActivity := hls, idleDeadline := none }, some st.generation)) ∨
      st.hasActivity now = false ∧
        st.pauseIfDue now = (st.beginPause, some (nextGeneration st.generation)) := by
  have hexpire : st.expireHls now = st ∨ st.hlsIsActive now = false ∧
      st.expireHls now = { st with hlsLastActivity := none, idleDeadline := some now } := by
    unfold expireHls
    split
    · next h => exact Or.inr ⟨by simpa using h.2, rfl⟩
    · exact Or.inl rfl
  unfold pauseIfDue
  rcases hexpire with heq | ⟨hinactive, heq⟩
  · rw [heq]
    dsimp only
    split
    · next hdue =>
      split
      · next hpending =>
        exact Or.inr (Or.inr (Or.inl ⟨hdue.1, hpending, st.hlsLastActivity, rfl⟩))
      · exact Or.inr (Or.inr (Or.inr ⟨hdue.1, rfl⟩))
    · exact Or.inl rfl
  · rw [heq]
    dsimp only
    split
    · next hdue =>
      have hidle : st.hasActivity now = false := by
        have hnone := hdue.1
        simp only [hasActivity, Bool.or_eq_false_iff] at hnone ⊢
        exact ⟨hnone.1, hinactive⟩
      split
      · next hpending =>
        exact Or.inr (Or.inr (Or.inl ⟨hidle, hpending, none, rfl⟩))
      · exact Or.inr (Or.inr (Or.inr ⟨hidle, rfl⟩))
    · exact Or.inr (Or.inl rfl)

end TorrentPlaybackState

end StreamServer.Playback

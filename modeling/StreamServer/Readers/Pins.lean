import Mathlib.Data.Int.Notation
import StreamServer.Lib.GuardedSystem
import StreamServer.Playback.Priorities
import StreamServer.Playback.Windows

/-!
# The pieces a container cannot be played without

The index of a film may be at the end of its file, far from where it is played.  A reader that has been
sent there pins the pieces it needs, and the readers that play the film ask for them together with the
pieces in front of them, until they are there.  The pins of a torrent are shared by all its readers, and
each reader drops those that have come.

A reader plans its window of pieces in a poll.  It asks the native library which pieces are there, pins
its own, looks at all the pins, asks for each whether it is there, drops those, and hands in its window.
Each of these is one step; other readers plan meanwhile, and pieces come.

## Main definitions

* `LibtorrentDiskFileStream` — what a reader plans with.
* `pinPieces`, `unpinPieces` — the registry of pins of a torrent.
* `Plan` — where a reader is in its plan.
* `Planners`, `planning` — the readers, and their steps.

## References

`enginefs/src/backend/libtorrent/disk_stream.rs`, `prioritize_from`, `escalate_blocked_piece`,
`pinned_metadata_missing`, `extend_with_pinned_metadata`; `enginefs/src/metadata_pins.rs`;
`enginefs/src/backend/priorities.rs`, `disk_backed_forward_window_pieces_for`.
-/

namespace StreamServer.Readers

open Checked Playback

/-! ### Windows -/

/-- The pieces that are wanted before the first byte is sent. -/
def INITIAL_FIRST_BYTE_WINDOW_PIECES : ℤ := 3

/-- The last piece of a window of `pieceCount` pieces. -/
def forwardWindowEnd (piece lastPiece pieceCount : ℤ) : ℤ :=
  min lastPiece (saturatingI32 (piece + saturatingI32 (pieceCount - 1)))

/-- Pieces that are not listed are missing. -/
def pieceIsMissing (presence : List Bool) (first piece : ℤ) : Bool :=
  if saturatingI32 (piece - first) < 0 then true
  else presence[(saturatingI32 (piece - first)).toNat]?.all (· == false)

/-- The intent of a reader that has sent its first byte. -/
def sequentialAfterFirstByte : PlaybackIntent → PlaybackIntent
  | .directInitial | .directSeek | .directSequential => .directSequential
  | .hlsInitial | .hlsSeek | .hlsSequential => .hlsSequential
  | intent => intent

/-- The pieces of the window on disk, by the intent. -/
def diskBackedForwardWindowPieces : PlaybackIntent → ℤ
  | .downloadFull => 64
  | .downloadRange => 8
  | .directInitial | .hlsInitial => MAX_STARTUP_PIECES
  | .directSeek | .directSequential => 32
  | .hlsSeek | .hlsSequential => 16
  | .containerMetadata => 16
  | .internalProbe => 1
  | .background => 1

/-- The bytes of the window on disk, by the intent. -/
def diskBackedByteCap : PlaybackIntent → ℕ
  | .downloadFull => MAX_WARM_WINDOW_BYTES
  | .downloadRange => MAX_DOWNLOAD_RANGE_WINDOW_BYTES
  | .directInitial | .hlsInitial => MAX_STARTUP_WINDOW_BYTES
  | .directSeek | .hlsSeek | .directSequential | .hlsSequential => MAX_SEEK_HOT_WINDOW_BYTES
  | .containerMetadata | .internalProbe | .background => MAX_CONTAINER_METADATA_WINDOW_BYTES

/-- The pieces of the window on disk, within its bytes. -/
def diskBackedForwardWindowPiecesFor (intent : PlaybackIntent) (pieceLength : ℕ) : ℤ :=
  capPiecesByBytes (diskBackedForwardWindowPieces intent) pieceLength (diskBackedByteCap intent)

/-! ### Readers -/

/-- What is planned for, and what has been seen so far. -/
structure Job where
  /-- The plan is one of `escalate_blocked_piece`. -/
  escalates : Bool
  intent : PlaybackIntent
  piece : ℤ
  windowEnd : ℤ
  presence : List Bool
  /-- The pieces that had been pinned at some time when the pins were read. -/
  known : List ℤ
  deriving DecidableEq, Repr

/-- Where a reader is in its plan. -/
inductive Plan
  | idle
  /-- It has seen which pieces of the window are there. -/
  | presented (job : Job)
  | pinned (job : Job)
  /-- It asks for each of the pins left whether the piece is there. -/
  | checking (job : Job) (left verified missing : List ℤ)
  /-- It has dropped the pins of pieces that are there. -/
  | counted (job : Job) (missing : List ℤ)
  /-- It adds the pins left to its window. -/
  | extending (job : Job) (left : List ℤ) (assignments : List LibtorrentPiecePriority)
  deriving DecidableEq, Repr

/-- What a reader plans with. -/
structure LibtorrentDiskFileStream where
  infoHash : String
  firstPiece : ℤ
  lastPiece : ℤ
  pieceLength : ℕ
  streamId : ℕ
  playbackIntent : PlaybackIntent
  bitrateBytesPerSec : Option ℕ
  firstReadLogged : Bool
  lastPrioritizedPiece : ℤ
  plan : Plan
  /-- The window it has handed in last. -/
  window : List LibtorrentPiecePriority
  /-- What the window has been planned for, unless that was in the background. -/
  planned : Option Job
  deriving DecidableEq, Repr

namespace LibtorrentDiskFileStream

variable (r : LibtorrentDiskFileStream)

/-- A reader that has just been opened. -/
def new (infoHash : String) (firstPiece lastPiece : ℤ) (pieceLength streamId : ℕ)
    (playbackIntent : PlaybackIntent) (bitrateBytesPerSec : Option ℕ) : LibtorrentDiskFileStream where
  infoHash := infoHash
  firstPiece := firstPiece
  lastPiece := lastPiece
  pieceLength := pieceLength
  streamId := streamId
  playbackIntent := playbackIntent
  bitrateBytesPerSec := bitrateBytesPerSec
  firstReadLogged := false
  lastPrioritizedPiece := -1
  plan := .idle
  window := []
  planned := none

/-- The window of the reader, a smaller one before the first byte. -/
def activeForwardWindow (intent : PlaybackIntent) (configuredForwardWindow : ℤ) : ℤ :=
  if r.firstReadLogged then configuredForwardWindow
  else
    match intent with
    | .directInitial | .hlsInitial => min configuredForwardWindow INITIAL_FIRST_BYTE_WINDOW_PIECES
    | .directSeek | .hlsSeek => 1
    | _ => configuredForwardWindow

/-- The intent that the priorities go by. -/
def priorityIntent : PlaybackIntent :=
  if r.firstReadLogged then sequentialAfterFirstByte r.playbackIntent else r.playbackIntent

/-- The permit of a reader may be subordinate to those of others. -/
def isBackgroundReader (subordinate : Bool) : Bool :=
  subordinate || decide (r.playbackIntent = .internalProbe) || decide (r.playbackIntent = .background)

/-- The end of the window for a piece. -/
def windowEnd (piece : ℤ) : ℤ :=
  forwardWindowEnd piece r.lastPiece
    (r.activeForwardWindow r.priorityIntent
      (diskBackedForwardWindowPiecesFor r.priorityIntent r.pieceLength))

/-- A plan that begins at `piece`. -/
def job (escalates : Bool) (piece : ℤ) (presence : List Bool) : Job :=
  ⟨escalates, r.priorityIntent, piece, r.windowEnd piece, presence, []⟩

/-- The window of a background reader: the piece it reads, without a deadline. -/
def backgroundWindow (piece : ℤ) (have' : Bool) : List LibtorrentPiecePriority :=
  if have' then []
  else [⟨piece, if r.playbackIntent = .background then 1 else 2, none⟩]

end LibtorrentDiskFileStream

namespace Job

variable (job : Job)

/-- The pieces from a place to another, in order. -/
def pieces : List ℤ :=
  (List.range (job.windowEnd - job.piece + 1).toNat).map fun k : ℕ => job.piece + k

/-- The pieces of the window that are not there. -/
def missing : List ℤ := job.pieces.filter fun p => pieceIsMissing job.presence job.piece p

/-- The pieces that the reader pins. -/
def ownPins : List ℤ :=
  if job.escalates = false ∧ (job.intent = .containerMetadata ∨ job.intent = .internalProbe) then
    job.missing
  else []

/-- The priority of the pieces behind the first ones. -/
def readAheadPriority : ℤ :=
  if job.escalates then 7
  else
    match job.intent with
    | .background => 1
    | .internalProbe => 2
    | _ => 7

/-- The time a piece is given. -/
def deadline (deadlineStep : ℕ) (streamId : ℕ) (p : ℤ) : ℤ :=
  let distance := p - job.piece
  if job.escalates then distance * deadlineStep
  else if distance = 0 then 0
  else distance * deadlineStep + (streamId % 10 * 5 : ℕ)

/-- The window in front of the reader. -/
def assignments (deadlineStep : ℕ) (streamId : ℕ) : List LibtorrentPiecePriority :=
  job.missing.map fun p =>
    ⟨p, if p = job.piece then 7 else job.readAheadPriority,
      some (job.deadline deadlineStep streamId p)⟩

end Job

/-! ### The registry -/

/-- `pin_pieces`, on the pins of a torrent. -/
def pinPieces (pins pieces : List ℤ) : List ℤ :=
  pieces.foldl (fun pins p => if p ∈ pins then pins else pins ++ [p]) pins

/-- The pins without those of `pieces`. -/
def unpinPieces (pins pieces : List ℤ) : List ℤ := pins.filter fun p => decide (p ∉ pieces)

/-! ### All the readers -/

/-- The readers and the pins of all torrents.  Info hashes are in lower case. -/
structure Planners where
  pins : String → List ℤ
  streams : ℕ → Option LibtorrentDiskFileStream
  /-- The pieces that the native library has verified at some time. -/
  verified : String → ℤ → Bool
  /-- The pieces that have been pinned at some time. -/
  everPinned : String → List ℤ

/-- The steps of a reader. -/
inductive PlanStep
  /-- The first bytes have been handed out. -/
  | recordFirstRead
  | startSeek
  /-- `prioritize_from` begins, and asks which pieces of the window are there. -/
  | prioritizeFrom (piece : ℤ) (presence : List Bool)
  /-- `prioritize_from` of a background reader. -/
  | prioritizeInBackground (piece : ℤ) (subordinate have' : Bool)
  | escalateBlockedPiece (piece : ℤ) (presence : List Bool)
  | pinOwn
  | readPins
  /-- It is asked whether the next of the pins is there. -/
  | check (have' : Bool)
  | unpin
  | assign (downloadRate : ℕ)
  /-- The next of the pins left is added to the window, if it has to be. -/
  | extend (have' : Bool)
  /-- The window is handed in. -/
  | replace
  deriving DecidableEq, Repr

/-- The native library lists pieces only that it has verified. -/
def Truthful (verified : ℤ → Bool) (first : ℤ) (presence : List Bool) : Prop :=
  ∀ k : ℕ, presence[k]? = some true → verified (first + k) = true

/-- The window of a reader begins at a piece of its file that is not the one it has planned for. -/
def LibtorrentDiskFileStream.Begins (r : LibtorrentDiskFileStream) (piece : ℤ) : Prop :=
  r.plan = .idle ∧ r.firstPiece ≤ piece ∧ piece ≤ r.lastPiece ∧ r.lastPrioritizedPiece ≠ piece

/-- A piece has to be added to the window: it is in the file, it is not there, and not in the window. -/
def LibtorrentDiskFileStream.Adds (r : LibtorrentDiskFileStream)
    (assignments : List LibtorrentPiecePriority) (p : ℤ) (have' : Bool) : Prop :=
  r.firstPiece ≤ p ∧ p ≤ r.lastPiece ∧ have' = false ∧ ∀ a ∈ assignments, a.piece ≠ p

instance (r : LibtorrentDiskFileStream) (assignments : List LibtorrentPiecePriority) (p : ℤ)
    (have' : Bool) : Decidable (r.Adds assignments p have') :=
  inferInstanceAs (Decidable (_ ∧ _ ∧ _ ∧ _))

namespace PlanStep

/-- When a reader takes a step.  An answer of the native library is true. -/
def guard (verified : ℤ → Bool) (r : LibtorrentDiskFileStream) : PlanStep → Prop
  | .recordFirstRead | .startSeek => r.plan = .idle
  | .prioritizeFrom piece presence =>
      r.Begins piece ∧ r.isBackgroundReader false = false ∧ Truthful verified piece presence
  | .prioritizeInBackground piece subordinate have' =>
      r.Begins piece ∧ r.isBackgroundReader subordinate = true ∧ (have' = true → verified piece = true)
  | .escalateBlockedPiece piece presence =>
      r.plan = .idle ∧ r.firstPiece ≤ piece ∧ piece ≤ r.lastPiece ∧
        r.isBackgroundReader false = false ∧ Truthful verified piece presence
  | .pinOwn => ∃ job, r.plan = .presented job
  | .readPins => ∃ job, r.plan = .pinned job
  | .check have' => ∃ job p left verified' missing,
      r.plan = .checking job (p :: left) verified' missing ∧ (have' = true → verified p = true)
  | .unpin => ∃ job verified' missing, r.plan = .checking job [] verified' missing
  | .assign _ => ∃ job missing, r.plan = .counted job missing
  | .extend have' => ∃ job p left assignments,
      r.plan = .extending job (p :: left) assignments ∧ (have' = true → verified p = true)
  | .replace => ∃ job assignments, r.plan = .extending job [] assignments

/-- What a step does to the reader, with the pins of its torrent. -/
def advance (pins everPinned : List ℤ) (r : LibtorrentDiskFileStream) :
    PlanStep → LibtorrentDiskFileStream
  | .recordFirstRead => { r with firstReadLogged := true }
  | .startSeek => { r with lastPrioritizedPiece := -1 }
  | .prioritizeFrom piece presence =>
      { r with lastPrioritizedPiece := piece, plan := .presented (r.job false piece presence) }
  | .prioritizeInBackground piece _ have' =>
      { r with
        lastPrioritizedPiece := piece
        window := r.backgroundWindow piece have'
        planned := none }
  | .escalateBlockedPiece piece presence =>
      { r with plan := .presented (r.job true piece presence) }
  | .pinOwn =>
      match r.plan with
      | .presented job => { r with plan := .pinned job }
      | _ => r
  | .readPins =>
      match r.plan with
      | .pinned job => { r with plan := .checking { job with known := everPinned } pins [] [] }
      | _ => r
  | .check have' =>
      match r.plan with
      | .checking job (p :: left) verified missing =>
          if have' then { r with plan := .checking job left (verified ++ [p]) missing }
          else { r with plan := .checking job left verified (missing ++ [p]) }
      | _ => r
  | .unpin =>
      match r.plan with
      | .checking job [] _ missing => { r with plan := .counted job missing }
      | _ => r
  | .assign downloadRate =>
      match r.plan with
      | .counted job missing =>
          let deadlineStep := playbackDeadlineStepMs r.pieceLength r.bitrateBytesPerSec downloadRate
          { r with plan := .extending job missing (job.assignments deadlineStep r.streamId) }
      | _ => r
  | .extend have' =>
      match r.plan with
      | .extending job (p :: left) assignments =>
          if r.Adds assignments p have' then
            { r with plan := .extending job left (assignments ++ [⟨p, 7, some 0⟩]) }
          else { r with plan := .extending job left assignments }
      | _ => r
  | .replace =>
      match r.plan with
      | .extending job [] assignments =>
          { r with plan := .idle, window := assignments, planned := some job }
      | _ => r

/-- The pieces that a step pins. -/
def pinned (r : LibtorrentDiskFileStream) : PlanStep → List ℤ
  | .pinOwn =>
      match r.plan with
      | .presented job => job.ownPins
      | _ => []
  | _ => []

/-- The pieces whose pins a step drops. -/
def unpinned (r : LibtorrentDiskFileStream) : PlanStep → List ℤ
  | .unpin =>
      match r.plan with
      | .checking _ [] verified _ => verified
      | _ => []
  | _ => []

end PlanStep

/-- The steps of the plans, and the pieces that are verified. -/
inductive PlanAction
  /-- The native library has verified a piece. -/
  | verify (infoHash : String) (piece : ℤ)
  | openStream (i : ℕ) (r : LibtorrentDiskFileStream)
  | dropStream (i : ℕ)
  | stream (i : ℕ) (step : PlanStep)
  deriving DecidableEq, Repr

namespace Planners

variable (s : Planners)

/-- No stream is open, and nothing is pinned. -/
def new : Planners where
  pins _ := []
  streams _ := none
  verified _ _ := false
  everPinned _ := []

/-- A step of a reader. -/
def step (i : ℕ) (r : LibtorrentDiskFileStream) (step : PlanStep) : Planners :=
  { s with
    pins := Function.update s.pins r.infoHash
      (unpinPieces (pinPieces (s.pins r.infoHash) (step.pinned r)) (step.unpinned r))
    everPinned := Function.update s.everPinned r.infoHash
      (s.everPinned r.infoHash ++ step.pinned r)
    streams := Function.update s.streams i
      (some (step.advance (s.pins r.infoHash) (s.everPinned r.infoHash) r)) }

end Planners

namespace PlanAction

/-- A reader is opened for the pieces of a file, of which there are fewer than `2 ^ 31`, and dropped
between two polls. -/
def guard (s : Planners) : PlanAction → Prop
  | .verify _ _ => True
  | .openStream i r => s.streams i = none ∧ r = .new r.infoHash r.firstPiece r.lastPiece r.pieceLength
      r.streamId r.playbackIntent r.bitrateBytesPerSec ∧ 0 ≤ r.firstPiece ∧ r.firstPiece ≤ r.lastPiece ∧
      r.lastPiece < 2 ^ 31 - 1 ∧ 0 < r.pieceLength
  | .dropStream i => ∃ r, s.streams i = some r ∧ r.plan = .idle
  | .stream i step => ∃ r, s.streams i = some r ∧ step.guard (s.verified r.infoHash) r

/-- What an action does. -/
def effect (s : Planners) : PlanAction → Planners
  | .verify infoHash piece =>
      { s with
        verified := Function.update s.verified infoHash
          (Function.update (s.verified infoHash) piece true) }
  | .openStream i r => { s with streams := Function.update s.streams i (some r) }
  | .dropStream i => { s with streams := Function.update s.streams i none }
  | .stream i step =>
      match s.streams i with
      | none => s
      | some r => s.step i r step

end PlanAction

/-- **The readers of all torrents, and their plans.** -/
def planning : GuardedSystem Planners PlanAction :=
  ⟨fun s a => a.guard s, fun s a => a.effect s⟩

end StreamServer.Readers

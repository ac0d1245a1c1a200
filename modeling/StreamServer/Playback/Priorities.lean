import StreamServer.Lib.Words
import StreamServer.Playback.State

/-!
# The priority policy

For where a reader stands, the policy says which pieces are wanted, how much, and until when: a few at
once, then a hot window, and behind it a warm one.  The windows come out of the intent, the rates and the
peers; they are cut to what memory, the cache and the file have room for.

Numbers of 32 bits are integers that have to fit; the casts to 32 bits cut numbers off.

## Main definitions

* `PriorityContext`, `PriorityDecision` — what the policy is asked, and what it says.
* `PriorityContext.windows` — the windows that are asked for.
* `PlaybackPriorityPolicy.decide` — the policy.

## References

`enginefs/src/backend/priorities.rs`.
-/

namespace StreamServer.Playback

open Checked

/-! ### Bounds -/

/-- The bytes that a startup window has at least. -/
def MIN_STARTUP_BYTES : ℕ := 4 * 1024 * 1024

/-- The bytes that a startup window has at most. -/
def MAX_STARTUP_WINDOW_BYTES : ℕ := 4 * 1024 * 1024

/-- The bytes that the hot window of a seek has at most. -/
def MAX_SEEK_HOT_WINDOW_BYTES : ℕ := 128 * 1024 * 1024

/-- The bytes that a warm window has at most. -/
def MAX_WARM_WINDOW_BYTES : ℕ := 256 * 1024 * 1024

/-- The bytes that a window of container metadata has at most. -/
def MAX_CONTAINER_METADATA_WINDOW_BYTES : ℕ := 16 * 1024 * 1024

/-- The bytes that the window of a download range has at most. -/
def MAX_DOWNLOAD_RANGE_WINDOW_BYTES : ℕ := 32 * 1024 * 1024

/-- A file up to this size is a small one. -/
def SMALL_FILE_BYTES : ℕ := 64 * 1024 * 1024

/-- The pieces that a startup window has at most. -/
def MAX_STARTUP_PIECES : ℤ := 4

/-- The pieces that the startup window of a small file has at most. -/
def MAX_SMALL_FILE_STARTUP_PIECES : ℤ := 32

/-- The pieces that a startup window has at least. -/
def MIN_STARTUP_PIECES : ℤ := 2

/-- The pieces that the hot window of a seek has at least. -/
def MIN_SEEK_HOT_PIECES : ℤ := 24

/-- The pieces that a seek wants at once. -/
def SEEK_IMMEDIATE_PIECES : ℤ := 12

/-- The pieces that a hot window has at most. -/
def MAX_HOT_PIECES : ℤ := 96

/-- The pieces that a warm window has at most. -/
def MAX_WARM_PIECES : ℤ := 192

/-- The time between the deadlines of two pieces, at least. -/
def MIN_PIECE_DEADLINE_STEP_MS : ℕ := 500

/-- The time between the deadlines of two pieces, at most. -/
def MAX_PIECE_DEADLINE_STEP_MS : ℕ := 30000

/-! ### What the policy is asked, and what it says -/

/-- `is_hls`. -/
def PlaybackIntent.isHls : PlaybackIntent → Bool
  | .hlsInitial | .hlsSeek | .hlsSequential => true
  | _ => false

/-- `MemoryPressure`. -/
inductive MemoryPressure
  | normal
  | high
  deriving DecidableEq, Repr

/-- `PriorityBand`. -/
inductive PriorityBand
  | immediate
  | hot
  | warm
  | metadata
  | background
  deriving DecidableEq, Repr

/-- `PriorityContext`. -/
structure PriorityContext where
  intent : PlaybackIntent
  currentPiece : Int32
  firstPiece : Int32
  lastPiece : Int32
  pieceLength : UInt64
  fileSize : UInt64
  bitrateBytesPerSec : Option UInt64
  downloadRateBytesPerSec : UInt64
  peers : UInt64
  cacheSizeBytes : UInt64
  memoryPressure : MemoryPressure
  consecutiveWaits : UInt32
  firstByteSent : Bool

/-- `PriorityAssignment`. -/
structure PriorityAssignment where
  pieceIdx : ℤ
  piecePriority : ℤ
  deadline : ℤ
  band : PriorityBand
  deriving DecidableEq, Repr

/-- `PriorityDecision`. -/
structure PriorityDecision where
  assignments : List PriorityAssignment
  targetWindowPieces : ℤ
  immediatePieces : ℤ
  hotWindowPieces : ℤ
  warmWindowPieces : ℤ
  reason : String
  deriving DecidableEq, Repr

/-! ### Rates -/

/-- What the cast `as f64` makes of a number: 53 bits of it, rounded to the nearest and, of two, to the
even one. -/
def asF64 (n : ℕ) : ℕ :=
  let unit := 2 ^ (Nat.log2 n - 52)
  let low := n / unit * unit
  if 2 * (n - low) < unit ∨ 2 * (n - low) = unit ∧ n / unit % 2 = 0 then low else low + unit

/-- A quotient of two numbers of type `f64`, before it is rounded. -/
structure BitrateRatio where
  rate : ℕ
  bitrate : ℕ

/-- The quotient is at least so many `2 ^ 54`ths. -/
def BitrateRatio.atLeast (ratio : BitrateRatio) (limit : ℕ) : Bool :=
  limit * ratio.bitrate ≤ ratio.rate * 2 ^ 54

/-- The least number that is rounded to 3, in `2 ^ 54`ths: it is in the middle between 3 and the number
of type `f64` in front of it, and 3 is the even one. -/
def roundsToThree : ℕ := 3 * 2 ^ 54 - 4

/-- The least number that is rounded to 1.5. -/
def roundsToOneAndAHalf : ℕ := 3 * 2 ^ 53 - 2

/-- The least number that is rounded to 1. -/
def roundsToOne : ℕ := 2 ^ 54 - 1

/-- The time a piece is given, in milliseconds: as long as it takes to play or to load it, whatever is
longer. -/
def playbackDeadlineStepMs (pieceLength : ℕ) (bitrateBytesPerSec : Option ℕ)
    (downloadRateBytesPerSec : ℕ) : ℕ :=
  let bitrate := bitrateBytesPerSec.filter (0 < ·)
  let downloadRate := if 0 < downloadRateBytesPerSec then some downloadRateBytesPerSec else none
  let effectiveRate := match bitrate, downloadRate with
    | some bitrate, some downloadRate => min bitrate downloadRate
    | some bitrate, none => bitrate
    | none, some downloadRate => downloadRate
    | none, none => 1024 * 1024
  let step := (saturatingU64 (pieceLength * 1000) + (effectiveRate - 1)) / effectiveRate
  max MIN_PIECE_DEADLINE_STEP_MS (min step MAX_PIECE_DEADLINE_STEP_MS)

/-! ### Pieces and bytes -/

/-- `pieces_for_bytes`: the division rounds up. -/
def piecesForBytes (bytes pieceLength : ℕ) : ℤ :=
  if bytes = 0 ∨ pieceLength = 0 then 0
  else (max 1 (min (saturatingU64 (bytes + (pieceLength - 1)) / pieceLength) (2 ^ 31 - 1)) : ℕ)

/-- `cap_pieces_by_bytes`. -/
def capPiecesByBytes (pieces : ℤ) (pieceLength maxBytes : ℕ) : ℤ :=
  if pieces ≤ 0 then 0
  else if maxBytes = 0 then 0
  else min pieces (max (piecesForBytes maxBytes pieceLength) 1)

/-- The bytes of the warm window, by the intent. -/
def warmByteCap : PlaybackIntent → ℕ
  | .directInitial | .directSeek | .directSequential | .hlsInitial | .hlsSeek | .hlsSequential
  | .downloadFull => MAX_WARM_WINDOW_BYTES
  | .downloadRange | .containerMetadata | .internalProbe | .background => 0

/-- How many pieces are wanted at once, and how many in the hot and in the warm window; and why. -/
structure PieceWindows where
  immediate : ℤ
  hot : ℤ
  warm : ℤ
  reason : String
  deriving DecidableEq, Repr

namespace PriorityContext

variable (ctx : PriorityContext)

/-- The piece that the policy is asked about is in the file or behind it. -/
def Valid : Prop :=
  ctx.pieceLength ≠ 0 ∧ ctx.firstPiece.toInt ≤ ctx.currentPiece.toInt ∧
    ctx.firstPiece.toInt ≤ ctx.lastPiece.toInt

instance : Decidable ctx.Valid := inferInstanceAs (Decidable (_ ∧ _ ∧ _))

/-- The bytes of the hot window, by the intent. -/
def hotByteCap : ℕ :=
  match ctx.intent with
  | .directInitial | .hlsInitial =>
      if ctx.firstByteSent then MAX_SEEK_HOT_WINDOW_BYTES else MAX_STARTUP_WINDOW_BYTES
  | .directSeek | .hlsSeek | .directSequential | .hlsSequential => MAX_SEEK_HOT_WINDOW_BYTES
  | .downloadFull => MAX_WARM_WINDOW_BYTES
  | .downloadRange => MAX_DOWNLOAD_RANGE_WINDOW_BYTES
  | .containerMetadata | .internalProbe | .background => MAX_CONTAINER_METADATA_WINDOW_BYTES

/-- The pieces that the cache has room for. -/
def maxCachePieces : ℤ :=
  if 0 < ctx.cacheSizeBytes then asI32 (max (ctx.cacheSizeBytes.toNat / ctx.pieceLength.toNat) 1)
  else MAX_HOT_PIECES

/-- The rate of the download over the bitrate, where that is known. -/
def bitrateRatio : Option BitrateRatio :=
  (ctx.bitrateBytesPerSec.filter (0 < ·)).map fun bitrate =>
    ⟨asF64 ctx.downloadRateBytesPerSec.toNat, asF64 bitrate.toNat⟩

/-- The hot window for the rates alone. -/
def rateHotWindow : ℤ :=
  match ctx.bitrateRatio with
  | some ratio =>
      if ratio.atLeast roundsToThree then 96
      else if ratio.atLeast roundsToOneAndAHalf then 48
      else if ratio.atLeast roundsToOne then 32
      else MIN_SEEK_HOT_PIECES
  | none =>
      if 10 * 1024 * 1024 < ctx.downloadRateBytesPerSec.toNat then 96
      else if 5 * 1024 * 1024 < ctx.downloadRateBytesPerSec.toNat then 48
      else if 1024 * 1024 < ctx.downloadRateBytesPerSec.toNat then MIN_SEEK_HOT_PIECES
      else 16

/-- The hot window as the rates ask for it. -/
def dynamicHotWindow : ℤ :=
  let hot := match ctx.bitrateBytesPerSec.filter (0 < ·) with
    | some bitrate =>
        max ctx.rateHotWindow
          (asI32 (max (saturatingU64 (bitrate.toNat * 10) / ctx.pieceLength.toNat) 1))
    | none => ctx.rateHotWindow
  if ctx.peers < 3 then min hot MIN_SEEK_HOT_PIECES else hot

/-- The windows before the first byte has been sent. -/
def startupWindows (reason : String) : PieceWindows :=
  let pieceLength := ctx.pieceLength.toNat
  let fileSize := ctx.fileSize.toNat
  let wanted := match ctx.bitrateBytesPerSec with
    | some bitrate => max (saturatingU64 (bitrate.toNat * 10)) MIN_STARTUP_BYTES
    | none =>
        if 0 < fileSize ∧ fileSize ≤ SMALL_FILE_BYTES then min fileSize MAX_STARTUP_WINDOW_BYTES
        else MIN_STARTUP_BYTES
  let targetBytes := min (max wanted pieceLength) (max MAX_STARTUP_WINDOW_BYTES pieceLength)
  let pieces := saturatingU64 (targetBytes + (pieceLength - 1)) / pieceLength
  let maxStartupPieces :=
    if ctx.bitrateBytesPerSec = none ∧ fileSize ≤ SMALL_FILE_BYTES then
      max 1 (min (piecesForBytes (min fileSize MAX_STARTUP_WINDOW_BYTES) pieceLength)
        MAX_SMALL_FILE_STARTUP_PIECES)
    else MAX_STARTUP_PIECES
  let minStartupPieces := max (min MIN_STARTUP_PIECES maxStartupPieces) 1
  let pieces := max minStartupPieces (min (asI32 pieces) maxStartupPieces)
  ⟨min pieces MAX_STARTUP_PIECES, pieces, 0, reason⟩

/-- The windows of a reader that reads on. -/
def sequentialWindows (reason : String) : PieceWindows :=
  if ctx.intent.isHls then ⟨2, min ctx.dynamicHotWindow 48, 32, reason ++ "-hls-cap"⟩
  else ⟨2, ctx.dynamicHotWindow, 32, reason⟩

/-- The windows behind a seek; they are doubled for a reader that has waited three times. -/
def seekWindows (reason : String) : Run PieceWindows :=
  let hot := max ctx.dynamicHotWindow MIN_SEEK_HOT_PIECES
  if 3 ≤ ctx.consecutiveWaits then do
    let doubled ← i32 (hot * 2)
    let hot := min doubled MAX_HOT_PIECES
    let immediate ← i32 (SEEK_IMMEDIATE_PIECES * 2)
    .ok ⟨min immediate hot, hot, 32, reason ++ "-blocked-expand"⟩
  else if ctx.intent.isHls then .ok ⟨SEEK_IMMEDIATE_PIECES, min hot 48, 32, reason ++ "-hls-cap"⟩
  else .ok ⟨SEEK_IMMEDIATE_PIECES, hot, 32, reason⟩

/-- The windows that are asked for. -/
def windows : Run PieceWindows :=
  match ctx.intent with
  | .directInitial | .hlsInitial =>
      .ok (if ctx.firstByteSent then ctx.sequentialWindows "initial"
        else ctx.startupWindows "initial")
  | .directSequential | .hlsSequential => .ok (ctx.sequentialWindows "sequential")
  | .downloadFull => .ok ⟨2, 16, 0, "download-full"⟩
  | .downloadRange => .ok ⟨1, 4, 0, "download-range"⟩
  | .directSeek | .hlsSeek =>
      if ctx.firstByteSent then ctx.seekWindows "seek"
      else .ok ⟨1, 1, 0, "seek" ++ "-first-piece-only"⟩
  | .containerMetadata => .ok ⟨1, 2, 0, "container-metadata"⟩
  | .internalProbe => .ok ⟨0, 2, 0, "internal-probe"⟩
  | .background => .ok ⟨0, 4, 0, "background"⟩

/-- Little memory makes the hot window smaller, and there is no warm one. -/
def clampMemory (w : PieceWindows) : PieceWindows :=
  let w := match ctx.memoryPressure with
    | .high =>
        { w with
          hot := min w.hot (if ctx.intent.isHls then 16 else MIN_SEEK_HOT_PIECES)
          warm := 0
          reason := w.reason ++ "-memory-clamp" }
    | .normal => w
  if ctx.intent = .background ∨ ctx.intent = .internalProbe then { w with warm := 0 } else w

/-- The windows within the bytes of the intent. -/
def capBytes (w : PieceWindows) : PieceWindows :=
  let hot := capPiecesByBytes w.hot ctx.pieceLength.toNat ctx.hotByteCap
  let warm := capPiecesByBytes w.warm ctx.pieceLength.toNat (warmByteCap ctx.intent)
  { w with
    hot := hot
    warm := warm
    reason := if hot < w.hot ∨ warm < w.warm then w.reason ++ "-byte-cap" else w.reason }

/-- What is left of the windows in the cache and in the file. -/
def fit (remaining : ℤ) (w : PieceWindows) : PieceWindows :=
  let hot := min (min (max 0 (min w.hot MAX_HOT_PIECES)) ctx.maxCachePieces) remaining
  let warm := min (min (max 0 (min w.warm MAX_WARM_PIECES))
    (saturatingI32 (ctx.maxCachePieces - hot))) (saturatingI32 (remaining - hot))
  ⟨max (min w.immediate hot) 0, hot, warm, w.reason⟩

/-- The band, the priority and the deadline of a piece, by its distance. -/
def assignmentFor (distance immediatePieces hotPieces : ℤ) : Run (PriorityBand × ℤ × ℤ) := do
  let deadlineStep := playbackDeadlineStepMs ctx.pieceLength.toNat
    (ctx.bitrateBytesPerSec.map UInt64.toNat) ctx.downloadRateBytesPerSec.toNat
  let time ← i32 (distance * deadlineStep)
  match ctx.intent with
  | .containerMetadata => .ok (.metadata, 7, time)
  | .internalProbe => do
      let deadline ← i32 (10000 + time)
      .ok (.background, 1, deadline)
  | .background => do
      let deadline ← i32 (30000 + time)
      .ok (.background, 1, deadline)
  | _ =>
      if distance < immediatePieces then .ok (.immediate, 7, time)
      else if distance < hotPieces then .ok (.hot, 7, time)
      else do
        let deadline ← i32 (10000 + time)
        .ok (.warm, 2, deadline)

/-- The loop over the distances from the piece that is read. -/
def assignmentsAt (immediate hot : ℤ) : List ℕ → Run (List PriorityAssignment)
  | [] => .ok []
  | distance :: distances => do
      let pieceIdx ← i32 (ctx.currentPiece.toInt + distance)
      if ctx.lastPiece.toInt < pieceIdx then .ok []
      else do
        let (band, piecePriority, deadline) ← ctx.assignmentFor distance immediate hot
        let assignments ← assignmentsAt immediate hot distances
        .ok (⟨pieceIdx, piecePriority, deadline, band⟩ :: assignments)

end PriorityContext

/-- The policy says nothing in a context that makes no sense. -/
def PriorityDecision.invalid : PriorityDecision := ⟨[], 0, 0, 0, 0, "invalid-context"⟩

/-- **The policy.** -/
def PlaybackPriorityPolicy.decide (ctx : PriorityContext) : Run PriorityDecision :=
  if ¬ ctx.Valid then .ok .invalid
  else do
    let remainingPieces ← i32 (saturatingI32 (ctx.lastPiece.toInt - ctx.currentPiece.toInt) + 1)
    let w ← ctx.windows
    let w := ctx.fit remainingPieces (ctx.capBytes (ctx.clampMemory w))
    let targetWindow ← i32 (w.hot + w.warm)
    let room ← capacity targetWindow
    let assignments ← ctx.assignmentsAt w.immediate w.hot (List.range room)
    .ok ⟨assignments, targetWindow, w.immediate, w.hot, w.warm, w.reason⟩

end StreamServer.Playback

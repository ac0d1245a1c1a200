import StreamServer.Playback.PriorityOrder

/-!
# Waiting until a file can be played

Before the first byte of a request is sent, the server waits until the pieces at its place are there:
on disk, or in the memory storage and from there in the piece cache.  It looks again and again, with
pauses that grow from 5 to 25 milliseconds, and has the missing pieces loaded first meanwhile.  If it
has not found all the pieces it wants when the time is over, it makes do with those it has found.

Between two looks anything may happen: pieces come, the cache drops some, the torrent is removed.

## Main definitions

* `diskReadinessTargetPieces` — how many pieces are wanted.
* `Observation` — what there is to see at one look.
* `Wait`, `WaitState`, `Wait.look`, `Wait.loop` — the loop, and what it keeps.
* `LibtorrentTorrentHandle.waitForPieceReady` — the request as a whole.

## References

`enginefs/src/backend/libtorrent/handle.rs`, `disk_readiness_target_pieces`, `wait_for_piece_ready`;
`bindings/libtorrent-sys/cpp/wrapper.cpp`, `handle_get_piece_presence`.
-/

namespace StreamServer.Readers

open Checked Playback

/-! ### How many pieces are wanted -/

/-- `LibtorrentStorageMode`. -/
inductive LibtorrentStorageMode
  | memoryOnly
  | diskBacked
  deriving DecidableEq, Repr

/-- The bytes that have to be on disk before the playback starts. -/
def DISK_READINESS_BUFFER_BYTES : ℕ := 8 * 1024 * 1024

/-- The pieces that have to be on disk, at most. -/
def DISK_READINESS_MAX_PIECES : ℕ := 4

/-- The time between two assertions of the priorities. -/
def DISK_READINESS_REASSERT_MS : ℤ := 250

/-- The intents of those who play. -/
def buffersOnDisk : PlaybackIntent → Bool
  | .directInitial | .directSeek | .directSequential | .hlsInitial | .hlsSeek | .hlsSequential => true
  | _ => false

/-- The pieces that have to be there, by intent and storage. -/
def diskReadinessTargetPieces (intent : PlaybackIntent) (piece lastPiece : ℤ) (pieceLength : ℕ)
    (storageMode : LibtorrentStorageMode) : ℕ :=
  let remaining := (max (saturatingI32 (lastPiece - piece) + 1) 1).toNat
  if storageMode ≠ .diskBacked ∨ pieceLength = 0 ∨ buffersOnDisk intent = false then min 1 remaining
  else
    let piecesForBuffer :=
      saturatingU64 (DISK_READINESS_BUFFER_BYTES + (pieceLength - 1)) / pieceLength
    min (max 1 (min piecesForBuffer DISK_READINESS_MAX_PIECES)) remaining

/-! ### What there is to see -/

/-- An entry of `files()`. -/
structure TorrentFile where
  offset : ℕ
  size : UInt64
  firstPiece : Int32
  lastPiece : Int32

/-- A torrent of the session, at one look.  It has no pieces as long as its metadata is missing. -/
structure TorrentView where
  numPeers : UInt64
  downloadRate : UInt64
  numPieces : Option ℤ
  present : ℤ → Bool

/-- `handle_get_piece_presence`. -/
def TorrentView.piecePresence (t : TorrentView) (first last : ℤ) : List Bool :=
  match t.numPieces with
  | none => []
  | some numPieces =>
      if first < 0 ∨ last < first ∨ numPieces ≤ first then []
      else (List.range (min last (numPieces - 1) - first + 1).toNat).map fun k : ℕ => t.present (first + k)

/-- What there is to see at one look.  The times are in milliseconds since the request. -/
structure Observation where
  now : ℕ
  /-- The torrent is looked up in the session; there may be none. -/
  torrent : Except String TorrentView
  /-- `has_piece` of the piece cache. -/
  hasPiece : ℤ → Bool
  /-- `memory_read_piece_direct`; it is empty if the piece is not in the memory storage. -/
  memoryPiece : ℤ → List UInt8
  /-- The time when it has been looked at everything. -/
  later : ℕ

/-- `PieceReadiness`. -/
structure PieceReadiness where
  ready : Bool
  piece : ℤ
  readyPieces : ℕ
  targetPieces : ℕ
  elapsedMs : ℕ
  peers : UInt64
  downloadRate : UInt64
  reason : String
  deriving DecidableEq, Repr

/-- What waiting does to others. -/
inductive Effect
  | labelMemoryStorage
  | setPiecePriorities (assignments : List (ℤ × ℤ))
  | setPieceDeadline (piece deadline : ℤ)
  | putPiece (piece : ℤ) (data : List UInt8)
  | notifyPieceFinished (piece : ℤ)
  deriving DecidableEq, Repr

/-- What a decision of the priority policy does. -/
def decisionEffects (d : PriorityDecision) : List Effect :=
  .setPiecePriorities (d.assignments.map fun a => (a.pieceIdx, a.piecePriority)) ::
    d.assignments.map fun a => .setPieceDeadline a.pieceIdx a.deadline

/-! ### The loop -/

/-- What a request waits for: a piece of its file. -/
structure Wait where
  intent : PlaybackIntent
  storageMode : LibtorrentStorageMode
  cacheSize : UInt64
  piece : Int32
  firstPiece : Int32
  lastPiece : Int32
  pieceLength : UInt64
  fileSize : UInt64
  timeout : ℕ

/-- What the loop keeps from one look to the next. -/
structure WaitState where
  lastPeers : UInt64
  lastRate : UInt64
  bestReadyPieces : ℕ
  lastDecidePeers : UInt64
  lastDecideRateBucket : UInt64
  pollIntervalMs : ℕ
  lastClusterReassert : ℤ

/-- The state before the first look. -/
def WaitState.new : WaitState where
  lastPeers := 0
  lastRate := 0
  bestReadyPieces := 0
  lastDecidePeers := UInt64.ofNat (2 ^ 64 - 1)
  lastDecideRateBucket := UInt64.ofNat (2 ^ 64 - 1)
  pollIntervalMs := 5
  lastClusterReassert := -DISK_READINESS_REASSERT_MS

namespace Wait

variable (w : Wait)

/-- The pieces that the wait is for. -/
def targetPieces : ℕ :=
  diskReadinessTargetPieces w.intent w.piece.toInt w.lastPiece.toInt w.pieceLength.toNat w.storageMode

/-- The last piece of those that are looked at. -/
def clusterEnd : ℤ := min w.lastPiece.toInt (w.piece.toInt + w.targetPieces - 1)

/-- The pieces that are wanted. -/
def cluster : List ℤ :=
  (List.range (w.clusterEnd - w.piece.toInt + 1).toNat).map fun k : ℕ => w.piece.toInt + k

/-- What the priorities are decided on. -/
def context (downloadRate peers : UInt64) (memoryPressure : MemoryPressure)
    (consecutiveWaits : UInt32) : PriorityContext where
  intent := w.intent
  currentPiece := w.piece
  firstPiece := w.firstPiece
  lastPiece := w.lastPiece
  pieceLength := w.pieceLength
  fileSize := w.fileSize
  bitrateBytesPerSec := none
  downloadRateBytesPerSec := downloadRate
  peers := peers
  cacheSizeBytes := w.cacheSize
  memoryPressure := memoryPressure
  consecutiveWaits := consecutiveWaits
  firstByteSent := false

/-- Which pieces of the cluster are there. -/
def presence (t : TorrentView) : List Bool := t.piecePresence w.piece.toInt w.clusterEnd

/-- The pieces that are there, one behind the other. -/
def leading (t : TorrentView) : ℕ := ((w.presence t).takeWhile id).length

/-- Enough pieces are on disk. -/
def diskSatisfied (t : TorrentView) : Bool :=
  decide (w.storageMode = .diskBacked) && decide (w.targetPieces ≤ w.leading t)

/-- The missing pieces of the cluster are asked for once more, with the time each is given. -/
def missing (t : TorrentView) : List (ℤ × ℤ) :=
  (w.presence t).zipIdx.filterMap fun (present, k) =>
    if present then none
    else
      let target := saturatingI32 (w.piece.toInt + k)
      some (target, saturatingI32 (target - w.piece.toInt) * 10)

/-- The missing pieces are asked for once more, every quarter of a second. -/
def reassert (s : WaitState) (now : ℕ) (t : TorrentView) : WaitState × List Effect :=
  if w.diskSatisfied t = false ∧ w.storageMode = .diskBacked ∧
      DISK_READINESS_REASSERT_MS ≤ now - s.lastClusterReassert then
    ({ s with lastClusterReassert := now },
      .setPiecePriorities ((w.missing t).map fun a => (a.1, 7)) ::
        (w.missing t).map fun a => .setPieceDeadline a.1 a.2)
  else (s, [])

/-- The policy is asked again when the swarm has changed. -/
def replan (s : WaitState) (t : TorrentView) : Run (WaitState × List Effect) :=
  let rateBucket := t.downloadRate / (64 * 1024)
  if w.diskSatisfied t = false ∧
      (t.numPeers ≠ s.lastDecidePeers ∨ rateBucket ≠ s.lastDecideRateBucket) then do
    let d ← PlaybackPriorityPolicy.decide (w.context t.downloadRate t.numPeers .normal 1)
    .ok ({ s with lastDecidePeers := t.numPeers, lastDecideRateBucket := rateBucket },
      decisionEffects d)
  else .ok (s, [])

/-- Pieces are carried from the memory storage into the piece cache, up to the first that is in
neither. -/
def fill (o : Observation) (memoryPiecesToCache : List ℤ) : List ℤ → ℕ × List Effect
  | [] => (0, [])
  | piece :: pieces =>
      let rest := fill o memoryPiecesToCache pieces
      if o.hasPiece piece then (rest.1 + 1, rest.2)
      else if piece ∈ memoryPiecesToCache then
        if o.memoryPiece piece = [] then (0, [])
        else (rest.1 + 1, .putPiece piece (o.memoryPiece piece) :: .notifyPieceFinished piece :: rest.2)
      else (0, [])

/-- How many of the wanted pieces are ready. -/
def readyPieces (o : Observation) (t : TorrentView) : ℕ × List Effect :=
  match w.storageMode with
  | .diskBacked => (w.leading t, [])
  | .memoryOnly => fill o (w.cluster.take (w.leading t)) w.cluster

/-- **One look.** -/
def look (s : WaitState) (o : Observation) (t : TorrentView) :
    Run (ℕ × WaitState × List Effect) := do
  let (s, reasserted) := w.reassert s o.now t
  let (s, replanned) ← w.replan s t
  let (ready, filled) := w.readyPieces o t
  .ok (ready,
    { s with
      lastPeers := t.numPeers
      lastRate := t.downloadRate
      bestReadyPieces := max s.bestReadyPieces ready },
    reasserted ++ replanned ++ filled)

/-- All the pieces that are wanted are ready. -/
def complete (o : Observation) (t : TorrentView) (ready : ℕ) : PieceReadiness where
  ready := true
  piece := w.piece.toInt
  readyPieces := ready
  targetPieces := w.targetPieces
  elapsedMs := o.later
  peers := t.numPeers
  downloadRate := t.downloadRate
  reason := if 1 < w.targetPieces then "buffer-ready" else "piece-ready"

/-- The time is over. -/
def expired (s : WaitState) (now : ℕ) : PieceReadiness where
  ready := decide (0 < s.bestReadyPieces)
  piece := w.piece.toInt
  readyPieces := s.bestReadyPieces
  targetPieces := w.targetPieces
  elapsedMs := now
  peers := s.lastPeers
  downloadRate := s.lastRate
  reason := if 0 < s.bestReadyPieces then "partial-buffer-timeout" else "timeout"

/-- The error for a torrent that is not in the session. -/
def notFound (e : String) : String := "Torrent not found: " ++ e

/-- **The loop**, with what there is to see at its looks.  They have to be enough. -/
def loop : WaitState → List Observation → Run (Except String PieceReadiness × List Effect)
  | _, [] => .error .stuck
  | s, o :: os =>
      if w.timeout ≤ o.now then .ok (.ok (w.expired s o.now), [])
      else
        match o.torrent with
        | .error e => .ok (.error (notFound e), [])
        | .ok t => do
            let (ready, s, effects) ← w.look s o t
            if w.targetPieces ≤ ready then .ok (.ok (w.complete o t ready), effects)
            else do
              let (result, later) ←
                loop { s with pollIntervalMs := min (s.pollIntervalMs * 2) 25 } os
              .ok (result, effects ++ later)

end Wait

/-! ### The request -/

/-- The torrent when the request comes. -/
structure Arrival where
  files : List TorrentFile
  pieceLength : UInt64
  numPeers : UInt64
  downloadRate : UInt64
  /-- The bytes in the memory storages of all torrents. -/
  nativeMemoryBytes : ℕ
  elapsedMs : ℕ

/-- What a handle is given. -/
structure LibtorrentTorrentHandle where
  storageMode : LibtorrentStorageMode
  cacheSize : UInt64

namespace LibtorrentTorrentHandle

variable (h : LibtorrentTorrentHandle)

/-- A request that cannot be waited for. -/
def refusal (piece : ℤ) (targetPieces elapsedMs : ℕ) (reason : String) : PieceReadiness :=
  ⟨false, piece, 0, targetPieces, elapsedMs, 0, 0, reason⟩

/-- High where the native library uses four fifths of the cache. -/
def memoryPressure (nativeMemoryBytes : ℕ) : MemoryPressure :=
  if 0 < h.cacheSize ∧ saturatingU64 (h.cacheSize.toNat * 80) / 100 ≤ nativeMemoryBytes then .high
  else .normal

/-- What a request for a place of a file waits for. -/
def wait (intent : PlaybackIntent) (timeout : ℕ) (a : Arrival) (file : TorrentFile) (piece : Int32) :
    Wait where
  intent := intent
  storageMode := h.storageMode
  cacheSize := h.cacheSize
  piece := piece
  firstPiece := file.firstPiece
  lastPiece := file.lastPiece
  pieceLength := a.pieceLength
  fileSize := file.size
  timeout := timeout

/-- `label_memory_storage`. -/
def labels : List Effect := if h.storageMode = .memoryOnly then [.labelMemoryStorage] else []

/-- **The request**, for a torrent and what there is to see later. -/
def waitForPieceReady (fileIdx offset timeout : ℕ) (intent : PlaybackIntent)
    (arrival : Except String Arrival) (os : List Observation) :
    Run (Except String PieceReadiness × List Effect) :=
  match arrival with
  | .error e => .ok (.error (Wait.notFound e), [])
  | .ok a =>
      match a.files[fileIdx]? with
      | none => .ok (.error s!"File index {fileIdx} out of range", h.labels)
      | some file =>
          if a.pieceLength = 0 then
            .ok (.ok (refusal (-1) 0 a.elapsedMs "zero-piece-length"), h.labels)
          else do
            let position ← add (2 ^ 64) file.offset offset
            let piece := Int32.ofNat (position / a.pieceLength.toNat)
            if piece < file.firstPiece ∨ file.lastPiece < piece then
              .ok (.ok (refusal piece.toInt 1 a.elapsedMs "piece-out-of-file-range"), h.labels)
            else do
              let w := h.wait intent timeout a file piece
              let d ← PlaybackPriorityPolicy.decide
                (w.context a.downloadRate a.numPeers (h.memoryPressure a.nativeMemoryBytes) 0)
              let (result, effects) ← w.loop .new os
              .ok (result, h.labels ++ decisionEffects d ++ effects)

end LibtorrentTorrentHandle

end StreamServer.Readers

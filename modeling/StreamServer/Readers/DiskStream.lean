import Mathlib.Data.Finset.Insert
import StreamServer.Readers.File

/-!
# The disk-backed reader

A reader of a file that is being downloaded.  While the piece at its position is not
verified it asks libtorrent for the piece and serves what comes back; once it is
verified the file on disk is read as well, and whichever source is ready first serves
the bytes.  The reader keeps three places: its own position, where it takes the open
file to be, and the target of a native seek it has started.

Every call of `poll_read` is one step, given the answers of everything it polls.
Priorities, wake-ups and logging have no influence on what is read and are left out.

## Main definitions

* `DiskStream` — the reader.
* `PollInput` — the answers one poll gets.
* `DiskStream.toFile`, `readFile` — the two halves of `poll_read`: up to the point where
  the open file is used, and from there on.
* `DiskStream.pollRead`, `startSeek`, `pollComplete` — the operations of a caller.

## References

`enginefs/src/backend/libtorrent/disk_stream.rs`, `LibtorrentDiskFileStream`.
-/

namespace StreamServer.Readers

/-- The room of the buffer that the file is read into. -/
def scratchLength : ℕ := 256 * 1024

/-- How long a piece that could not be read is left alone. -/
def pieceReadRetryDelay : ℕ := 250

/-- `LibtorrentDiskFileStream`, the fields that `poll_read` and the seeks use. -/
structure DiskStream where
  currentPos : ℕ
  file : Option File
  fileCursor : ℕ
  seekPending : Bool
  /-- The file is being opened. -/
  opening : Bool
  verifiedPiece : Option ℤ
  brokerPiece : Option (ℤ × List UInt8)
  /-- The piece that libtorrent has been asked for. -/
  pieceRead : Option ℤ
  pieceReadRetryAt : Option (ℤ × ℕ)
  firstReadLogged : Bool
  deriving DecidableEq, Repr

/-- What a poll finds out about the piece libtorrent has been asked for. -/
inductive PieceReadPoll
  | pending
  | bytes (data : List UInt8)
  /-- The broker did not produce bytes. -/
  | failed
  | aborted
  | panicked (error : IoError)
  deriving DecidableEq, Repr

/-- What a poll finds out about a file that is being opened. -/
inductive FileOpenPoll
  | pending
  | opened
  | failed (error : IoError)
  deriving DecidableEq, Repr

/-- One call of `poll_read`: the room in the caller's buffer, the instant, and the answers of
everything it polls. -/
structure PollInput where
  remaining : ℕ
  cancelled : Bool
  now : ℕ
  pieceRead : PieceReadPoll
  fileOpen : FileOpenPoll
  fileSeek : Completion
  fileRead : Completion
  disk : Disk

/-- `broker_slice_bounds`. -/
def brokerSliceBounds (piece : ℤ) (pieceLength fileOffset currentPos fileSize pieceBytes
    requestedBytes : ℕ) : Option (ℕ × ℕ) :=
  let pieceStart := saturatingMul (max piece 0).toNat pieceLength
  let globalPosition := saturatingAdd fileOffset currentPos
  let offset := globalPosition - pieceStart
  let available := pieceBytes - offset
  let remainingFile := fileSize - currentPos
  let len := min (min requestedBytes available) remainingFile
  if len ≠ 0 then some (offset, offset + len) else none

namespace DiskStream

/-- A new reader, whose file may have been opened already. -/
def new (file : Option File) : DiskStream where
  currentPos := 0
  file := file
  fileCursor := 0
  seekPending := false
  opening := false
  verifiedPiece := none
  brokerPiece := none
  pieceRead := none
  pieceReadRetryAt := none
  firstReadLogged := false

/-- The error of a reader whose file is no longer selected. -/
def superseded : IoError := ⟨.interrupted, "playback superseded by a newer torrent file"⟩

/-- The error for pieces of no length. -/
def zeroPieceLength : IoError := ⟨.invalidData, "torrent piece length is zero"⟩

/-- The error for a position that no piece covers. -/
def outsideFile : IoError :=
  ⟨.unexpectedEof, "read position is outside selected torrent file"⟩

section Steps

variable (L : FileLayout) (s : DiskStream) (i : PollInput)

/-- The piece at the position. -/
def currentPiece : Except IoError ℤ :=
  if L.pieceLength = 0 then .error zeroPieceLength
  else .ok (asI32 ((L.fileOffset + s.currentPos) / L.pieceLength))

/-- The bytes from the position to the end of the piece. -/
def bytesAvailableInVerifiedPiece (piece : ℤ) : ℕ :=
  let currentGlobal := L.fileOffset + s.currentPos
  let pieceEndGlobal := saturatingMul (piece + 1).toNat L.pieceLength
  min (pieceEndGlobal - currentGlobal) (L.fileSize - s.currentPos)

/-- `request_piece_from_libtorrent`: a task for another piece is aborted. -/
def requestPieceFromLibtorrent (now : ℕ) (piece : ℤ) : DiskStream :=
  if s.pieceReadRetryAt.any fun retry => retry.1 == piece && decide (now < retry.2) then s
  else if s.pieceRead = some piece ∨ s.brokerPiece.any fun cached => cached.1 == piece then s
  else { s with pieceRead := some piece }

/-- The answer of the broker, if it is asked for this piece. -/
def pollPieceBroker (piece : ℤ) : DiskStream × Option IoError :=
  if s.pieceRead ≠ some piece then (s, none)
  else
    match i.pieceRead with
    | .bytes data =>
        ({ s with brokerPiece := some (piece, data), pieceRead := none, pieceReadRetryAt := none },
          none)
    | .failed =>
        ({ s with
            pieceRead := none
            pieceReadRetryAt := some (piece, i.now + pieceReadRetryDelay) }, none)
    | .aborted => ({ s with pieceRead := none }, none)
    | .panicked error =>
        ({ s with
            pieceRead := none
            pieceReadRetryAt := some (piece, i.now + pieceReadRetryDelay) }, some error)
    | .pending => (s, none)

/-- `serve_broker_piece`: the bytes served, if there are any. -/
def serveBrokerPiece (piece : ℤ) : Option (DiskStream × List UInt8) :=
  match s.brokerPiece with
  | none => none
  | some (cachedPiece, data) =>
      if cachedPiece ≠ piece then none
      else
        match brokerSliceBounds piece L.pieceLength L.fileOffset s.currentPos L.fileSize
          data.length i.remaining with
        | none => none
        | some (start, stop) =>
            some
              ({ s with
                  currentPos := saturatingAdd s.currentPos (stop - start)
                  firstReadLogged := true },
                (data.drop start).take (stop - start))

/-- `poll_file_open`, for a file that is not open: it is opened, is not there yet, or can not
be opened. -/
def pollFileOpen : DiskStream × Poll (Except IoError File) :=
  match i.fileOpen with
  | .opened =>
      ({ s with file := some .opened, fileCursor := 0, seekPending := false, opening := false },
        .ready (.ok .opened))
  | .failed error =>
      if error.kind = .notFound then ({ s with opening := false }, .pending)
      else ({ s with opening := false }, .ready (.error error))
  | .pending => ({ s with opening := true }, .pending)

/-- How far `poll_read` gets without the open file. -/
inductive Stage
  | returned (s : DiskStream) (result : ReadPoll)
  | atFile (s : DiskStream) (piece : ℤ) (file : File)

/-- The broker's bytes are served first, if there are any. -/
def tryBroker (piece : ℤ) (next : DiskStream → Stage) : Stage :=
  match s.pollPieceBroker i piece with
  | (s, some error) => .returned s (.ready (.error error))
  | (s, none) =>
      match s.serveBrokerPiece L i piece with
      | some (s, bytes) => .returned s (.ready (.ok bytes))
      | none => next s

/-- A piece that is not verified yet: only the broker can serve it. -/
def awaitPiece (piece : ℤ) : Stage :=
  (s.requestPieceFromLibtorrent i.now piece).tryBroker L i piece fun s => .returned s .pending

/-- The file is opened, unless it is open. -/
def openFile (piece : ℤ) : Stage :=
  match s.file with
  | some file => .atFile s piece file
  | none =>
      match s.pollFileOpen i with
      | (s, .ready (.ok file)) => .atFile s piece file
      | (s, .ready (.error error)) => .returned s (.ready (.error error))
      | (s, .pending) => .returned (s.requestPieceFromLibtorrent i.now piece) .pending

/-- A verified piece: the broker may still be the first to serve it. -/
def readVerified (piece : ℤ) : Stage :=
  if s.bytesAvailableInVerifiedPiece L piece = 0 then .returned s (.ready (.ok []))
  else
    (if !s.firstReadLogged || s.file.isNone then s.requestPieceFromLibtorrent i.now piece
      else s).tryBroker L i piece fun s => s.openFile i piece

/-- `poll_read` up to the point where it uses the open file. -/
def toFile (verified : Finset ℤ) : Stage :=
  if i.cancelled then .returned s (.ready (.error superseded))
  else if L.fileSize ≤ s.currentPos ∨ i.remaining = 0 then .returned s (.ready (.ok []))
  else
    match s.currentPiece L with
    | .error error => .returned s (.ready (.error error))
    | .ok piece =>
        if piece < L.firstPiece ∨ L.lastPiece < piece then
          .returned s (.ready (.error outsideFile))
        else if s.verifiedPiece ≠ some piece ∧ piece ∉ verified then s.awaitPiece L i piece
        else { s with verifiedPiece := some piece }.readVerified L i piece

/-- How much is asked of the file. -/
def toRead (piece : ℤ) : ℕ :=
  min (min i.remaining (s.bytesAvailableInVerifiedPiece L piece)) scratchLength

/-- What has been read from the file is handed on, unless the file seems not to have been
written yet. -/
def handOn (piece : ℤ) (data : List UInt8) : DiskStream × ReadPoll :=
  if data = [] ∨ s.currentPos = 0 ∧ s.firstReadLogged = false ∧ data.all (· == 0) then
    (s.requestPieceFromLibtorrent i.now piece, .pending)
  else
    ({ s with
        currentPos := saturatingAdd s.currentPos data.length
        firstReadLogged := true }, .ready (.ok data))

/-- The end of `poll_read`: the file is read where it stands. -/
def readHere (piece : ℤ) (file : File) : DiskStream × ReadPoll :=
  match file.pollRead (s.toRead L i piece) i.disk i.fileSeek i.fileRead with
  | (file, .pending) => ({ s with file := some file }, .pending)
  | (file, .ready (.error error)) => ({ s with file := some file }, .ready (.error error))
  | (file, .ready (.ok data)) =>
      { s with
        file := some file
        fileCursor := saturatingAdd s.fileCursor data.length }.handOn i piece data

/-- The native seek that brings the file to the reader's position, once it is started. -/
def seekFile (piece : ℤ) (file : File) : DiskStream × ReadPoll :=
  match file.pollComplete i.fileSeek with
  | (file, .ready (.ok position)) =>
      { s with file := some file, fileCursor := position, seekPending := false }.readHere L i piece
        file
  | (file, .ready (.error error)) =>
      ({ s with file := some file, seekPending := false }, .ready (.error error))
  | (file, .pending) => ({ s with file := some file }, .pending)

/-- `poll_read` from the point where it uses the open file. -/
def readFile (piece : ℤ) (file : File) : DiskStream × ReadPoll :=
  if s.fileCursor ≠ s.currentPos then
    if s.seekPending then s.seekFile L i piece file
    else
      match file.startSeek s.currentPos with
      | .error error => (s, .ready (.error error))
      | .ok file => { s with file := some file, seekPending := true }.seekFile L i piece file
  else s.readHere L i piece file

/-- `poll_read`. -/
def pollRead (verified : Finset ℤ) : DiskStream × ReadPoll :=
  match s.toFile L i verified with
  | .returned s result => (s, result)
  | .atFile s piece file => s.readFile L i piece file

/-- `start_seek`. -/
def startSeek (position : SeekFrom) : DiskStream :=
  let newPos :=
    match position with
    | .start pos => pos
    | .current delta => (max (saturatingAddI64 (asI64 s.currentPos) delta) 0).toNat
    | .fromEnd delta => (max (saturatingAddI64 (asI64 L.fileSize) delta) 0).toNat
  { s with
    currentPos := min newPos L.fileSize
    verifiedPiece := none
    brokerPiece := none
    pieceRead := none
    pieceReadRetryAt := none }

/-- `poll_complete`: the position. -/
def pollComplete : ℕ := s.currentPos

end Steps

end DiskStream

end StreamServer.Readers

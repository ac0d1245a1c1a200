import Mathlib.Logic.Function.Basic
import StreamServer.Readers.Planning

/-!
# The memory-only reader

The reader of a torrent that is kept in memory.  It serves a piece from its own copy, from
the piece cache or from a lookup of the disk cache; a piece in none of them is taken from
the memory storage into the piece cache once it is verified, and served by a later poll.

A seek and the planning of priorities compute with machine integers.  Where these overflow
the code panics if it was built with overflow checks, and goes on with what is left modulo
the word size if not.  The planning also panics if the window it comes to has a negative
length.  What the policy is asked besides the piece is left open: every planning has its own.

## Main definitions

* `FileStream` — the reader.
* `MemoryInput` — the answers one poll gets.
* `FileStream.setPriorities`, `replan` — the planning for the piece of the position, and a
  second one in the same poll.
* `FileStream.pollRead`, `startSeek`, `pollComplete` — the operations of a caller; a result
  `none` is a panic.

## References

`enginefs/src/backend/libtorrent/stream.rs`, `LibtorrentFileStream`.
-/

namespace StreamServer.Readers

/-! ### Arithmetic that may overflow -/

/-- `a + b` for `i64`. -/
def addI64 (checks : Bool) (a b : ℤ) : Option ℤ :=
  if minI64 ≤ a + b ∧ a + b ≤ maxI64 then some (a + b)
  else if checks then none
  else some (Int.bmod (a + b) (2 ^ 64))

/-- `a + b` for `u64`. -/
def addU64 (checks : Bool) (a b : ℕ) : Option ℕ :=
  if a + b ≤ maxU64 then some (a + b)
  else if checks then none
  else some ((a + b) % 2 ^ 64)

/-- `a + b` for `i32`. -/
def addI32 (checks : Bool) (a b : ℤ) : Option ℤ :=
  if -2 ^ 31 ≤ a + b ∧ a + b < 2 ^ 31 then some (a + b)
  else if checks then none
  else some (Int.bmod (a + b) (2 ^ 32))

/-! ### The reader -/

/-- `LibtorrentFileStream`, the fields that `poll_read` and the seeks use. -/
structure FileStream where
  currentPos : ℕ
  cachedPieceData : Option (ℤ × List UInt8)
  /-- The piece that the disk cache is asked for. -/
  diskLookup : Option ℤ
  diskLookupMiss : Option ℤ
  /-- When a piece has been taken from the memory storage. -/
  requestedPieceViaApi : ℤ → Option ℕ
  isComplete : Bool
  lastPrioritiesPiece : ℤ

/-- What a poll finds out about the lookup of the disk cache. -/
inductive LookupPoll
  | pending
  | found (data : List UInt8)
  | missed
  | aborted
  | failed (error : IoError)
  deriving DecidableEq, Repr

/-- One call of `poll_read`: the room in the caller's buffer, the instant, and the answers of
everything it polls. -/
structure MemoryInput where
  remaining : ℕ
  cancelled : Bool
  now : ℕ
  planning : Planning
  /-- What the reader plans with once more, unless it has done so for the piece already, or does
  not do so at all because it is subordinate or runs in the background. -/
  replanning : Option Planning
  /-- What the piece cache has of the piece. -/
  cached : Option (List UInt8)
  lookup : LookupPoll
  havePiece : Bool
  /-- What the memory storage has of the piece. -/
  stored : List UInt8
  deriving DecidableEq, Repr

namespace FileStream

/-- The error of a reader whose file is no longer selected. -/
def supersededRead : IoError := ⟨.interrupted, "playback superseded by a newer torrent file"⟩

/-- The error of a read that no branch answers. -/
def unexpectedState : IoError := ⟨.other, "Memory-only streaming: unexpected state in poll_read"⟩

/-- How long a piece that does not come into the cache is left alone. -/
def rerequestDelay : ℕ := 250

/-- A new reader. -/
def new (isComplete : Bool) (lastPrioritiesPiece : ℤ) : FileStream where
  currentPos := 0
  cachedPieceData := none
  diskLookup := none
  diskLookupMiss := none
  requestedPieceViaApi := fun _ => none
  isComplete := isComplete
  lastPrioritiesPiece := lastPrioritiesPiece

section Steps

variable (checks : Bool) (L : FileLayout) (s : FileStream) (i : MemoryInput)

/-- `set_priorities`. -/
def setPriorities (p : Planning) : Option FileStream :=
  if s.isComplete ∨ L.pieceLength = 0 then some s
  else
    match addU64 checks L.fileOffset s.currentPos with
    | none => none
    | some position =>
        let currentPiece := asI32 (position / L.pieceLength)
        if currentPiece = s.lastPrioritiesPiece then some s
        else if p.Panics checks L currentPiece then none
        else some { s with lastPrioritiesPiece := currentPiece }

/-- The piece of the position; a piece length of zero gives -1. -/
def pieceIndex : ℤ :=
  if L.pieceLength = 0 then -1
  else asI32 (saturatingAdd L.fileOffset s.currentPos / L.pieceLength)

/-- The bytes of the piece, if they are the ones that are kept. -/
def cachedData (piece : ℤ) : Option (List UInt8) :=
  match s.cachedPieceData with
  | some (cachedPiece, data) => if cachedPiece = piece then some data else none
  | none => none

/-- The part of a piece that the position is in is handed out. -/
def serve (piece : ℤ) (data : List UInt8) : FileStream × ReadPoll :=
  let offsetInCached := (L.fileOffset + s.currentPos) % L.pieceLength
  let available := data.length - offsetInCached
  let remainingFile := L.fileSize - s.currentPos
  let toRead := min (min i.remaining available) remainingFile
  ({ s with
      currentPos := s.currentPos + toRead
      requestedPieceViaApi := Function.update s.requestedPieceViaApi piece none },
    .ready (.ok ((data.drop offsetInCached).take toRead)))

/-- The piece is in no cache: it is awaited, or taken from the memory storage into the piece
cache. -/
def awaitPiece (piece : ℤ) : FileStream × ReadPoll :=
  if i.havePiece = false then (s, .pending)
  else
    match s.requestedPieceViaApi piece with
    | none =>
        if i.stored = [] then (s, .pending)
        else
          ({ s with
              requestedPieceViaApi := Function.update s.requestedPieceViaApi piece (some i.now)
              diskLookupMiss := none }, .pending)
    | some requestedAt =>
        if rerequestDelay < i.now - requestedAt then
          ({ s with
              requestedPieceViaApi := Function.update s.requestedPieceViaApi piece (some i.now) },
            .pending)
        else (s, .pending)

/-- A lookup of another piece is aborted, and one of this piece started unless it has failed
before. -/
def startLookup (piece : ℤ) : FileStream :=
  let current := if s.diskLookup = some piece then s.diskLookup else none
  { s with
    diskLookup :=
      if current = none ∧ s.diskLookupMiss ≠ some piece then some piece else current }

/-- The disk cache is looked up.  What it has is served by the next poll. -/
def pollLookup (piece : ℤ) : FileStream × ReadPoll :=
  if s.diskLookup = none then s.awaitPiece i piece
  else
    match i.lookup with
    | .found data =>
        ({ s with
            diskLookup := none
            diskLookupMiss := none
            cachedPieceData := some (piece, data) }, .pending)
    | .missed => { s with diskLookup := none, diskLookupMiss := some piece }.awaitPiece i piece
    | .failed error => ({ s with diskLookup := none }, .ready (.error error))
    | .aborted => { s with diskLookup := none }.awaitPiece i piece
    | .pending => s.awaitPiece i piece

/-- `poll_read` from the point where it knows the piece. -/
def readPiece (piece : ℤ) : FileStream × ReadPoll :=
  if piece < 0 then (s, .ready (.error unexpectedState))
  else
    match s.cachedData piece with
    | some data => s.serve L i piece data
    | none =>
        match i.cached with
        | some data =>
            { s with cachedPieceData := some (piece, data), diskLookupMiss := none }.serve L i piece
              data
        | none => (s.startLookup piece).pollLookup i piece

/-- `reassert_serving_window`: the window behind a piece is planned for. -/
def reassertServingWindow (p : Planning) (servedPiece : ℤ) : Option Unit :=
  if s.isComplete ∨ servedPiece < L.firstPiece ∨ L.lastPiece < servedPiece then some ()
  else
    match addI32 checks servedPiece 1 with
    | none => none
    | some next =>
        let nextPiece := min next L.lastPiece
        if nextPiece < L.firstPiece ∨ L.lastPiece < nextPiece then some ()
        else if p.Panics checks L nextPiece then none else some ()

/-- `reprioritize_blocking_piece`: the piece that is awaited is planned for. -/
def reprioritizeBlockingPiece (p : Planning) (piece : ℤ) : Option Unit :=
  if s.isComplete ∨ piece < L.firstPiece ∨ L.lastPiece < piece then some ()
  else if p.Panics checks L piece then none else some ()

/-- The second planning of a poll, which has come to a result: behind a piece of which bytes are
handed out or that is taken from the memory storage, and for a piece that is not there.  What a
lookup has brought is the reader's own copy by then. -/
def replan (p : Planning) (piece : ℤ) (r : FileStream × ReadPoll) : Option Unit :=
  match r.2 with
  | .ready (.error _) => some ()
  | .ready (.ok bytes) =>
      if bytes = [] then some () else s.reassertServingWindow checks L p piece
  | .pending =>
      if (r.1.cachedData piece).isSome then some ()
      else if i.havePiece = false then s.reprioritizeBlockingPiece checks L p piece
      else if s.requestedPieceViaApi piece = none ∧ i.stored ≠ [] then
        s.reassertServingWindow checks L p piece
      else some ()

/-- `poll_read`. -/
def pollRead : Option (FileStream × ReadPoll) :=
  if i.cancelled then some (s, .ready (.error supersededRead))
  else if L.fileSize ≤ s.currentPos ∨ i.remaining = 0 then some (s, .ready (.ok []))
  else
    (s.setPriorities checks L i.planning).bind fun s =>
      let piece := s.pieceIndex L
      let r := s.readPiece L i piece
      match i.replanning with
      | none => some r
      | some p => (s.replan checks L i p piece r).map fun _ => r

/-- The position a seek goes to. -/
def seekTarget : SeekFrom → Option ℕ
  | .start pos => some pos
  | .current delta => (addI64 checks (asI64 s.currentPos) delta).map fun x => (max x 0).toNat
  | .fromEnd delta => (addI64 checks (asI64 L.fileSize) delta).map fun x => (max x 0).toNat

/-- `start_seek`. -/
def startSeek (position : SeekFrom) : Option FileStream :=
  (s.seekTarget checks L position).map fun newPos =>
    { s with
      currentPos := newPos
      cachedPieceData := none
      diskLookup := none
      diskLookupMiss := none }

/-- `poll_complete`: the position. -/
def pollComplete (p : Planning) : Option (FileStream × ℕ) :=
  if s.pieceIndex L ≠ s.lastPrioritiesPiece then
    (s.setPriorities checks L p).map fun s => (s, s.currentPos)
  else some (s, s.currentPos)

end Steps

/-! ### What the operations come to -/

section Results

variable {checks : Bool} {L : FileLayout} {s u : FileStream} {i : MemoryInput} {p : Planning}

/-- Planning notes the piece it has planned for. -/
theorem setPriorities_eq_some (h : s.setPriorities checks L p = some u) :
    ∃ last, u = { s with lastPrioritiesPiece := last } := by
  unfold setPriorities at h
  split at h
  · exact ⟨s.lastPrioritiesPiece, (Option.some.inj h).symm⟩
  · split at h
    · cases h
    · dsimp only at h
      split at h
      · exact ⟨s.lastPrioritiesPiece, (Option.some.inj h).symm⟩
      · split at h
        · cases h
        · exact ⟨_, (Option.some.inj h).symm⟩

/-- **What a poll comes to**, unless it panics. -/
theorem pollRead_cases {r : FileStream × ReadPoll} (h : s.pollRead checks L i = some r) :
    i.cancelled = true ∧ r = (s, .ready (.error supersededRead)) ∨
      i.cancelled = false ∧ (L.fileSize ≤ s.currentPos ∨ i.remaining = 0) ∧
        r = (s, .ready (.ok [])) ∨
      i.cancelled = false ∧ s.currentPos < L.fileSize ∧ 0 < i.remaining ∧
        ∃ last, r = ({ s with lastPrioritiesPiece := last } : FileStream).readPiece L i
          (s.pieceIndex L) := by
  unfold pollRead at h
  cases hcurrent : i.cancelled with
  | true =>
    rw [hcurrent, if_pos rfl] at h
    exact Or.inl ⟨rfl, (Option.some.inj h).symm⟩
  | false =>
    rw [hcurrent, if_neg Bool.false_ne_true] at h
    split at h
    · next hdone => exact Or.inr (Or.inl ⟨rfl, hdone, (Option.some.inj h).symm⟩)
    · next hgo =>
      rw [not_or, not_le] at hgo
      obtain ⟨u, hu, h⟩ := Option.bind_eq_some_iff.mp h
      obtain ⟨last, rfl⟩ := setPriorities_eq_some hu
      refine Or.inr (Or.inr ⟨rfl, hgo.1, Nat.pos_of_ne_zero hgo.2, last, ?_⟩)
      dsimp only at h
      split at h
      · exact (Option.some.inj h).symm
      · obtain ⟨_, _, rfl⟩ := Option.map_eq_some_iff.mp h
        rfl

end Results

end FileStream

end StreamServer.Readers

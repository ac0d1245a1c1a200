import Mathlib.Data.Int.Notation
import Mathlib.Data.List.Basic
import Mathlib.Logic.Function.Basic
import StreamServer.Lib.GuardedSystem
import StreamServer.Readers.FileStream

/-!
# From the native storage to the readers

Pieces that the native library has verified are kept in its memory storage.  From there they are
carried into the piece cache, by whoever comes first: the task that hands on alerts, the one that
waits for a file to become ready, the one that reads ahead, or the reader that needs the piece.  The
cache may drop a piece at any time.  With a disk cache, a piece is written to a file in the
background, and a reader that does not find it in the cache has the file looked up; while the file
is written it has the beginning of the piece only.

A reader whose piece is in none of these leaves its waker with a registry, is woken by the one who
brings the piece, and has a timer besides.  Everything runs at once: a poll of a reader takes its
answers one after the other, and others go on in between.

## Main definitions

* `PieceCacheConfig`, `PieceWaiterRegistry` — what the parts are given, and keep.
* `FollowUp`, `FileStream.followUps` — what a poll leaves behind, besides its result.
* `Stream`, `Pipeline` — a reader with the poll under way, and all of them.
* `Action`, `pipeline` — the steps.

## References

`enginefs/src/piece_cache.rs`; `enginefs/src/piece_waiter.rs`;
`enginefs/src/backend/libtorrent/stream.rs`, `poll_read`, `schedule_retry`, `drop`, the read-ahead;
`enginefs/src/backend/libtorrent/mod.rs`, `start_monitor_task`, `remove_torrent`;
`enginefs/src/backend/libtorrent/handle.rs`, `wait_for_piece_ready`.
-/

namespace StreamServer.Readers

/-! ### The piece cache -/

/-- A piece of a torrent.  The info hash is in lower case. -/
structure PieceKey where
  infoHash : String
  piece : ℤ
  deriving DecidableEq, Repr

/-- `PieceCacheConfig`, the fields that the cache uses. -/
structure PieceCacheConfig where
  maxMemoryBytes : ℕ
  diskCacheEnabled : Bool
  deriving DecidableEq, Repr

/-- `from_engine_config`, for a cache of a size in bytes. -/
def PieceCacheConfig.fromEngineConfig (size : ℕ) (enabled : Bool) : PieceCacheConfig where
  maxMemoryBytes := if 0 < size then min (size / 20) (512 * 1024 * 1024) else 0
  diskCacheEnabled := enabled && decide (0 < size)

/-- Pieces that are put into the cache are written to disk as well. -/
def PieceCacheConfig.writes (config : PieceCacheConfig) : Bool :=
  config.diskCacheEnabled && decide (0 < config.maxMemoryBytes)

/-! ### The registry of wakers -/

/-- The wakers of streams, by the piece they wait for. -/
structure PieceWaiterRegistry where
  waiters : List (PieceKey × ℕ)

namespace PieceWaiterRegistry

variable (r : PieceWaiterRegistry)

/-- No one waits. -/
def new : PieceWaiterRegistry := ⟨[]⟩

/-- The waker of a stream takes the place of the one it has left before. -/
def register (key : PieceKey) (streamId : ℕ) : PieceWaiterRegistry :=
  if (key, streamId) ∈ r.waiters then r else ⟨(key, streamId) :: r.waiters⟩

/-- The stream waits for the piece. -/
def waits (key : PieceKey) (streamId : ℕ) : Bool := decide ((key, streamId) ∈ r.waiters)

/-- The registry after `notify_piece_finished`; the streams that wait for the piece are woken. -/
def notify (key : PieceKey) : PieceWaiterRegistry :=
  ⟨r.waiters.filter fun waiter => waiter.1 ≠ key⟩

/-- `clear_torrent`. -/
def clearTorrent (infoHash : String) : PieceWaiterRegistry :=
  ⟨r.waiters.filter fun waiter => waiter.1.infoHash ≠ infoHash⟩

/-- `unregister_stream`. -/
def unregisterStream (streamId : ℕ) : PieceWaiterRegistry :=
  ⟨r.waiters.filter fun waiter => waiter.2 ≠ streamId⟩

/-- `stats`: the pieces that are waited for, and the wakers. -/
def stats : ℕ × ℕ := ((r.waiters.map Prod.fst).dedup.length, r.waiters.length)

end PieceWaiterRegistry

/-! ### What a poll leaves behind -/

/-- What a poll does to others on its way. -/
inductive FollowUp
  /-- A piece is put into the cache. -/
  | put (data : List UInt8)
  /-- Those that wait for the piece are woken. -/
  | notify
  | register
  /-- `schedule_retry`. -/
  | retry
  /-- The task that polls is woken. -/
  | wake
  deriving DecidableEq, Repr

namespace FileStream

variable (L : FileLayout) (s : FileStream) (i : MemoryInput)

/-- The follow-ups of `awaitPiece`. -/
def awaitFollowUps (piece : ℤ) : List FollowUp :=
  if i.havePiece = false then [.register, .retry]
  else
    match s.requestedPieceViaApi piece with
    | none => if i.stored = [] then [.register, .retry] else [.put i.stored, .notify, .retry]
    | some requestedAt =>
        if rerequestDelay < i.now - requestedAt then
          if i.stored = [] then [.register, .retry]
          else [.put i.stored, .notify, .register, .retry]
        else [.register, .retry]

/-- The follow-ups of `pollLookup`. -/
def lookupFollowUps (piece : ℤ) : List FollowUp :=
  if s.diskLookup = none then s.awaitFollowUps i piece
  else
    match i.lookup with
    | .found _ => [.wake]
    | .failed _ => []
    | .missed | .aborted | .pending => s.awaitFollowUps i piece

/-- A poll that gets so far looks its piece up in the disk cache. -/
def ReachesLookup : Prop :=
  i.cancelled = false ∧ s.currentPos < L.fileSize ∧ i.remaining ≠ 0 ∧ 0 ≤ s.pieceIndex L ∧
    s.cachedData (s.pieceIndex L) = none ∧ i.cached = none

instance : Decidable (s.ReachesLookup L i) := inferInstanceAs (Decidable (_ ∧ _ ∧ _ ∧ _ ∧ _ ∧ _))

/-- The follow-ups of `pollRead`. -/
def followUps : List FollowUp :=
  if s.ReachesLookup L i then
    (s.startLookup (s.pieceIndex L)).lookupFollowUps i (s.pieceIndex L)
  else []

end FileStream

/-! ### Streams -/

/-- How far a lookup of the disk cache has come. -/
inductive Lookup
  | started
  /-- The piece is not in memory. -/
  | missed
  | done (found : Option (List UInt8))
  deriving DecidableEq, Repr

/-- What a poll of the lookup of a piece finds out. -/
def Lookup.poll : Lookup → LookupPoll
  | .started | .missed => .pending
  | .done none => .missed
  | .done (some data) => .found data

/-- The timer that wakes a reader without a notification. -/
inductive RetrySleep
  | none
  | armed
  | elapsed
  deriving DecidableEq, Repr

/-- The answer that a poll takes next. -/
inductive Question
  | cached
  | startLookup
  | lookup
  | havePiece
  | stored
  deriving DecidableEq, Repr

/-- Where the polls of a stream are. -/
inductive Phase
  /-- The last poll was ready, or there has been none. -/
  | resting
  /-- The last poll was pending. -/
  | waiting
  | asking (next : Question) (input : MemoryInput)
  /-- A poll knows what it comes to, and goes through its follow-ups. -/
  | following (room : ℕ) (rest : List FollowUp) (reader : FileStream) (result : ReadPoll)

/-- What a read has handed out, and where. -/
structure Served where
  position : ℕ
  room : ℕ
  bytes : List UInt8
  deriving DecidableEq, Repr

/-- A reader with its timer and its place among the pollers. -/
structure Stream where
  infoHash : String
  layout : FileLayout
  reader : FileStream
  phase : Phase
  woken : Bool
  retrySleep : RetrySleep
  lookup : Option (ℤ × Lookup)
  /-- What the reads have handed out so far, the latest first. -/
  served : List Served

namespace Stream

variable (st : Stream)

/-- The number of the piece at the position. -/
def piece : ℤ := st.reader.pieceIndex st.layout

/-- The piece that the reader stands at, as the cache names it. -/
def key : PieceKey := ⟨st.infoHash, st.piece⟩

/-- `schedule_retry`: a timer that has gone off since wakes the task at once. -/
def scheduleRetry : Stream :=
  match st.retrySleep with
  | .none | .armed => { st with retrySleep := .armed }
  | .elapsed => { st with retrySleep := .none, woken := true }

/-- The lookup of another piece is aborted, and one of this piece started unless it has failed
before. -/
def startLookup : Stream :=
  match (st.reader.startLookup st.piece).diskLookup with
  | none => { st with lookup := none }
  | some piece =>
      if st.reader.diskLookup = some piece then st else { st with lookup := some (piece, .started) }

/-- What the poll of the lookup comes to. -/
def lookupPoll : LookupPoll :=
  match st.lookup with
  | some (piece, lookup) => if piece = st.piece then lookup.poll else .pending
  | none => .pending

/-- A poll returns. -/
def finish (room : ℕ) (reader : FileStream) (result : ReadPoll) : Stream :=
  { st with
    reader := reader
    lookup := if reader.diskLookup = none then none else st.lookup
    phase := if result = .pending then .waiting else .resting
    served :=
      match result with
      | .ready (.ok bytes) => ⟨st.reader.currentPos, room, bytes⟩ :: st.served
      | _ => st.served }

end Stream

/-! ### All of them -/

/-- Who carries a piece from the memory storage into the cache. -/
inductive Courier
  | readAhead
  | readiness
  | alert
  deriving DecidableEq, Repr

/-- How often the courier notifies: after the piece is in the cache, and if the storage does not
have it. -/
def Courier.notifies : Courier → Bool → ℕ
  | .readAhead, _ => 0
  | .readiness, found => if found then 1 else 0
  | .alert, found => if found then 2 else 1

/-- What a courier still has to do. -/
inductive Errand
  | put (key : PieceKey) (data : List UInt8) (notifies : ℕ)
  | notify (key : PieceKey) (notifies : ℕ)
  deriving DecidableEq, Repr

/-- The errand of notifying, if there is any. -/
def Errand.notifying (key : PieceKey) : ℕ → Option Errand
  | 0 => none
  | n + 1 => some (.notify key n)

/-- The pieces, the cache and its files, the couriers and the readers. -/
structure Pipeline where
  /-- The pieces that the memory storage has, as they were verified. -/
  stored : PieceKey → Bool
  havePiece : PieceKey → Bool
  cache : PieceKey → Option (List UInt8)
  files : PieceKey → Option (List UInt8)
  /-- The pieces that are being written to disk. -/
  writes : List (PieceKey × List UInt8)
  errands : List Errand
  waiter : PieceWaiterRegistry
  streams : ℕ → Option Stream
  /-- `stream_counter`. -/
  streamCounter : ℕ

namespace Pipeline

variable (bytes : PieceKey → List UInt8) (config : PieceCacheConfig) (p : Pipeline)

/-- Nothing is there, and nobody reads. -/
def new : Pipeline :=
  ⟨fun _ => false, fun _ => false, fun _ => none, fun _ => none, [], [], .new, fun _ => none, 0⟩

/-- `memory_read_piece_direct`: nothing, if the storage does not have the piece. -/
def readPieceDirect (key : PieceKey) : List UInt8 := if p.stored key then bytes key else []

/-- `cache.insert`. -/
def insert (key : PieceKey) (data : List UInt8) : Pipeline :=
  { p with cache := Function.update p.cache key (some data) }

/-- `put_piece_now`.  The file is written in the background. -/
def putPieceNow (key : PieceKey) (data : List UInt8) : Pipeline :=
  { p.insert key data with
    writes := if config.writes then p.writes ++ [(key, data)] else p.writes }

/-- The stream `i` is put to `st`. -/
def setStream (i : ℕ) (st : Stream) : Pipeline :=
  { p with streams := Function.update p.streams i (some st) }

/-- `notify_piece_finished`. -/
def notifyPieceFinished (key : PieceKey) : Pipeline :=
  { p with
    waiter := p.waiter.notify key
    streams := fun i =>
      (p.streams i).map fun st => if p.waiter.waits key i then { st with woken := true } else st }

/-- A stream is dropped. -/
def dropStream (i : ℕ) : Pipeline :=
  { p with streams := Function.update p.streams i none, waiter := p.waiter.unregisterStream i }

/-- `PieceCacheManager::clear_torrent`.  The files are removed in the background. -/
def clearCache (infoHash : String) : Pipeline :=
  { p with cache := fun key => if key.infoHash = infoHash then none else p.cache key }

/-- `PieceWaiterRegistry::clear_torrent`: nobody is woken. -/
def clearWaiters (infoHash : String) : Pipeline :=
  { p with waiter := p.waiter.clearTorrent infoHash }

/-- Something happens to a stream, if it is open. -/
def withStream (i : ℕ) (f : Stream → Pipeline) : Pipeline :=
  match p.streams i with
  | some st => f st
  | none => p

/-- A stream whose operation comes to this goes on, or panics and is dropped. -/
def goOn (i : ℕ) : Option Stream → Pipeline
  | some st => p.setStream i st
  | none => p.dropStream i

end Pipeline

/-! ### Steps -/

/-- What the storage, the cache, the couriers and the readers can do. -/
inductive Action
  /-- The memory storage has got a verified piece, or has lost it. -/
  | setStored (key : PieceKey) (stored : Bool)
  | setHavePiece (key : PieceKey) (have_piece : Bool)
  /-- The piece cache makes room, or has kept a piece for too long. -/
  | evict (key : PieceKey)
  | clearCache (infoHash : String)
  | clearWaiters (infoHash : String)
  | removeFile (key : PieceKey)
  /-- The file of a piece that is being written has got so many bytes. -/
  | write (n size : ℕ)
  | writeDone (n : ℕ)
  | writeFailed (n : ℕ)
  /-- A courier takes a piece from the memory storage. -/
  | fetch (courier : Courier) (key : PieceKey)
  /-- It goes on with its errand. -/
  | carry (n : ℕ)
  /-- A lookup that has been aborted meanwhile puts what it has read into the cache. -/
  | leftover (key : PieceKey)
  | openStream (infoHash : String) (layout : FileLayout) (isComplete : Bool) (lastPrioritiesPiece : ℤ)
  | dropStream (i : ℕ)
  | startSeek (i : ℕ) (position : SeekFrom)
  | pollComplete (i : ℕ) (planning : Planning)
  | elapse (i : ℕ)
  /-- The lookup of a stream looks for its piece, in memory or on disk. -/
  | runLookup (i : ℕ)
  | pollRead (i remaining now : ℕ) (cancelled : Bool) (planning : Planning)
      (replanning : Option Planning)
  /-- The poll under way takes its next answer; the task of a lookup may have been cancelled or have
  failed. -/
  | answer (i : ℕ) (broken : Option LookupPoll)
  /-- It goes through its next follow-up. -/
  | follow (i : ℕ)
  | finish (i : ℕ)

namespace Stream

variable (st : Stream)

/-- No poll is under way. -/
def Still : Prop := st.phase = .resting ∨ st.phase = .waiting

end Stream

section Steps

variable (checks : Bool) (bytes : PieceKey → List UInt8) (config : PieceCacheConfig)

/-- The layout belongs to the torrent. -/
def FileLayout.Describes (L : FileLayout) (infoHash : String) : Prop :=
  ∀ piece : ℕ, L.pieceBytes piece = bytes ⟨infoHash, piece⟩

namespace Pipeline

variable (p : Pipeline)

/-- A lookup looks for its piece in memory, and then on disk. -/
def runLookup (i : ℕ) (st : Stream) : Pipeline :=
  match st.lookup with
  | some (piece, .started) =>
      match p.cache ⟨st.infoHash, piece⟩ with
      | some data => p.setStream i { st with lookup := some (piece, .done (some data)) }
      | none => p.setStream i { st with lookup := some (piece, .missed) }
  | some (piece, .missed) =>
      if config.diskCacheEnabled then
        match p.files ⟨st.infoHash, piece⟩ with
        | some data =>
            (p.insert ⟨st.infoHash, piece⟩ data).setStream i
              { st with lookup := some (piece, .done (some data)) }
        | none => p.setStream i { st with lookup := some (piece, .done none) }
      else p.setStream i { st with lookup := some (piece, .done none) }
  | _ => p

/-- A poll takes its next answer, and with the last one it knows what it comes to. -/
def answer (i : ℕ) (st : Stream) (broken : Option LookupPoll) (input : MemoryInput) :
    Question → Pipeline
  | .cached =>
      p.setStream i
        { st with phase := .asking .startLookup { input with cached := p.cache st.key } }
  | .startLookup =>
      if st.reader.ReachesLookup st.layout input then
        p.setStream i { st.startLookup with phase := .asking .lookup input }
      else p.setStream i { st with phase := .asking .lookup input }
  | .lookup =>
      p.setStream i
        { st with phase := .asking .havePiece { input with lookup := broken.getD st.lookupPoll } }
  | .havePiece =>
      p.setStream i
        { st with phase := .asking .stored { input with havePiece := p.havePiece st.key } }
  | .stored =>
      let input := { input with stored := p.readPieceDirect bytes st.key }
      p.goOn i <| (st.reader.pollRead checks st.layout input).map fun r =>
        { st with
          phase := .following input.remaining (st.reader.followUps st.layout input) r.1 r.2 }

/-- A poll goes through a follow-up. -/
def follow (i : ℕ) (st : Stream) : FollowUp → Pipeline
  | .put data => (p.putPieceNow config st.key data).setStream i st
  | .notify => (p.setStream i st).notifyPieceFinished st.key
  | .register => { p.setStream i st with waiter := p.waiter.register st.key i }
  | .retry => p.setStream i st.scheduleRetry
  | .wake => p.setStream i { st with woken := true }

/-- A courier goes on. -/
def carry (n : ℕ) : Errand → Pipeline
  | .put key data notifies =>
      { p.putPieceNow config key data with
        errands := p.errands.eraseIdx n ++ (Errand.notifying key notifies).toList }
  | .notify key notifies =>
      { p.notifyPieceFinished key with
        errands := p.errands.eraseIdx n ++ (Errand.notifying key notifies).toList }

end Pipeline

/-- When an action can happen. -/
def Action.guard (p : Pipeline) : Action → Prop
  | .setStored _ _ | .setHavePiece _ _ | .evict _ | .clearCache _ | .clearWaiters _
  | .removeFile _ => True
  | .write n _ | .writeDone n | .writeFailed n => n < p.writes.length
  | .fetch _ _ => True
  | .carry n => n < p.errands.length
  | .leftover key => config.diskCacheEnabled = true ∧ p.files key ≠ none
  | .openStream infoHash layout _ _ => layout.Describes bytes infoHash
  | .dropStream i | .startSeek i _ | .pollComplete i _ | .pollRead i _ _ _ _ _ =>
      ∃ st, p.streams i = some st ∧ st.Still
  | .elapse i => ∃ st, p.streams i = some st ∧ st.retrySleep = .armed
  | .runLookup i => ∃ st, p.streams i = some st
  | .answer i broken =>
      (∃ st next input, p.streams i = some st ∧ st.phase = .asking next input) ∧
        ∀ poll, broken = some poll → poll = .aborted ∨ ∃ error, poll = .failed error
  | .follow i =>
      ∃ st room followUp rest reader result, p.streams i = some st ∧
        st.phase = .following room (followUp :: rest) reader result
  | .finish i =>
      ∃ st room reader result, p.streams i = some st ∧ st.phase = .following room [] reader result

/-- What an action does with a stream. -/
def Action.onStream (p : Pipeline) (i : ℕ) (st : Stream) : Action → Pipeline
  | .dropStream _ => p.dropStream i
  | .startSeek _ position =>
      p.goOn i <| (st.reader.startSeek checks st.layout position).map fun reader =>
        { st with reader := reader, lookup := none }
  | .pollComplete _ planning =>
      p.goOn i <| (st.reader.pollComplete checks st.layout planning).map fun r =>
        { st with reader := r.1 }
  | .elapse _ => p.setStream i { st with retrySleep := .elapsed, woken := true }
  | .runLookup _ => p.runLookup config i st
  | .pollRead _ remaining now cancelled planning replanning =>
      p.setStream i { st with
        woken := false
        phase := .asking .cached
          ⟨remaining, cancelled, now, planning, replanning, none, .pending, false, []⟩ }
  | .answer _ broken =>
      match st.phase with
      | .asking next input => p.answer checks bytes i st broken input next
      | _ => p
  | .follow _ =>
      match st.phase with
      | .following room (followUp :: rest) reader result =>
          p.follow config i { st with phase := .following room rest reader result } followUp
      | _ => p
  | .finish _ =>
      match st.phase with
      | .following room [] reader result => p.setStream i (st.finish room reader result)
      | _ => p
  | _ => p

/-- The stream an action is about. -/
def Action.stream? : Action → Option ℕ
  | .dropStream i | .startSeek i _ | .pollComplete i _ | .elapse i | .runLookup i
  | .pollRead i _ _ _ _ _ | .answer i _ | .follow i | .finish i => some i
  | _ => none

/-- What an action does. -/
def Action.effect (p : Pipeline) : Action → Pipeline
  | .setStored key stored => { p with stored := Function.update p.stored key stored }
  | .setHavePiece key have_piece => { p with havePiece := Function.update p.havePiece key have_piece }
  | .evict key => { p with cache := Function.update p.cache key none }
  | .clearCache infoHash => p.clearCache infoHash
  | .clearWaiters infoHash => p.clearWaiters infoHash
  | .removeFile key => { p with files := Function.update p.files key none }
  | .write n size =>
      match p.writes[n]? with
      | some (key, data) => { p with files := Function.update p.files key (some (data.take size)) }
      | none => p
  | .writeDone n =>
      match p.writes[n]? with
      | some (key, data) =>
          { p with
            files := Function.update p.files key (some data)
            writes := p.writes.eraseIdx n }
      | none => p
  | .writeFailed n => { p with writes := p.writes.eraseIdx n }
  | .fetch courier key =>
      let data := p.readPieceDirect bytes key
      let errand :=
        if data = [] then (Errand.notifying key (courier.notifies false)).toList
        else [.put key data (courier.notifies true)]
      { p with errands := p.errands ++ errand }
  | .carry n =>
      match p.errands[n]? with
      | some errand => p.carry config n errand
      | none => p
  | .leftover key =>
      match p.files key with
      | some data => p.insert key data
      | none => p
  | .openStream infoHash layout isComplete lastPrioritiesPiece =>
      { p.setStream p.streamCounter
          ⟨infoHash, layout, .new isComplete lastPrioritiesPiece, .resting, false, .none, none, []⟩ with
        streamCounter := p.streamCounter + 1 }
  | action =>
      match action.stream? with
      | some i => p.withStream i (action.onStream checks bytes config p i)
      | none => p

/-- The readers of a memory-only session, and all that brings them their pieces. -/
def pipeline : GuardedSystem Pipeline Action :=
  ⟨fun p a => a.guard bytes config p, fun p a => a.effect checks bytes config p⟩

end Steps

end StreamServer.Readers

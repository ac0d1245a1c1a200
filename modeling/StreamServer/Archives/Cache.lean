import Mathlib.Data.Finset.Erase
import Mathlib.Data.Finset.Insert
import Mathlib.Logic.Function.Basic
import StreamServer.Lib.GuardedSystem
import StreamServer.Readers.File

/-!
# The progressive cache of an archive

An entry of an archive is extracted into a temporary file and played from there while the
extraction is still under way.  The writer publishes how many bytes there are; a reader
hands out bytes below that mark and waits to be notified when it has caught up with it.

The writer is one thread: it puts bytes into the file, publishes their number and notifies
the readers that wait, in that order, and the readers may be polled in between.  A poll of
a reader is a loop: it looks at what has been published, tries the file, and asks to be
notified.  The file a reader has opened is a `Readers.File`.

## Main definitions

* `StateSnapshot`, `WriterStep` — what is published, and the writer.
* `ReadBuf` — a reader's buffer, and the views of it.
* `ProgressiveReader` — a reader; `attempt` is the loop's body up to the notification.
* `World`, `progressiveCache` — the cache, its writer and its readers.

## References

`server/src/archives/cache.rs`.
-/

namespace StreamServer.Archives

open Readers

/-! ### What is published -/

/-- `StateSnapshot`, what writer and readers share. -/
structure StateSnapshot where
  writtenBytes : ℕ
  isComplete : Bool
  error : Option String
  deriving DecidableEq, Repr

/-- Where the writer is. -/
inductive Writer
  | idle
  /-- The file has taken `n` bytes that are not counted yet. -/
  | wrote (n : ℕ)
  /-- The state has changed, and nobody has been notified yet. -/
  | changed
  deriving DecidableEq, Repr

/-- `tokio::sync::Notify`: how often everybody has been notified, and whose futures are
registered. -/
structure Notify where
  calls : ℕ
  waiters : Finset ℕ

/-! ### Buffers -/

/-- `tokio::io::ReadBuf`, as far as it is filled. -/
structure ReadBuf where
  capacity : ℕ
  filled : List UInt8
  deriving DecidableEq, Repr

namespace ReadBuf

/-- `remaining()` of a buffer. -/
def remaining (buf : ReadBuf) : ℕ := buf.capacity - buf.filled.length

/-- A view of the first `n` bytes that are not filled yet.  Filling it does not fill `buf`. -/
def take (buf : ReadBuf) (n : ℕ) : ReadBuf := ⟨min buf.remaining n, []⟩

/-- `data` is put behind what is filled. -/
def put (buf : ReadBuf) (data : List UInt8) : ReadBuf :=
  { buf with filled := buf.filled ++ data }

@[simp] theorem remaining_take (buf : ReadBuf) (n : ℕ) :
    (buf.take n).remaining = min buf.remaining n := Nat.sub_zero _

@[simp] theorem filled_take (buf : ReadBuf) (n : ℕ) : (buf.take n).filled = [] := rfl

@[simp] theorem filled_put (buf : ReadBuf) (data : List UInt8) :
    (buf.put data).filled = buf.filled ++ data := rfl

end ReadBuf

/-! ### Readers -/

/-- `ProgressiveReader`, less the shared state. -/
structure ProgressiveReader where
  file : File
  pos : ℕ
  totalSize : Option ℕ
  deriving DecidableEq, Repr

/-- How the body of the loop ends. -/
inductive Attempt
  /-- The poll returns, with the caller's buffer as it is then. -/
  | returns (buf : ReadBuf) (result : Poll (Except IoError Unit))
  /-- There is nothing to read: the reader asks to be notified. -/
  | waits
  deriving DecidableEq, Repr

namespace ProgressiveReader

/-- The error of a seek from the end of a file of unknown size. -/
def endNeedsSize : IoError := ⟨.invalidInput, "SeekFrom::End requires known total size"⟩

/-- The error of a seek in front of the file. -/
def negativeSeek : IoError := ⟨.invalidInput, "Negative seek"⟩

variable (r : ProgressiveReader)

/-- Where `start_seek` sends the file. -/
def seekTarget : SeekFrom → Except IoError ℕ
  | .start position => .ok position
  | .fromEnd delta =>
      match r.totalSize with
      | none => .error endNeedsSize
      | some total =>
          .ok (if delta < 0 then total - delta.natAbs else (total + delta.toNat) % 2 ^ 64)
  | .current delta =>
      let target := Int.bmod (asI64 r.pos + delta) (2 ^ 64)
      if target < 0 then .error negativeSeek else .ok target.toNat

/-- `start_seek`. -/
def startSeek (position : SeekFrom) : Except IoError ProgressiveReader := do
  let target ← r.seekTarget position
  let file ← r.file.startSeek target
  return { r with file := file }

/-- `poll_complete`. -/
def pollComplete (op : Completion) : ProgressiveReader × Poll (Except IoError ℕ) :=
  match r.file.pollComplete op with
  | (file, .ready (.ok newPos)) => ({ r with file := file, pos := newPos }, .ready (.ok newPos))
  | (file, result) => ({ r with file := file }, result)

/-- How many bytes a poll may hand out. -/
def needed (buf : ReadBuf) (snapshot : StateSnapshot) : ℕ :=
  min buf.remaining (snapshot.writtenBytes - r.pos)

/-- `poll_read` when the file has nothing for it. -/
def afterFile (buf : ReadBuf) (snapshot : StateSnapshot) : Attempt :=
  if snapshot.isComplete then .returns buf (.ready (.ok ())) else .waits

/-- `poll_read` when there are bytes it has room for: the file is read into a view of the
caller's buffer. -/
def readFile (buf : ReadBuf) (snapshot : StateSnapshot) (disk : Disk) (seek read : Completion) :
    ProgressiveReader × Attempt :=
  let view := buf.take (r.needed buf snapshot)
  match r.file.pollRead view.remaining disk seek read with
  | (file, .ready (.ok data)) =>
      let bytesRead := (view.put data).filled.length - view.filled.length
      if bytesRead = 0 ∧ 0 < r.needed buf snapshot then
        ({ r with file := file }, afterFile buf snapshot)
      else
        ({ r with file := file, pos := r.pos + bytesRead }, .returns buf (.ready (.ok ())))
  | (file, .ready (.error error)) => ({ r with file := file }, .returns buf (.ready (.error error)))
  | (file, .pending) => ({ r with file := file }, .returns buf .pending)

/-- The body of the loop of `poll_read`, once the state has been looked at. -/
def attempt (buf : ReadBuf) (snapshot : StateSnapshot) (disk : Disk) (seek read : Completion) :
    ProgressiveReader × Attempt :=
  match snapshot.error with
  | some error => (r, .returns buf (.ready (.error ⟨.other, error⟩)))
  | none =>
      if r.pos < snapshot.writtenBytes then
        if r.needed buf snapshot = 0 ∧ buf.remaining = 0 then (r, .returns buf (.ready (.ok ())))
        else r.readFile buf snapshot disk seek read
      else (r, afterFile buf snapshot)

end ProgressiveReader

/-- Where the poll of a reader is. -/
inductive Polling
  | idle
  /-- At the top of the loop. -/
  | looping (buf : ReadBuf)
  | looked (buf : ReadBuf) (snapshot : StateSnapshot)
  | waits (buf : ReadBuf)
  /-- The future of a notification has been made after so many calls. -/
  | made (buf : ReadBuf) (calls : ℕ)
  /-- The future has been polled, and is pending. -/
  | registered (buf : ReadBuf)
  deriving DecidableEq, Repr

/-- A reader and the task that polls it. -/
structure Process where
  reader : ProgressiveReader
  polling : Polling
  /-- A seek has been started and not found complete. -/
  seeking : Bool
  /-- The last poll is pending because the reader had caught up with the writer. -/
  parked : Bool
  /-- The task has been woken since its last poll began. -/
  woken : Bool
  deriving DecidableEq, Repr

/-! ### The cache -/

/-- A file that is written, with its writer and all of its readers. -/
structure World where
  /-- What the temporary file holds. -/
  content : List UInt8
  snapshot : StateSnapshot
  writer : Writer
  notify : Notify
  processes : ℕ → Process

/-- The steps of the writer. -/
inductive WriterStep
  /-- The file takes some bytes. -/
  | write (data : List UInt8)
  | publish (n : ℕ)
  | finish
  | setError (error : String)
  | notifyWaiters

/-- The steps of a reader. -/
inductive ReaderStep
  | startSeek (position : SeekFrom)
  | pollComplete (op : Completion)
  | pollRead (buf : ReadBuf)
  | look (buf : ReadBuf)
  /-- A read of the disk that is started now brings `brought` bytes. -/
  | attempt (buf : ReadBuf) (snapshot : StateSnapshot) (brought : ℕ) (seek read : Completion)
  | notified (buf : ReadBuf)
  | pollNotified (buf : ReadBuf) (calls : ℕ)
  /-- The poll returns, and the future goes out of scope. -/
  | park (buf : ReadBuf)

/-- A step of the writer or of the reader `k`. -/
inductive Action
  | writer (step : WriterStep)
  | reader (k : ℕ) (step : ReaderStep)

namespace World

variable (s : World)

/-- The temporary file, for a read that brings `brought` bytes. -/
def disk (brought : ℕ) : Disk := ⟨fun place => s.content.getD place 0, brought⟩

/-- The world with the reader `k` put to `p`. -/
def setProcess (k : ℕ) (p : Process) : World :=
  { s with processes := Function.update s.processes k p }

/-- `notify_waiters`: the registered futures are done, and their tasks are woken. -/
def notifyWaiters : World :=
  { s with
    notify := ⟨s.notify.calls + 1, ∅⟩
    processes := fun k =>
      if k ∈ s.notify.waiters then { s.processes k with woken := true } else s.processes k }

end World

/-- The kernel takes no more bytes than a file may have. -/
def WriterStep.guard (s : World) : WriterStep → Prop
  | .write data => s.writer = .idle ∧ data ≠ [] ∧ s.content.length + data.length < 2 ^ 63
  | .publish n => s.writer = .wrote n
  | .finish | .setError _ => s.writer = .idle
  | .notifyWaiters => s.writer = .changed

/-- What a step of the writer does. -/
def WriterStep.effect (s : World) : WriterStep → World
  | .write data => { s with content := s.content ++ data, writer := .wrote data.length }
  | .publish n =>
      { s with
        snapshot := { s.snapshot with writtenBytes := s.snapshot.writtenBytes + n }
        writer := .changed }
  | .finish =>
      { s with snapshot := { s.snapshot with isComplete := true }, writer := .changed }
  | .setError error =>
      { s with
        snapshot := { s.snapshot with error := some error, isComplete := true }
        writer := .changed }
  | .notifyWaiters => { s.notifyWaiters with writer := .idle }

/-- A reader is polled by one task, which lets a seek come to its end before it reads.  A
seek within the file does not fail, and a read of the disk brings nothing only where the
file ends. -/
def ReaderStep.guard (s : World) (p : Process) : ReaderStep → Prop
  | .startSeek position =>
      p.polling = .idle ∧ position.Fits ∧
        ∀ target ∈ (p.reader.seekTarget position).toOption, target ≤ s.snapshot.writtenBytes
  | .pollComplete op => p.polling = .idle ∧ (p.seeking = true → op = .pending ∨ op = .done)
  | .pollRead _ => p.polling = .idle ∧ p.seeking = false
  | .look buf => p.polling = .looping buf
  | .attempt buf snapshot brought _ _ =>
      p.polling = .looked buf snapshot ∧
        p.reader.file.cursor + brought ≤ s.content.length ∧
          (p.reader.file.cursor < s.content.length → 0 < brought)
  | .notified buf => p.polling = .waits buf
  | .pollNotified buf calls => p.polling = .made buf calls
  | .park buf => p.polling = .registered buf

/-- What a step of the reader `k` does. -/
def ReaderStep.effect (s : World) (k : ℕ) (p : Process) : ReaderStep → World
  | .startSeek position =>
      match p.reader.startSeek position with
      | .ok reader => s.setProcess k { p with reader := reader, seeking := true }
      | .error _ => s
  | .pollComplete op =>
      match p.reader.pollComplete op with
      | (reader, .pending) => s.setProcess k { p with reader := reader }
      | (reader, .ready _) => s.setProcess k { p with reader := reader, seeking := false }
  | .pollRead buf =>
      s.setProcess k { p with polling := .looping buf, parked := false, woken := false }
  | .look buf => s.setProcess k { p with polling := .looked buf s.snapshot }
  | .attempt buf snapshot brought seek read =>
      match p.reader.attempt buf snapshot (s.disk brought) seek read with
      | (reader, .returns _ _) => s.setProcess k { p with reader := reader, polling := .idle }
      | (reader, .waits) => s.setProcess k { p with reader := reader, polling := .waits buf }
  | .notified buf => s.setProcess k { p with polling := .made buf s.notify.calls }
  | .pollNotified buf calls =>
      if s.notify.calls = calls then
        { s.setProcess k { p with polling := .registered buf } with
          notify := { s.notify with waiters := insert k s.notify.waiters } }
      else s.setProcess k { p with polling := .looping buf }
  | .park _ =>
      { s.setProcess k { p with polling := .idle, parked := true } with
        notify := { s.notify with waiters := s.notify.waiters.erase k } }

/-- When an action can happen. -/
def Action.guard (s : World) : Action → Prop
  | .writer step => step.guard s
  | .reader k step => step.guard s (s.processes k)

/-- What an action does. -/
def Action.effect (s : World) : Action → World
  | .writer step => step.effect s
  | .reader k step => step.effect s k (s.processes k)

/-- The cache, its writer and its readers. -/
def progressiveCache : GuardedSystem World Action := ⟨fun s a => a.guard s, fun s a => a.effect s⟩

/-- A reader that has just been made. -/
def Process.new (totalSize : Option ℕ) : Process :=
  ⟨⟨.opened, 0, totalSize⟩, .idle, false, false, false⟩

/-- A cache that has just been made. -/
def World.new (totalSize : Option ℕ) : World :=
  ⟨[], ⟨0, false, none⟩, .idle, ⟨0, ∅⟩, fun _ => .new totalSize⟩

instance (s : World) : ∀ step : WriterStep, Decidable (step.guard s)
  | .write _ => inferInstanceAs (Decidable (_ ∧ _ ∧ _))
  | .publish _ | .finish | .setError _ | .notifyWaiters => inferInstanceAs (Decidable (_ = _))

instance (s : World) (p : Process) : ∀ step : ReaderStep, Decidable (step.guard s p)
  | .startSeek _ => inferInstanceAs (Decidable (_ ∧ _ ∧ _))
  | .pollComplete _ | .pollRead _ => inferInstanceAs (Decidable (_ ∧ _))
  | .attempt .. => inferInstanceAs (Decidable (_ ∧ _ ∧ _))
  | .look _ | .notified _ | .pollNotified .. | .park _ => inferInstanceAs (Decidable (_ = _))

instance (s : World) : ∀ a : Action, Decidable (a.guard s)
  | .writer step => inferInstanceAs (Decidable (step.guard s))
  | .reader k step => inferInstanceAs (Decidable (step.guard s (s.processes k)))

instance (s : World) (a : Action) : Decidable (progressiveCache.guard s a) :=
  inferInstanceAs (Decidable (a.guard s))

end StreamServer.Archives

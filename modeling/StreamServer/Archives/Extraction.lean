import StreamServer.Archives.Cache

/-!
# The extraction tasks

A task that is spawned when an entry is opened decompresses it into the temporary file of a
cache and says in the end that it is complete, or that there was an error.  The tasks for the
three kinds of archives do this in three ways.

A file of `tokio` writes in the background: it takes the bytes at once and hands them to a thread, and only
the next write or a flush waits until they are in the file, and sees the error if they are not.  A
synchronous file says at once what comes of a write.

## Main definitions

* `Decompression` — what the library does with an entry.
* `WriteOutcome` — what comes of a write to the disk.
* `CacheWriter` — the writer, with what the file holds.
* `CacheWriter.writeAll`, `CacheWriter.flush`, `copy` — writing in the background.
* `zipTask`, `rarTask`, `sevenZTask` — the tasks.

## References

`server/src/archives/{zip,rar,sevenz,cache}.rs`; `bindings/async-rar/src/async_archive.rs`;
`bindings/async-sevenz/src/lib.rs`, `bindings/async-sevenz/src/cpp/stream.cpp`;
`bindings/async-sevenz/vendor/7zip/CPP/7zip/Archive/7z/7zExtract.cpp`.
-/

namespace StreamServer.Archives

open Readers

/-! ### The environment -/

/-- What a library does with an entry: the pieces it hands out, and how it ends.  Without an
error it hands out the whole entry. -/
structure Decompression (ε : Type) (entry : List UInt8) where
  chunks : List (List UInt8)
  result : Except ε Unit
  chunks_whole : result = .ok () → chunks.flatten = entry

/-- What comes of a write to the disk: all is taken, or it fails after so many bytes. -/
abbrev WriteOutcome := Option (ℕ × IoError)

namespace WriteOutcome

variable (outcome : WriteOutcome) (data : List UInt8)

/-- The bytes that reach the file. -/
def taken : List UInt8 :=
  match outcome with
  | none => data
  | some (n, _) => data.take n

/-- What `write_all` says when the file has taken what it takes of `data`. -/
def result : Except IoError Unit :=
  match outcome with
  | none => .ok ()
  | some (n, error) => if n < data.length then .error error else .ok ()

/-- The write fails. -/
def Fails : Prop := ∃ error, outcome.result data = .error error

instance : Decidable (outcome.Fails data) :=
  match h : outcome.result data with
  | .ok () => isFalse fun hfails => by simp [Fails, h] at hfails
  | .error error => isTrue ⟨error, h⟩

end WriteOutcome

/-! ### Writers -/

/-- A writer of a cache, with what the file holds. -/
structure CacheWriter where
  content : List UInt8
  snapshot : StateSnapshot
  /-- How many writes the disk has come to the end of, as far as the writer has seen. -/
  writes : ℕ
  /-- The bytes that are being written in the background. -/
  background : Option (List UInt8)
  deriving DecidableEq

namespace CacheWriter

/-- The writer of a cache that has just been made. -/
def new : CacheWriter := ⟨[], ⟨0, false, none⟩, 0, none⟩

variable (disk : ℕ → WriteOutcome) (w : CacheWriter)

/-- `finish()`. -/
def finish : CacheWriter := { w with snapshot := { w.snapshot with isComplete := true } }

/-- `set_error()`, which also completes the snapshot. -/
def setError (error : String) : CacheWriter :=
  { w with snapshot := { w.snapshot with error := some error, isComplete := true } }

/-- The disk is given some bytes. -/
def give (data : List UInt8) : CacheWriter :=
  { w with
    content := w.content ++ (disk w.writes).taken data
    writes := w.writes + 1 }

/-- The count of written bytes goes up by `n`. -/
def publish (n : ℕ) : CacheWriter :=
  { w with snapshot := { w.snapshot with writtenBytes := w.snapshot.writtenBytes + n } }

/-! ### Writing in the background -/

/-- The most that one write takes. -/
def maxBufSize : ℕ := 2 * 1024 * 1024

/-- The write in the background comes to its end, and what comes of it is seen. -/
def settle : CacheWriter × Except IoError Unit :=
  match w.background with
  | none => (w, .ok ())
  | some piece => ({ w.give disk piece with background := none }, (disk w.writes).result piece)

/-- `poll_write`, when it is ready. -/
def pollWrite (data : List UInt8) : CacheWriter × Except IoError ℕ :=
  match w.settle disk with
  | (w, .error error) => (w, .error error)
  | (w, .ok ()) =>
      let piece := data.take maxBufSize
      ({ w.publish piece.length with background := some piece }, .ok piece.length)

/-- `write_all`; there are at most as many writes as bytes. -/
def writeLoop : ℕ → CacheWriter → List UInt8 → CacheWriter × Except IoError Unit
  | 0, w, _ => (w, .ok ())
  | _ + 1, w, [] => (w, .ok ())
  | fuel + 1, w, a :: data =>
      match w.pollWrite disk (a :: data) with
      | (w, .error error) => (w, .error error)
      | (w, .ok n) => writeLoop fuel w ((a :: data).drop n)

/-- `write_all()`, a loop over `poll_write`. -/
def writeAll (data : List UInt8) : CacheWriter × Except IoError Unit :=
  writeLoop disk data.length w data

/-- `flush`. -/
def flush : CacheWriter × Except IoError Unit := w.settle disk

/-- The pieces are written one after another. -/
def writeChunks : CacheWriter → List (List UInt8) → CacheWriter × Except IoError Unit
  | w, [] => (w, .ok ())
  | w, chunk :: chunks =>
      match w.writeAll disk chunk with
      | (w, .error error) => (w, .error error)
      | (w, .ok ()) => writeChunks w chunks

/-! ### Writing at once -/

/-- `write_all` on a synchronous writer. -/
def writeAllSync (data : List UInt8) : CacheWriter × Except IoError Unit :=
  let outcome := disk w.writes
  ((w.give disk data).publish (outcome.taken data).length, outcome.result data)

/-- The callback of the library is called with one piece after another, until one cannot be
written. -/
def writeChunksSync : CacheWriter → List (List UInt8) → CacheWriter × Except IoError Unit
  | w, [] => (w, .ok ())
  | w, chunk :: chunks =>
      match w.writeAllSync disk chunk with
      | (w, .error error) => (w, .error error)
      | (w, .ok ()) => writeChunksSync w chunks

end CacheWriter

/-! ### The tasks -/

open CacheWriter

variable {entry : List UInt8}

/-- `tokio::io::copy`: a read that fails ends it, and the end of the entry is flushed. -/
def copy (disk : ℕ → WriteOutcome) (w : CacheWriter) (d : Decompression IoError entry) :
    CacheWriter × Except IoError Unit :=
  match w.writeChunks disk d.chunks with
  | (w, .error error) => (w, .error error)
  | (w, .ok ()) =>
      match d.result with
      | .error error => (w, .error error)
      | .ok () => w.flush disk

/-- The task for an entry of a zip archive. -/
def zipTask (disk : ℕ → WriteOutcome) (entryReader : Bool) (d : Decompression IoError entry) :
    CacheWriter :=
  if entryReader then
    match copy disk .new d with
    | (w, .error error) => w.setError error.message
    | (w, .ok ()) => w.finish
  else setError .new "Failed to open entry"

/-- The task for an entry of a rar archive: pieces come through a channel, and what the library
returns in the end is dropped.  Nothing waits for the last write: it has `landed` when the cache is said to
be complete, or has not. -/
def rarTask (disk : ℕ → WriteOutcome) (reopened : Except String Unit) (landed : Bool)
    (d : Decompression ℤ entry) : CacheWriter :=
  match reopened with
  | .error error => setError .new error
  | .ok () =>
      match writeChunks disk .new d.chunks with
      | (w, .error error) => w.setError error.message
      | (w, .ok ()) => if landed then (w.settle disk).1.finish else w.finish

/-! ### 7z -/

/-- `S_OK`. -/
def sOk : ℤ := 0

/-- `S_FALSE`. -/
def sFalse : ℤ := 1

/-- `E_NOTIMPL`. -/
def eNotImpl : ℤ := -2147467263

/-- `E_FAIL`. -/
def eFail : ℤ := -2147467259

/-- How the decoder ends. -/
structure DecodeResult where
  code : ℤ
  dataAfterEnd : Bool
  deriving DecidableEq, Repr

/-- `CHandler::Extract`, behind the decoder.  Bad data are only reported to the callback, whose
`SetOperationResult` does nothing with it. -/
def DecodeResult.extract (result : DecodeResult) : ℤ :=
  if result.code = sFalse ∨ result.code = eNotImpl ∨ result.dataAfterEnd = true then sOk
  else if result.code ≠ sOk then result.code
  else sOk

/-- What the native code is given back for a callback that fails. -/
def writeFailed : DecodeResult := ⟨eFail, false⟩

/-- `SevenZ::extract`. -/
def extract (disk : ℕ → WriteOutcome) (w : CacheWriter) (d : Decompression DecodeResult entry) :
    CacheWriter × Except String Unit :=
  match w.writeChunksSync disk d.chunks with
  | (w, .error _) => (w, returned writeFailed.extract)
  | (w, .ok ()) =>
      match d.result with
      | .error result => (w, returned result.extract)
      | .ok () => (w, returned (DecodeResult.extract ⟨sOk, false⟩))
where
  returned (code : ℤ) : Except String Unit :=
    if code ≠ 0 then .error s!"Extraction failed with code c_int({code})" else .ok ()

/-- What has to go well before the extraction begins. -/
structure SevenZSteps where
  /-- `File::open`. -/
  file : Bool
  /-- `SevenZ::open`. -/
  archive : Bool
  /-- The two calls of `try_clone_sync`. -/
  extractWriter : Bool
  controller : Bool
  deriving DecidableEq, Repr

/-- Every step of the extraction has succeeded. -/
def SevenZSteps.all (steps : SevenZSteps) : Bool :=
  steps.file && steps.archive && steps.extractWriter && steps.controller

/-- The task for an entry of a 7z archive.  An error of one of the first steps is only logged. -/
def sevenZTask (disk : ℕ → WriteOutcome) (steps : SevenZSteps)
    (d : Decompression DecodeResult entry) : CacheWriter :=
  if steps.all then
    match extract disk .new d with
    | (w, .error error) => w.setError error
    | (w, .ok ()) => w.finish
  else .new

end StreamServer.Archives

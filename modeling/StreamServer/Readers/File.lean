import StreamServer.Readers.Layout

/-!
# Files read in the background

A `tokio::fs::File` hands every operation to a thread pool.  The operation stays in
flight, whoever polls it, until a poll of the file finds it finished.  A read that
brought more bytes than the poll has room for keeps the rest for the next poll, and a
seek that is started drops them.  Only one operation is in flight at a time, so a
seek can not be started while there is one.

Which operations finish when, how many bytes a read brings, and what the disk holds is
left open: every poll is given the answers.

## Main definitions

* `File` — an open file and the operation in flight.
* `File.startSeek`, `pollComplete`, `pollRead` — the operations a reader uses.
* `Completion` — what a poll finds out about the operation in flight.

## Main results

* `File.pollRead_spec` — a poll hands out the bytes that follow, or none.
-/

namespace StreamServer.Readers

/-- What is in flight.  A read carries the bytes it brings, a seek the number of bytes that
were dropped when it was started. -/
inductive FileOp
  | seek (target dropped : ℕ)
  | read (data : List UInt8)
  deriving DecidableEq, Repr

/-- What a poll finds out about the operation in flight. -/
inductive Completion
  | pending
  | done
  | failed (error : IoError)
  deriving DecidableEq, Repr

/-- An open file: where the next read of the disk starts, and the bytes read but not handed
out yet, which lie before that place. -/
structure File where
  cursor : ℕ
  ahead : List UInt8
  inflight : Option FileOp
  /-- The place the last seek went to. -/
  lastSeek : ℕ
  deriving DecidableEq, Repr

/-- What the disk holds when a read is started, and how much of it the read brings. -/
structure Disk where
  bytes : ℕ → UInt8
  length : ℕ

namespace File

/-- A file that has just been opened. -/
def opened : File := ⟨0, [], none, 0⟩

/-- The error of a seek while another operation is pending. -/
def seekBusy : IoError :=
  ⟨.other, "other file operation is pending, call poll_complete before start_seek"⟩

/-- `start_seek(SeekFrom::Start(target))`. -/
def startSeek (f : File) (target : ℕ) : Except IoError File :=
  match f.inflight with
  | some _ => .error seekBusy
  | none => .ok { f with ahead := [], inflight := some (.seek target f.ahead.length) }

/-- A read comes back: what there is no room for is kept. -/
def deliver (f : File) (wanted : ℕ) (data : List UInt8) :
    Completion → File × ReadPoll
  | .pending => ({ f with inflight := some (.read data) }, .pending)
  | .done =>
      ({ f with
          cursor := f.cursor + data.length, ahead := data.drop wanted, inflight := none },
        .ready (.ok (data.take wanted)))
  | .failed error => ({ f with inflight := none }, .ready (.error error))

/-- Hand out what has been read ahead, or read the disk. -/
def readOn (f : File) (wanted : ℕ) (disk : Disk) (read : Completion) : File × ReadPoll :=
  if f.ahead ≠ [] then
    ({ f with ahead := f.ahead.drop wanted }, .ready (.ok (f.ahead.take wanted)))
  else f.deliver wanted (stretch disk.bytes f.cursor (min disk.length wanted)) read

/-- `poll_read`, into a buffer with room for `wanted` bytes. -/
def pollRead (f : File) (wanted : ℕ) (disk : Disk) (seek read : Completion) : File × ReadPoll :=
  match f.inflight with
  | none => f.readOn wanted disk read
  | some (.read data) => f.deliver wanted data read
  | some (.seek target _) =>
      match seek with
      | .pending => (f, .pending)
      | .done =>
          readOn { f with cursor := target, inflight := none, lastSeek := target } wanted disk
            read
      -- the error of a seek that nobody asks for is dropped
      | .failed _ => readOn { f with inflight := none } wanted disk read

/-- `poll_complete`. -/
def pollComplete (f : File) (op : Completion) : File × Poll (Except IoError ℕ) :=
  match f.inflight with
  | none => (f, .ready (.ok f.lastSeek))
  | some (.seek target _) =>
      match op with
      | .pending => (f, .pending)
      | .done =>
          ({ f with cursor := target, inflight := none, lastSeek := target },
            .ready (.ok target))
      | .failed error => ({ f with inflight := none }, .ready (.error error))
  | some (.read data) =>
      match op with
      | .pending => (f, .pending)
      | .done =>
          ({ f with cursor := f.cursor + data.length, ahead := data, inflight := none },
            .ready (.ok f.lastSeek))
      | .failed _ => ({ f with inflight := none }, .ready (.ok f.lastSeek))

/-! ### What is handed out next -/

/-- No seek is in flight, and the bytes that the file has, or is about to have, are those of
`source` from `place` on. -/
structure Reads (f : File) (source : ℕ → UInt8) (place : ℕ) : Prop where
  noSeek : ∀ target dropped, f.inflight ≠ some (.seek target dropped)
  ahead : ∃ n, f.ahead = stretch source place n ∧ f.cursor = place + n
  read : ∀ data, f.inflight = some (.read data) →
    f.ahead = [] ∧ ∃ n, data = stretch source place n

variable {f : File} {source : ℕ → UInt8} {place wanted n : ℕ} {disk : Disk}
  {seek read : Completion}

/-- A file with nothing in flight and nothing read ahead reads where it stands. -/
theorem reads_of_idle (hf : f.inflight = none) (ha : f.ahead = []) (hc : f.cursor = place) :
    f.Reads source place where
  noSeek := by simp [hf]
  ahead := ⟨0, ha, hc⟩
  read := by simp [hf]

theorem reads_opened : opened.Reads source 0 := reads_of_idle rfl rfl rfl

/-- What a poll of the file comes to: it hands out the bytes that follow, or none. -/
def Follows (source : ℕ → UInt8) (place wanted : ℕ) (r : File × ReadPoll) : Prop :=
  match r.2 with
  | .pending => r.1.Reads source place
  | .ready (.error _) => r.1.Reads source place
  | .ready (.ok data) =>
      ∃ n ≤ wanted, data = stretch source place n ∧ r.1.Reads source (place + n)

/-- A read that has been started brings bytes of the source. -/
theorem deliver_spec (hc : f.cursor = place) (ha : f.ahead = []) :
    Follows source place wanted (f.deliver wanted (stretch source place n) read) := by
  cases read with
  | pending =>
    refine ⟨by simp [deliver], ⟨0, ha, hc⟩, ?_⟩
    intro data hd
    simp only [deliver, Option.some.injEq, FileOp.read.injEq] at hd
    exact ⟨ha, n, hd.symm⟩
  | failed error =>
    exact ⟨by simp [deliver], ⟨0, ha, hc⟩, by simp [deliver]⟩
  | done =>
    refine ⟨min wanted n, min_le_left _ _, take_stretch wanted, by simp [deliver], ?_, ?_⟩
    · refine ⟨n - wanted, drop_stretch wanted, ?_⟩
      simp only [deliver, length_stretch, hc]
      omega
    · simp [deliver]

/-- A poll that finds no seek in flight reads on: from what is ahead, or from the disk, which
holds the bytes of the source there. -/
theorem readOn_spec (hf : f.inflight = none) (hr : f.Reads source place)
    (hdisk : ∀ i < wanted, disk.bytes (place + i) = source (place + i)) :
    Follows source place wanted (f.readOn wanted disk read) := by
  obtain ⟨n, ha, hc⟩ := hr.ahead
  unfold readOn
  split
  · -- there are bytes ahead
    refine ⟨min wanted n, min_le_left _ _, ?_, by simp [hf], ?_, by simp [hf]⟩
    · rw [ha, take_stretch]
    · refine ⟨n - wanted, ?_, ?_⟩
      · simp only [ha, drop_stretch]
      · simp only [hc]
        omega
  · next hnil =>
    have hzero : n = 0 := by
      rw [not_not, ha, stretch_eq_nil] at hnil
      exact hnil
    rw [hzero, Nat.add_zero] at hc
    rw [hc, stretch_congr fun i hi => hdisk i (by omega)]
    exact deliver_spec hc (by simpa using hnil)

/-- **A poll of a file without a seek in flight** hands out the bytes that follow, or none. -/
theorem pollRead_spec (seek read : Completion) (hr : f.Reads source place)
    (hdisk : ∀ i < wanted, disk.bytes (place + i) = source (place + i)) :
    Follows source place wanted (f.pollRead wanted disk seek read) := by
  unfold pollRead
  split
  · next hf => exact readOn_spec hf hr hdisk
  · next data hf =>
    obtain ⟨ha, n, rfl⟩ := hr.read data hf
    obtain ⟨k, hk, hc⟩ := hr.ahead
    rw [ha, eq_comm, stretch_eq_nil] at hk
    exact deliver_spec (by omega) ha
  · next target dropped hf => exact absurd hf (hr.noSeek target dropped)

end File

end StreamServer.Readers

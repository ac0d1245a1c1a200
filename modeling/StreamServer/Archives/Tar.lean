import StreamServer.Archives.Delivery

/-!
# A file in a tar archive

An entry of a tar archive is a stretch of the archive, and is read through a slice of the
file: a seek goes to the place of the archive, and a read is limited to what is left of the
stretch.  To limit a read the slice reads into a view of the caller's buffer.  Filling a view
does not fill the buffer it was taken from, so a read that finds bytes moves the position and
hands out none.

## Main definitions

* `TarEntry` — where an entry lies in an archive.
* `AsyncRawFileSlice` — the reader; `pollRead`, `startSeek`, `pollComplete`.
* `sliceReader` — one caller who reads and seeks.
* `TarStep.Delivers` — what a step should do.
* `TarStep.FindsNothing` — the condition: the file has no bytes ready for a read.

## Main results

* `TarReader.inSync_of_reach` — file and slice stand at one place.
* `tarSlice_delivers` — a step does what it should exactly if it finds nothing.

## References

`server/src/archives/tar.rs`, `AsyncRawFileSlice`.
-/

namespace StreamServer.Archives

open Readers

/-! ### The reader -/

/-- Where an entry lies in an archive. -/
structure TarEntry where
  archive : List UInt8
  offset : ℕ
  size : ℕ
  fits : offset + size ≤ archive.length
  length_lt : archive.length < 2 ^ 63

/-- The bytes of the entry. -/
def TarEntry.bytes (e : TarEntry) : List UInt8 := (e.archive.drop e.offset).take e.size

/-- `AsyncRawFileSlice`. -/
structure AsyncRawFileSlice where
  file : File
  offset : ℕ
  size : ℕ
  pos : ℕ
  deriving DecidableEq, Repr

namespace AsyncRawFileSlice

/-- A slice of a file, which has been sent to its start. -/
def new (offset size : ℕ) : AsyncRawFileSlice := ⟨⟨offset, [], none, offset⟩, offset, size, 0⟩

variable (s : AsyncRawFileSlice)

/-- `poll_read`, with the caller's buffer as it is afterwards. -/
def pollRead (buf : ReadBuf) (disk : Disk) (seek read : Completion) :
    AsyncRawFileSlice × ReadBuf × Poll (Except IoError Unit) :=
  if s.size ≤ s.pos then (s, buf, .ready (.ok ()))
  else
    let want := min buf.remaining (s.size - s.pos)
    if want = 0 then (s, buf, .ready (.ok ()))
    else
      let subBuf := buf.take want
      match s.file.pollRead subBuf.remaining disk seek read with
      | (file, .ready (.ok data)) =>
          let n := (subBuf.put data).filled.length - subBuf.filled.length
          ({ s with file := file, pos := s.pos + n }, buf, .ready (.ok ()))
      | (file, .ready (.error error)) => ({ s with file := file }, buf, .ready (.error error))
      | (file, .pending) => ({ s with file := file }, buf, .pending)

/-- The error of a seek in front of the slice. -/
def negativeSeek : IoError := ⟨.invalidInput, "Negative seek"⟩

/-- `new_pos`, as `start_seek` computes it. -/
def seekTarget : SeekFrom → Except IoError ℕ
  | .start position => .ok position
  | .fromEnd delta =>
      .ok (if delta < 0 then s.size - delta.natAbs else (s.size + delta.toNat) % 2 ^ 64)
  | .current delta =>
      let target := Int.bmod (asI64 s.pos + delta) (2 ^ 64)
      if target < 0 then .error negativeSeek else .ok target.toNat

/-- `start_seek`. -/
def startSeek (position : SeekFrom) : Except IoError AsyncRawFileSlice := do
  let newPos ← s.seekTarget position
  let file ← s.file.startSeek ((s.offset + newPos) % 2 ^ 64)
  return { s with file := file }

/-- `poll_complete`. -/
def pollComplete (op : Completion) : AsyncRawFileSlice × Poll (Except IoError ℕ) :=
  match s.file.pollComplete op with
  | (file, .ready (.ok actual)) =>
      let pos := if actual < s.offset then 0 else actual - s.offset
      ({ s with file := file, pos := pos }, .ready (.ok pos))
  | (file, .ready (.error error)) => ({ s with file := file }, .ready (.error error))
  | (file, .pending) => ({ s with file := file }, .pending)

end AsyncRawFileSlice

/-! ### A caller -/

/-- Where a seek should go, from a position in a stream of this size. -/
def seekGoal (size pos : ℕ) : SeekFrom → ℤ
  | .start position => position
  | .fromEnd delta => size + delta
  | .current delta => pos + delta

/-- A slice, and where the seek that its caller has started should go. -/
structure TarReader where
  slice : AsyncRawFileSlice
  seeking : Option ℕ
  deriving DecidableEq, Repr

/-- The reader of an entry, as it is opened. -/
def TarReader.new (e : TarEntry) : TarReader := ⟨.new e.offset e.size, none⟩

/-- The calls a reader answers. -/
inductive TarStep
  | startSeek (position : SeekFrom)
  | pollComplete (op : Completion)
  /-- A read of the disk that is started now brings `brought` bytes. -/
  | pollRead (buf : ReadBuf) (brought : ℕ) (seek read : Completion)
  deriving DecidableEq, Repr

/-- The archive, for a read that brings `brought` bytes. -/
def TarEntry.disk (e : TarEntry) (brought : ℕ) : Disk :=
  ⟨fun place => e.archive.getD place 0, brought⟩

namespace TarStep

variable (e : TarEntry) (r : TarReader)

/-- The caller seeks within the entry and lets a seek come to its end before it reads.  A seek
within the file does not fail, and a read of the disk brings nothing only where it ends. -/
def guard : TarStep → Prop
  | .startSeek position =>
      position.Fits ∧ 0 ≤ seekGoal r.slice.size r.slice.pos position ∧
        seekGoal r.slice.size r.slice.pos position ≤ r.slice.size
  | .pollComplete op => r.seeking ≠ none → op = .pending ∨ op = .done
  | .pollRead _ brought _ _ =>
      r.seeking = none ∧ r.slice.file.cursor + brought ≤ e.archive.length ∧
        (r.slice.file.cursor < e.archive.length → 0 < brought)

/-- What a call does to the reader. -/
def effect : TarStep → TarReader
  | .startSeek position =>
      match r.slice.startSeek position with
      | .ok slice => ⟨slice, some (seekGoal r.slice.size r.slice.pos position).toNat⟩
      | .error _ => r
  | .pollComplete op =>
      match r.slice.pollComplete op with
      | (slice, .pending) => { r with slice := slice }
      | (slice, .ready _) => ⟨slice, none⟩
  | .pollRead buf brought seek read =>
      { r with slice := (r.slice.pollRead buf (e.disk brought) seek read).1 }

instance : ∀ a : TarStep, Decidable (a.guard e r)
  | .startSeek _ => inferInstanceAs (Decidable (_ ∧ _ ∧ _))
  | .pollComplete _ => inferInstanceAs (Decidable (_ → _))
  | .pollRead .. => inferInstanceAs (Decidable (_ ∧ _ ∧ _))

end TarStep

/-- The runs of a caller. -/
def sliceReader (e : TarEntry) : GuardedSystem TarReader TarStep :=
  ⟨fun r a => a.guard e r, fun r a => a.effect e r⟩

instance (e : TarEntry) (r : TarReader) (a : TarStep) : Decidable ((sliceReader e).guard r a) :=
  inferInstanceAs (Decidable (a.guard e r))

/-! ### What a step should do -/

namespace TarStep

variable (e : TarEntry) (r : TarReader)

/-- A seek goes where it should and nothing else moves the reader but a read.  What a read has
put into the caller's buffer is what follows in the entry, the position moves past it, and a
read puts nothing into a buffer with room only at the end of the entry. -/
def Delivers : TarStep → Prop
  | .startSeek position =>
      r.slice.file.inflight = none →
        ∃ slice, r.slice.startSeek position = .ok slice ∧ slice.pos = r.slice.pos
  | .pollComplete op =>
      match r.slice.pollComplete op with
      | (slice, .ready (.ok pos)) => slice.pos = pos ∧ pos = r.seeking.getD r.slice.pos
      | (slice, _) => slice.pos = r.slice.pos
  | .pollRead buf brought seek read =>
      let out := r.slice.pollRead buf (e.disk brought) seek read
      ∃ received, out.2.1.filled = buf.filled ++ received ∧
        received <+: e.bytes.drop r.slice.pos ∧ out.1.pos = r.slice.pos + received.length ∧
        (out.2.2 = .ready (.ok ()) → received = [] → 0 < buf.remaining → r.slice.pos = e.size)

/-- **The condition.**  The file has no bytes ready for a read in the entry. -/
def FindsNothing : TarStep → Prop
  | .pollRead buf brought seek read =>
      0 < min buf.remaining (r.slice.size - r.slice.pos) → ∀ data,
        (r.slice.file.pollRead (min buf.remaining (r.slice.size - r.slice.pos))
          (e.disk brought) seek read).2 ≠ .ready (.ok data)
  | _ => True

instance : ∀ a : TarStep, Decidable (a.FindsNothing e r)
  | .pollRead .. => inferInstanceAs (Decidable (_ → _))
  | .startSeek _ | .pollComplete _ => inferInstanceAs (Decidable True)

end TarStep

/-! ### File and slice stand at one place -/

/-- The slice is where its file stands, or the file is sent where the caller wants it. -/
structure TarReader.InSync (e : TarEntry) (r : TarReader) : Prop where
  offset_eq : r.slice.offset = e.offset
  size_eq : r.slice.size = e.size
  bounded : r.slice.pos ≤ e.size
  lastSeek : r.slice.file.lastSeek = e.offset + r.slice.pos
  still : r.seeking = none → r.slice.file.Holds e.archive (e.offset + r.slice.pos)
  seeks : ∀ goal, r.seeking = some goal → goal ≤ e.size ∧ r.slice.file.ahead = [] ∧
    ∃ dropped, r.slice.file.inflight = some (.seek (e.offset + goal) dropped)

section Steps

variable {e : TarEntry} {r : TarReader}

theorem inSync_new (e : TarEntry) : (TarReader.new e).InSync e where
  offset_eq := rfl
  size_eq := rfl
  bounded := Nat.zero_le _
  lastSeek := rfl
  still _ := File.holds_of_idle rfl rfl rfl
  seeks _ h := by cases h

/-- A seek within the entry is sent where it should go. -/
theorem seekTarget_eq (h : r.InSync e) {position : SeekFrom} (hfits : position.Fits)
    (hnonneg : 0 ≤ seekGoal r.slice.size r.slice.pos position)
    (hle : seekGoal r.slice.size r.slice.pos position ≤ r.slice.size) :
    r.slice.seekTarget position =
      .ok (seekGoal r.slice.size r.slice.pos position).toNat := by
  have hsize := h.size_eq
  have hbounded := h.bounded
  have hfile := e.fits
  have hlength := e.length_lt
  cases position with
  | start position => simp [AsyncRawFileSlice.seekTarget, seekGoal]
  | fromEnd delta =>
    simp only [seekGoal] at hnonneg hle
    simp only [AsyncRawFileSlice.seekTarget, seekGoal, Except.ok.injEq]
    split <;> omega
  | current delta =>
    simp only [seekGoal] at hnonneg hle
    have hpos : asI64 r.slice.pos = r.slice.pos := asI64_of_lt (by omega)
    have hmod : Int.bmod (asI64 r.slice.pos + delta) (2 ^ 64) = r.slice.pos + delta := by
      rw [hpos]
      exact Int.bmod_eq_of_le (by omega) (by omega)
    simp only [AsyncRawFileSlice.seekTarget, seekGoal, hmod]
    rw [if_neg (by omega)]

theorem startSeek_eq (h : r.InSync e) {position : SeekFrom} (hfits : position.Fits)
    (hnonneg : 0 ≤ seekGoal r.slice.size r.slice.pos position)
    (hle : seekGoal r.slice.size r.slice.pos position ≤ r.slice.size)
    (hidle : r.slice.file.inflight = none) :
    r.slice.startSeek position = .ok { r.slice with file := { r.slice.file with
      ahead := []
      inflight := some (.seek (e.offset + (seekGoal r.slice.size r.slice.pos position).toNat)
        r.slice.file.ahead.length) } } := by
  have hsize := h.size_eq
  have hfile := e.fits
  have hlength := e.length_lt
  have hmod : (r.slice.offset + (seekGoal r.slice.size r.slice.pos position).toNat) % 2 ^ 64 =
      e.offset + (seekGoal r.slice.size r.slice.pos position).toNat := by
    rw [h.offset_eq]
    exact Nat.mod_eq_of_lt (by omega)
  unfold AsyncRawFileSlice.startSeek
  rw [seekTarget_eq h hfits hnonneg hle]
  simp only [bind, Except.bind, File.startSeek, hidle, hmod, pure, Except.pure]

/-- `start_seek` waits for nothing: with an operation in flight it fails. -/
theorem startSeek_busy {slice : AsyncRawFileSlice} {position : SeekFrom}
    (h : r.slice.startSeek position = .ok slice) : r.slice.file.inflight = none := by
  unfold AsyncRawFileSlice.startSeek at h
  cases hbusy : r.slice.file.inflight with
  | none => rfl
  | some op =>
    cases ht : r.slice.seekTarget position with
    | error error =>
      rw [ht] at h
      cases h
    | ok target => simp [ht, bind, Except.bind, File.startSeek, hbusy] at h

/-- `poll_complete` leaves the slice where it is, or brings it where the caller wants it. -/
theorem pollComplete_cases (h : r.InSync e) {op : Completion}
    (hop : r.seeking ≠ none → op = .pending ∨ op = .done) :
    r.slice.pollComplete op = (r.slice, .pending) ∨
      ∃ file, r.slice.pollComplete op =
          ({ r.slice with file := file, pos := r.seeking.getD r.slice.pos },
            .ready (.ok (r.seeking.getD r.slice.pos))) ∧
        (⟨{ r.slice with file := file, pos := r.seeking.getD r.slice.pos }, none⟩ :
          TarReader).InSync e := by
  have hoffset := h.offset_eq
  unfold AsyncRawFileSlice.pollComplete
  cases hs : r.seeking with
  | none =>
    rcases (h.still hs).pollComplete op with hpending | ⟨file, hready, hholds, hlast⟩
    · rw [hpending]
      exact Or.inl rfl
    · have hpos : r.slice.file.lastSeek - r.slice.offset = r.slice.pos := by
        rw [h.lastSeek]
        omega
      rw [hready]
      dsimp only
      rw [if_neg (by rw [h.lastSeek]; omega), hpos]
      refine Or.inr ⟨file, rfl, hoffset, h.size_eq, h.bounded, ?_, fun _ => hholds, by simp⟩
      exact hlast.trans h.lastSeek
  | some goal =>
    obtain ⟨hgoal, ha, dropped, hf⟩ := h.seeks goal hs
    rcases File.pollComplete_seek e.archive hf ha (hop (by simp [hs])) with
      hpending | ⟨file, hready, hholds, hlast⟩
    · rw [hpending]
      exact Or.inl rfl
    · rw [hready]
      dsimp only
      have hpos : e.offset + goal - r.slice.offset = goal := by omega
      rw [if_neg (by omega), hpos]
      exact Or.inr ⟨file, rfl, hoffset, h.size_eq, hgoal, hlast, fun _ => hholds, by simp⟩

/-- **What a read comes to.**  It leaves the slice where it is and the buffer as it was, or
it moves the slice past bytes that it hands out to nobody. -/
theorem pollRead_cases (h : r.InSync e) (buf : ReadBuf) {brought : ℕ} (seek read : Completion)
    (hs : r.seeking = none) (hfits : r.slice.file.cursor + brought ≤ e.archive.length)
    (hb : r.slice.file.cursor < e.archive.length → 0 < brought) :
    let a : TarStep := .pollRead buf brought seek read
    let out := r.slice.pollRead buf (e.disk brought) seek read
    out.2.1 = buf ∧
      ((a.FindsNothing e r ∧
          (∃ file, out.1 = { r.slice with file := file } ∧
            file.Holds e.archive (e.offset + r.slice.pos) ∧
            file.lastSeek = r.slice.file.lastSeek) ∧
          (out.2.2 = .ready (.ok ()) → 0 < buf.remaining → r.slice.pos = e.size)) ∨
        (¬ a.FindsNothing e r ∧ r.slice.pos < out.1.pos)) := by
  have hbounded := h.bounded
  have hsize := h.size_eq
  have hinside := e.fits
  have hstill := h.still hs
  dsimp only [TarStep.FindsNothing]
  unfold AsyncRawFileSlice.pollRead
  split
  · exact ⟨rfl, Or.inl ⟨fun hpos => by omega, ⟨r.slice.file, rfl, hstill, rfl⟩, fun _ _ => by omega⟩⟩
  · dsimp only
    split
    · next hfull =>
      refine ⟨rfl, Or.inl ⟨fun hpos => by omega, ⟨r.slice.file, rfl, hstill, rfl⟩, ?_⟩⟩
      intro _ hroom
      omega
    · next hroom =>
      -- the poll asks for no more than the entry has left
      have hwant : (buf.take (min buf.remaining (r.slice.size - r.slice.pos))).remaining =
          min buf.remaining (r.slice.size - r.slice.pos) := by
        rw [ReadBuf.remaining_take]
        exact min_eq_right (min_le_left _ _)
      have hhands := File.pollRead_handsOut seek read hstill (by omega)
        (show 0 < min buf.remaining (r.slice.size - r.slice.pos) by omega) hfits hb
      rw [hwant]
      rcases hpoll : r.slice.file.pollRead (min buf.remaining (r.slice.size - r.slice.pos))
        (e.disk brought) seek read with ⟨file, result⟩
      rw [show r.slice.file.pollRead _ ⟨fun i => e.archive.getD i 0, brought⟩ seek read = _
        from hpoll] at hhands
      cases result with
      | pending =>
        exact ⟨rfl, Or.inl ⟨by simp, ⟨file, rfl, hhands⟩, by simp⟩⟩
      | ready result =>
        cases result with
        | error error => exact ⟨rfl, Or.inl ⟨by simp, ⟨file, rfl, hhands⟩, by simp⟩⟩
        | ok data =>
          have hlen : 0 < data.length := List.length_pos_iff.mpr hhands.1
          refine ⟨rfl, Or.inr ⟨fun hnothing => hnothing (by omega) data rfl, ?_⟩⟩
          simp [hlen]

theorem inSync_step (h : r.InSync e) {a : TarStep} (hg : a.guard e r) (hc : a.FindsNothing e r) :
    (a.effect e r).InSync e := by
  cases a with
  | startSeek position =>
    obtain ⟨hfits, hnonneg, hle⟩ := hg
    dsimp only [TarStep.effect]
    split
    · next slice hslice =>
      have hidle := startSeek_busy hslice
      rw [startSeek_eq h hfits hnonneg hle hidle, Except.ok.injEq] at hslice
      subst hslice
      refine ⟨h.offset_eq, h.size_eq, h.bounded, h.lastSeek, by simp, ?_⟩
      intro goal hgoal
      obtain rfl : (seekGoal r.slice.size r.slice.pos position).toNat = goal := by
        simpa using hgoal
      have hsize := h.size_eq
      exact ⟨by omega, rfl, _, rfl⟩
    · exact h
  | pollComplete op =>
    dsimp only [TarStep.effect]
    rcases pollComplete_cases h hg with hpending | ⟨file, hready, hsync⟩
    · rw [hpending]
      exact h
    · rw [hready]
      exact hsync
  | pollRead buf brought seek read =>
    obtain ⟨hs, hfits, hb⟩ := hg
    obtain ⟨-, ⟨-, ⟨file, hfile, hholds, hlast⟩, -⟩ | ⟨hfinds, -⟩⟩ :=
      pollRead_cases h buf seek read hs hfits hb
    · dsimp only [TarStep.effect]
      rw [hfile]
      refine ⟨h.offset_eq, h.size_eq, h.bounded, hlast.trans h.lastSeek, fun _ => hholds, ?_⟩
      intro goal hgoal
      rw [hs] at hgoal
      cases hgoal
    · exact absurd hc hfinds

end Steps

/-- Until a read finds bytes, the slice is where its file stands. -/
theorem TarReader.inSync_of_reach {e : TarEntry} {r : TarReader}
    (h : (sliceReader e).Reach (fun r a => a.FindsNothing e r) (.new e) r) : r.InSync e :=
  h.invariant (inSync_new e) fun _ _ hr hg hc => inSync_step hr hg hc

/-! ### The law -/

/-- **A step does what it should exactly if it finds nothing.**  In every run of a caller
whose reads have found no bytes so far, the next step delivers if and only if it is no read
that finds bytes. -/
theorem tarSlice_delivers {e : TarEntry} {r : TarReader}
    (h : (sliceReader e).Reach (fun r a => a.FindsNothing e r) (.new e) r) {a : TarStep}
    (hg : a.guard e r) : a.Delivers e r ↔ a.FindsNothing e r := by
  have hsync := TarReader.inSync_of_reach h
  cases a with
  | startSeek position =>
    obtain ⟨hfits, hnonneg, hle⟩ := hg
    exact iff_of_true (fun hidle => ⟨_, startSeek_eq hsync hfits hnonneg hle hidle, rfl⟩) trivial
  | pollComplete op =>
    refine iff_of_true ?_ trivial
    dsimp only [TarStep.Delivers]
    rcases pollComplete_cases hsync hg with hpending | ⟨file, hready, -⟩
    · rw [hpending]
    · rw [hready]
      exact ⟨rfl, rfl⟩
  | pollRead buf brought seek read =>
    obtain ⟨hs, hfits, hb⟩ := hg
    obtain ⟨hbuf, ⟨hnothing, ⟨file, hfile, -⟩, hend⟩ | ⟨hfinds, hmoved⟩⟩ :=
      pollRead_cases hsync buf seek read hs hfits hb
    · refine iff_of_true ?_ hnothing
      dsimp only [TarStep.Delivers]
      exact ⟨[], by rw [hbuf]; simp, List.nil_prefix, by rw [hfile]; rfl,
        fun hok _ hroom => hend hok hroom⟩
    · refine iff_of_false ?_ hfinds
      intro ⟨received, hfilled, _, hpos, _⟩
      have hnil : received = [] := by
        rw [hbuf] at hfilled
        simpa using hfilled
      rw [hnil, List.length_nil] at hpos
      omega

/-- Two bytes behind a header of one byte. -/
def smallEntry : TarEntry where
  archive := [1, 7, 8, 0]
  offset := 1
  size := 2
  fits := by decide
  length_lt := by decide

/-- A reader that is sent to the end of the entry is told so there. -/
theorem tarSlice_delivers_end :
    ∃ r, (sliceReader smallEntry).Reach (fun r a => a.FindsNothing smallEntry r)
        (.new smallEntry) r ∧
      let a : TarStep := .pollRead room 1 .done .done
      a.guard smallEntry r ∧ a.Delivers smallEntry r := by
  obtain ⟨r, hr, hg, hc⟩ :
      ∃ r, (sliceReader smallEntry).Reach (fun r a => a.FindsNothing smallEntry r)
          (.new smallEntry) r ∧
        ((TarStep.pollRead room 1 .done .done).guard smallEntry r ∧
          (TarStep.pollRead room 1 .done .done).FindsNothing smallEntry r) :=
    GuardedSystem.exists_reach_of_exec
      [.startSeek (.fromEnd 0), .pollComplete .pending, .pollComplete .done] (by decide)
  exact ⟨r, hr, hg, (tarSlice_delivers hr hg).mpr hc⟩

/-- The first read of an entry finds a byte, moves past it and returns with the buffer as empty
as before. -/
theorem tarSlice_swallows :
    let r : TarReader := .new smallEntry
    let a : TarStep := .pollRead room 1 .done .done
    let out := r.slice.pollRead room (smallEntry.disk 1) .done .done
    a.guard smallEntry r ∧ ¬ a.Delivers smallEntry r ∧ smallEntry.bytes = [7, 8] ∧
      out.2 = (room, .ready (.ok ())) ∧ out.1.pos = 1 := by
  refine ⟨by decide, ?_, by decide, by decide, by decide⟩
  intro ⟨received, hfilled, _, hpos, _⟩
  have hlength : ((TarReader.new smallEntry).slice.pollRead room (smallEntry.disk 1)
      .done .done).2.1.filled.length = 0 := by decide
  have hmoved : ((TarReader.new smallEntry).slice.pollRead room (smallEntry.disk 1)
      .done .done).1.pos = 1 := by decide
  have hstart : (TarReader.new smallEntry).slice.pos = 0 := by decide
  have hroom : room.filled.length = 0 := by decide
  rw [hfilled, List.length_append] at hlength
  omega

end StreamServer.Archives

import Mathlib.Data.List.GetD
import StreamServer.Archives.Cache

/-!
# What a progressive reader delivers

A read should put the bytes that follow the reader's position into the caller's buffer,
move the position past them, and report the end only when the writer is done and
everything has been read.

A seek to a place below the mark should succeed, leave the position until it has come to its
end, and bring the reader to that place.

The file is read into a view of the caller's buffer, and filling a view does not fill the
buffer it was taken from.  So a poll that finds bytes moves the position and hands out
none; every other poll does what it should.  Until a poll finds bytes, the file stands
where the reader is, and what it has read ahead is what follows there.

## Main definitions

* `File.Holds` — what the file hands out next follows a position of the content.
* `Asks` — the place a seek asks for.
* `Action.Delivers` — what a step should do.
* `FindsNothing` — the condition: the poll does not find the file's bytes ready.

## Main results

* `File.pollRead_handsOut` — the file hands out the bytes that follow, and some.
* `World.inSync_of_reach` — file and reader stand at one place.
* `World.InSync.seeks`, `World.InSync.completes` — seeks do what they should.
* `progressiveReader_delivers` — a step delivers exactly if it is no poll that finds bytes.

## References

`server/src/archives/cache.rs`, `ProgressiveReader`.
-/

/-! ### The file over a growing content -/

namespace StreamServer.Readers.File

/-- The file stands at `place`: what it has read, or is about to have read, is what the
content holds there. -/
structure Holds (f : File) (content : List UInt8) (place : ℕ) : Prop where
  noSeek : ∀ target dropped, f.inflight ≠ some (.seek target dropped)
  ahead : f.ahead <+: content.drop place
  cursor : f.cursor = place + f.ahead.length
  read : ∀ data, f.inflight = some (.read data) →
    f.ahead = [] ∧ data ≠ [] ∧ data <+: content.drop place

variable {f : File} {content : List UInt8} {place wanted brought : ℕ} {seek read : Completion}

theorem holds_of_idle (hf : f.inflight = none) (ha : f.ahead = []) (hc : f.cursor = place) :
    f.Holds content place where
  noSeek := by simp [hf]
  ahead := by simp [ha]
  cursor := by simp [ha, hc]
  read := by simp [hf]

theorem prefix_drop_append {data more : List UInt8} (h : data <+: content.drop place) :
    data <+: (content ++ more).drop place := by
  rw [List.drop_append]
  exact h.trans (List.prefix_append _ _)

/-- What is written later changes nothing. -/
theorem Holds.grow (h : f.Holds content place) (more : List UInt8) :
    f.Holds (content ++ more) place where
  noSeek := h.noSeek
  ahead := prefix_drop_append h.ahead
  cursor := h.cursor
  read data hd := ⟨(h.read data hd).1, (h.read data hd).2.1, prefix_drop_append (h.read data hd).2.2⟩

/-- A read of the disk brings what the content holds there. -/
theorem stretch_content {n : ℕ} (h : place + n ≤ content.length) :
    stretch (fun i => content.getD i 0) place n = (content.drop place).take n := by
  apply List.ext_getElem
  · simp only [length_stretch, List.length_take, List.length_drop]
    omega
  · intro i h₁ h₂
    rw [length_stretch] at h₁
    rw [getElem_stretch, List.getElem_take, List.getElem_drop,
      List.getD_eq_getElem _ _ (by omega)]

/-- Where a seek that is in flight goes. -/
def sentTo (f : File) : Option ℕ :=
  match f.inflight with
  | some (.seek target _) => some target
  | _ => none

/-- What a poll of the file comes to: it hands out bytes that follow, or leaves the file
where it stands. -/
def HandsOut (f : File) (content : List UInt8) (place : ℕ) (r : File × ReadPoll) : Prop :=
  match r.2 with
  | .ready (.ok taken) => taken ≠ [] ∧ taken <+: content.drop place
  | _ => r.1.Holds content place ∧ r.1.lastSeek = f.lastSeek

/-- A read that is under way comes back, or does not. -/
theorem deliver_handsOut {data : List UInt8} (ha : f.ahead = []) (hc : f.cursor = place)
    (hne : data ≠ []) (hdata : data <+: content.drop place) (hw : 0 < wanted) :
    f.HandsOut content place (f.deliver wanted data read) := by
  cases read with
  | pending =>
    refine ⟨⟨by simp [deliver], by simp [deliver, ha], by simp [deliver, ha, hc], ?_⟩, rfl⟩
    intro later hlater
    obtain rfl : data = later := by simpa [deliver] using hlater
    exact ⟨ha, hne, hdata⟩
  | done =>
    refine ⟨?_, (List.take_prefix _ _).trans hdata⟩
    rw [ne_eq, List.take_eq_nil_iff]
    rintro (hzero | hnil)
    · omega
    · exact hne hnil
  | failed error => exact ⟨holds_of_idle rfl ha hc, rfl⟩

/-- **A poll of the file** hands out the bytes that follow, and some, or leaves it where it
stands. -/
theorem pollRead_handsOut (seek read : Completion) (h : f.Holds content place)
    (hplace : place < content.length) (hw : 0 < wanted) (hfits : f.cursor + brought ≤ content.length)
    (hb : f.cursor < content.length → 0 < brought) :
    f.HandsOut content place
      (f.pollRead wanted ⟨fun i => content.getD i 0, brought⟩ seek read) := by
  unfold pollRead
  split
  · next hf =>
    unfold readOn
    split
    · -- some bytes have been read ahead
      next hahead =>
      refine ⟨?_, (List.take_prefix _ _).trans h.ahead⟩
      rw [ne_eq, List.take_eq_nil_iff]
      rintro (hzero | hnil)
      · omega
      · exact hahead hnil
    · next hnone =>
      have ha : f.ahead = [] := not_not.mp hnone
      have hc : f.cursor = place := by simpa [ha] using h.cursor
      have hpos : 0 < brought := hb (by omega)
      have hle : place + min brought wanted ≤ content.length := by omega
      rw [hc, stretch_content hle]
      refine deliver_handsOut ha hc ?_ (List.take_prefix _ _) hw
      rw [← List.length_pos_iff, List.length_take, List.length_drop]
      omega
  · next data hf =>
    obtain ⟨ha, hne, hdata⟩ := h.read data hf
    exact deliver_handsOut ha (by simpa [ha] using h.cursor) hne hdata hw
  · next target dropped hf => exact absurd hf (h.noSeek target dropped)

/-- `poll_complete` without a seek under way leaves the file where it stands. -/
theorem Holds.pollComplete (h : f.Holds content place) (op : Completion) :
    f.pollComplete op = (f, .pending) ∨
      ∃ f', f.pollComplete op = (f', .ready (.ok f.lastSeek)) ∧ f'.Holds content place ∧
        f'.lastSeek = f.lastSeek := by
  unfold File.pollComplete
  split
  · exact Or.inr ⟨f, rfl, h, rfl⟩
  · next target dropped hf => exact absurd hf (h.noSeek target dropped)
  · next data hf =>
    obtain ⟨ha, hne, hdata⟩ := h.read data hf
    have hc : f.cursor = place := by simpa [ha] using h.cursor
    cases op with
    | pending => exact Or.inl rfl
    | done => exact Or.inr ⟨_, rfl, ⟨by simp, hdata, by simp [hc], by simp⟩, rfl⟩
    | failed error => exact Or.inr ⟨_, rfl, holds_of_idle rfl ha hc, rfl⟩

/-- `poll_complete` of a seek that does not fail. -/
theorem pollComplete_seek {target dropped : ℕ} {op : Completion} (content : List UInt8)
    (hf : f.inflight = some (.seek target dropped)) (ha : f.ahead = [])
    (hop : op = .pending ∨ op = .done) :
    f.pollComplete op = (f, .pending) ∨
      ∃ f', f.pollComplete op = (f', .ready (.ok target)) ∧ f'.Holds content target ∧
        f'.lastSeek = target := by
  unfold File.pollComplete
  rw [hf]
  rcases hop with rfl | rfl
  · exact Or.inl rfl
  · exact Or.inr ⟨_, rfl, holds_of_idle rfl ha rfl, rfl⟩

end StreamServer.Readers.File

namespace StreamServer.Archives

open Readers

/-! ### What a poll should do -/

/-- What has been put into the caller's buffer is what follows the reader's position, which
moves past it; and where a read puts nothing into a buffer with room, the writer had
finished and everything had been read. -/
def Delivers (content : List UInt8) (snapshot : StateSnapshot) (r : ProgressiveReader)
    (buf : ReadBuf) : ProgressiveReader × Attempt → Prop
  | (r', .returns buf' result) =>
      ∃ received, buf'.filled = buf.filled ++ received ∧ received <+: content.drop r.pos ∧
        r'.pos = r.pos + received.length ∧
        (result = .ready (.ok ()) → received = [] → 0 < buf.remaining →
          snapshot.isComplete = true ∧ snapshot.writtenBytes ≤ r.pos)
  | (r', .waits) => r'.pos = r.pos

/-- The place a seek asks for. -/
def Asks (totalSize : Option ℕ) (pos goal : ℕ) : SeekFrom → Prop
  | .start position => goal = position
  | .fromEnd delta => ∃ total ∈ totalSize, (goal : ℤ) = total + delta
  | .current delta => (goal : ℤ) = pos + delta

/-- Where no operation of the file is in flight, a seek to a place below the mark is started, and the
reader stays where it is until it is complete. -/
def ProgressiveReader.Seeks (r : ProgressiveReader) (writtenBytes : ℕ) (position : SeekFrom) : Prop :=
  r.file.inflight = none → ∀ goal ≤ writtenBytes, Asks r.totalSize r.pos goal position →
    ∃ r', r.startSeek position = .ok r' ∧ r'.pos = r.pos ∧ r'.file.sentTo = some goal

/-- `poll_complete` reports where the reader is then: where a seek in flight went, or else where it
was. -/
def ProgressiveReader.Completes (r : ProgressiveReader) (op : Completion) : Prop :=
  match r.pollComplete op with
  | (r', .ready (.ok pos)) => r'.pos = pos ∧ pos = r.file.sentTo.getD r.pos
  | (r', _) => r'.pos = r.pos

/-- Where a step neither seeks nor reads, all readers stay as they are. -/
def Action.Delivers (s : World) : Action → Prop
  | .reader k (.startSeek position) =>
      (s.processes k).reader.Seeks s.snapshot.writtenBytes position
  | .reader k (.pollComplete op) => (s.processes k).reader.Completes op
  | .reader k (.attempt buf snapshot brought seek read) =>
      Archives.Delivers s.content snapshot (s.processes k).reader buf
        ((s.processes k).reader.attempt buf snapshot (s.disk brought) seek read)
  | a => ∀ j, ((a.effect s).processes j).reader = (s.processes j).reader

/-- If there are bytes the poll could hand out, the file does not have them ready. -/
def ProgressiveReader.FindsNothing (r : ProgressiveReader) (buf : ReadBuf)
    (snapshot : StateSnapshot) (disk : Disk) (seek read : Completion) : Prop :=
  snapshot.error = none → 0 < r.needed buf snapshot →
    ∀ data, (r.file.pollRead (r.needed buf snapshot) disk seek read).2 ≠ .ready (.ok data)

instance (result : ReadPoll) : Decidable (∀ data, result ≠ .ready (.ok data)) :=
  match result with
  | .pending | .ready (.error _) => isTrue (by simp)
  | .ready (.ok data) => isFalse fun h => h data rfl

instance (r : ProgressiveReader) (buf : ReadBuf) (snapshot : StateSnapshot) (disk : Disk)
    (seek read : Completion) : Decidable (r.FindsNothing buf snapshot disk seek read) :=
  inferInstanceAs (Decidable (_ → _ → _))

/-- **The condition.**  No poll finds the bytes it could hand out ready. -/
def FindsNothing (s : World) : Action → Prop
  | .reader k (.attempt buf snapshot brought seek read) =>
      (s.processes k).reader.FindsNothing buf snapshot (s.disk brought) seek read
  | _ => True

instance (s : World) : ∀ a : Action, Decidable (FindsNothing s a)
  | .reader _ (.attempt ..) => inferInstanceAs (Decidable (ProgressiveReader.FindsNothing ..))
  | .writer _ => inferInstanceAs (Decidable True)
  | .reader _ (.startSeek _) | .reader _ (.pollComplete _) | .reader _ (.pollRead _)
  | .reader _ (.look _) | .reader _ (.notified _) | .reader _ (.pollNotified ..)
  | .reader _ (.park _) => inferInstanceAs (Decidable True)

/-! ### The body of the loop -/

section Attempt

variable {r : ProgressiveReader} {content : List UInt8} {buf : ReadBuf}
  {snapshot : StateSnapshot} {brought : ℕ} {seek read : Completion}

/-- The poll leaves the reader where it stands, and does what it should. -/
def ProgressiveReader.Stays (r : ProgressiveReader) (content : List UInt8) (buf : ReadBuf)
    (snapshot : StateSnapshot) (r' : ProgressiveReader) (out : Attempt) : Prop :=
  (∃ file, r' = { r with file := file } ∧ file.Holds content r.pos ∧
    file.lastSeek = r.file.lastSeek) ∧
  (out = .waits ∨ ∃ result, out = .returns buf result ∧
    (result = .ready (.ok ()) → 0 < buf.remaining →
      snapshot.isComplete = true ∧ snapshot.writtenBytes ≤ r.pos))

/-- The poll moves the reader past bytes that it hands out to nobody. -/
def ProgressiveReader.Swallows (r : ProgressiveReader) (content : List UInt8) (buf : ReadBuf)
    (r' : ProgressiveReader) (out : Attempt) : Prop :=
  ∃ data, data ≠ [] ∧ data <+: content.drop r.pos ∧ r'.pos = r.pos + data.length ∧
    out = .returns buf (.ready (.ok ()))

theorem readFile_cases (seek read : Completion) (h : r.file.Holds content r.pos) (hpos : r.pos < content.length)
    (hw : 0 < r.needed buf snapshot) (hfits : r.file.cursor + brought ≤ content.length)
    (hb : r.file.cursor < content.length → 0 < brought) :
    let disk : Disk := ⟨fun i => content.getD i 0, brought⟩
    let r' := r.readFile buf snapshot disk seek read
    (∀ data, (r.file.pollRead (r.needed buf snapshot) disk seek read).2 ≠ .ready (.ok data)) ∧
        r.Stays content buf snapshot r'.1 r'.2 ∨
      (∃ data, (r.file.pollRead (r.needed buf snapshot) disk seek read).2 = .ready (.ok data)) ∧
        r.Swallows content buf r'.1 r'.2 := by
  intro disk
  have hview : (buf.take (r.needed buf snapshot)).remaining = r.needed buf snapshot := by
    rw [ReadBuf.remaining_take]
    exact min_eq_right (min_le_left _ _)
  have hhands := File.pollRead_handsOut seek read h hpos hw hfits hb
  dsimp only [ProgressiveReader.readFile]
  rw [hview]
  rcases hpoll : r.file.pollRead (r.needed buf snapshot) disk seek read with ⟨file, result⟩
  rw [show r.file.pollRead (r.needed buf snapshot) ⟨fun i => content.getD i 0, brought⟩ seek read =
    _ from hpoll] at hhands
  cases result with
  | pending =>
    refine Or.inl ⟨by simp, ⟨file, rfl, hhands⟩, Or.inr ⟨_, rfl, by simp⟩⟩
  | ready result =>
    cases result with
    | error error => exact Or.inl ⟨by simp, ⟨file, rfl, hhands⟩, Or.inr ⟨_, rfl, by simp⟩⟩
    | ok data =>
      obtain ⟨hne, hdata⟩ := hhands
      have hlen : 0 < data.length := List.length_pos_iff.mpr hne
      refine Or.inr ⟨⟨data, rfl⟩, data, hne, hdata, ?_⟩
      simp [hlen.ne']

/-- **What a poll comes to.** -/
theorem attempt_cases (h : r.file.Holds content r.pos)
    (hsnapshot : snapshot.writtenBytes ≤ content.length)
    (hfits : r.file.cursor + brought ≤ content.length)
    (hb : r.file.cursor < content.length → 0 < brought) :
    let disk : Disk := ⟨fun i => content.getD i 0, brought⟩
    let r' := r.attempt buf snapshot disk seek read
    r.FindsNothing buf snapshot disk seek read ∧ r.Stays content buf snapshot r'.1 r'.2 ∨
      ¬ r.FindsNothing buf snapshot disk seek read ∧ r.Swallows content buf r'.1 r'.2 := by
  intro disk
  have hsame : ∃ file, r = { r with file := file } ∧ file.Holds content r.pos ∧
      file.lastSeek = r.file.lastSeek := ⟨r.file, rfl, h, rfl⟩
  -- the snapshot has an error, or bytes behind the position, or nothing there
  unfold ProgressiveReader.attempt
  split
  · next error herror =>
    refine Or.inl ⟨fun hnone => ?_, hsame, Or.inr ⟨_, rfl, by simp⟩⟩
    rw [herror] at hnone
    cases hnone
  · next hnone =>
    split
    · next hlt =>
      split
      · next hfull =>
        refine Or.inl ⟨fun _ hpos => ?_, hsame, Or.inr ⟨_, rfl, fun _ hroom => ?_⟩⟩
        · omega
        · omega
      · next hroom =>
        have hw : 0 < r.needed buf snapshot := by
          simp only [ProgressiveReader.needed] at hroom ⊢
          omega
        rcases readFile_cases seek read h (by omega) hw hfits hb with
          ⟨hnothing, hstays⟩ | ⟨⟨data, hdata⟩, hswallows⟩
        · exact Or.inl ⟨fun _ _ => hnothing, hstays⟩
        · exact Or.inr ⟨fun hf => hf hnone hw data hdata, hswallows⟩
    · next hge =>
      refine Or.inl ⟨fun _ hpos => ?_, hsame, ?_⟩
      · simp only [ProgressiveReader.needed] at hpos
        omega
      · unfold ProgressiveReader.afterFile
        split
        · next hcomplete => exact Or.inr ⟨_, rfl, fun _ _ => ⟨hcomplete, by omega⟩⟩
        · exact Or.inl rfl

end Attempt

/-! ### File and reader stand at one place -/

/-- How many bytes the file has that are not counted yet. -/
def Writer.uncounted : Writer → ℕ
  | .wrote n => n
  | _ => 0

/-- The reader is where its file stands, or is sent. -/
structure Process.InSync (content : List UInt8) (writtenBytes : ℕ) (p : Process) : Prop where
  bounded : p.reader.pos ≤ writtenBytes
  lastSeek : p.reader.file.lastSeek = p.reader.pos
  still : p.seeking = false → p.reader.file.Holds content p.reader.pos
  seeks : p.seeking = true → p.polling = .idle ∧ p.reader.file.ahead = [] ∧
    ∃ target dropped, p.reader.file.inflight = some (.seek target dropped) ∧
      target ≤ writtenBytes
  looked : ∀ buf snapshot, p.polling = .looked buf snapshot →
    snapshot.writtenBytes ≤ writtenBytes

/-- The snapshot counts what is in the file, and every reader has delivered a part of it. -/
structure World.InSync (s : World) : Prop where
  counted : s.snapshot.writtenBytes + s.writer.uncounted = s.content.length
  fits : s.content.length < 2 ^ 63
  process : ∀ k, (s.processes k).InSync s.content s.snapshot.writtenBytes

section Steps

variable {content : List UInt8} {writtenBytes : ℕ} {p : Process}

/-- What is written later changes nothing. -/
theorem Process.InSync.grow (h : p.InSync content writtenBytes) (more : List UInt8) {n : ℕ}
    (hn : writtenBytes ≤ n) : p.InSync (content ++ more) n where
  bounded := h.bounded.trans hn
  lastSeek := h.lastSeek
  still hs := (h.still hs).grow more
  seeks hs := by
    obtain ⟨hidle, ha, target, dropped, hf, ht⟩ := h.seeks hs
    exact ⟨hidle, ha, target, dropped, hf, ht.trans hn⟩
  looked buf snapshot hl := (h.looked buf snapshot hl).trans hn

/-- A step of the poll that leaves the reader alone. -/
theorem Process.InSync.moves (h : p.InSync content writtenBytes) {polling : Polling}
    {parked woken : Bool} (hs : p.seeking = false)
    (hl : ∀ buf snapshot, polling = .looked buf snapshot → snapshot.writtenBytes ≤ writtenBytes) :
    ({ p with polling := polling, parked := parked, woken := woken } : Process).InSync content
      writtenBytes where
  bounded := h.bounded
  lastSeek := h.lastSeek
  still := h.still
  seeks ht := absurd (hs.symm.trans ht) Bool.false_ne_true
  looked := hl

theorem Process.InSync.wake (h : p.InSync content writtenBytes) (woken : Bool) :
    ({ p with woken := woken } : Process).InSync content writtenBytes :=
  ⟨h.bounded, h.lastSeek, h.still, h.seeks, h.looked⟩

/-- A seek is started only where no operation is in flight. -/
theorem ProgressiveReader.startSeek_spec {r r' : ProgressiveReader} {position : SeekFrom}
    (h : r.startSeek position = .ok r') :
    ∃ target, r.seekTarget position = .ok target ∧ r.file.inflight = none ∧
      r' = { r with file := { r.file with
        ahead := [], inflight := some (.seek target r.file.ahead.length) } } := by
  unfold ProgressiveReader.startSeek at h
  cases ht : r.seekTarget position with
  | error error =>
    rw [ht] at h
    cases h
  | ok target =>
    rw [ht] at h
    cases hf : r.file.inflight with
    | some op =>
      simp [bind, Except.bind, File.startSeek, hf] at h
    | none =>
      simp only [bind, Except.bind, File.startSeek, hf, pure, Except.pure, Except.ok.injEq] at h
      exact ⟨target, rfl, rfl, h.symm⟩

/-- A seek to a place below the mark. -/
theorem Process.InSync.startSeek (h : p.InSync content writtenBytes) {position : SeekFrom}
    {r : ProgressiveReader} (hidle : p.polling = .idle)
    (ht : ∀ target ∈ (p.reader.seekTarget position).toOption, target ≤ writtenBytes)
    (hr : p.reader.startSeek position = .ok r) :
    ({ p with reader := r, seeking := true } : Process).InSync content writtenBytes := by
  obtain ⟨target, htarget, -, rfl⟩ := ProgressiveReader.startSeek_spec hr
  refine ⟨h.bounded, h.lastSeek, by simp, fun _ => ?_, h.looked⟩
  exact ⟨hidle, rfl, target, _, rfl, ht target (by rw [htarget]; rfl)⟩

/-- `poll_complete` brings the reader to where the seek went, and leaves it where it is if
none is under way. -/
theorem Process.InSync.pollComplete (h : p.InSync content writtenBytes) {op : Completion}
    (hop : p.seeking = true → op = .pending ∨ op = .done) :
    match p.reader.pollComplete op with
    | (r, .pending) => ({ p with reader := r } : Process).InSync content writtenBytes
    | (r, .ready _) =>
        ({ p with reader := r, seeking := false } : Process).InSync content writtenBytes := by
  unfold ProgressiveReader.pollComplete
  rcases Bool.eq_false_or_eq_true p.seeking with hs | hs
  · obtain ⟨-, ha, target, dropped, hf, ht⟩ := h.seeks hs
    rcases File.pollComplete_seek content hf ha (hop hs) with hpending | ⟨f, hready, hholds, hlast⟩
    · rw [hpending]
      exact h
    · rw [hready]
      exact ⟨ht, hlast, fun _ => hholds, by simp, h.looked⟩
  · rcases (h.still hs).pollComplete op with hpending | ⟨f, hready, hholds, hlast⟩
    · rw [hpending]
      exact h
    · rw [hready, h.lastSeek]
      exact ⟨h.bounded, hlast.trans h.lastSeek, fun _ => hholds, by simp, h.looked⟩

/-- A poll that finds nothing leaves the reader where it is. -/
theorem Process.InSync.attempt (h : p.InSync content writtenBytes) {r : ProgressiveReader}
    {buf : ReadBuf} {snapshot : StateSnapshot} {out : Attempt} {polling : Polling}
    (hs : p.seeking = false) (hr : p.reader.Stays content buf snapshot r out)
    (hl : ∀ buf snapshot, polling ≠ .looked buf snapshot) :
    ({ p with reader := r, polling := polling } : Process).InSync content writtenBytes := by
  obtain ⟨⟨file, rfl, hholds, hlast⟩, -⟩ := hr
  refine ⟨h.bounded, hlast.trans h.lastSeek, fun _ => hholds, fun ht => ?_, fun _ _ heq => ?_⟩
  · exact absurd (hs.symm.trans ht) Bool.false_ne_true
  · exact absurd heq (hl _ _)

end Steps

section World

variable {s : World}

/-- One process changes, and what is published does not. -/
theorem World.InSync.setProcess (h : s.InSync) {k : ℕ} {p : Process}
    (hp : p.InSync s.content s.snapshot.writtenBytes) : (s.setProcess k p).InSync := by
  refine ⟨h.counted, h.fits, fun j => ?_⟩
  by_cases hj : j = k
  · subst hj
    simpa [World.setProcess] using hp
  · simpa [World.setProcess, hj] using h.process j

theorem World.InSync.withNotify (h : s.InSync) (notify : Notify) :
    ({ s with notify := notify } : World).InSync :=
  ⟨h.counted, h.fits, h.process⟩

theorem World.InSync.le (h : s.InSync) : s.snapshot.writtenBytes ≤ s.content.length := by
  have hcounted := h.counted
  omega

theorem inSync_writer (h : s.InSync) {step : WriterStep} (hg : step.guard s) :
    (step.effect s).InSync := by
  have hcounted := h.counted
  cases step with
  | write data =>
    obtain ⟨hidle, -, hfits⟩ := hg
    refine ⟨?_, by simpa [WriterStep.effect] using hfits, fun k => (h.process k).grow data le_rfl⟩
    rw [hidle] at hcounted
    simpa [WriterStep.effect, Writer.uncounted] using hcounted
  | publish n =>
    have hwrote : s.writer = .wrote n := hg
    rw [hwrote] at hcounted
    refine ⟨?_, h.fits, fun k => ?_⟩
    · simpa [WriterStep.effect, Writer.uncounted] using hcounted
    · simpa [WriterStep.effect] using (h.process k).grow [] (Nat.le_add_right _ n)
  | finish =>
    have hidle : s.writer = .idle := hg
    rw [hidle] at hcounted
    exact ⟨hcounted, h.fits, h.process⟩
  | setError error =>
    have hidle : s.writer = .idle := hg
    rw [hidle] at hcounted
    exact ⟨hcounted, h.fits, h.process⟩
  | notifyWaiters =>
    have hchanged : s.writer = .changed := hg
    rw [hchanged] at hcounted
    refine ⟨hcounted, h.fits, fun k => ?_⟩
    simp only [WriterStep.effect, World.notifyWaiters]
    split
    · exact (h.process k).wake true
    · exact h.process k

/-- What the poll of a process comes to, which has no seek under way. -/
theorem World.InSync.attempt_cases (h : s.InSync) {k : ℕ} {buf : ReadBuf}
    {snapshot : StateSnapshot} {brought : ℕ} {seek read : Completion}
    (hg : (ReaderStep.attempt buf snapshot brought seek read).guard s (s.processes k)) :
    let r := (s.processes k).reader
    let r' := r.attempt buf snapshot (s.disk brought) seek read
    (s.processes k).seeking = false ∧
      (r.FindsNothing buf snapshot (s.disk brought) seek read ∧
          r.Stays s.content buf snapshot r'.1 r'.2 ∨
        ¬ r.FindsNothing buf snapshot (s.disk brought) seek read ∧
          r.Swallows s.content buf r'.1 r'.2) := by
  obtain ⟨hlooked, hfits, hb⟩ := hg
  have hp := h.process k
  have hs : (s.processes k).seeking = false := by
    by_contra hs
    have hidle := (hp.seeks (eq_true_of_ne_false hs)).1
    rw [hlooked] at hidle
    cases hidle
  exact ⟨hs, Archives.attempt_cases (hp.still hs) ((hp.looked buf snapshot hlooked).trans h.le)
    hfits hb⟩

theorem inSync_reader (h : s.InSync) {k : ℕ} {step : ReaderStep}
    (hg : step.guard s (s.processes k)) (hc : FindsNothing s (.reader k step)) :
    (step.effect s k (s.processes k)).InSync := by
  have hp := h.process k
  -- a poll is under way only while no seek is
  have hpolls : (s.processes k).polling ≠ .idle → (s.processes k).seeking = false := by
    intro hbusy
    by_contra hs
    exact hbusy (hp.seeks (eq_true_of_ne_false hs)).1
  cases step with
  | startSeek position =>
    obtain ⟨hidle, -, ht⟩ := hg
    dsimp only [ReaderStep.effect]
    split
    · next r hr => exact h.setProcess (hp.startSeek hidle ht hr)
    · exact h
  | pollComplete op =>
    have hcomplete := hp.pollComplete hg.2
    dsimp only [ReaderStep.effect]
    split
    · next r hr =>
      rw [hr] at hcomplete
      exact h.setProcess hcomplete
    · next r result hr =>
      rw [hr] at hcomplete
      exact h.setProcess hcomplete
  | pollRead buf => exact h.setProcess (hp.moves hg.2 (by simp))
  | look buf =>
    have hs := hpolls (by rw [show (s.processes k).polling = _ from hg]; simp)
    refine h.setProcess (hp.moves hs fun buf' snapshot heq => ?_)
    obtain ⟨-, rfl⟩ := Polling.looked.inj heq
    exact le_rfl
  | attempt buf snapshot brought seek read =>
    obtain ⟨hs, ⟨-, hstays⟩ | ⟨hfinds, -⟩⟩ := h.attempt_cases hg
    · dsimp only [ReaderStep.effect]
      split
      · next r buf' result hr =>
        rw [hr] at hstays
        exact h.setProcess (hp.attempt hs hstays (by simp))
      · next r hr =>
        rw [hr] at hstays
        exact h.setProcess (hp.attempt hs hstays (by simp))
    · exact absurd hc hfinds
  | notified buf =>
    have hs := hpolls (by rw [show (s.processes k).polling = _ from hg]; simp)
    exact h.setProcess (hp.moves hs (by simp))
  | pollNotified buf calls =>
    have hs := hpolls (by rw [show (s.processes k).polling = _ from hg]; simp)
    dsimp only [ReaderStep.effect]
    split
    · exact (h.setProcess (hp.moves hs (by simp))).withNotify _
    · exact h.setProcess (hp.moves hs (by simp))
  | park buf =>
    have hs := hpolls (by rw [show (s.processes k).polling = _ from hg]; simp)
    exact (h.setProcess (hp.moves hs (by simp))).withNotify _

end World

theorem World.inSync_new (totalSize : Option ℕ) : (World.new totalSize).InSync :=
  ⟨rfl, by simp [World.new], fun _ => ⟨le_rfl, rfl, fun _ => File.holds_of_idle rfl rfl rfl, by simp [World.new,
    Process.new], by simp [World.new, Process.new]⟩⟩

/-- Until a poll finds bytes, every reader is where its file stands. -/
theorem World.inSync_of_reach {totalSize : Option ℕ} {s : World}
    (h : progressiveCache.Reach FindsNothing (.new totalSize) s) : s.InSync := by
  refine h.invariant (World.inSync_new totalSize) fun u a hu hg hc => ?_
  cases a with
  | writer step => exact inSync_writer hu hg
  | reader k step => exact inSync_reader hu hg hc

/-! ### The law -/

theorem ProgressiveReader.Stays.delivers {content : List UInt8} {snapshot : StateSnapshot}
    {r : ProgressiveReader} {buf : ReadBuf} {r' : ProgressiveReader × Attempt}
    (h : r.Stays content buf snapshot r'.1 r'.2) : Archives.Delivers content snapshot r buf r' := by
  obtain ⟨r', out⟩ := r'
  obtain ⟨⟨file, rfl, -⟩, rfl | ⟨result, rfl, hend⟩⟩ := h
  · rfl
  · exact ⟨[], by simp, List.nil_prefix, rfl, fun hok _ => hend hok⟩

theorem ProgressiveReader.Swallows.not_delivers {content : List UInt8} {snapshot : StateSnapshot}
    {r : ProgressiveReader} {buf : ReadBuf} {r' : ProgressiveReader × Attempt}
    (h : r.Swallows content buf r'.1 r'.2) : ¬ Archives.Delivers content snapshot r buf r' := by
  obtain ⟨r', out⟩ := r'
  obtain ⟨data, hne, -, hpos, rfl⟩ := h
  rintro ⟨received, hfilled, -, hpos', -⟩
  obtain rfl : received = [] := by simpa using hfilled
  have hlen : 0 < data.length := List.length_pos_iff.mpr hne
  dsimp only [List.length_nil] at hpos hpos'
  omega

/-- A seek is sent to the place it asks for. -/
theorem seekTarget_of_asks {r : ProgressiveReader} {goal : ℕ} {position : SeekFrom}
    (hasks : Asks r.totalSize r.pos goal position) (hgoal : goal < 2 ^ 63) (hpos : r.pos < 2 ^ 63) :
    r.seekTarget position = .ok goal := by
  cases position with
  | start position =>
    obtain rfl : goal = position := hasks
    rfl
  | fromEnd delta =>
    obtain ⟨total, htotal, heq⟩ := hasks
    rw [Option.mem_def] at htotal
    simp only [ProgressiveReader.seekTarget, htotal, Except.ok.injEq]
    split <;> omega
  | current delta =>
    have heq : (goal : ℤ) = r.pos + delta := hasks
    have hmod : Int.bmod (asI64 r.pos + delta) (2 ^ 64) = goal := by
      rw [asI64_of_lt hpos, ← heq]
      exact Int.bmod_eq_of_le (by omega) (by omega)
    simp only [ProgressiveReader.seekTarget, hmod]
    rw [if_neg (by omega), Int.toNat_natCast]

theorem World.InSync.seeks {s : World} (h : s.InSync) (k : ℕ) (position : SeekFrom) :
    (s.processes k).reader.Seeks s.snapshot.writtenBytes position := by
  intro hidle goal hgoal hasks
  have hle := h.le
  have hfits := h.fits
  have hbounded := (h.process k).bounded
  have htarget := seekTarget_of_asks hasks (by omega) (by omega)
  simp [ProgressiveReader.startSeek, htarget, bind, Except.bind, File.startSeek, hidle, pure,
    Except.pure, File.sentTo]

theorem World.InSync.completes {s : World} (h : s.InSync) {k : ℕ} {op : Completion}
    (hg : (ReaderStep.pollComplete op).guard s (s.processes k)) :
    (s.processes k).reader.Completes op := by
  have hp := h.process k
  unfold ProgressiveReader.Completes ProgressiveReader.pollComplete
  rcases Bool.eq_false_or_eq_true (s.processes k).seeking with hs | hs
  · obtain ⟨-, ha, target, dropped, hf, -⟩ := hp.seeks hs
    rcases File.pollComplete_seek s.content hf ha (hg.2 hs) with hpending | ⟨f, hready, -⟩
    · rw [hpending]
    · rw [hready]
      exact ⟨rfl, by simp [File.sentTo, hf]⟩
  · have hnone : (s.processes k).reader.file.sentTo = none := by
      unfold File.sentTo
      split
      · next target dropped hf => exact absurd hf ((hp.still hs).noSeek target dropped)
      · rfl
    rcases (hp.still hs).pollComplete op with hpending | ⟨f, hready, -⟩
    · rw [hpending]
    · rw [hready]
      exact ⟨rfl, by rw [hnone]; exact hp.lastSeek⟩

/-- One process changes, and its reader does not. -/
theorem World.reader_setProcess {s : World} {k : ℕ} {p : Process}
    (hp : p.reader = (s.processes k).reader) (j : ℕ) :
    ((s.setProcess k p).processes j).reader = (s.processes j).reader := by
  by_cases hj : j = k
  · subst hj
    simpa [World.setProcess] using hp
  · simp [World.setProcess, hj]

theorem reader_writer {s : World} (step : WriterStep) (j : ℕ) :
    ((step.effect s).processes j).reader = (s.processes j).reader := by
  cases step with
  | notifyWaiters =>
    simp only [WriterStep.effect, World.notifyWaiters]
    split <;> rfl
  | write | publish | finish | setError => rfl

/-- **A step delivers exactly if it is no poll that finds bytes.**  In every run of the cache whose
polls have found no bytes so far, the next step does what it should if and only if it is no poll
that finds bytes. -/
theorem progressiveReader_delivers {totalSize : Option ℕ} {s : World}
    (h : progressiveCache.Reach FindsNothing (.new totalSize) s) {a : Action}
    (hg : a.guard s) : a.Delivers s ↔ FindsNothing s a := by
  have hsync := World.inSync_of_reach h
  cases a with
  | writer step => exact iff_of_true (reader_writer step) trivial
  | reader k step =>
    cases step with
    | startSeek position => exact iff_of_true (hsync.seeks k position) trivial
    | pollComplete op => exact iff_of_true (hsync.completes hg) trivial
    | attempt buf snapshot brought seek read =>
      obtain ⟨-, ⟨hnothing, hstays⟩ | ⟨hfinds, hswallows⟩⟩ := hsync.attempt_cases hg
      · exact iff_of_true hstays.delivers hnothing
      · exact iff_of_false hswallows.not_delivers hfinds
    | pollRead buf => exact iff_of_true (World.reader_setProcess rfl) trivial
    | look buf => exact iff_of_true (World.reader_setProcess rfl) trivial
    | notified buf => exact iff_of_true (World.reader_setProcess rfl) trivial
    | park buf => exact iff_of_true (World.reader_setProcess rfl) trivial
    | pollNotified buf calls =>
      refine iff_of_true (fun j => ?_) trivial
      dsimp only [Action.effect, ReaderStep.effect]
      split
      · exact World.reader_setProcess (p := { s.processes k with polling := .registered buf }) rfl j
      · exact World.reader_setProcess (p := { s.processes k with polling := .looping buf }) rfl j

/-- A buffer with room for four bytes. -/
def room : ReadBuf := ⟨4, []⟩

/-- Two bytes are written and the writer finishes. -/
def twoBytes : List Action :=
  [.writer (.write [7, 8]), .writer (.publish 2), .writer .notifyWaiters, .writer .finish,
    .writer .notifyWaiters]

/-- A reader seeks to the end of the two bytes: the seek is started, comes to its end there, and a poll
that looks then is told that this is the end. -/
theorem progressiveReader_delivers_end :
    (∃ s, progressiveCache.Reach FindsNothing (.new none) s ∧ s.content = [7, 8] ∧
      (Action.reader 0 (.startSeek (.start 2))).Delivers s) ∧
    (∃ s, progressiveCache.Reach FindsNothing (.new none) s ∧
      (s.processes 0).reader.file.sentTo = some 2 ∧ (Action.reader 0 (.pollComplete .done)).Delivers s) ∧
    ∃ s, progressiveCache.Reach FindsNothing (.new none) s ∧ (s.processes 0).reader.pos = 2 ∧
      (Action.reader 0 (.attempt room ⟨2, true, none⟩ 0 .done .done)).Delivers s := by
  refine ⟨?_, ?_, ?_⟩
  · obtain ⟨s, hs, hcontent, hg⟩ :
        ∃ s, progressiveCache.Reach FindsNothing (.new none) s ∧
          (s.content = [7, 8] ∧ (Action.reader 0 (.startSeek (.start 2))).guard s) :=
      GuardedSystem.exists_reach_of_exec twoBytes (by decide)
    exact ⟨s, hs, hcontent, (progressiveReader_delivers hs hg).mpr trivial⟩
  · obtain ⟨s, hs, hsent, hg⟩ :
        ∃ s, progressiveCache.Reach FindsNothing (.new none) s ∧
          ((s.processes 0).reader.file.sentTo = some 2 ∧
            (Action.reader 0 (.pollComplete .done)).guard s) :=
      GuardedSystem.exists_reach_of_exec (twoBytes ++ [.reader 0 (.startSeek (.start 2))]) (by decide)
    exact ⟨s, hs, hsent, (progressiveReader_delivers hs hg).mpr trivial⟩
  · obtain ⟨s, hs, hpos, hg, hc⟩ :
        ∃ s, progressiveCache.Reach FindsNothing (.new none) s ∧ ((s.processes 0).reader.pos = 2 ∧
          (Action.reader 0 (.attempt room ⟨2, true, none⟩ 0 .done .done)).guard s ∧
            FindsNothing s (.reader 0 (.attempt room ⟨2, true, none⟩ 0 .done .done))) :=
      GuardedSystem.exists_reach_of_exec
        (twoBytes ++ [.reader 0 (.startSeek (.start 2)), .reader 0 (.pollComplete .done),
          .reader 0 (.pollRead room), .reader 0 (.look room)]) (by decide)
    exact ⟨s, hs, hpos, (progressiveReader_delivers hs hg).mpr hc⟩

/-- One byte is written and published.  The reader's poll finds it in the file, moves past it
and returns with the buffer as empty as before, which reads as the end of a file that is
still being written. -/
theorem progressiveReader_swallows :
    ∃ s, progressiveCache.Reach GuardedSystem.anyStep (.new (some 2)) s ∧
      let a : Action := .reader 0 (.attempt room ⟨1, false, none⟩ 1 .done .done)
      a.guard s ∧ ¬ a.Delivers s ∧ s.content = [7] ∧
        ((s.processes 0).reader.attempt room ⟨1, false, none⟩ (s.disk 1) .done .done).2 =
          .returns room (.ready (.ok ())) := by
  obtain ⟨s, hs, hg, hcontent, hzero, hpos, hout⟩ :
      ∃ s, progressiveCache.Reach GuardedSystem.anyStep (.new (some 2)) s ∧
        ((Action.reader 0 (.attempt room ⟨1, false, none⟩ 1 .done .done)).guard s ∧
          s.content = [7] ∧ (s.processes 0).reader.pos = 0 ∧
          ((s.processes 0).reader.attempt room ⟨1, false, none⟩ (s.disk 1) .done .done).1.pos =
            (s.processes 0).reader.pos + [(7 : UInt8)].length ∧
          ((s.processes 0).reader.attempt room ⟨1, false, none⟩ (s.disk 1) .done .done).2 =
            .returns room (.ready (.ok ()))) :=
    GuardedSystem.exists_reach_of_exec
      [.writer (.write [7]), .writer (.publish 1), .writer .notifyWaiters,
        .reader 0 (.pollRead room), .reader 0 (.look room)] (by decide)
  refine ⟨s, hs, hg, ?_, hcontent, hout⟩
  exact ProgressiveReader.Swallows.not_delivers ⟨[7], by simp, by simp [hcontent, hzero], hpos, hout⟩

end StreamServer.Archives

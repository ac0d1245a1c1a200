import StreamServer.Readers.DiskBytes

/-!
# When the disk-backed reader fails

Polls without a seek of the caller, of a torrent whose reads, opening and native seeks all
succeed in the end.  Such a poll has one way left to fail.  The broker and the file race
for a piece; when the broker wins, the read of the file stays in flight, and the reader
has moved on.  At the next piece it has to start a native seek, which an open file refuses
while a read is in flight.

## Main definitions

* `PollInput.Succeeds` — nothing the poll depends on has failed for good.
* `Session.BusySeek` — the poll has to start a native seek while a read is in flight.
* `polling` — the runs of polls.

## Main results

* `pollRead_fails_iff` — a poll fails exactly when it comes to such a seek.
* `polling_fails_iff` — **no poll of a run fails if and only if none of them comes to such a
  seek.**
* `polling_fails` — and one may.

## References

`enginefs/src/backend/libtorrent/disk_stream.rs`, `poll_read`, `serve_broker_piece`.
-/

namespace StreamServer.Readers

/-- Whether the poll of a file that is being opened is one that will be tried again. -/
def FileOpenPoll.Succeeds : FileOpenPoll → Prop
  | .failed error => error.kind = .notFound
  | _ => True

/-- The task that reads the piece does not panic. -/
def PieceReadPoll.Succeeds : PieceReadPoll → Prop
  | .panicked _ => False
  | _ => True

/-- The reader has not been superseded, and nothing fails but what is tried again: a piece the
broker does not bring, and a file that is not there yet. -/
structure PollInput.Succeeds (i : PollInput) : Prop where
  current : i.cancelled = false
  pieceRead : i.pieceRead.Succeeds
  fileOpen : i.fileOpen.Succeeds
  fileSeek : ¬ i.fileSeek.Failed
  fileRead : ¬ i.fileRead.Failed

/-- A read is in flight. -/
def File.ReadInFlight (f : File) : Prop :=
  match f.inflight with
  | some (.read _) => True
  | _ => False

variable (L : FileLayout)

/-- At the open file a native seek has to be started while a read is in flight. -/
def DiskStream.Stage.Busy : DiskStream.Stage → Prop
  | .returned _ _ => False
  | .atFile u _ file => u.fileCursor ≠ u.currentPos ∧ u.seekPending = false ∧ file.ReadInFlight

/-- The poll has to start a native seek while a read of the file is in flight. -/
def Session.BusySeek (s : Session) : SessionStep → Prop
  | .poll i => (s.reader.toFile L i s.verified).Busy
  | _ => False

/-- The poll returns an error. -/
def Session.Fails (s : Session) : SessionStep → Prop
  | .poll i => ∃ error, (s.reader.pollRead L i s.verified).2 = .ready (.error error)
  | _ => False

/-- The caller polls and does not seek, and nothing fails for good. -/
def SessionStep.Polls : SessionStep → Prop
  | .poll i => i.Succeeds
  | .seek _ => False
  | .verify _ => True

/-- **Runs of polls.** -/
def polling : GuardedSystem Session SessionStep where
  guard _ a := a.Polls
  effect s a := a.effect L s

/-! ### Native seeks are recorded -/

namespace DiskStream

variable {L} {s u : DiskStream} {i : PollInput}

/-- The reader knows of a native seek in flight. -/
def Records (s : DiskStream) (file : File) : Prop :=
  ∀ target dropped, file.inflight = some (.seek target dropped) → s.seekPending = true

/-- The stream records the cursor of the file it has open. -/
def Linked (s : DiskStream) : Prop := ∀ file, s.file = some file → s.Records file

/-- How a poll gets on without the open file: it leaves the file as it is, or opens it; it
fails only if something has failed for good. -/
def Quiet (s : DiskStream) : Stage → Prop
  | .returned u result =>
      u.file = s.file ∧ u.seekPending = s.seekPending ∧ ∀ error, result ≠ .ready (.error error)
  | .atFile u _ file =>
      u.file = some file ∧
        (u.file = s.file ∧ u.seekPending = s.seekPending ∨ file.inflight = none)

/-- Two readers with the same file. -/
def SameFile (s u : DiskStream) : Prop :=
  u.file = s.file ∧ u.seekPending = s.seekPending ∧ u.currentPos = s.currentPos

theorem sameFile_request (s : DiskStream) (now : ℕ) (piece : ℤ) :
    s.SameFile (s.requestPieceFromLibtorrent now piece) := by
  obtain ⟨asked, heq⟩ := s.requestPiece_spec now piece
  rw [heq]
  exact ⟨rfl, rfl, rfl⟩

theorem SameFile.trans {v : DiskStream} (h : s.SameFile u) (h' : u.SameFile v) : s.SameFile v :=
  ⟨h'.1.trans h.1, h'.2.1.trans h.2.1, h'.2.2.trans h.2.2⟩

theorem quiet_tryBroker (hu : s.SameFile u) (hi : i.pieceRead.Succeeds) (piece : ℤ)
    {next : DiskStream → Stage} (hnext : ∀ v, s.SameFile v → s.Quiet (next v)) :
    s.Quiet (u.tryBroker L i piece next) := by
  obtain ⟨broker, asked, retryAt, heq, -⟩ := u.pollPieceBroker_spec i piece
  have hpolled : s.SameFile (u.pollPieceBroker i piece).1 := by
    rw [heq]
    exact ⟨hu.1, hu.2.1, hu.2.2⟩
  unfold tryBroker
  split
  · next v error hv =>
    -- the task that reads the piece has panicked
    unfold pollPieceBroker at hv
    split at hv
    · cases hv
    · cases hp : i.pieceRead with
      | panicked error => rw [hp] at hi; exact hi.elim
      | _ => rw [hp] at hv; cases hv
  · next v hv =>
    rw [hv] at hpolled
    split
    · next w bytes hserve =>
      unfold serveBrokerPiece at hserve
      split at hserve
      · cases hserve
      · split at hserve
        · cases hserve
        · split at hserve
          · cases hserve
          · simp only [Option.some.injEq, Prod.mk.injEq] at hserve
            obtain ⟨rfl, rfl⟩ := hserve
            exact ⟨hpolled.1, hpolled.2.1, by rintro _ ⟨⟩⟩
    · exact hnext v hpolled

theorem quiet_openFile (hu : s.SameFile u) (hi : i.fileOpen.Succeeds) (piece : ℤ) :
    s.Quiet (u.openFile i piece) := by
  have hpending : ∀ opening, s.Quiet
      (.returned (requestPieceFromLibtorrent { u with opening := opening } i.now piece)
        .pending) := by
    intro opening
    have hsame := sameFile_request { u with opening := opening } i.now piece
    exact ⟨hsame.1.trans hu.1, hsame.2.1.trans hu.2.1, by rintro _ ⟨⟩⟩
  unfold openFile
  split
  · next file hfile => exact ⟨hfile, Or.inl ⟨hu.1, hu.2.1⟩⟩
  · unfold pollFileOpen
    cases hopen : i.fileOpen with
    | pending => exact hpending true
    | opened => exact ⟨rfl, Or.inr rfl⟩
    | failed error =>
      rw [hopen] at hi
      have hfound : error.kind = .notFound := hi
      simp only [hfound, if_true]
      exact hpending false

/-- **Without the open file a poll does not fail.** -/
theorem quiet_toFile (s : DiskStream) (verified : Finset ℤ) (hi : i.Succeeds) :
    s.Quiet (s.toFile L i verified) := by
  unfold toFile
  rw [hi.current]
  simp only [Bool.false_eq_true, if_false]
  split
  · exact ⟨rfl, rfl, by rintro _ ⟨⟩⟩
  · next hgo =>
    rw [not_or, not_le] at hgo
    rw [currentPiece_eq hgo.1]
    have hinside := FileLayout.pieceOf_inside hgo.1
    have hin : ¬ ((L.pieceOf s.currentPos : ℤ) < L.firstPiece ∨
        L.lastPiece < (L.pieceOf s.currentPos : ℤ)) :=
      not_or.mpr ⟨not_lt.mpr hinside.1, not_lt.mpr hinside.2⟩
    simp only [if_neg hin]
    split
    · unfold awaitPiece
      exact quiet_tryBroker (sameFile_request ..) hi.pieceRead _ fun v hv =>
        ⟨hv.1, hv.2.1, by rintro _ ⟨⟩⟩
    · unfold readVerified
      split
      · exact ⟨rfl, rfl, by rintro _ ⟨⟩⟩
      · refine quiet_tryBroker ?_ hi.pieceRead _ fun v hv => quiet_openFile hv hi.fileOpen _
        split
        · have hsame := sameFile_request
            { s with verifiedPiece := some (L.pieceOf s.currentPos : ℤ) } i.now
            (L.pieceOf s.currentPos)
          exact ⟨hsame.1, hsame.2.1, hsame.2.2⟩
        · exact ⟨rfl, rfl, rfl⟩

/-! ### The open file -/

theorem deliver_quiet (f : File) (wanted : ℕ) (data : List UInt8) {read : Completion}
    (hread : ¬ read.Failed) :
    (∀ error, (f.deliver wanted data read).2 ≠ .ready (.error error)) ∧
      ∀ target dropped, (f.deliver wanted data read).1.inflight ≠ some (.seek target dropped) := by
  cases read with
  | pending => exact ⟨by rintro _ ⟨⟩, by rintro _ _ ⟨⟩⟩
  | done => exact ⟨by rintro _ ⟨⟩, by rintro _ _ ⟨⟩⟩
  | failed error => exact absurd trivial hread

/-- A file whose reads succeed gives no error, and starts no seek when it is read. -/
theorem pollRead_quiet (f : File) (wanted : ℕ) (disk : Disk) (seek : Completion) {read : Completion}
    (hread : ¬ read.Failed) :
    (∀ error, (f.pollRead wanted disk seek read).2 ≠ .ready (.error error)) ∧
      ∀ target dropped,
        (f.pollRead wanted disk seek read).1.inflight = some (.seek target dropped) →
          f.inflight = some (.seek target dropped) := by
  have hreadOn : ∀ g : File, g.inflight = none →
      (∀ error, (g.readOn wanted disk read).2 ≠ .ready (.error error)) ∧
        ∀ target dropped, (g.readOn wanted disk read).1.inflight ≠ some (.seek target dropped) := by
    intro g hg
    unfold File.readOn
    split
    · exact ⟨by rintro _ ⟨⟩, fun _ _ h => by rw [hg] at h; cases h⟩
    · exact deliver_quiet g wanted _ hread
  unfold File.pollRead
  split
  · next hnone =>
    obtain ⟨herror, hseek⟩ := hreadOn f hnone
    exact ⟨herror, fun target dropped h => absurd h (hseek target dropped)⟩
  · next data hdata =>
    obtain ⟨herror, hseek⟩ := deliver_quiet f wanted data hread
    exact ⟨herror, fun target dropped h => absurd h (hseek target dropped)⟩
  · next target dropped hseek =>
    cases seek with
    | pending => exact ⟨by rintro _ ⟨⟩, fun _ _ h => h⟩
    | done =>
      obtain ⟨herror, hnone⟩ :=
        hreadOn { f with cursor := target, inflight := none, lastSeek := target } rfl
      exact ⟨herror, fun target dropped h => absurd h (hnone target dropped)⟩
    | failed error =>
      obtain ⟨herror, hnone⟩ := hreadOn { f with inflight := none } rfl
      exact ⟨herror, fun target dropped h => absurd h (hnone target dropped)⟩

/-- Nor does it give one when a seek that succeeds is polled. -/
theorem pollComplete_quiet (f : File) {seek : Completion} (hseek : ¬ seek.Failed) :
    (∀ error, (f.pollComplete seek).2 ≠ .ready (.error error)) ∧
      ((f.pollComplete seek).1 = f ∧ (f.pollComplete seek).2 = .pending ∨
        (f.pollComplete seek).1.inflight = none) := by
  unfold File.pollComplete
  split
  · next hnone => exact ⟨by rintro _ ⟨⟩, Or.inr hnone⟩
  all_goals
    cases seek with
    | pending => exact ⟨by rintro _ ⟨⟩, Or.inl ⟨rfl, rfl⟩⟩
    | done => exact ⟨by rintro _ ⟨⟩, Or.inr rfl⟩
    | failed error => exact absurd trivial hseek

/-- A poll that reads the file where it stands does not fail. -/
theorem readHere_quiet (piece : ℤ) {file : File} (hi : i.Succeeds) (hfile : s.Records file) :
    (∀ error, (s.readHere L i piece file).2 ≠ .ready (.error error)) ∧
      (s.readHere L i piece file).1.Linked := by
  obtain ⟨herror, hseek⟩ :=
    pollRead_quiet file (s.toRead L i piece) i.disk i.fileSeek hi.fileRead
  unfold readHere
  split
  · next file' heq =>
    rw [heq] at hseek
    refine ⟨by rintro _ ⟨⟩, ?_⟩
    rintro _ ⟨⟩ target dropped h
    exact hfile target dropped (hseek target dropped h)
  · next file' error heq => exact absurd (by rw [heq]) (herror error)
  · next file' data heq =>
    rw [heq] at hseek
    unfold handOn
    split
    · refine ⟨by rintro _ ⟨⟩, ?_⟩
      obtain ⟨asked, heq⟩ := requestPiece_spec
        { s with file := some file', fileCursor := saturatingAdd s.fileCursor data.length } i.now
        piece
      rw [heq]
      rintro _ ⟨⟩ target dropped h
      exact hfile target dropped (hseek target dropped h)
    · refine ⟨by rintro _ ⟨⟩, ?_⟩
      rintro _ ⟨⟩ target dropped h
      exact hfile target dropped (hseek target dropped h)

/-- A poll that waits for a native seek does not fail. -/
theorem seekFile_quiet (piece : ℤ) (file : File) (hi : i.Succeeds)
    (hpending : s.seekPending = true) :
    (∀ error, (s.seekFile L i piece file).2 ≠ .ready (.error error)) ∧
      (s.seekFile L i piece file).1.Linked := by
  obtain ⟨herror, hseek⟩ := pollComplete_quiet file hi.fileSeek
  unfold seekFile
  split
  · next file' position heq =>
    rw [heq] at hseek
    have hnone : file'.inflight = none := by
      rcases hseek with ⟨-, hp⟩ | hnone
      · cases hp
      · exact hnone
    refine readHere_quiet piece hi fun target dropped h => ?_
    rw [hnone] at h
    cases h
  · next file' error heq => exact absurd (by rw [heq]) (herror error)
  · refine ⟨by rintro _ ⟨⟩, ?_⟩
    rintro _ ⟨⟩ target dropped -
    exact hpending

/-- **From the open file on**, a poll fails exactly when it has to start a native seek and an
operation is in flight. -/
theorem readFile_fails_iff (piece : ℤ) {file : File} (hi : i.Succeeds) (hs : s.Linked)
    (hfile : s.file = some file) :
    ((∃ error, (s.readFile L i piece file).2 = .ready (.error error)) ↔
        s.fileCursor ≠ s.currentPos ∧ s.seekPending = false ∧ file.ReadInFlight) ∧
      (s.readFile L i piece file).1.Linked := by
  unfold readFile
  by_cases hplace : s.fileCursor = s.currentPos
  · rw [if_neg (not_not.mpr hplace)]
    obtain ⟨herror, hlinked⟩ := readHere_quiet (L := L) piece hi (hs file hfile)
    exact ⟨⟨fun ⟨error, h⟩ => absurd h (herror error), fun h => absurd hplace h.1⟩, hlinked⟩
  · rw [if_pos hplace]
    cases hpending : s.seekPending with
    | true =>
      obtain ⟨herror, hlinked⟩ := seekFile_quiet (L := L) piece file hi hpending
      exact ⟨⟨fun ⟨error, h⟩ => absurd h (herror error), fun h => by cases h.2.1⟩, hlinked⟩
    | false =>
      simp only [Bool.false_eq_true, if_false]
      cases hop : file.inflight with
      | none =>
        set file' : File :=
          { file with ahead := [], inflight := some (.seek s.currentPos file.ahead.length) }
        obtain ⟨herror, hlinked⟩ := seekFile_quiet (L := L)
          (s := { s with file := some file', seekPending := true }) piece file' hi rfl
        simp only [File.startSeek, hop]
        refine ⟨⟨fun ⟨error, h⟩ => absurd h (herror error), fun h => ?_⟩, hlinked⟩
        simp [File.ReadInFlight, hop] at h
      | some op =>
        simp only [File.startSeek, hop]
        refine ⟨⟨fun _ => ⟨hplace, trivial, ?_⟩, fun _ => ⟨_, rfl⟩⟩, hs⟩
        cases op with
        | read data => simp [File.ReadInFlight, hop]
        | seek target dropped =>
          -- a native seek in flight would be recorded
          have hrecorded := hs file hfile target dropped hop
          rw [hpending] at hrecorded
          cases hrecorded

end DiskStream

/-! ### Runs of polls -/

variable {L} {s t : Session}

/-- **A poll fails exactly when** it has to start a native seek while a read is in flight. -/
theorem pollRead_fails_iff {i : PollInput} (hi : i.Succeeds) (hs : s.reader.Linked) :
    (s.Fails L (.poll i) ↔ s.BusySeek L (.poll i)) ∧
      (s.reader.pollRead L i s.verified).1.Linked := by
  have hquiet := s.reader.quiet_toFile (L := L) s.verified hi
  dsimp only [Session.Fails, Session.BusySeek, DiskStream.pollRead]
  generalize s.reader.toFile L i s.verified = stage at hquiet ⊢
  cases stage with
  | returned u result =>
    obtain ⟨hfile, hseek, herror⟩ := hquiet
    refine ⟨⟨fun ⟨error, h⟩ => herror error h, False.elim⟩, fun file hu => ?_⟩
    rw [hfile] at hu
    intro target dropped h
    rw [hseek]
    exact hs file hu target dropped h
  | atFile u piece file =>
    obtain ⟨hu, hsame⟩ := hquiet
    refine DiskStream.readFile_fails_iff piece hi (fun file' hfile' => ?_) hu
    obtain rfl : file' = file := Option.some.inj (hfile'.symm.trans hu)
    intro target dropped h
    rcases hsame with ⟨hfile, hseek⟩ | hnone
    · rw [hseek]
      exact hs file' (hfile ▸ hfile') target dropped h
    · rw [hnone] at h
      cases h

theorem linked_step {a : SessionStep} (hs : s.reader.Linked) (hg : a.Polls) :
    (a.effect L s).reader.Linked := by
  cases a with
  | poll i => exact (pollRead_fails_iff hg hs).2
  | seek position => exact hg.elim
  | verify piece => exact hs

theorem fails_iff {a : SessionStep} (hs : s.reader.Linked) (hg : a.Polls) :
    s.Fails L a ↔ s.BusySeek L a := by
  cases a with
  | poll i => exact (pollRead_fails_iff hg hs).1
  | seek position => exact hg.elim
  | verify piece => exact Iff.rfl

theorem Session.Initial.linked (h : s.Initial) : s.reader.Linked := by
  rcases h.reader with heq | heq
  · rw [heq]
    rintro _ ⟨⟩
  · rw [heq]
    rintro _ ⟨⟩ target dropped ⟨⟩

/-- **When the disk-backed reader fails.**  No poll of a run without seeks of the caller, in
which everything succeeds in the end, fails if and only if none of them has to start a native
seek while a read of the file is in flight. -/
theorem polling_fails_iff (hs : s.Initial) (as : List SessionStep) :
    (polling L).Path (fun u a => ¬ u.Fails L a) s as t ↔
      (polling L).Path (fun u a => ¬ u.BusySeek L a) s as t := by
  constructor
  · intro h
    refine h.mono_of (fun u => u.reader.Linked) (fun u a hu hg _ => linked_step hu hg)
      (fun u a hu hg hc => ?_) hs.linked
    rwa [← fails_iff hu hg]
  · intro h
    refine h.mono_of (fun u => u.reader.Linked) (fun u a hu hg _ => linked_step hu hg)
      (fun u a hu hg hc => ?_) hs.linked
    rwa [fails_iff hu hg]

/-! ### A run that fails -/

section Decidable

instance : (op : FileOpenPoll) → Decidable op.Succeeds
  | .pending => inferInstanceAs (Decidable True)
  | .opened => inferInstanceAs (Decidable True)
  | .failed error => inferInstanceAs (Decidable (error.kind = .notFound))

instance : (op : PieceReadPoll) → Decidable op.Succeeds
  | .panicked _ => inferInstanceAs (Decidable False)
  | .pending => inferInstanceAs (Decidable True)
  | .bytes _ => inferInstanceAs (Decidable True)
  | .failed => inferInstanceAs (Decidable True)
  | .aborted => inferInstanceAs (Decidable True)

instance (i : PollInput) : Decidable i.Succeeds :=
  decidable_of_iff
    (i.cancelled = false ∧ i.pieceRead.Succeeds ∧ i.fileOpen.Succeeds ∧ ¬ i.fileSeek.Failed ∧
      ¬ i.fileRead.Failed)
    ⟨fun ⟨hc, hp, ho, hs, hr⟩ => ⟨hc, hp, ho, hs, hr⟩,
      fun h => ⟨h.current, h.pieceRead, h.fileOpen, h.fileSeek, h.fileRead⟩⟩

instance : (f : File) → Decidable f.ReadInFlight
  | ⟨_, _, some (.seek _ _), _⟩ => inferInstanceAs (Decidable False)
  | ⟨_, _, some (.read _), _⟩ => inferInstanceAs (Decidable True)
  | ⟨_, _, none, _⟩ => inferInstanceAs (Decidable False)

instance : (a : SessionStep) → Decidable a.Polls
  | .poll i => inferInstanceAs (Decidable i.Succeeds)
  | .seek _ => inferInstanceAs (Decidable False)
  | .verify _ => inferInstanceAs (Decidable True)

instance (u : Session) (a : SessionStep) : Decidable ((polling L).guard u a) :=
  inferInstanceAs (Decidable a.Polls)

instance : (stage : DiskStream.Stage) → Decidable stage.Busy
  | .returned _ _ => inferInstanceAs (Decidable False)
  | .atFile _ _ _ => inferInstanceAs (Decidable (_ ∧ _ ∧ _))

instance (u : Session) : (a : SessionStep) → Decidable (u.BusySeek L a)
  | .poll _ => inferInstanceAs (Decidable (DiskStream.Stage.Busy _))
  | .seek _ => inferInstanceAs (Decidable False)
  | .verify _ => inferInstanceAs (Decidable False)

end Decidable

/-- A poll with room for the first piece of `twoPieces`, which the broker brings. -/
def brokerFirst : PollInput :=
  { onDisk .done .pending with remaining := 4, pieceRead := .bytes [0, 1, 2, 3] }

/-- The reader reads the first byte from disk. -/
theorem polling_succeeds :
    ∃ t, (polling twoPieces).Path (fun u a => ¬ u.Fails twoPieces a) openSession
      [.poll (onDisk .pending .pending), .poll (onDisk .pending .done)] t := by
  have hexec : ((polling twoPieces).exec (fun u a => ¬ u.BusySeek twoPieces a) openSession
      [.poll (onDisk .pending .pending), .poll (onDisk .pending .done)]).isSome := by
    decide
  obtain ⟨t, ht⟩ := Option.isSome_iff_exists.mp hexec
  exact ⟨t, (polling_fails_iff openSession_initial _).mpr (GuardedSystem.path_of_exec ht)⟩

/-- The read of the first piece is in flight when the broker brings it, and the file can not
be moved to the second piece. -/
theorem polling_fails :
    ∃ t, (session twoPieces).Reach (fun _ a => a.Polls) openSession t ∧
      (onDisk .done .done).Truthful twoPieces t ∧ (onDisk .done .done).Succeeds ∧
        t.reader.currentPos = 4 ∧
          (t.reader.pollRead twoPieces (onDisk .done .done) t.verified).2 =
            .ready (.error File.seekBusy) :=
  GuardedSystem.exists_reach_of_exec
    [.poll (onDisk .pending .pending), .poll brokerFirst] (by decide)

end StreamServer.Readers

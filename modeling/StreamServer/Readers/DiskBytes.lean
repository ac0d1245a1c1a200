import StreamServer.Lib.GuardedSystem
import StreamServer.Readers.DiskStream

/-!
# What the disk-backed reader delivers

Polls, seeks and the verification of pieces, in any order.  The reader keeps its place:
while no native seek is in flight, the open file hands out the bytes at `fileCursor`
next, and while one is, the file goes to the target of that seek.  A seek of the caller
moves the reader and leaves the native seek alone.  The next poll then takes the native
seek for its own: it reads at the old target and delivers those bytes as the bytes at
the new position.

## Main definitions

* `Session`, `SessionStep`, `session` — a reader and its surroundings.
* `PollInput.Truthful` — what is assumed of the broker and of the disk.
* `Session.StalePlace` — the polls that find the file somewhere else.
* `DiskStream.Aligned` — the invariant.

## Main results

* `pollRead_spec` — what one poll does from an aligned state.
* `aligned_of_reach` — the invariant, in every run without such polls.
* `diskReader_delivers` — **in such runs every read delivers the bytes at the position.**
* `diskReader_delivers_fails` — and in other runs it may deliver other bytes.

## References

`enginefs/src/backend/libtorrent/disk_stream.rs`, `poll_read`, `start_seek`.
-/

namespace StreamServer.Readers

/-! ### Runs -/

/-- A reader, and the pieces verified so far. -/
structure Session where
  reader : DiskStream
  verified : Finset ℤ

/-- What happens to a reader: polls, seeks, and pieces that are verified. -/
inductive SessionStep
  | poll (i : PollInput)
  | seek (position : SeekFrom)
  | verify (piece : ℤ)

/-- The broker brings the bytes of the piece it was asked for, and the disk holds the bytes of
verified pieces. -/
structure PollInput.Truthful (L : FileLayout) (s : Session) (i : PollInput) : Prop where
  broker : ∀ data, i.pieceRead = .bytes data → data = L.pieceBytes (L.pieceOf s.reader.currentPos)
  disk : ∀ pos < L.fileSize, (L.pieceOf pos : ℤ) ∈ s.verified → i.disk.bytes pos = L.fileByte pos

variable (L : FileLayout)

/-- When a step can happen. -/
def SessionStep.guard (s : Session) : SessionStep → Prop
  | .poll i => i.Truthful L s
  | .seek position => position.Fits
  | .verify _ => True

/-- What a step does. -/
def SessionStep.effect (s : Session) : SessionStep → Session
  | .poll i => { s with reader := (s.reader.pollRead L i s.verified).1 }
  | .seek position => { s with reader := s.reader.startSeek L position }
  | .verify piece => { s with verified := insert piece s.verified }

/-- **The reader in its surroundings.** -/
def session : GuardedSystem Session SessionStep where
  guard s a := a.guard L s
  effect s a := a.effect L s

/-- A new reader: its file is not open, or has just been opened. -/
structure Session.Initial (s : Session) : Prop where
  reader : s.reader = .new none ∨ s.reader = .new (some .opened)

/-- A native seek to another place is in flight. -/
def File.SeeksElsewhere (f : File) (pos : ℕ) : Prop :=
  match f.inflight with
  | some (.seek target _) => target ≠ pos
  | _ => False

/-- Bytes were dropped for the native seek that is in flight, or would be for one. -/
def File.DropsAhead (f : File) : Prop :=
  match f.inflight with
  | some (.seek _ dropped) => dropped ≠ 0
  | some (.read _) => False
  | none => f.ahead ≠ []

/-- The disk has reported an error. -/
def Completion.Failed : Completion → Prop
  | .failed _ => True
  | _ => False

/-- At the open file a native seek to another position than the reader's is in flight; or a
native seek fails after bytes read ahead were dropped for it. -/
def DiskStream.Stage.Stale (i : PollInput) : DiskStream.Stage → Prop
  | .returned _ _ => False
  | .atFile u _ file =>
      file.SeeksElsewhere u.currentPos ∨
        i.fileSeek.Failed ∧ u.fileCursor ≠ u.currentPos ∧ file.DropsAhead

/-- The poll finds the file somewhere else than the reader takes it to be. -/
def Session.StalePlace (s : Session) (i : PollInput) : Prop :=
  (s.reader.toFile L i s.verified).Stale i

/-- The steps that keep the reader's place. -/
def KeepsPlace (s : Session) : SessionStep → Prop
  | .poll i => ¬ s.StalePlace L i
  | _ => True

section Decidable

instance : (f : File) → (pos : ℕ) → Decidable (f.SeeksElsewhere pos)
  | ⟨_, _, some (.seek target _), _⟩, pos => inferInstanceAs (Decidable (target ≠ pos))
  | ⟨_, _, some (.read _), _⟩, _ => inferInstanceAs (Decidable False)
  | ⟨_, _, none, _⟩, _ => inferInstanceAs (Decidable False)

instance : (f : File) → Decidable f.DropsAhead
  | ⟨_, _, some (.seek _ dropped), _⟩ => inferInstanceAs (Decidable (dropped ≠ 0))
  | ⟨_, _, some (.read _), _⟩ => inferInstanceAs (Decidable False)
  | ⟨_, ahead, none, _⟩ => inferInstanceAs (Decidable (ahead ≠ []))

instance : (op : Completion) → Decidable op.Failed
  | .pending => inferInstanceAs (Decidable False)
  | .done => inferInstanceAs (Decidable False)
  | .failed _ => inferInstanceAs (Decidable True)

instance (i : PollInput) : (stage : DiskStream.Stage) → Decidable (stage.Stale i)
  | .returned _ _ => inferInstanceAs (Decidable False)
  | .atFile _ _ _ => inferInstanceAs (Decidable (_ ∨ _ ∧ _))

instance (s : Session) (i : PollInput) : Decidable (s.StalePlace L i) :=
  inferInstanceAs (Decidable (DiskStream.Stage.Stale i _))

instance (s : Session) : (a : SessionStep) → Decidable (KeepsPlace L s a)
  | .poll i => inferInstanceAs (Decidable (¬ s.StalePlace L i))
  | .seek _ => inferInstanceAs (Decidable True)
  | .verify _ => inferInstanceAs (Decidable True)

/-- The bytes the broker brings. -/
def PieceReadPoll.data? : PieceReadPoll → Option (List UInt8)
  | .bytes data => some data
  | _ => none

instance (s : Session) (i : PollInput) : Decidable (i.Truthful L s) :=
  decidable_of_iff
    ((∀ data ∈ i.pieceRead.data?, data = L.pieceBytes (L.pieceOf s.reader.currentPos)) ∧
      ∀ pos < L.fileSize, (L.pieceOf pos : ℤ) ∈ s.verified → i.disk.bytes pos = L.fileByte pos) <| by
    have hdata : ∀ data, data ∈ i.pieceRead.data? ↔ i.pieceRead = .bytes data := by
      intro data
      cases i.pieceRead <;> simp [PieceReadPoll.data?]
    simp only [hdata]
    exact ⟨fun h => ⟨h.1, h.2⟩, fun h => ⟨h.broker, h.disk⟩⟩

instance (s : Session) : (a : SessionStep) → Decidable ((session L).guard s a)
  | .poll i => inferInstanceAs (Decidable (i.Truthful L s))
  | .seek position => inferInstanceAs (Decidable position.Fits)
  | .verify _ => inferInstanceAs (Decidable True)

end Decidable

/-! ### The invariant -/

namespace DiskStream

variable {L}

/-- The open file hands out the bytes at `fileCursor` next, or is on its way to another
place. -/
def Placed (s : DiskStream) (source : ℕ → UInt8) (file : File) : Prop :=
  s.seekPending = false ∧ file.Reads source s.fileCursor ∨
    s.seekPending = true ∧ ∃ target dropped, file.inflight = some (.seek target dropped) ∧
      target ≠ s.fileCursor ∧ file.ahead = [] ∧ file.cursor = s.fileCursor + dropped

/-- What the reader has is what the torrent holds. -/
structure Aligned (L : FileLayout) (verified : Finset ℤ) (s : DiskStream) : Prop where
  pos_le : s.currentPos ≤ L.fileSize
  verified : ∀ piece, s.verifiedPiece = some piece → piece ∈ verified
  broker : ∀ piece data, s.brokerPiece = some (piece, data) → data = L.pieceBytes piece.toNat
  placed : ∀ file, s.file = some file → s.Placed L.fileByte file

/-- What a read does: it delivers the bytes at the position and moves on by as many, none only
at the end of the file or into a full buffer, and otherwise stays. -/
def Delivers (L : FileLayout) (pos remaining : ℕ) (r : DiskStream × ReadPoll) : Prop :=
  match r.2 with
  | .ready (.ok bytes) =>
      bytes = stretch L.fileByte pos bytes.length ∧ r.1.currentPos = pos + bytes.length ∧
        bytes.length ≤ remaining ∧ r.1.currentPos ≤ L.fileSize ∧
        (bytes = [] → 0 < remaining → L.fileSize ≤ pos)
  | _ => r.1.currentPos = pos

/-! ### The pieces of a poll -/

variable {s : DiskStream} {verified : Finset ℤ} {i : PollInput}

/-- Asking for a piece changes nothing else. -/
theorem requestPiece_spec (s : DiskStream) (now : ℕ) (piece : ℤ) :
    ∃ asked, s.requestPieceFromLibtorrent now piece = { s with pieceRead := asked } := by
  unfold requestPieceFromLibtorrent
  split
  · exact ⟨s.pieceRead, rfl⟩
  · split
    · exact ⟨s.pieceRead, rfl⟩
    · exact ⟨some piece, rfl⟩

/-- Polling the broker brings the bytes of the piece or nothing. -/
theorem pollPieceBroker_spec (s : DiskStream) (i : PollInput) (piece : ℤ) :
    ∃ broker asked retryAt,
      (s.pollPieceBroker i piece).1 =
          { s with brokerPiece := broker, pieceRead := asked, pieceReadRetryAt := retryAt } ∧
        (broker = s.brokerPiece ∨ ∃ data, i.pieceRead = .bytes data ∧ broker = some (piece, data)) := by
  unfold pollPieceBroker
  split
  · exact ⟨_, _, _, rfl, Or.inl rfl⟩
  · split
    · next data hdata => exact ⟨_, _, _, rfl, Or.inr ⟨data, hdata, rfl⟩⟩
    all_goals exact ⟨_, _, _, rfl, Or.inl rfl⟩

/-- What an aligned reader may change without getting out of line. -/
theorem Aligned.keep (h : s.Aligned L verified) {asked : Option ℤ} {broker : Option (ℤ × List UInt8)}
    {retryAt : Option (ℤ × ℕ)} {logged opening : Bool} {piece : Option ℤ}
    (hpiece : ∀ p, piece = some p → p ∈ verified)
    (hbroker : ∀ p data, broker = some (p, data) → data = L.pieceBytes p.toNat) :
    Aligned L verified
      { s with
        pieceRead := asked
        brokerPiece := broker
        pieceReadRetryAt := retryAt
        firstReadLogged := logged
        opening := opening
        verifiedPiece := piece } :=
  ⟨h.pos_le, hpiece, hbroker, h.placed⟩

theorem Aligned.request (h : s.Aligned L verified) (now : ℕ) (piece : ℤ) :
    (s.requestPieceFromLibtorrent now piece).Aligned L verified := by
  obtain ⟨asked, heq⟩ := s.requestPiece_spec now piece
  rw [heq]
  exact h.keep h.verified h.broker

theorem Aligned.poll (h : s.Aligned L verified) {piece : ℕ}
    (hbytes : ∀ data, i.pieceRead = .bytes data → data = L.pieceBytes piece) :
    (s.pollPieceBroker i piece).1.Aligned L verified := by
  obtain ⟨broker, asked, retryAt, heq, hbroker⟩ := s.pollPieceBroker_spec i piece
  rw [heq]
  refine h.keep h.verified fun p data hp => ?_
  rcases hbroker with rfl | ⟨data', hdata, rfl⟩
  · exact h.broker p data hp
  · simp only [Option.some.injEq, Prod.mk.injEq] at hp
    rw [← hp.1, ← hp.2, Int.toNat_natCast]
    exact hbytes data' hdata

/-- A reader that moves on past the bytes it has delivered. -/
theorem Aligned.advance (h : s.Aligned L verified) {n : ℕ} (hn : s.currentPos + n ≤ L.fileSize)
    (logged : Bool) :
    Aligned L verified { s with currentPos := s.currentPos + n, firstReadLogged := logged } :=
  ⟨hn, h.verified, h.broker, h.placed⟩

/-- The slice of a piece that the reader serves: it starts at its position, and is empty only
if nothing is asked for. -/
theorem brokerSliceBounds_spec {pos : ℕ} (requested : ℕ) (hpos : pos < L.fileSize) :
    (brokerSliceBounds (L.pieceOf pos) L.pieceLength L.fileOffset pos L.fileSize
        (L.pieceBytes (L.pieceOf pos)).length requested = none ∧ requested = 0) ∨
      ∃ n, 0 < n ∧ n ≤ requested ∧ pos + n ≤ L.fileSize ∧
        (L.fileOffset + pos - L.pieceOf pos * L.pieceLength) + n ≤
            (L.pieceBytes (L.pieceOf pos)).length ∧
          brokerSliceBounds (L.pieceOf pos) L.pieceLength L.fileOffset pos L.fileSize
              (L.pieceBytes (L.pieceOf pos)).length requested =
            some (L.fileOffset + pos - L.pieceOf pos * L.pieceLength,
              L.fileOffset + pos - L.pieceOf pos * L.pieceLength + n) := by
  have hfits := L.fits
  have htotal := L.total_lt
  obtain ⟨hstart, hstop⟩ := L.pieceOf_spec pos
  have hglobal : saturatingAdd L.fileOffset pos = L.fileOffset + pos :=
    saturatingAdd_of_lt (by omega)
  have hpiece : saturatingMul (max (L.pieceOf pos : ℤ) 0).toNat L.pieceLength =
      L.pieceOf pos * L.pieceLength := by
    rw [max_eq_left (Int.natCast_nonneg _), Int.toNat_natCast]
    exact saturatingMul_of_lt (by omega)
  simp only [brokerSliceBounds, hglobal, hpiece, L.length_pieceBytes]
  -- the position lies in the piece and in the torrent, so the piece has a byte for it
  have hbyte : 0 < min L.pieceLength (L.totalSize - L.pieceOf pos * L.pieceLength) -
      (L.fileOffset + pos - L.pieceOf pos * L.pieceLength) := by
    omega
  split
  · next hlen =>
    exact Or.inr ⟨_, Nat.pos_of_ne_zero hlen, by omega, by omega, by omega, rfl⟩
  · next hlen =>
    exact Or.inl ⟨rfl, by omega⟩

/-- **The broker's piece serves the bytes at the position.** -/
theorem serveBrokerPiece_spec (h : s.Aligned L verified) (hpos : s.currentPos < L.fileSize)
    {s' : DiskStream} {bytes : List UInt8}
    (hserve : s.serveBrokerPiece L i (L.pieceOf s.currentPos) = some (s', bytes)) :
    s'.Aligned L verified ∧ s'.file = s.file ∧ s'.fileCursor = s.fileCursor ∧
      s'.seekPending = s.seekPending ∧ Delivers L s.currentPos i.remaining (s', .ready (.ok bytes)) ∧
      bytes ≠ [] := by
  unfold serveBrokerPiece at hserve
  split at hserve
  · cases hserve
  · next cachedPiece data hcached =>
    split at hserve
    · cases hserve
    · next hsame =>
      rw [not_not] at hsame
      have hdata := h.broker _ _ hcached
      rw [hsame, Int.toNat_natCast] at hdata
      rw [hdata] at hserve
      rcases brokerSliceBounds_spec (L := L) i.remaining hpos with
        ⟨hnone, -⟩ | ⟨n, hn, hle, hend, hslice, hsome⟩
      · rw [hnone] at hserve
        cases hserve
      · rw [hsome] at hserve
        simp only [Nat.add_sub_cancel_left, Option.some.injEq, Prod.mk.injEq,
          FileLayout.slice_pieceBytes hslice] at hserve
        have htotal := L.total_lt
        have hfits := L.fits
        rw [saturatingAdd_of_lt (by omega)] at hserve
        obtain ⟨rfl, rfl⟩ := hserve
        refine ⟨h.advance hend true, rfl, rfl, rfl, ⟨?_, ?_, ?_, hend, ?_⟩, ?_⟩
        · rw [length_stretch]
        · rw [length_stretch]
        · rw [length_stretch]
          exact hle
        · intro hnil
          rw [stretch_eq_nil] at hnil
          omega
        · rw [Ne, stretch_eq_nil]
          omega

/-- The verified bytes at the position end with the piece or with the file. -/
theorem bytesAvailable_spec (hpos : s.currentPos < L.fileSize) :
    0 < s.bytesAvailableInVerifiedPiece L (L.pieceOf s.currentPos) ∧
      L.fileOffset + s.currentPos + s.bytesAvailableInVerifiedPiece L (L.pieceOf s.currentPos) ≤
        L.pieceOf s.currentPos * L.pieceLength + L.pieceLength ∧
      s.currentPos + s.bytesAvailableInVerifiedPiece L (L.pieceOf s.currentPos) ≤ L.fileSize := by
  have hfits := L.fits
  have htotal := L.total_lt
  have hlength := L.pieceLength_lt
  obtain ⟨hstart, hstop⟩ := L.pieceOf_spec s.currentPos
  have hend : saturatingMul ((L.pieceOf s.currentPos : ℤ) + 1).toNat L.pieceLength =
      L.pieceOf s.currentPos * L.pieceLength + L.pieceLength := by
    rw [← Nat.cast_succ, Int.toNat_natCast, saturatingMul_of_lt, Nat.succ_mul]
    rw [Nat.succ_mul]
    omega
  simp only [bytesAvailableInVerifiedPiece, hend]
  omega

theorem currentPiece_eq (hpos : s.currentPos < L.fileSize) :
    s.currentPiece L = .ok (L.pieceOf s.currentPos : ℤ) := by
  rw [currentPiece, if_neg L.pieceLength_pos.ne']
  exact congrArg Except.ok (FileLayout.asI32_piece hpos)

/-! ### Up to the open file -/

/-- What has come of a poll of the reader `s` at some stage. -/
def Sound (L : FileLayout) (verified : Finset ℤ) (s : DiskStream) (i : PollInput) : Stage → Prop
  | .returned s' result =>
      s'.Aligned L verified ∧ Delivers L s.currentPos i.remaining (s', result)
  | .atFile u piece file =>
      u.Aligned L verified ∧ u.currentPos = s.currentPos ∧ s.currentPos < L.fileSize ∧
        0 < i.remaining ∧ piece = L.pieceOf s.currentPos ∧
        (L.pieceOf s.currentPos : ℤ) ∈ verified ∧ u.file = some file

/-- A poll that goes on after it has tried the broker. -/
theorem sound_tryBroker {u : DiskStream} (hu : u.Aligned L verified)
    (hsame : u.currentPos = s.currentPos) (hpos : s.currentPos < L.fileSize)
    (hbytes : ∀ data, i.pieceRead = .bytes data → data = L.pieceBytes (L.pieceOf s.currentPos))
    {next : DiskStream → Stage}
    (hnext : ∀ v, v.Aligned L verified → v.currentPos = s.currentPos →
      Sound L verified s i (next v)) :
    Sound L verified s i (u.tryBroker L i (L.pieceOf s.currentPos) next) := by
  have hv := hu.poll (i := i) hbytes
  have hvpos : (u.pollPieceBroker i (L.pieceOf s.currentPos)).1.currentPos = s.currentPos := by
    obtain ⟨broker, asked, retryAt, heq, -⟩ := u.pollPieceBroker_spec i (L.pieceOf s.currentPos)
    rw [heq]
    exact hsame
  unfold tryBroker
  split
  · next v error heq =>
    rw [heq] at hv hvpos
    exact ⟨hv, hvpos⟩
  · next v heq =>
    rw [heq] at hv hvpos
    dsimp only at hv hvpos
    split
    · next w bytes hserve =>
      rw [← hvpos] at hserve hpos
      obtain ⟨hw, -, -, -, hdelivers, -⟩ := serveBrokerPiece_spec hv hpos hserve
      exact ⟨hw, hvpos ▸ hdelivers⟩
    · exact hnext v hv hvpos

/-- A file that has just been opened is read from its start. -/
theorem sound_openFile {u : DiskStream} (hu : u.Aligned L verified)
    (hsame : u.currentPos = s.currentPos) (hpos : s.currentPos < L.fileSize)
    (hroom : 0 < i.remaining) (hverified : (L.pieceOf s.currentPos : ℤ) ∈ verified) :
    Sound L verified s i (u.openFile i (L.pieceOf s.currentPos)) := by
  have hopening : ∀ opening, ({ u with opening := opening } : DiskStream).Aligned L verified :=
    fun opening => hu.keep hu.verified hu.broker
  have hpending : ∀ opening, Sound L verified s i
      (.returned (requestPieceFromLibtorrent { u with opening := opening } i.now
        (L.pieceOf s.currentPos)) .pending) := by
    intro opening
    refine ⟨(hopening opening).request .., ?_⟩
    obtain ⟨asked, heq⟩ := requestPiece_spec { u with opening := opening } i.now
      (L.pieceOf s.currentPos)
    rw [heq]
    exact hsame
  unfold openFile
  split
  · next file hfile => exact ⟨hu, hsame, hpos, hroom, rfl, hverified, hfile⟩
  · unfold pollFileOpen
    cases i.fileOpen with
    | pending => exact hpending true
    | opened =>
      refine ⟨⟨hu.pos_le, hu.verified, hu.broker, ?_⟩, hsame, hpos, hroom, rfl, hverified, rfl⟩
      intro file hfile
      obtain rfl := Option.some.inj hfile
      exact Or.inl ⟨rfl, File.reads_opened⟩
    | failed error =>
      by_cases hfound : error.kind = .notFound
      · simp only [hfound, if_true]
        exact hpending false
      · simp only [hfound, if_false]
        exact ⟨hopening false, hsame⟩

theorem sound_awaitPiece (h : s.Aligned L verified) (hpos : s.currentPos < L.fileSize)
    (hbytes : ∀ data, i.pieceRead = .bytes data → data = L.pieceBytes (L.pieceOf s.currentPos)) :
    Sound L verified s i (s.awaitPiece L i (L.pieceOf s.currentPos)) := by
  refine sound_tryBroker (h.request ..) ?_ hpos hbytes fun v hv hvpos => ⟨hv, hvpos⟩
  obtain ⟨asked, heq⟩ := s.requestPiece_spec i.now (L.pieceOf s.currentPos)
  rw [heq]

theorem sound_readVerified {u : DiskStream} (hu : u.Aligned L verified)
    (hsame : u.currentPos = s.currentPos) (hpos : s.currentPos < L.fileSize)
    (hroom : 0 < i.remaining) (hverified : (L.pieceOf s.currentPos : ℤ) ∈ verified)
    (hbytes : ∀ data, i.pieceRead = .bytes data → data = L.pieceBytes (L.pieceOf s.currentPos)) :
    Sound L verified s i (u.readVerified L i (L.pieceOf s.currentPos)) := by
  have havailable := (bytesAvailable_spec (L := L) (s := u) (by omega)).1
  rw [hsame] at havailable
  unfold readVerified
  rw [if_neg havailable.ne']
  refine sound_tryBroker ?_ ?_ hpos hbytes fun v hv hvpos =>
    sound_openFile hv hvpos hpos hroom hverified
  · split
    · exact hu.request ..
    · exact hu
  · split
    · obtain ⟨asked, heq⟩ := u.requestPiece_spec i.now (L.pieceOf s.currentPos)
      rw [heq]
      exact hsame
    · exact hsame

/-- **A poll up to the point where it uses the open file** delivers what it should, or comes
there in line. -/
theorem toFile_spec (h : s.Aligned L verified)
    (hbytes : ∀ data, i.pieceRead = .bytes data → data = L.pieceBytes (L.pieceOf s.currentPos)) :
    Sound L verified s i (s.toFile L i verified) := by
  unfold toFile
  split
  · exact ⟨h, rfl⟩
  · split
    · next hdone =>
      refine ⟨h, rfl, rfl, Nat.zero_le _, h.pos_le, fun _ hroom => ?_⟩
      rcases hdone with hend | hzero
      · exact hend
      · omega
    · next hgo =>
      rw [not_or, not_le] at hgo
      obtain ⟨hpos, hroom⟩ := hgo
      rw [currentPiece_eq hpos]
      have hinside := FileLayout.pieceOf_inside hpos
      have hin : ¬ ((L.pieceOf s.currentPos : ℤ) < L.firstPiece ∨
          L.lastPiece < (L.pieceOf s.currentPos : ℤ)) :=
        not_or.mpr ⟨not_lt.mpr hinside.1, not_lt.mpr hinside.2⟩
      simp only [if_neg hin]
      split
      · exact sound_awaitPiece h hpos hbytes
      · next hverified =>
        have hmem : (L.pieceOf s.currentPos : ℤ) ∈ verified := by
          rw [not_and, not_not] at hverified
          by_cases hcached : s.verifiedPiece = some (L.pieceOf s.currentPos : ℤ)
          · exact h.verified _ hcached
          · exact hverified hcached
        have hu : Aligned L verified
            { s with verifiedPiece := some (L.pieceOf s.currentPos : ℤ) } :=
          h.keep (by rintro _ ⟨⟩; exact hmem) h.broker
        exact sound_readVerified hu rfl hpos (by omega) hmem hbytes

/-! ### From the open file on -/

/-- The disk holds the bytes of the file as far as the verified piece goes. -/
theorem disk_verified (hpos : s.currentPos < L.fileSize)
    (hverified : (L.pieceOf s.currentPos : ℤ) ∈ verified)
    (hdisk : ∀ pos < L.fileSize, (L.pieceOf pos : ℤ) ∈ verified →
      i.disk.bytes pos = L.fileByte pos) {k : ℕ}
    (hk : k < s.bytesAvailableInVerifiedPiece L (L.pieceOf s.currentPos)) :
    i.disk.bytes (s.currentPos + k) = L.fileByte (s.currentPos + k) := by
  obtain ⟨-, hpiece, hfile⟩ := bytesAvailable_spec hpos
  refine hdisk _ (by omega) ?_
  have hsame : L.pieceOf (s.currentPos + k) = L.pieceOf s.currentPos :=
    FileLayout.pieceOf_eq (by omega) (by omega)
  rwa [hsame]

/-- A poll has left the reader in line, and has delivered what it should from `pos`. -/
def Served (L : FileLayout) (verified : Finset ℤ) (pos remaining : ℕ)
    (r : DiskStream × ReadPoll) : Prop :=
  r.1.Aligned L verified ∧ Delivers L pos remaining r

/-- Bytes of the file are handed on. -/
theorem handOn_spec (h : s.Aligned L verified) {n : ℕ} (hn : n ≤ i.remaining)
    (hend : s.currentPos + n ≤ L.fileSize) (piece : ℤ) :
    Served L verified s.currentPos i.remaining
      (s.handOn i piece (stretch L.fileByte s.currentPos n)) := by
  have htotal := L.total_lt
  have hfits := L.fits
  unfold handOn
  split
  · -- the bytes are not handed on
    obtain ⟨asked, heq⟩ := s.requestPiece_spec i.now piece
    rw [heq]
    exact ⟨h.keep h.verified h.broker, rfl⟩
  · next hdata =>
    rw [length_stretch, saturatingAdd_of_lt (by omega)]
    refine ⟨h.advance hend true, ?_, ?_, ?_, hend, ?_⟩
    · rw [length_stretch]
    · rw [length_stretch]
    · rw [length_stretch]
      exact hn
    · exact fun hnil => absurd (Or.inl hnil) hdata

/-- **A file that stands at the reader's position** is read from there. -/
theorem readHere_spec (h : s.Aligned L verified) {file : File}
    (hpos : s.currentPos < L.fileSize)
    (hverified : (L.pieceOf s.currentPos : ℤ) ∈ verified)
    (hdisk : ∀ pos < L.fileSize, (L.pieceOf pos : ℤ) ∈ verified →
      i.disk.bytes pos = L.fileByte pos)
    (hseek : s.seekPending = false) (hreads : file.Reads L.fileByte s.fileCursor)
    (hplace : s.fileCursor = s.currentPos) :
    Served L verified s.currentPos i.remaining
      (s.readHere L i (L.pieceOf s.currentPos) file) := by
  obtain ⟨-, -, hend⟩ := bytesAvailable_spec hpos
  have hroom : s.toRead L i (L.pieceOf s.currentPos) ≤
      min i.remaining (s.bytesAvailableInVerifiedPiece L (L.pieceOf s.currentPos)) :=
    min_le_left _ _
  have hfollows := File.pollRead_spec i.fileSeek i.fileRead hreads
    fun k (hk : k < s.toRead L i (L.pieceOf s.currentPos)) => by
      rw [hplace]
      exact disk_verified hpos hverified hdisk (by omega)
  -- the file is where the poll has left it, and the reader takes it to be there
  have hmoved : ∀ {file' : File} {place : ℕ}, file'.Reads L.fileByte place →
      Aligned L verified { s with file := some file', fileCursor := place } := by
    intro file' place hreads'
    refine ⟨h.pos_le, h.verified, h.broker, ?_⟩
    intro file'' hfile
    obtain rfl := Option.some.inj hfile
    exact Or.inl ⟨hseek, hreads'⟩
  unfold readHere
  split
  · next file' heq =>
    rw [heq] at hfollows
    exact ⟨hmoved hfollows, rfl⟩
  · next file' error heq =>
    rw [heq] at hfollows
    exact ⟨hmoved hfollows, rfl⟩
  · next file' data heq =>
    rw [heq] at hfollows
    obtain ⟨n, hn, rfl, hreads'⟩ := hfollows
    have htotal := L.total_lt
    have hfits := L.fits
    rw [length_stretch, saturatingAdd_of_lt (by omega), hplace]
    rw [hplace] at hreads'
    exact handOn_spec (hmoved hreads') (by omega) (by dsimp only; omega) _

/-- **A native seek to the reader's position** ends there, or nowhere else. -/
theorem seekFile_spec (h : s.Aligned L verified) {file : File} (hfile : s.file = some file)
    (hpos : s.currentPos < L.fileSize)
    (hverified : (L.pieceOf s.currentPos : ℤ) ∈ verified)
    (hdisk : ∀ pos < L.fileSize, (L.pieceOf pos : ℤ) ∈ verified →
      i.disk.bytes pos = L.fileByte pos) {dropped : ℕ}
    (hseek : file.inflight = some (.seek s.currentPos dropped)) (hahead : file.ahead = [])
    (hcursor : file.cursor = s.fileCursor + dropped)
    (hfails : ∀ error, i.fileSeek = .failed error → dropped = 0) :
    Served L verified s.currentPos i.remaining
      (s.seekFile L i (L.pieceOf s.currentPos) file) := by
  unfold seekFile File.pollComplete
  rw [hseek]
  cases hop : i.fileSeek with
  | pending =>
    have hsame : ({ s with file := some file } : DiskStream) = s := by
      rw [← hfile]
    exact ⟨hsame ▸ h, rfl⟩
  | done =>
    set file' : File :=
      { file with cursor := s.currentPos, inflight := none, lastSeek := s.currentPos } with hfile'
    have hreads : file'.Reads L.fileByte s.currentPos := File.reads_of_idle rfl hahead rfl
    set u : DiskStream :=
      { s with file := some file', fileCursor := s.currentPos, seekPending := false } with hu'
    have hu : u.Aligned L verified := by
      refine ⟨h.pos_le, h.verified, h.broker, ?_⟩
      intro file'' heq
      obtain rfl := Option.some.inj heq
      exact Or.inl ⟨rfl, hreads⟩
    exact readHere_spec hu hpos hverified hdisk rfl hreads rfl
  | failed error =>
    rw [hfails error hop, Nat.add_zero] at hcursor
    set file' : File := { file with inflight := none } with hfile'
    have hreads : file'.Reads L.fileByte s.fileCursor := File.reads_of_idle rfl hahead hcursor
    have hu : Aligned L verified { s with file := some file', seekPending := false } := by
      refine ⟨h.pos_le, h.verified, h.broker, ?_⟩
      intro file'' heq
      obtain rfl := Option.some.inj heq
      exact Or.inl ⟨rfl, hreads⟩
    exact ⟨hu, rfl⟩

/-- **From the open file on**: unless a native seek to another place is in flight, and unless
one fails that has dropped bytes, the poll delivers what it should. -/
theorem readFile_spec (h : s.Aligned L verified) {file : File} (hfile : s.file = some file)
    (hpos : s.currentPos < L.fileSize)
    (hverified : (L.pieceOf s.currentPos : ℤ) ∈ verified)
    (hdisk : ∀ pos < L.fileSize, (L.pieceOf pos : ℤ) ∈ verified →
      i.disk.bytes pos = L.fileByte pos)
    (htarget : ¬ file.SeeksElsewhere s.currentPos)
    (hfails : ¬ (i.fileSeek.Failed ∧ s.fileCursor ≠ s.currentPos ∧ file.DropsAhead)) :
    Served L verified s.currentPos i.remaining
      (s.readFile L i (L.pieceOf s.currentPos) file) := by
  -- a seek that fails may have dropped bytes only where the condition excludes it
  have hdropped : ∀ error, i.fileSeek = .failed error → s.fileCursor ≠ s.currentPos →
      ¬ file.DropsAhead := by
    intro error herror hmoved hdrops
    exact hfails ⟨by rw [herror]; trivial, hmoved, hdrops⟩
  unfold readFile
  split
  · next hmoved =>
    rcases h.placed file hfile with ⟨hidle, hreads⟩ | ⟨hpending, target, dropped, hseek, -, ha, hc⟩
    · -- a native seek to the reader's position is started, unless a read is in flight
      rw [hidle]
      simp only [Bool.false_eq_true, if_false]
      unfold File.startSeek
      cases hop : file.inflight with
      | some op => exact ⟨h, rfl⟩
      | none =>
        obtain ⟨n, hahead, hcursor⟩ := hreads.ahead
        set file' : File :=
          { file with ahead := [], inflight := some (.seek s.currentPos file.ahead.length) }
          with hfile'
        have hlength : file.ahead.length = n := by
          rw [hahead, length_stretch]
        have hcursor' : file'.cursor = s.fileCursor + file.ahead.length := by
          rw [hlength]
          exact hcursor
        have hu : Aligned L verified { s with file := some file', seekPending := true } := by
          refine ⟨h.pos_le, h.verified, h.broker, ?_⟩
          intro file'' heq
          obtain rfl := Option.some.inj heq
          exact Or.inr ⟨rfl, s.currentPos, _, rfl, Ne.symm hmoved, rfl, hcursor'⟩
        refine seekFile_spec hu rfl hpos hverified hdisk rfl rfl hcursor' fun error herror => ?_
        have hnone := hdropped error herror hmoved
        simp only [File.DropsAhead, hop, not_not] at hnone
        rw [hnone, List.length_nil]
    · rw [if_pos hpending]
      simp only [File.SeeksElsewhere, hseek, not_not] at htarget
      rw [htarget] at hseek
      refine seekFile_spec h hfile hpos hverified hdisk hseek ha hc fun error herror => ?_
      have hnone := hdropped error herror hmoved
      simpa only [File.DropsAhead, hseek, not_not] using hnone
  · next hplace =>
    rw [not_not] at hplace
    rcases h.placed file hfile with ⟨hidle, hreads⟩ | ⟨-, target, dropped, hseek, hne, -⟩
    · exact readHere_spec h hpos hverified hdisk hidle hreads hplace
    · -- a seek is in flight only to a place where the file is not
      simp only [File.SeeksElsewhere, hseek, not_not] at htarget
      exact absurd (htarget.trans hplace.symm) hne

end DiskStream

/-! ### Every step keeps the reader in line -/

variable {L} {s : Session}

/-- **What one poll does** that does not find the file somewhere else. -/
theorem pollRead_spec {i : PollInput} (h : s.reader.Aligned L s.verified) (hi : i.Truthful L s)
    (hplace : ¬ s.StalePlace L i) :
    DiskStream.Served L s.verified s.reader.currentPos i.remaining
      (s.reader.pollRead L i s.verified) := by
  have hsound := DiskStream.toFile_spec h hi.broker
  unfold DiskStream.pollRead
  split
  · next u result heq =>
    rw [heq] at hsound
    exact hsound
  · next u piece file heq =>
    rw [heq] at hsound
    obtain ⟨hu, hsame, hpos, -, rfl, hverified, hfile⟩ := hsound
    rw [← hsame] at hpos hverified ⊢
    rw [Session.StalePlace, heq, DiskStream.Stage.Stale, not_or] at hplace
    exact DiskStream.readFile_spec hu hfile hpos hverified hi.disk hplace.1 hplace.2

/-- A seek of the caller leaves the open file alone. -/
theorem aligned_startSeek (h : s.reader.Aligned L s.verified) (position : SeekFrom) :
    (s.reader.startSeek L position).Aligned L s.verified :=
  ⟨min_le_right _ _, by rintro _ ⟨⟩, by rintro _ _ ⟨⟩, h.placed⟩

theorem aligned_step (h : s.reader.Aligned L s.verified) {a : SessionStep} (hg : a.guard L s)
    (hc : KeepsPlace L s a) : (a.effect L s).reader.Aligned L (a.effect L s).verified := by
  cases a with
  | poll i => exact (pollRead_spec h hg hc).1
  | seek position => exact aligned_startSeek h position
  | verify piece =>
    exact ⟨h.pos_le, fun p hp => Finset.mem_insert_of_mem (h.verified p hp), h.broker, h.placed⟩

theorem Session.Initial.aligned (h : s.Initial) : s.reader.Aligned L s.verified := by
  rcases h.reader with heq | heq
  · rw [heq]
    exact ⟨Nat.zero_le _, by rintro _ ⟨⟩, by rintro _ _ ⟨⟩, by rintro _ ⟨⟩⟩
  · rw [heq]
    refine ⟨Nat.zero_le _, by rintro _ ⟨⟩, by rintro _ _ ⟨⟩, ?_⟩
    rintro _ ⟨⟩
    exact Or.inl ⟨rfl, File.reads_opened⟩

theorem aligned_of_reach {t : Session} (hs : s.Initial)
    (h : (session L).Reach (KeepsPlace L) s t) : t.reader.Aligned L t.verified :=
  h.invariant hs.aligned fun _ _ hi hg hc => aligned_step hi hg hc

/-- **The disk-backed reader delivers the right bytes** in every run in which no poll finds a
native seek in flight to another place than the reader's, or a native seek that fails after
bytes were dropped for it.  Every read that is ready has put the bytes at the position into the
buffer, moved the position on by as many, and brings none only at the end of the file. -/
theorem diskReader_delivers {t : Session} (hs : s.Initial)
    (h : (session L).Reach (KeepsPlace L) s t) {i : PollInput} (hi : i.Truthful L t)
    (hplace : ¬ t.StalePlace L i) :
    DiskStream.Delivers L t.reader.currentPos i.remaining
      (t.reader.pollRead L i t.verified) :=
  (pollRead_spec (aligned_of_reach hs h) hi hplace).2

/-! ### A run in which it does not -/

/-- A file of two pieces of four bytes each, which are their own positions. -/
def twoPieces : FileLayout where
  pieceLength := 4
  fileOffset := 0
  fileSize := 8
  totalSize := 8
  content := UInt8.ofNat
  pieceLength_pos := by decide
  fits := by decide
  total_lt := by decide
  pieces_lt := by decide
  pieceLength_lt := by decide

/-- A poll with room for one byte that is told nothing by the broker and finds the whole file on
disk. -/
def onDisk (fileSeek fileRead : Completion) : PollInput where
  remaining := 1
  cancelled := false
  now := 0
  pieceRead := .pending
  fileOpen := .pending
  fileSeek := fileSeek
  fileRead := fileRead
  disk := ⟨UInt8.ofNat, 8⟩

/-- A reader of a file that has been opened and is complete. -/
def openSession : Session := ⟨.new (some .opened), {0, 1}⟩

theorem openSession_initial : openSession.Initial := ⟨Or.inr rfl⟩

/-- The reader goes to byte 4, and back to byte 1 while the native seek is in flight: it delivers
byte 4 as byte 1. -/
theorem diskReader_delivers_fails :
    ∃ t, (session twoPieces).Reach GuardedSystem.anyStep openSession t ∧
      (onDisk .done .done).Truthful twoPieces t ∧ t.reader.currentPos = 1 ∧
        (t.reader.pollRead twoPieces (onDisk .done .done) t.verified).2 = .ready (.ok [4]) ∧
          ¬ DiskStream.Delivers twoPieces t.reader.currentPos 1
            (t.reader.pollRead twoPieces (onDisk .done .done) t.verified) := by
  obtain ⟨t, ht, htruthful, hpos, hread⟩ :
      ∃ t, (session twoPieces).Reach GuardedSystem.anyStep openSession t ∧
        (onDisk .done .done).Truthful twoPieces t ∧ t.reader.currentPos = 1 ∧
          (t.reader.pollRead twoPieces (onDisk .done .done) t.verified).2 = .ready (.ok [4]) :=
    GuardedSystem.exists_reach_of_exec
      [.seek (.start 4), .poll (onDisk .pending .pending), .seek (.start 1)] (by decide)
  refine ⟨t, ht, htruthful, hpos, hread, ?_⟩
  rw [DiskStream.Delivers, hread, hpos]
  rintro ⟨hbytes, -⟩
  exact absurd hbytes (by decide)

/-- A reader that goes to byte 4 and waits for the native seek delivers byte 4. -/
theorem diskReader_delivers_seeking :
    ∃ t, (session twoPieces).Reach (KeepsPlace twoPieces) openSession t ∧
      (t.reader.pollRead twoPieces (onDisk .done .done) t.verified).2 = .ready (.ok [4]) ∧
        DiskStream.Delivers twoPieces 4 1
          (t.reader.pollRead twoPieces (onDisk .done .done) t.verified) := by
  obtain ⟨t, ht, htruthful, hplace, hpos, hread⟩ :
      ∃ t, (session twoPieces).Reach (KeepsPlace twoPieces) openSession t ∧
        (onDisk .done .done).Truthful twoPieces t ∧
          ¬ t.StalePlace twoPieces (onDisk .done .done) ∧ t.reader.currentPos = 4 ∧
            (t.reader.pollRead twoPieces (onDisk .done .done) t.verified).2 = .ready (.ok [4]) :=
    GuardedSystem.exists_reach_of_exec
      [.seek (.start 4), .poll (onDisk .pending .pending)] (by decide)
  have hdelivers := diskReader_delivers openSession_initial ht htruthful hplace
  rw [hpos] at hdelivers
  exact ⟨t, ht, hread, hdelivers⟩

end StreamServer.Readers

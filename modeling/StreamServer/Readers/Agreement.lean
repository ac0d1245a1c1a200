import StreamServer.Readers.DiskErrors
import StreamServer.Readers.FileStream

/-!
# The memory-only and the disk-backed reader

Two readers of one file, which a caller takes for the same: a seek should bring both to the
same position, and a read should deliver the bytes of the file there, of which there may be
fewer than the caller has room for.

The disk-backed reader computes the target of a seek with saturating arithmetic and cuts it
off at the end of the file.  The memory-only reader does neither: a seek past the end leaves
it there, one that overflows brings it to the start or panics, and the planning of
priorities panics when the position lies more than a piece behind the last one.  Inside the
file the planning panics only if its numbers do not fit.

## Main definitions

* `Serves` — what a read should do, for either reader.
* `Pair`, `PairStep`, `pair` — two readers, and what their caller does with them.
* `PairStep.Agrees` — the readers do the same.
* `KeepsTogether` — the condition: seeks stay inside the file, the numbers of the planning fit,
  and the disk-backed reader does not meet an operation of its file that it has left behind.

## Main results

* `FileStream.pollRead_spec` — what a poll of the memory-only reader does.
* `startSeek_agrees_iff` — seeks agree exactly if they stay inside the file.
* `readers_agree` — **the readers agree as long as the condition is met.**

## References

`enginefs/src/backend/libtorrent/stream.rs`; `enginefs/src/backend/libtorrent/disk_stream.rs`.
-/

namespace StreamServer.Readers

/-- What a read at a position should do: it delivers the bytes there and moves on by as many,
none only at the end of the file or into a full buffer, or else it waits. -/
def Serves (L : FileLayout) (pos remaining pos' : ℕ) : ReadPoll → Prop
  | .pending => pos' = pos
  | .ready (.ok bytes) =>
      bytes = stretch L.fileByte pos bytes.length ∧ pos' = pos + bytes.length ∧
        bytes.length ≤ remaining ∧ (bytes = [] → 0 < remaining → L.fileSize ≤ pos)
  | .ready (.error _) => False

/-! ### The memory-only reader -/

/-- The caches have the bytes of the piece, or do not have it. -/
structure MemoryInput.Truthful (L : FileLayout) (s : FileStream) (i : MemoryInput) : Prop where
  cached : ∀ data, i.cached = some data → data = L.pieceBytes (L.pieceOf s.currentPos)
  lookup : ∀ data, i.lookup = .found data → data = L.pieceBytes (L.pieceOf s.currentPos)

/-- The reader has not been superseded, and the lookup does not fail. -/
structure MemoryInput.Succeeds (i : MemoryInput) : Prop where
  current : i.cancelled = false
  lookup : ∀ error, i.lookup ≠ .failed error

/-- The numbers of the plannings fit. -/
structure MemoryInput.Fits (checks : Bool) (L : FileLayout) (i : MemoryInput) : Prop where
  planning : i.planning.Fits checks L
  replanning : ∀ p, i.replanning = some p → p.Fits checks L

namespace FileStream

variable {checks : Bool} {L : FileLayout} {s : FileStream} {i : MemoryInput} {p : Planning}

/-- The reader is inside the file, and has the bytes of a piece. -/
structure Aligned (L : FileLayout) (s : FileStream) : Prop where
  pos_le : s.currentPos ≤ L.fileSize
  cached : ∀ piece data, s.cachedPieceData = some (piece, data) →
    data = L.pieceBytes piece.toNat

/-- Inside the file, planning only notes the piece it has planned for. -/
theorem setPriorities_spec (hpos : s.currentPos ≤ L.fileSize)
    (hfits : s.isComplete = false → p.Fits checks L) :
    ∃ last, s.setPriorities checks L p = some { s with lastPrioritiesPiece := last } := by
  have hbounds := L.fits
  have htotal := L.total_lt
  have hadd : addU64 checks L.fileOffset s.currentPos = some (L.fileOffset + s.currentPos) :=
    if_pos (by unfold maxU64; omega)
  unfold setPriorities
  split
  · exact ⟨s.lastPrioritiesPiece, rfl⟩
  · next hplans =>
    have hincomplete : s.isComplete = false := Bool.not_eq_true _ ▸ (not_or.mp hplans).1
    rw [hadd]
    dsimp only
    split
    · exact ⟨s.lastPrioritiesPiece, rfl⟩
    · rw [if_neg ((hfits hincomplete).not_panics_inside hpos)]
      exact ⟨_, rfl⟩

theorem reassertServingWindow_eq (hfits : s.isComplete = false → p.Fits checks L) (piece : ℤ) :
    s.reassertServingWindow checks L p piece = some () := by
  unfold reassertServingWindow
  split
  · rfl
  · next hplans =>
    simp only [not_or, Bool.not_eq_true, not_lt] at hplans
    obtain ⟨hincomplete, hfirst, hlast⟩ := hplans
    have hfits := hfits hincomplete
    have hend := hfits.last
    have hzero := FileLayout.firstPiece_nonneg hend
    have hnext : addI32 checks piece 1 = some (piece + 1) := if_pos (by omega)
    rw [hnext]
    dsimp only
    split
    · rfl
    · rw [if_neg (hfits.not_panics (by omega) (by omega))]

theorem reprioritizeBlockingPiece_eq (hfits : s.isComplete = false → p.Fits checks L) (piece : ℤ) :
    s.reprioritizeBlockingPiece checks L p piece = some () := by
  unfold reprioritizeBlockingPiece
  split
  · rfl
  · next hplans =>
    simp only [not_or, Bool.not_eq_true, not_lt] at hplans
    obtain ⟨hincomplete, hfirst, hlast⟩ := hplans
    have hfits := hfits hincomplete
    have hend := hfits.last
    have hzero := FileLayout.firstPiece_nonneg hend
    rw [if_neg (hfits.not_panics (by omega) (by omega))]

/-- The second planning of a poll does not panic either. -/
theorem replan_eq (hfits : s.isComplete = false → p.Fits checks L) (piece : ℤ)
    (r : FileStream × ReadPoll) : s.replan checks L i p piece r = some () := by
  unfold replan
  split
  · rfl
  · split
    · rfl
    · exact reassertServingWindow_eq hfits piece
  · split
    · rfl
    · split
      · exact reprioritizeBlockingPiece_eq hfits piece
      · split
        · exact reassertServingWindow_eq hfits piece
        · rfl

theorem pieceIndex_eq (hpos : s.currentPos < L.fileSize) :
    s.pieceIndex L = L.pieceOf s.currentPos := by
  have hfits := L.fits
  have htotal := L.total_lt
  rw [pieceIndex, if_neg L.pieceLength_pos.ne', saturatingAdd_of_lt (by omega)]
  exact FileLayout.asI32_piece hpos

/-- A poll has left the reader in line, and has done what a read should do. -/
def Served (L : FileLayout) (pos remaining : ℕ) (r : FileStream × ReadPoll) : Prop :=
  r.1.Aligned L ∧ Serves L pos remaining r.1.currentPos r.2

/-- **The bytes of a piece are handed out.** -/
theorem serve_spec (h : s.Aligned L) (hpos : s.currentPos < L.fileSize)
    (hroom : 0 < i.remaining) (piece : ℤ) :
    Served L s.currentPos i.remaining
      (s.serve L i piece (L.pieceBytes (L.pieceOf s.currentPos))) := by
  have hfits := L.fits
  obtain ⟨hstart, hstop⟩ := L.pieceOf_spec s.currentPos
  have hoffset : (L.fileOffset + s.currentPos) % L.pieceLength =
      L.fileOffset + s.currentPos - L.pieceOf s.currentPos * L.pieceLength := by
    rw [Nat.mod_eq_sub_mul_div, Nat.mul_comm]
    rfl
  have hlength := L.length_pieceBytes (L.pieceOf s.currentPos)
  -- the position lies in the piece and in the file, so there is a byte for it
  have hread : ∃ n, 0 < n ∧ n ≤ i.remaining ∧ s.currentPos + n ≤ L.fileSize ∧
      (L.fileOffset + s.currentPos - L.pieceOf s.currentPos * L.pieceLength) + n ≤
        (L.pieceBytes (L.pieceOf s.currentPos)).length ∧
      n = min (min i.remaining ((L.pieceBytes (L.pieceOf s.currentPos)).length -
        (L.fileOffset + s.currentPos - L.pieceOf s.currentPos * L.pieceLength)))
          (L.fileSize - s.currentPos) :=
    ⟨_, by omega, by omega, by omega, by omega, rfl⟩
  obtain ⟨n, hn, hle, hend, hslice, hmin⟩ := hread
  simp only [Served, serve, Serves, hoffset, ← hmin, FileLayout.slice_pieceBytes hslice,
    length_stretch]
  refine ⟨⟨hend, h.cached⟩, ?_⟩
  refine ⟨trivial, trivial, hle, fun hnil => ?_⟩
  rw [stretch_eq_nil] at hnil
  omega

/-- A piece that is awaited leaves the reader where it is. -/
theorem awaitPiece_spec (h : s.Aligned L) (piece : ℤ) :
    Served L s.currentPos i.remaining (s.awaitPiece i piece) := by
  unfold awaitPiece
  split
  · exact ⟨h, rfl⟩
  · split
    · split
      · exact ⟨h, rfl⟩
      · exact ⟨⟨h.pos_le, h.cached⟩, rfl⟩
    · split
      · exact ⟨⟨h.pos_le, h.cached⟩, rfl⟩
      · exact ⟨h, rfl⟩

theorem pollLookup_spec (h : s.Aligned L) (hi : i.Truthful L s) (hs : i.Succeeds) :
    Served L s.currentPos i.remaining (s.pollLookup i (L.pieceOf s.currentPos)) := by
  have hgone : ∀ miss, Served L s.currentPos i.remaining
      (awaitPiece { s with diskLookup := none, diskLookupMiss := miss } i
        (L.pieceOf s.currentPos)) := by
    intro miss
    exact awaitPiece_spec (s := { s with diskLookup := none, diskLookupMiss := miss })
      ⟨h.pos_le, h.cached⟩ _
  unfold pollLookup
  split
  · exact awaitPiece_spec h _
  · split
    · next data hdata =>
      refine ⟨⟨h.pos_le, fun piece data' hcached => ?_⟩, rfl⟩
      simp only [Option.some.injEq, Prod.mk.injEq] at hcached
      obtain ⟨rfl, rfl⟩ := hcached
      rw [Int.toNat_natCast]
      exact hi.lookup data hdata
    · exact hgone _
    · next error herror => exact absurd herror (hs.lookup error)
    · exact hgone _
    · exact awaitPiece_spec h _

theorem readPiece_spec (h : s.Aligned L) (hpos : s.currentPos < L.fileSize)
    (hroom : 0 < i.remaining) (hi : i.Truthful L s) (hs : i.Succeeds) :
    Served L s.currentPos i.remaining (s.readPiece L i (L.pieceOf s.currentPos)) := by
  unfold readPiece
  rw [if_neg (by omega)]
  split
  · next data hdata =>
    -- the reader's own copy
    unfold cachedData at hdata
    split at hdata
    · next piece data' hcached =>
      split at hdata
      · next hsame =>
        obtain rfl := Option.some.inj hdata
        have hbytes := h.cached piece data' hcached
        rw [hsame, Int.toNat_natCast] at hbytes
        rw [hbytes]
        exact serve_spec h hpos hroom _
      · cases hdata
    · cases hdata
  · split
    · next data hdata =>
      obtain rfl := hi.cached data hdata
      refine serve_spec (s := { s with
        cachedPieceData := some (L.pieceOf s.currentPos, L.pieceBytes (L.pieceOf s.currentPos))
        diskLookupMiss := none }) ⟨h.pos_le, fun piece data' hcached => ?_⟩ hpos hroom _
      simp only [Option.some.injEq, Prod.mk.injEq] at hcached
      obtain ⟨rfl, rfl⟩ := hcached
      rw [Int.toNat_natCast]
    · exact pollLookup_spec (s := s.startLookup (L.pieceOf s.currentPos))
        ⟨h.pos_le, h.cached⟩ ⟨hi.cached, hi.lookup⟩ hs

/-- A poll that does not panic comes to what it reads. -/
theorem pollRead_eq_readPiece (hcurrent : i.cancelled = false) (hroom : 0 < i.remaining)
    (hpos : s.currentPos < L.fileSize) (hfits : s.isComplete = false → i.Fits checks L) :
    ∃ last, s.pollRead checks L i =
      some (({ s with lastPrioritiesPiece := last } : FileStream).readPiece L i (s.pieceIndex L)) := by
  obtain ⟨last, hplan⟩ := s.setPriorities_spec hpos.le fun h => (hfits h).planning
  refine ⟨last, ?_⟩
  unfold pollRead
  rw [hcurrent, if_neg Bool.false_ne_true, if_neg (by omega), hplan, Option.bind_some]
  dsimp only
  split
  · rfl
  · next p hp =>
    rw [replan_eq (s := { s with lastPrioritiesPiece := last }) fun h => (hfits h).replanning p hp]
    rfl

/-- **What a poll does.**  Inside the file it does not panic, if the numbers fit. -/
theorem pollRead_spec (h : s.Aligned L) (hi : i.Truthful L s) (hs : i.Succeeds)
    (hfits : s.isComplete = false → i.Fits checks L) :
    ∃ r, s.pollRead checks L i = some r ∧ Served L s.currentPos i.remaining r := by
  by_cases hdone : L.fileSize ≤ s.currentPos ∨ i.remaining = 0
  · refine ⟨(s, .ready (.ok [])), ?_, h, rfl, rfl, Nat.zero_le _, fun _ hroom => ?_⟩
    · unfold pollRead
      rw [hs.current, if_neg Bool.false_ne_true, if_pos hdone]
    · omega
  · rw [not_or, not_le] at hdone
    obtain ⟨last, heq⟩ := pollRead_eq_readPiece hs.current (by omega) hdone.1 hfits
    refine ⟨_, heq, ?_⟩
    rw [pieceIndex_eq hdone.1]
    exact readPiece_spec (s := { s with lastPrioritiesPiece := last }) ⟨h.pos_le, h.cached⟩ hdone.1
      (by omega) ⟨hi.cached, hi.lookup⟩ hs

/-- Inside the file a seek completes, and reports the position. -/
theorem pollComplete_spec (h : s.Aligned L) (hfits : s.isComplete = false → p.Fits checks L) :
    ∃ last, s.pollComplete checks L p =
      some ({ s with lastPrioritiesPiece := last }, s.currentPos) := by
  unfold pollComplete
  split
  · obtain ⟨last, heq⟩ := s.setPriorities_spec h.pos_le hfits
    rw [heq, Option.map_some]
    exact ⟨last, rfl⟩
  · exact ⟨s.lastPrioritiesPiece, rfl⟩

end FileStream

/-! ### Seeks -/

/-- The seek goes to a position that depends on where the reader is. -/
def SeekFrom.Relative : SeekFrom → Prop
  | .current _ => True
  | _ => False

/-- The target of the seek, from a position, is not behind the end of the file. -/
def SeekFrom.Inside (L : FileLayout) (pos : ℕ) : SeekFrom → Prop
  | .start target => target ≤ L.fileSize
  | .current delta => pos + delta ≤ (L.fileSize : ℤ)
  | .fromEnd delta => delta ≤ 0

instance (L : FileLayout) (pos : ℕ) : ∀ position : SeekFrom, Decidable (position.Inside L pos)
  | .start target => inferInstanceAs (Decidable (target ≤ L.fileSize))
  | .current delta => inferInstanceAs (Decidable (pos + delta ≤ (L.fileSize : ℤ)))
  | .fromEnd delta => inferInstanceAs (Decidable (delta ≤ 0))

/-- Wrapping or panicking addition comes to what saturating addition comes to, cut off at the
end of the file, exactly if there is nothing to cut off. -/
theorem addI64_agrees_iff (checks : Bool) {base size : ℕ} {delta : ℤ} (hbase : base ≤ size)
    (hsize : size < 2 ^ 63) (hdelta : minI64 ≤ delta ∧ delta ≤ maxI64) :
    (∃ pos, (addI64 checks (asI64 base) delta).map (fun x => (max x 0).toNat) = some pos ∧
        pos = min (max (saturatingAddI64 (asI64 base) delta) 0).toNat size) ↔
      base + delta ≤ (size : ℤ) := by
  unfold minI64 maxI64 at hdelta
  rw [asI64_of_lt (by omega)]
  unfold addI64 saturatingAddI64 minI64 maxI64
  by_cases hfits : -2 ^ 63 ≤ (base : ℤ) + delta ∧ (base : ℤ) + delta ≤ 2 ^ 63 - 1
  · rw [if_pos hfits, Option.map_some]
    simp only [Option.some.injEq, exists_eq_left']
    omega
  · rw [if_neg hfits]
    -- only an overflow at the upper end is possible
    have hover : 2 ^ 63 - 1 < (base : ℤ) + delta := by omega
    cases checks with
    | true =>
      simp only [if_true, Option.map_none, reduceCtorEq, false_and, exists_false, false_iff]
      omega
    | false =>
      have hwrap : Int.bmod ((base : ℤ) + delta) (2 ^ 64) = base + delta - 2 ^ 64 := by
        rw [← Int.sub_bmod_right]
        exact Int.bmod_eq_of_le (by omega) (by omega)
      simp only [Bool.false_eq_true, if_false, Option.map_some, Option.some.injEq,
        exists_eq_left', hwrap]
      omega

/-- A seek of the memory-only reader, next to one of the disk-backed reader. -/
def SeekAgrees (checks : Bool) (L : FileLayout) (memory : FileStream) (disk : DiskStream)
    (position : SeekFrom) : Prop :=
  ∃ u, memory.startSeek checks L position = some u ∧
    u.currentPos = (disk.startSeek L position).currentPos

/-- **Seeks agree exactly if they stay inside the file**, from one position. -/
theorem startSeek_agrees_iff {checks : Bool} {L : FileLayout} {memory : FileStream}
    {disk : DiskStream} {position : SeekFrom} (hmemory : memory.currentPos ≤ L.fileSize)
    (hfits : position.Fits) (hsame : position.Relative → memory.currentPos = disk.currentPos) :
    SeekAgrees checks L memory disk position ↔ position.Inside L memory.currentPos := by
  have hsize : L.fileSize < 2 ^ 63 := by
    have hfits := L.fits
    have htotal := L.total_lt
    omega
  have htarget : SeekAgrees checks L memory disk position ↔
      ∃ pos, memory.seekTarget checks L position = some pos ∧
        pos = (disk.startSeek L position).currentPos := by
    simp only [SeekAgrees, FileStream.startSeek, Option.map_eq_some_iff]
    constructor
    · rintro ⟨u, ⟨pos, hpos, rfl⟩, heq⟩
      exact ⟨pos, hpos, heq⟩
    · rintro ⟨pos, hpos, heq⟩
      exact ⟨_, ⟨pos, hpos, rfl⟩, heq⟩
  rw [htarget]
  cases position with
  | start target =>
    simp only [FileStream.seekTarget, DiskStream.startSeek, SeekFrom.Inside, Option.some.injEq,
      exists_eq_left']
    omega
  | current delta =>
    simp only [FileStream.seekTarget, DiskStream.startSeek, SeekFrom.Inside,
      ← hsame trivial]
    exact addI64_agrees_iff checks hmemory hsize hfits
  | fromEnd delta =>
    simp only [FileStream.seekTarget, DiskStream.startSeek, SeekFrom.Inside]
    rw [addI64_agrees_iff checks (Nat.le_refl _) hsize hfits]
    omega

/-! ### Two readers -/

/-- A memory-only and a disk-backed reader of one file. -/
structure Pair where
  memory : FileStream
  disk : Session

/-- What the caller does: it seeks and completes the seek with both, and polls each of them
with a buffer of its own. -/
inductive PairStep
  | seek (position : SeekFrom)
  | complete (p : Planning)
  | pollMemory (i : MemoryInput)
  | pollDisk (i : PollInput)

variable (checks : Bool) (L : FileLayout)

/-- What the two readers are asked for can happen, and no piece fails. -/
def PairStep.guard (s : Pair) : PairStep → Prop
  | .seek position => position.Fits
  | .complete _ => True
  | .pollMemory i => i.Truthful L s.memory ∧ i.Succeeds
  | .pollDisk i => i.Truthful L s.disk ∧ i.Succeeds

/-- A memory-only reader that panics stays as it is. -/
def PairStep.effect (s : Pair) : PairStep → Pair
  | .seek position =>
      { memory := (s.memory.startSeek checks L position).getD s.memory
        disk := { s.disk with reader := s.disk.reader.startSeek L position } }
  | .complete p =>
      { s with memory := ((s.memory.pollComplete checks L p).map Prod.fst).getD s.memory }
  | .pollMemory i =>
      { s with memory := ((s.memory.pollRead checks L i).map Prod.fst).getD s.memory }
  | .pollDisk i =>
      { s with disk := { s.disk with reader := (s.disk.reader.pollRead L i s.disk.verified).1 } }

/-- **Two readers and their caller.** -/
def pair : GuardedSystem Pair PairStep where
  guard s a := a.guard L s
  effect s a := a.effect checks L s

/-- Two new readers. -/
structure Pair.Initial (s : Pair) : Prop where
  memory : ∃ isComplete last, s.memory = .new isComplete last
  disk : s.disk.Initial

/-- The readers do the same: no panic, the same position after a seek, and the bytes of the
file from a read. -/
def PairStep.Agrees (s : Pair) : PairStep → Prop
  | .seek position => SeekAgrees checks L s.memory s.disk.reader position
  | .complete p =>
      ∃ u, s.memory.pollComplete checks L p = some (u, s.memory.currentPos)
  | .pollMemory i =>
      ∃ r, s.memory.pollRead checks L i = some r ∧
        Serves L s.memory.currentPos i.remaining r.1.currentPos r.2
  | .pollDisk i =>
      let r := s.disk.reader.pollRead L i s.disk.verified
      Serves L s.disk.reader.currentPos i.remaining r.1.currentPos r.2

/-- **The condition.**  Seeks stay inside the file, relative ones start from one position, and
the numbers fit whenever the memory-only reader plans, which it does unless the file is complete.
No poll of the disk-backed reader meets an operation of its open file that it has left behind: a
native seek to another position, or a read where it has to seek. -/
def KeepsTogether (s : Pair) : PairStep → Prop
  | .seek position =>
      position.Inside L s.memory.currentPos ∧
        (position.Relative → s.memory.currentPos = s.disk.reader.currentPos)
  | .complete p => s.memory.isComplete = false → p.Fits checks L
  | .pollMemory i => s.memory.isComplete = false → i.Fits checks L
  | .pollDisk i => ¬ s.disk.StalePlace L i ∧ ¬ s.disk.BusySeek L (.poll i)

/-! ### The law -/

section Runs

variable {checks L} {s t : Pair}

/-- Both readers are in line. -/
structure Pair.Aligned (L : FileLayout) (s : Pair) : Prop where
  memory : s.memory.Aligned L
  disk : s.disk.reader.Aligned L s.disk.verified
  linked : s.disk.reader.Linked

theorem Pair.Initial.aligned (h : s.Initial) : s.Aligned L := by
  obtain ⟨⟨isComplete, last, heq⟩, hdisk⟩ := h
  refine ⟨⟨?_, ?_⟩, hdisk.aligned, hdisk.linked⟩
  · simp [heq, FileStream.new]
  · simp [heq, FileStream.new]

/-- A read of the disk-backed reader that neither strays nor fails does what it should. -/
theorem serves_of_delivers {pos remaining : ℕ} {r : DiskStream × ReadPoll}
    (h : DiskStream.Delivers L pos remaining r) (hr : ∀ error, r.2 ≠ .ready (.error error)) :
    Serves L pos remaining r.1.currentPos r.2 := by
  obtain ⟨u, result⟩ := r
  cases result with
  | pending => exact h
  | ready result =>
    cases result with
    | error error => exact absurd rfl (hr error)
    | ok bytes =>
      obtain ⟨hbytes, hpos, hlength, -, hnil⟩ := h
      exact ⟨hbytes, hpos, hlength, hnil⟩

/-- **One step.**  It keeps the readers in line, and they agree. -/
theorem Pair.Aligned.step (h : s.Aligned L) {a : PairStep} (hg : a.guard L s)
    (hc : KeepsTogether checks L s a) : a.Agrees checks L s ∧ (a.effect checks L s).Aligned L := by
  cases a with
  | seek position =>
    have hagrees : SeekAgrees checks L s.memory s.disk.reader position :=
      (startSeek_agrees_iff h.memory.pos_le hg hc.2).mpr hc.1
    refine ⟨hagrees, ?_⟩
    have hdisk := aligned_startSeek h.disk position
    obtain ⟨u, hu, hpos⟩ := hagrees
    refine ⟨?_, hdisk, h.linked⟩
    change ((s.memory.startSeek checks L position).getD s.memory).Aligned L
    rw [hu, Option.getD_some]
    refine ⟨hpos ▸ hdisk.pos_le, fun piece data hcached => ?_⟩
    obtain ⟨pos, -, rfl⟩ := Option.map_eq_some_iff.mp hu
    cases hcached
  | complete p =>
    obtain ⟨last, hu⟩ := FileStream.pollComplete_spec h.memory hc
    refine ⟨⟨_, hu⟩, ?_, h.disk, h.linked⟩
    have haligned : ({ s.memory with lastPrioritiesPiece := last } : FileStream).Aligned L :=
      ⟨h.memory.pos_le, h.memory.cached⟩
    simpa [PairStep.effect, hu] using haligned
  | pollMemory i =>
    obtain ⟨r, hr, haligned, hserves⟩ := FileStream.pollRead_spec h.memory hg.1 hg.2 hc
    refine ⟨⟨r, hr, hserves⟩, ?_, h.disk, h.linked⟩
    simpa [PairStep.effect, hr] using haligned
  | pollDisk i =>
    obtain ⟨haligned, hdelivers⟩ := pollRead_spec h.disk hg.1 hc.1
    obtain ⟨hfails, hlinked⟩ := pollRead_fails_iff hg.2 h.linked
    refine ⟨serves_of_delivers hdelivers fun error herror => ?_, h.memory, haligned, hlinked⟩
    exact hc.2 (hfails.mp ⟨error, herror⟩)

/-- **The readers agree.**  In every run that meets the condition, every step that meets it
finds them in agreement, and a seek that starts both from one position does so if and only if
it stays inside the file. -/
theorem readers_agree (hs : s.Initial) (h : (pair checks L).Reach (KeepsTogether checks L) s t) :
    (∀ a : PairStep, a.guard L t → KeepsTogether checks L t a → a.Agrees checks L t) ∧
      ∀ position : SeekFrom, position.Fits →
        (position.Relative → t.memory.currentPos = t.disk.reader.currentPos) →
        ((PairStep.seek position).Agrees checks L t ↔ position.Inside L t.memory.currentPos) := by
  have ht : t.Aligned L :=
    h.invariant hs.aligned fun u a hu hg hc => (hu.step hg hc).2
  exact ⟨fun a hg hc => (ht.step hg hc).1,
    fun position hfits hsame => startSeek_agrees_iff ht.memory.pos_le hfits hsame⟩

end Runs

/-! ### Seeks past the end -/

/-- Two new readers of `twoPieces`, of which nothing was complete when they were made. -/
def twoReaders : Pair := ⟨.new false 0, openSession⟩

theorem twoReaders_initial : twoReaders.Initial := ⟨⟨false, 0, rfl⟩, openSession_initial⟩

/-- A poll with room for two bytes that finds the second piece of `twoPieces` in the cache. -/
def secondCached : MemoryInput where
  remaining := 2
  cancelled := false
  now := 0
  planning := idlePlanning
  replanning := some idlePlanning
  cached := some (twoPieces.pieceBytes 1)
  lookup := .missed
  havePiece := true
  stored := []

theorem secondCached_fits (checks : Bool) : secondCached.Fits checks twoPieces where
  planning := idlePlanning_fits checks (by decide)
  replanning p hp := by
    obtain rfl := Option.some.inj hp
    exact idlePlanning_fits checks (by decide)

theorem secondCached_guard {s : Pair} (h : twoPieces.pieceOf s.memory.currentPos = 1) :
    (PairStep.pollMemory secondCached).guard twoPieces s := by
  refine ⟨⟨fun data hdata => ?_, nofun⟩, ⟨rfl, nofun⟩⟩
  rw [h]
  exact (Option.some.inj hdata).symm

/-- What there is to check of a poll of the disk-backed reader. -/
instance (s : Pair) (i : PollInput) : Decidable ((pair checks L).guard s (.pollDisk i)) :=
  inferInstanceAs (Decidable (i.Truthful L s.disk ∧ i.Succeeds))

instance (s : Pair) (i : PollInput) : Decidable (KeepsTogether checks L s (.pollDisk i)) :=
  inferInstanceAs (Decidable (_ ∧ _))

/-- Both readers go to byte 4 and read: the memory-only one has handed out bytes 4 and 5, and the
disk-backed one byte 4. -/
def readersInside : List PairStep :=
  [.seek (.start 4), .complete idlePlanning, .pollMemory secondCached,
    .pollDisk (onDisk .pending .pending), .pollDisk (onDisk .done .done)]

/-- What has become of them. -/
def readersMoved : Pair := readersInside.foldl (fun s a => a.effect true twoPieces s) twoReaders

/-- There they agree about what comes next: bytes 6 and 7, and byte 5, and a seek to the end. -/
theorem readers_agree_inside :
    ∃ t, (pair true twoPieces).Reach (KeepsTogether true twoPieces) twoReaders t ∧
      t.memory.currentPos = 6 ∧ t.disk.reader.currentPos = 5 ∧
      (t.memory.pollRead true twoPieces secondCached).map Prod.snd = some (.ready (.ok [6, 7])) ∧
      (PairStep.pollMemory secondCached).Agrees true twoPieces t ∧
      (t.disk.reader.pollRead twoPieces (onDisk .done .done) t.disk.verified).2 =
        .ready (.ok [5]) ∧
      (PairStep.pollDisk (onDisk .done .done)).Agrees true twoPieces t ∧
      (PairStep.seek (.start 8)).Agrees true twoPieces t := by
  have h : (pair true twoPieces).Reach (KeepsTogether true twoPieces) twoReaders readersMoved := by
    refine ⟨readersInside, ?_⟩
    apply GuardedSystem.Path.cons
      (show (SeekFrom.start 4).Fits by decide)
      ⟨show (SeekFrom.start 4).Inside twoPieces 0 by decide, fun hrelative => hrelative.elim⟩
    apply GuardedSystem.Path.cons trivial fun _ => idlePlanning_fits true (by decide)
    apply GuardedSystem.Path.cons (secondCached_guard (by decide)) fun _ => secondCached_fits true
    apply GuardedSystem.Path.cons (by decide) (by decide)
    apply GuardedSystem.Path.cons (by decide) (by decide)
    exact .nil _
  have hagree := (readers_agree twoReaders_initial h).1
  have hdisk : (pair true twoPieces).guard readersMoved (.pollDisk (onDisk .done .done)) := by decide
  exact ⟨_, h, by decide, by decide, by decide,
    hagree (.pollMemory secondCached) (secondCached_guard (by decide)) fun _ => secondCached_fits true,
    by decide, hagree (.pollDisk (onDisk .done .done)) hdisk (by decide),
    ((readers_agree twoReaders_initial h).2 (.start 8) (by decide) fun hrelative =>
      hrelative.elim).mpr (show (SeekFrom.start 8).Inside twoPieces 6 by decide)⟩

/-- A seek past the end leaves the memory-only reader there, and completing one further behind
panics.  From byte 1, the longest relative seek takes it to the start, or panics. -/
theorem readers_disagree :
    (∀ pos < 8, (twoPieces.pieceOf pos : ℤ) ∈ twoReaders.disk.verified) ∧
      (twoReaders.disk.reader.startSeek twoPieces (.start 9)).currentPos = 8 ∧
      ((twoReaders.memory.startSeek false twoPieces (.start 9)).map (·.currentPos)) = some 9 ∧
      idlePlanning.Fits false twoPieces ∧
      ((twoReaders.memory.startSeek false twoPieces (.start 13)).map fun u =>
        (u.pollComplete false twoPieces idlePlanning).isNone) = some true ∧
      ∃ t, (∀ checks, (pair checks twoPieces).Reach GuardedSystem.anyStep twoReaders t) ∧
        t.memory.currentPos = 1 ∧
        (t.disk.reader.startSeek twoPieces (.current maxI64)).currentPos = 8 ∧
        ((t.memory.startSeek false twoPieces (.current maxI64)).map (·.currentPos)) = some 0 ∧
        (t.memory.startSeek true twoPieces (.current maxI64)).isNone := by
  refine ⟨by decide, by decide, by decide, idlePlanning_fits false (by decide), by decide,
    (PairStep.seek (.start 1)).effect true twoPieces twoReaders, fun checks => ?_, by decide,
    by decide, by decide, by decide⟩
  have hstart : (pair checks twoPieces).Reach GuardedSystem.anyStep twoReaders twoReaders := .refl _
  have hfits : (pair checks twoPieces).guard twoReaders (.seek (.start 1)) :=
    show (SeekFrom.start 1).Fits by decide
  exact hstart.step hfits trivial

end StreamServer.Readers

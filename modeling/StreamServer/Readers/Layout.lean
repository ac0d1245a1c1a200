import Mathlib.Data.Int.Init
import Mathlib.Tactic.Linarith
import StreamServer.Lib.Stretch

/-!
# Files inside a torrent

A torrent is one long run of bytes, cut into pieces of equal length; a file is a
stretch of it and need not start or end at a piece boundary.  Readers compute the
piece of a position, and the part of a piece that belongs to the file, with
machine integers.  `FileLayout` carries the bounds every torrent meets, under which
these computations are exact.

## Main definitions

* `FileLayout` — one file of a torrent, and the bytes of the torrent.
* `FileLayout.pieceOf`, `pieceBytes`, `fileByte` — pieces and bytes by position.
* `SeekFrom` — where a seek goes.

## Main results

* `FileLayout.asI32_piece` — piece numbers fit their machine type.
* `FileLayout.slice_pieceBytes` — the part of a piece that starts at a position of the
  file is what the file holds there.

## References

`bindings/libtorrent-sys/cpp/wrapper.cpp`, `handle_get_files`;
`enginefs/src/backend/libtorrent/disk_stream.rs`.
-/

namespace StreamServer.Readers

/-! ### Machine integers -/

/-- `x as i32`. -/
def asI32 (x : ℕ) : ℤ := Int.bmod x (2 ^ 32)

/-- `x as i64`. -/
def asI64 (x : ℕ) : ℤ := Int.bmod x (2 ^ 64)

/-- `u64::MAX`. -/
def maxU64 : ℕ := 2 ^ 64 - 1

/-- `i64::MAX`. -/
def maxI64 : ℤ := 2 ^ 63 - 1

/-- `i64::MIN`. -/
def minI64 : ℤ := -2 ^ 63

/-- `a.saturating_add(b)` for `u64`. -/
def saturatingAdd (a b : ℕ) : ℕ := min (a + b) maxU64

/-- `a.saturating_mul(b)` for `u64`. -/
def saturatingMul (a b : ℕ) : ℕ := min (a * b) maxU64

/-- `a.saturating_add(b)` for `i64`. -/
def saturatingAddI64 (a b : ℤ) : ℤ := max minI64 (min (a + b) maxI64)

theorem asI32_of_lt {x : ℕ} (h : x < 2 ^ 31) : asI32 x = x :=
  Int.bmod_eq_of_le (by omega) (by omega)

theorem asI64_of_lt {x : ℕ} (h : x < 2 ^ 63) : asI64 x = x :=
  Int.bmod_eq_of_le (by omega) (by omega)

theorem saturatingAdd_of_lt {a b : ℕ} (h : a + b < 2 ^ 64) : saturatingAdd a b = a + b :=
  min_eq_left (by unfold maxU64; omega)

theorem saturatingMul_of_lt {a b : ℕ} (h : a * b < 2 ^ 64) : saturatingMul a b = a * b :=
  min_eq_left (by unfold maxU64; omega)

/-! ### Errors and polls -/

/-- The kinds of errors that the readers give. -/
inductive ErrorKind
  | interrupted
  | invalidData
  | unexpectedEof
  | notFound
  | invalidInput
  | brokenPipe
  | timedOut
  | other
  deriving DecidableEq, Repr

/-- `std::io::Error`. -/
structure IoError where
  kind : ErrorKind
  message : String
  deriving DecidableEq, Repr

/-- `Poll`. -/
inductive Poll (α : Type)
  | pending
  | ready (result : α)
  deriving DecidableEq, Repr

/-- What a read comes to: the bytes it has put into the caller's buffer, unless it is
pending or has failed. -/
abbrev ReadPoll := Poll (Except IoError (List UInt8))

/-- Where a seek goes. -/
inductive SeekFrom
  | start (position : ℕ)
  | current (delta : ℤ)
  | fromEnd (delta : ℤ)
  deriving DecidableEq, Repr

/-- The position of a seek is a `u64`, and its offset an `i64`. -/
def SeekFrom.Fits : SeekFrom → Prop
  | .start position => position ≤ maxU64
  | .current delta | .fromEnd delta => minI64 ≤ delta ∧ delta ≤ maxI64

instance (position : SeekFrom) : Decidable position.Fits := by
  cases position <;> (dsimp only [SeekFrom.Fits]; infer_instance)

/-! ### Layouts -/

/-- One file of a torrent.  Sizes are `i64` and piece numbers `i32` in the native library,
which refuses a torrent that does not fit. -/
structure FileLayout where
  pieceLength : ℕ
  fileOffset : ℕ
  fileSize : ℕ
  totalSize : ℕ
  /-- The bytes of the torrent. -/
  content : ℕ → UInt8
  pieceLength_pos : 0 < pieceLength
  fits : fileOffset + fileSize ≤ totalSize
  total_lt : totalSize < 2 ^ 63
  pieces_lt : totalSize ≤ 2 ^ 31 * pieceLength
  pieceLength_lt : pieceLength < 2 ^ 31

namespace FileLayout

variable (L : FileLayout)

/-- The byte of the file at a position. -/
def fileByte (pos : ℕ) : UInt8 := L.content (L.fileOffset + pos)

/-- The number of the piece a position of the file lies in. -/
def pieceOf (pos : ℕ) : ℕ := (L.fileOffset + pos) / L.pieceLength

/-- `first_piece`. -/
def firstPiece : ℤ := asI32 (L.fileOffset / L.pieceLength)

/-- `last_piece`. -/
def lastPiece : ℤ := asI32 ((L.fileOffset + L.fileSize - 1) / L.pieceLength)

/-- The bytes of a piece; the last piece may be a shorter one. -/
def pieceBytes (piece : ℕ) : List UInt8 :=
  stretch L.content (piece * L.pieceLength)
    (min L.pieceLength (L.totalSize - piece * L.pieceLength))

variable {L} {pos : ℕ}

theorem pieceOf_lt (h : pos < L.fileSize) : L.pieceOf pos < 2 ^ 31 := by
  have hfits := L.fits
  have hpieces := L.pieces_lt
  rw [pieceOf, Nat.div_lt_iff_lt_mul L.pieceLength_pos]
  omega

/-- The piece of a position fits its machine type. -/
theorem asI32_piece (h : pos < L.fileSize) : asI32 (L.pieceOf pos) = L.pieceOf pos :=
  asI32_of_lt (pieceOf_lt h)

/-- The position lies between the ends of its piece. -/
theorem pieceOf_spec (L : FileLayout) (pos : ℕ) :
    L.pieceOf pos * L.pieceLength ≤ L.fileOffset + pos ∧
      L.fileOffset + pos < L.pieceOf pos * L.pieceLength + L.pieceLength := by
  constructor
  · exact Nat.div_mul_le_self _ _
  · have hlt := Nat.lt_mul_div_succ (L.fileOffset + pos) L.pieceLength_pos
    rwa [Nat.mul_comm, Nat.add_one_mul] at hlt

theorem pieceOf_mono (L : FileLayout) {pos pos' : ℕ} (h : pos ≤ pos') :
    L.pieceOf pos ≤ L.pieceOf pos' :=
  Nat.div_le_div_right (Nat.add_le_add_left h _)

/-- A position of the file lies in one of its pieces. -/
theorem pieceOf_inside (h : pos < L.fileSize) :
    L.firstPiece ≤ L.pieceOf pos ∧ (L.pieceOf pos : ℤ) ≤ L.lastPiece := by
  have hfirst : L.fileOffset / L.pieceLength = L.pieceOf 0 := rfl
  have hlast : (L.fileOffset + L.fileSize - 1) / L.pieceLength = L.pieceOf (L.fileSize - 1) := by
    rw [pieceOf, show L.fileOffset + L.fileSize - 1 = L.fileOffset + (L.fileSize - 1) by omega]
  rw [firstPiece, lastPiece, hfirst, hlast, asI32_piece (by omega), asI32_piece (by omega)]
  exact ⟨Int.ofNat_le.mpr (L.pieceOf_mono (Nat.zero_le _)),
    Int.ofNat_le.mpr (L.pieceOf_mono (by omega))⟩

/-- Another position short of the end of the piece lies in the same piece. -/
theorem pieceOf_eq {pos' : ℕ} (h : pos ≤ pos')
    (hlt : L.fileOffset + pos' < L.pieceOf pos * L.pieceLength + L.pieceLength) :
    L.pieceOf pos' = L.pieceOf pos := by
  refine le_antisymm ?_ (L.pieceOf_mono h)
  rw [pieceOf, ← Nat.lt_succ_iff, Nat.div_lt_iff_lt_mul L.pieceLength_pos, Nat.add_one_mul]
  exact hlt

theorem length_pieceBytes (piece : ℕ) : (L.pieceBytes piece).length =
    min L.pieceLength (L.totalSize - piece * L.pieceLength) := length_stretch

/-- **The part of a piece that starts at a position of the file** is what the file holds
there. -/
theorem slice_pieceBytes {len : ℕ}
    (hlen : (L.fileOffset + pos - L.pieceOf pos * L.pieceLength) + len ≤
      (L.pieceBytes (L.pieceOf pos)).length) :
    ((L.pieceBytes (L.pieceOf pos)).drop
        (L.fileOffset + pos - L.pieceOf pos * L.pieceLength)).take len =
      stretch L.fileByte pos len := by
  have hspec := (L.pieceOf_spec pos).1
  rw [length_pieceBytes] at hlen
  rw [pieceBytes, drop_stretch, take_stretch, min_eq_left (by omega), min_eq_left (by omega),
    Nat.add_sub_cancel' hspec]
  exact (stretch_shift L.fileOffset).symm

end FileLayout

end StreamServer.Readers

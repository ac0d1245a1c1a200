import StreamServer.Playback.PriorityOrder
import StreamServer.Readers.Layout

/-!
# Planning priorities for a reader

A reader asks the policy for a window of pieces when it comes to another piece, when it has served
one and when it waits for one.  The policy computes with numbers of 32 bits and makes room for the
window.  With overflow checks it panics where a number does not fit; without them it goes on with
what is left of the number, and panics only if the window comes out negative.

Inside the file that depends on the size of the cache, which is counted in pieces and cut to 32
bits, on the bitrate of a reader that has waited, and on whether one can count beyond the last
piece.

## Main definitions

* `PriorityContext.DecidePanics` — the policy panics.
* `Planning`, `Planning.Panics` — what a reader knows when it asks the policy; asking it panics.
* `Planning.Fits` — the numbers fit.

## Main results

* `Planning.Fits.not_panics` — if the numbers fit, a reader inside its file can plan.

## References

`enginefs/src/backend/libtorrent/stream.rs`, `set_priorities`;
`enginefs/src/backend/priorities.rs`, `PlaybackPriorityPolicy::decide`.
-/

namespace StreamServer.Playback.PriorityContext

open Checked

/-! ### The policy without overflow checks -/

variable (ctx : PriorityContext)

/-- The windows that are asked for.  The only number that may not fit is the hot window when it is
doubled. -/
def wrappedWindows : PieceWindows :=
  match ctx.windows with
  | .ok w => w
  | .error _ =>
      let hot := max ctx.dynamicHotWindow MIN_SEEK_HOT_PIECES
      let hot := min (Int.bmod (hot * 2) (2 ^ 32)) MAX_HOT_PIECES
      ⟨min (SEEK_IMMEDIATE_PIECES * 2) hot, hot, 32, "seek-blocked-expand"⟩

/-- The length of the window that room is made for. -/
def wrappedTarget : ℤ :=
  let remainingPieces :=
    Int.bmod (saturatingI32 (ctx.lastPiece.toInt - ctx.currentPiece.toInt) + 1) (2 ^ 32)
  let w := ctx.fit remainingPieces (ctx.capBytes (ctx.clampMemory ctx.wrappedWindows))
  Int.bmod (w.hot + w.warm) (2 ^ 32)

/-- `decide` panics: without overflow checks it does so where it makes room for the window. -/
def DecidePanics (checks : Bool) : Prop :=
  if checks = true then (PlaybackPriorityPolicy.decide ctx).isOk = false
  else ctx.Valid ∧ ctx.wrappedTarget < 0

instance (checks : Bool) : Decidable (ctx.DecidePanics checks) :=
  inferInstanceAs (Decidable (if checks = true then _ else _))

variable {ctx}

/-- The window is no longer than the cache and the rest of the file, so it fits if they do. -/
theorem wrappedTarget_nonneg (hcurrent : ctx.currentPiece.toInt ≤ ctx.lastPiece.toInt + 1)
    (hleft : ctx.lastPiece.toInt - ctx.currentPiece.toInt < 2 ^ 31 - 1)
    (hcache : 0 ≤ ctx.maxCachePieces) : 0 ≤ ctx.wrappedTarget := by
  have hremaining :
      Int.bmod (saturatingI32 (ctx.lastPiece.toInt - ctx.currentPiece.toInt) + 1) (2 ^ 32) =
        ctx.lastPiece.toInt - ctx.currentPiece.toInt + 1 := by
    have hsame : saturatingI32 (ctx.lastPiece.toInt - ctx.currentPiece.toInt) =
        ctx.lastPiece.toInt - ctx.currentPiece.toInt := by
      rw [saturatingI32]
      omega
    rw [hsame]
    exact Int.bmod_eq_of_le (by omega) (by omega)
  rw [wrappedTarget, hremaining]
  have hfits := fit_fits (w := ctx.capBytes (ctx.clampMemory ctx.wrappedWindows)) hcache
    (show 0 ≤ ctx.lastPiece.toInt - ctx.currentPiece.toInt + 1 by omega)
  have himmediate := hfits.immediate_nonneg
  have hhot := hfits.immediate_le
  have hwarm := hfits.warm_nonneg
  have hfew := hfits.few
  rw [Int.bmod_eq_of_le (by omega) (by omega)]
  omega

/-- **Where the numbers fit, the policy does not panic.** -/
theorem not_decidePanics (checks : Bool)
    (hcurrent : ctx.currentPiece.toInt ≤ ctx.lastPiece.toInt + 1)
    (hleft : ctx.firstPiece.toInt ≤ ctx.currentPiece.toInt →
      ctx.lastPiece.toInt - ctx.currentPiece.toInt < 2 ^ 31 - 1)
    (hcache : ctx.cacheSizeBytes.toNat / ctx.pieceLength.toNat % 2 ^ 32 < 2 ^ 31)
    (hdouble : checks = true → ¬ ctx.DoublesTooFar) : ¬ ctx.DecidePanics checks := by
  by_cases hvalid : ctx.Valid
  · have hleft := hleft hvalid.2.1
    unfold DecidePanics
    split
    · next hchecks =>
      obtain ⟨w, w', -, -, hdecide⟩ :=
        decide_eq hvalid ⟨hcurrent, hleft, hcache, hdouble hchecks⟩
      rw [hdecide]
      exact Bool.noConfusion
    · intro h
      have hnonneg := wrappedTarget_nonneg hcurrent hleft (maxCachePieces_nonneg_iff.mpr hcache)
      exact absurd hnonneg (not_le.mpr h.2)
  · -- in a context that makes no sense there is nothing to compute
    unfold DecidePanics
    split
    · rw [PlaybackPriorityPolicy.decide, if_pos hvalid]
      exact Bool.noConfusion
    · exact fun h => hvalid h.1

end StreamServer.Playback.PriorityContext

namespace StreamServer.Readers

open Playback

/-! ### Pieces at the ends of a file -/

theorem fits_i32 (x : ℕ) : -2 ^ 31 ≤ asI32 x ∧ asI32 x < 2 ^ 31 := by
  have hle : -((2 ^ 32 : ℕ) / 2 : ℤ) ≤ Int.bmod x (2 ^ 32) := Int.le_bmod (Nat.two_pow_pos 32)
  have hlt : Int.bmod x (2 ^ 32) < (((2 ^ 32 : ℕ) : ℤ) + 1) / 2 := Int.bmod_lt (Nat.two_pow_pos 32)
  unfold asI32
  omega

namespace FileLayout

variable {L : FileLayout}

theorem lastPiece_eq (L : FileLayout) :
    L.lastPiece = ((L.fileOffset + L.fileSize - 1) / L.pieceLength : ℕ) := by
  have hlength := L.pieceLength_pos
  have hfits := L.fits
  have hpieces := L.pieces_lt
  refine asI32_of_lt ((Nat.div_lt_iff_lt_mul hlength).mpr ?_)
  omega

/-- The piece of a position is at most the one behind the last. -/
theorem piece_le_succ (L : FileLayout) {pos : ℕ} (hpos : pos ≤ L.fileSize) :
    (L.fileOffset + pos) / L.pieceLength ≤
      (L.fileOffset + L.fileSize - 1) / L.pieceLength + 1 := by
  have hlength := L.pieceLength_pos
  rw [← Nat.add_div_right _ hlength]
  exact Nat.div_le_div_right (by omega)

/-- The number of the piece behind the last one may not fit, and wraps around. -/
theorem asI32_le_lastPiece (L : FileLayout) {pos : ℕ} (hpos : pos ≤ L.fileSize) :
    asI32 ((L.fileOffset + pos) / L.pieceLength) ≤ L.lastPiece + 1 := by
  have hle := L.piece_le_succ hpos
  have hlast := L.lastPiece_eq
  rcases Nat.lt_or_ge ((L.fileOffset + pos) / L.pieceLength) (2 ^ 31) with hlt | hge
  · rw [asI32_of_lt hlt, hlast]
    exact_mod_cast hle
  · have hlt : L.lastPiece < 2 ^ 31 := (fits_i32 _).2
    have heq : (L.fileOffset + pos) / L.pieceLength = 2 ^ 31 := by omega
    rw [heq, show asI32 (2 ^ 31) = -2 ^ 31 by decide]
    omega

theorem firstPiece_nonneg (h : L.lastPiece < 2 ^ 31 - 1) : 0 ≤ L.firstPiece := by
  have hle := L.piece_le_succ (Nat.zero_le _)
  rw [L.lastPiece_eq] at h
  rw [Nat.add_zero] at hle
  rw [firstPiece, asI32_of_lt (by omega)]
  exact Int.natCast_nonneg _

end FileLayout

/-! ### What a reader asks -/

/-- What a reader knows when it asks the policy, besides its file and the piece. -/
structure Planning where
  intent : PlaybackIntent
  bitrateBytesPerSec : Option UInt64
  downloadRateBytesPerSec : UInt64
  peers : UInt64
  cacheSizeBytes : UInt64
  memoryPressure : MemoryPressure
  consecutiveWaits : UInt32
  firstByteSent : Bool
  deriving DecidableEq, Repr

namespace Planning

variable (checks : Bool) (L : FileLayout) (p : Planning)

/-- What the policy is asked about a piece. -/
def context (piece : ℤ) : PriorityContext where
  intent := p.intent
  currentPiece := Int32.ofInt piece
  firstPiece := Int32.ofInt L.firstPiece
  lastPiece := Int32.ofInt L.lastPiece
  pieceLength := UInt64.ofNat L.pieceLength
  fileSize := UInt64.ofNat L.fileSize
  bitrateBytesPerSec := p.bitrateBytesPerSec
  downloadRateBytesPerSec := p.downloadRateBytesPerSec
  peers := p.peers
  cacheSizeBytes := p.cacheSizeBytes
  memoryPressure := p.memoryPressure
  consecutiveWaits := p.consecutiveWaits
  firstByteSent := p.firstByteSent

/-- Asking the policy panics. -/
def Panics (piece : ℤ) : Prop := (p.context L piece).DecidePanics checks

instance (piece : ℤ) : Decidable (p.Panics checks L piece) :=
  inferInstanceAs (Decidable ((p.context L piece).DecidePanics checks))

/-- **The numbers fit**: one can count beyond the last piece, the cache in pieces is not negative
when it is cut to 32 bits, and with overflow checks the hot window can be doubled. -/
structure Fits : Prop where
  last : L.lastPiece < 2 ^ 31 - 1
  cache : p.cacheSizeBytes.toNat / L.pieceLength % 2 ^ 32 < 2 ^ 31
  double : checks = true → ∀ piece, ¬ (p.context L piece).DoublesTooFar

variable {checks L p}

theorem toInt_ofInt {n : ℤ} (h : -2 ^ 31 ≤ n ∧ n < 2 ^ 31) : (Int32.ofInt n).toInt = n :=
  Int32.toInt_ofInt_of_le h.1 h.2

/-- **If the numbers fit, a reader can plan** for any piece up to the one behind its last. -/
theorem Fits.not_panics (h : p.Fits checks L) {piece : ℤ} (hpiece : -2 ^ 31 ≤ piece ∧ piece < 2 ^ 31)
    (hle : piece ≤ L.lastPiece + 1) : ¬ p.Panics checks L piece := by
  have hlength := L.pieceLength_lt
  have hlengthNat : (p.context L piece).pieceLength.toNat = L.pieceLength :=
    UInt64.toNat_ofNat_of_lt' (Nat.lt_trans hlength (by decide))
  have hcache : (p.context L piece).cacheSizeBytes = p.cacheSizeBytes := rfl
  have hcurrent : (p.context L piece).currentPiece.toInt = piece := toInt_ofInt hpiece
  have hfirst : (p.context L piece).firstPiece.toInt = L.firstPiece := toInt_ofInt (fits_i32 _)
  have hlast : (p.context L piece).lastPiece.toInt = L.lastPiece := toInt_ofInt (fits_i32 _)
  -- the first piece is not negative, or the last would be the last one can count to
  have hzero : 0 ≤ L.firstPiece := FileLayout.firstPiece_nonneg h.last
  apply PriorityContext.not_decidePanics
  · rw [hcurrent, hlast]
    exact hle
  · rw [hcurrent, hfirst, hlast]
    have hend := h.last
    omega
  · rw [hcache, hlengthNat]
    exact h.cache
  · exact fun hchecks => h.double hchecks piece

/-- So it can for the piece of its position. -/
theorem Fits.not_panics_inside (h : p.Fits checks L) {pos : ℕ} (hpos : pos ≤ L.fileSize) :
    ¬ p.Panics checks L (asI32 ((L.fileOffset + pos) / L.pieceLength)) :=
  h.not_panics (fits_i32 _) (L.asI32_le_lastPiece hpos)

end Planning

/-- A planning without a bitrate, of a reader without a cache of its own. -/
def idlePlanning : Planning where
  intent := .background
  bitrateBytesPerSec := none
  downloadRateBytesPerSec := 0
  peers := 0
  cacheSizeBytes := 0
  memoryPressure := .normal
  consecutiveWaits := 0
  firstByteSent := false

theorem idlePlanning_fits (checks : Bool) {L : FileLayout} (h : L.lastPiece < 2 ^ 31 - 1) :
    idlePlanning.Fits checks L where
  last := h
  cache := by
    rw [show idlePlanning.cacheSizeBytes.toNat = 0 from rfl, Nat.zero_div]
    decide
  double := by
    rintro - piece ⟨hseek | hseek, -⟩
    · cases hseek
    · cases hseek

end StreamServer.Readers

import Mathlib.Algebra.Order.Ring.Int
import StreamServer.Playback.Priorities

/-!
# Which pieces the policy asks for

The windows are cut to the cache and to the file at the end, whatever has been asked for before.  So if
the numbers fit, the policy asks for the pieces from the current one on, in order, and for no more than
there are.  There are three places where they may not fit: one more than the difference of two pieces, the
cache in pieces, and the hot window when it is doubled.  For a piece beyond the one behind the file the
windows are negative.

## Main definitions

* `PriorityContext.Sound` — the numbers fit.
* `SafeDecision`, `OrderedDecision` — what there is to say about a decision.

## Main results

* `decide_eq` — the decision, if the numbers fit.
* `decidesSafely_iff` — **the policy comes to a safe decision exactly if** the numbers fit and the current
  piece is no further than the one behind the file.
* `decidesInOrder_iff` — **the pieces come in order, and within the bounds,** if there are fewer than
  `2 ^ 31` left.

## References

`enginefs/src/backend/priorities.rs`.
-/

namespace StreamServer.Playback

open Checked

/-! ### What a decision has to be -/

/-- Nothing in a decision is negative, and it asks for pieces of the file only. -/
structure SafeDecision (ctx : PriorityContext) (d : PriorityDecision) : Prop where
  target_nonneg : 0 ≤ d.targetWindowPieces
  immediate_nonneg : 0 ≤ d.immediatePieces
  hot_nonneg : 0 ≤ d.hotWindowPieces
  warm_nonneg : 0 ≤ d.warmWindowPieces
  inside : ∀ a ∈ d.assignments, ctx.firstPiece.toInt ≤ a.pieceIdx ∧ a.pieceIdx ≤ ctx.lastPiece.toInt

/-- The policy comes to a decision, with all arithmetic within 32 bits, and it is safe. -/
def DecidesSafely (ctx : PriorityContext) : Prop :=
  ∃ d, PlaybackPriorityPolicy.decide ctx = .ok d ∧ SafeDecision ctx d

/-- The intents of those who play or download. -/
def PlaybackIntent.isPlayback : PlaybackIntent → Bool
  | .containerMetadata | .internalProbe | .background => false
  | _ => true

/-- The pieces are those from the current one on, in order, and the bounds are kept. -/
structure OrderedDecision (ctx : PriorityContext) (d : PriorityDecision) : Prop where
  length_eq : (d.assignments.length : ℤ) = d.hotWindowPieces + d.warmWindowPieces
  target_eq : d.targetWindowPieces = d.hotWindowPieces + d.warmWindowPieces
  consecutive : ∀ (k : ℕ) a, d.assignments[k]? = some a → a.pieceIdx = ctx.currentPiece.toInt + k
  inside : ∀ a ∈ d.assignments, ctx.firstPiece.toInt ≤ a.pieceIdx ∧ a.pieceIdx ≤ ctx.lastPiece.toInt
  target_le : ctx.cacheSizeBytes ≠ 0 →
    d.targetWindowPieces ≤ (max 1 (ctx.cacheSizeBytes.toNat / ctx.pieceLength.toNat) : ℕ)
  immediate_le : d.immediatePieces ≤ d.hotWindowPieces
  priorities : (d.assignments.map (·.piecePriority)).Pairwise (· ≥ ·)
  deadlines : (d.assignments.map (·.deadline)).Pairwise (· ≤ ·)
  bands : ctx.intent.isPlayback → ∀ (k : ℕ) a, d.assignments[k]? = some a → a.band =
    if (k : ℤ) < d.immediatePieces then .immediate
    else if (k : ℤ) < d.hotWindowPieces then .hot else .warm
  bytes_lt : d.hotWindowPieces * ctx.pieceLength.toNat < ctx.hotByteCap + ctx.pieceLength.toNat

/-- The policy comes to a decision, with all arithmetic within 32 bits, and it is in order. -/
def DecidesInOrder (ctx : PriorityContext) : Prop :=
  ∃ d, PlaybackPriorityPolicy.decide ctx = .ok d ∧ OrderedDecision ctx d

namespace PriorityContext

/-- The pieces of ten seconds. -/
def playedPieces (ctx : PriorityContext) (bitrate : UInt64) : ℕ :=
  min (bitrate.toNat * 10) (2 ^ 64 - 1) / ctx.pieceLength.toNat

/-- The hot window of a reader that has waited is doubled, and it is too large for that. -/
def DoublesTooFar (ctx : PriorityContext) : Prop :=
  (ctx.intent = .directSeek ∨ ctx.intent = .hlsSeek) ∧ ctx.firstByteSent = true ∧
    3 ≤ ctx.consecutiveWaits ∧ 3 ≤ ctx.peers ∧ ∃ bitrate, ctx.bitrateBytesPerSec = some bitrate ∧
      2 ^ 30 ≤ ctx.playedPieces bitrate % 2 ^ 32 ∧ ctx.playedPieces bitrate % 2 ^ 32 < 2 ^ 31

/-- **The numbers fit**, and the current piece is no further than the one behind the file. -/
def Sound (ctx : PriorityContext) : Prop :=
  ctx.currentPiece.toInt ≤ ctx.lastPiece.toInt + 1 ∧
    ctx.lastPiece.toInt - ctx.currentPiece.toInt < 2 ^ 31 - 1 ∧
    ctx.cacheSizeBytes.toNat / ctx.pieceLength.toNat % 2 ^ 32 < 2 ^ 31 ∧ ¬ ctx.DoublesTooFar

end PriorityContext

/-! ### Numbers of pieces -/

theorem playbackDeadlineStepMs_le (pieceLength : ℕ) (bitrate : Option ℕ) (rate : ℕ) :
    playbackDeadlineStepMs pieceLength bitrate rate ≤ 30000 := by
  simp only [playbackDeadlineStepMs, MIN_PIECE_DEADLINE_STEP_MS, MAX_PIECE_DEADLINE_STEP_MS]
  omega

/-- The last of the pieces for some bytes begins in front of their end. -/
theorem piecesForBytes_spec {bytes pieceLength : ℕ} (hbytes : 0 < bytes) (hpiece : 0 < pieceLength) :
    1 ≤ piecesForBytes bytes pieceLength ∧
      piecesForBytes bytes pieceLength * pieceLength < bytes + pieceLength := by
  rw [piecesForBytes, if_neg (by omega)]
  have hle : saturatingU64 (bytes + (pieceLength - 1)) / pieceLength * pieceLength ≤
      bytes + (pieceLength - 1) :=
    Nat.le_trans (Nat.div_mul_le_self _ _) (Nat.min_le_left _ _)
  generalize saturatingU64 (bytes + (pieceLength - 1)) / pieceLength = count at hle ⊢
  refine ⟨by omega, ?_⟩
  have hmul : max 1 (min count (2 ^ 31 - 1)) * pieceLength < bytes + pieceLength := by
    rcases Nat.lt_or_ge count 1 with hzero | hpos
    · rw [Nat.max_eq_left (by omega)]
      omega
    · have hcount : max 1 (min count (2 ^ 31 - 1)) ≤ count := by omega
      have hprod := Nat.mul_le_mul_right pieceLength hcount
      omega
  exact_mod_cast hmul

theorem capPiecesByBytes_nonneg {pieces : ℤ} {pieceLength maxBytes : ℕ} :
    0 ≤ capPiecesByBytes pieces pieceLength maxBytes := by
  rw [capPiecesByBytes]
  split
  · exact le_refl _
  · split
    · exact le_refl _
    · omega

theorem capPiecesByBytes_spec {pieces : ℤ} {pieceLength maxBytes : ℕ} (hpiece : 0 < pieceLength)
    (hmax : 0 < maxBytes) : capPiecesByBytes pieces pieceLength maxBytes * pieceLength <
      maxBytes + pieceLength := by
  obtain ⟨hone, hlt⟩ := piecesForBytes_spec hmax hpiece
  rw [capPiecesByBytes]
  split
  · omega
  · rw [if_neg (by omega), max_eq_left hone]
    have hle : min pieces (piecesForBytes maxBytes pieceLength) * pieceLength ≤
        piecesForBytes maxBytes pieceLength * pieceLength :=
      mul_le_mul_of_nonneg_right (min_le_right _ _) (Int.natCast_nonneg _)
    omega

namespace PriorityContext

variable {ctx : PriorityContext}

theorem hotByteCap_pos : 0 < ctx.hotByteCap := by
  rw [hotByteCap]
  cases ctx.intent <;> cases ctx.firstByteSent <;> decide

/-! ### The windows -/

theorem rateHotWindow_le (ctx : PriorityContext) : ctx.rateHotWindow ≤ 96 := by
  rw [rateHotWindow, MIN_SEEK_HOT_PIECES]
  split
  · split_ifs <;> decide
  · split_ifs <;> decide

/-- The hot window is too large to be doubled exactly if the pieces of ten seconds are. -/
theorem le_dynamicHotWindow_iff : 2 ^ 30 ≤ ctx.dynamicHotWindow ↔ 3 ≤ ctx.peers ∧
    ∃ bitrate, ctx.bitrateBytesPerSec = some bitrate ∧
      2 ^ 30 ≤ ctx.playedPieces bitrate % 2 ^ 32 ∧ ctx.playedPieces bitrate % 2 ^ 32 < 2 ^ 31 := by
  have hrate := ctx.rateHotWindow_le
  rw [dynamicHotWindow, MIN_SEEK_HOT_PIECES]
  by_cases hpeers : ctx.peers < 3
  · have hfew : ¬ 3 ≤ ctx.peers := UInt64.not_le.mpr hpeers
    rw [if_pos hpeers]
    exact iff_of_false (by omega) fun h => hfew h.1
  · have hmany : 3 ≤ ctx.peers := UInt64.not_lt.mp hpeers
    rw [if_neg hpeers, and_iff_right hmany]
    cases hbitrate : ctx.bitrateBytesPerSec with
    | none => exact iff_of_false (by simpa using by omega) (by simp)
    | some bitrate =>
      have hsome : (∃ bitrate', some bitrate = some bitrate' ∧
          2 ^ 30 ≤ ctx.playedPieces bitrate' % 2 ^ 32 ∧
            ctx.playedPieces bitrate' % 2 ^ 32 < 2 ^ 31) ↔
          2 ^ 30 ≤ ctx.playedPieces bitrate % 2 ^ 32 ∧
            ctx.playedPieces bitrate % 2 ^ 32 < 2 ^ 31 := by
        simp
      rw [hsome]
      by_cases hpos : 0 < bitrate
      · have hfilter : (some bitrate).filter (0 < ·) = some bitrate := by simp [hpos]
        have hcast : ((2 ^ 30 : ℕ) : ℤ) ≤ asI32 (max (ctx.playedPieces bitrate) 1) ↔ _ := le_asI32_iff
        rw [hfilter]
        change 2 ^ 30 ≤ max ctx.rateHotWindow (asI32 (max (ctx.playedPieces bitrate) 1)) ↔ _
        omega
      · have hzero : bitrate = 0 := UInt64.le_zero_iff.mp (UInt64.not_lt.mp hpos)
        have hfilter : (some bitrate).filter (0 < ·) = none := by simp [hzero]
        have hplayed : ctx.playedPieces bitrate = 0 := by
          rw [playedPieces, hzero]
          exact Nat.zero_div _
        rw [hfilter, hplayed]
        dsimp only
        omega

theorem seekWindows_ok_iff {reason : String} : (∃ w, ctx.seekWindows reason = .ok w) ↔
    ¬ (3 ≤ ctx.consecutiveWaits ∧ 2 ^ 30 ≤ ctx.dynamicHotWindow) := by
  rw [seekWindows]
  by_cases hwaits : 3 ≤ ctx.consecutiveWaits
  · rw [if_pos hwaits, and_iff_right hwaits]
    dsimp only
    by_cases hfits : max ctx.dynamicHotWindow MIN_SEEK_HOT_PIECES < 2 ^ 30
    · refine iff_of_true ?_ ?_
      · rw [i32_of_fits (by rw [MIN_SEEK_HOT_PIECES] at *; omega) (by omega), ok_bind,
          i32_of_fits (by decide) (by decide)]
        exact ⟨_, rfl⟩
      · omega
    · rw [MIN_SEEK_HOT_PIECES] at *
      refine iff_of_false (fun h => ?_) (by omega)
      obtain ⟨w, hw⟩ := h
      obtain ⟨doubled, hdoubled, -⟩ := bind_ok_iff.mp hw
      have hlt := (i32_eq_ok_iff.mp hdoubled).1.2
      omega
  · rw [if_neg hwaits]
    refine iff_of_true ?_ fun h => hwaits h.1
    split
    · exact ⟨_, rfl⟩
    · exact ⟨_, rfl⟩

theorem windows_ok_iff : (∃ w, ctx.windows = .ok w) ↔ ¬ ctx.DoublesTooFar := by
  have hplain : ∀ w : PieceWindows, ∃ w', (.ok w : Run PieceWindows) = .ok w' := fun w => ⟨w, rfl⟩
  rw [windows, DoublesTooFar]
  cases hintent : ctx.intent with
  | directSeek | hlsSeek =>
    dsimp only
    cases hsent : ctx.firstByteSent with
    | false => exact iff_of_true (hplain _) (by simp)
    | true =>
      rw [if_pos rfl, seekWindows_ok_iff, le_dynamicHotWindow_iff]
      simp
  | _ => exact iff_of_true (hplain _) (by simp)

/-! ### What is left of the windows -/

variable {remaining : ℤ} {w : PieceWindows}

theorem fit_hot_neg (h : ctx.maxCachePieces < 0 ∨ remaining < 0) : (ctx.fit remaining w).hot < 0 := by
  simp only [fit]
  omega

/-- What is left fits into the cache and into the file. -/
structure Fits (ctx : PriorityContext) (remaining : ℤ) (w w' : PieceWindows) : Prop where
  immediate_nonneg : 0 ≤ w'.immediate
  immediate_le : w'.immediate ≤ w'.hot
  warm_nonneg : 0 ≤ w'.warm
  cache : w'.hot + w'.warm ≤ ctx.maxCachePieces
  file : w'.hot + w'.warm ≤ remaining
  few : w'.hot + w'.warm ≤ 288
  hot_le : w'.hot ≤ max 0 w.hot

theorem fit_fits (hcache : 0 ≤ ctx.maxCachePieces) (hremaining : 0 ≤ remaining) :
    Fits ctx remaining w (ctx.fit remaining w) := by
  constructor <;> simp only [fit, MAX_HOT_PIECES, MAX_WARM_PIECES, saturatingI32] <;> omega

theorem maxCachePieces_nonneg_iff : 0 ≤ ctx.maxCachePieces ↔
    ctx.cacheSizeBytes.toNat / ctx.pieceLength.toNat % 2 ^ 32 < 2 ^ 31 := by
  rw [maxCachePieces]
  by_cases hpos : 0 < ctx.cacheSizeBytes
  · have hcast : ((0 : ℕ) : ℤ) ≤
        asI32 (max (ctx.cacheSizeBytes.toNat / ctx.pieceLength.toNat) 1) ↔ _ := le_asI32_iff
    rw [if_pos hpos]
    generalize ctx.cacheSizeBytes.toNat / ctx.pieceLength.toNat = count at hcast ⊢
    omega
  · have hzero : ctx.cacheSizeBytes = 0 := UInt64.le_zero_iff.mp (UInt64.not_lt.mp hpos)
    rw [if_neg hpos, hzero]
    refine iff_of_true (by decide) ?_
    have hdiv : (0 : UInt64).toNat / ctx.pieceLength.toNat = 0 := Nat.zero_div _
    omega

/-! ### The assignments -/

/-- The band and the priority of a piece, and what its deadline has on top of its time. -/
def bandOf (ctx : PriorityContext) (distance immediatePieces hotPieces : ℤ) : PriorityBand × ℤ × ℤ :=
  match ctx.intent with
  | .containerMetadata => (.metadata, 7, 0)
  | .internalProbe => (.background, 1, 10000)
  | .background => (.background, 1, 30000)
  | _ =>
      if distance < immediatePieces then (.immediate, 7, 0)
      else if distance < hotPieces then (.hot, 7, 0)
      else (.warm, 2, 10000)

/-- The time between the deadlines of two pieces. -/
def deadlineStep (ctx : PriorityContext) : ℕ :=
  playbackDeadlineStepMs ctx.pieceLength.toNat (ctx.bitrateBytesPerSec.map UInt64.toNat)
    ctx.downloadRateBytesPerSec.toNat

/-- The assignment at a distance from the current piece. -/
def assignmentAt (ctx : PriorityContext) (immediate hot : ℤ) (distance : ℕ) : PriorityAssignment where
  pieceIdx := ctx.currentPiece.toInt + distance
  piecePriority := (ctx.bandOf distance immediate hot).2.1
  deadline := (ctx.bandOf distance immediate hot).2.2 + distance * ctx.deadlineStep
  band := (ctx.bandOf distance immediate hot).1

/-- At the distances of a window, the deadlines fit. -/
theorem assignmentFor_eq {distance : ℕ} (h : distance < 288) (immediate hot : ℤ) :
    ctx.assignmentFor distance immediate hot =
      .ok ((ctx.assignmentAt immediate hot distance).band,
        (ctx.assignmentAt immediate hot distance).piecePriority,
        (ctx.assignmentAt immediate hot distance).deadline) := by
  have hstep : ctx.deadlineStep ≤ 30000 := playbackDeadlineStepMs_le _ _ _
  have hprod : distance * ctx.deadlineStep ≤ 287 * 30000 := Nat.mul_le_mul (by omega) hstep
  have htime : (distance : ℤ) * ctx.deadlineStep ≤ 287 * 30000 := by exact_mod_cast hprod
  have hnonneg : 0 ≤ (distance : ℤ) * ctx.deadlineStep := by exact_mod_cast Nat.zero_le _
  simp only [assignmentAt]
  rw [assignmentFor, ← deadlineStep]
  rw [i32_of_fits (by omega) (by omega), ok_bind, bandOf]
  cases ctx.intent with
  | containerMetadata =>
    dsimp only
    rw [Int.zero_add]
  | internalProbe | background =>
    dsimp only
    rw [i32_of_fits (by omega) (by omega), ok_bind]
  | _ =>
    dsimp only
    split
    · rw [Int.zero_add]
    · split
      · rw [Int.zero_add]
      · rw [i32_of_fits (by omega) (by omega), ok_bind]

theorem assignmentsAt_eq {distances : List ℕ} (immediate hot : ℤ)
    (h : ∀ distance ∈ distances, distance < 288 ∧
      ctx.currentPiece.toInt + distance ≤ ctx.lastPiece.toInt) :
    ctx.assignmentsAt immediate hot distances =
      .ok (distances.map (ctx.assignmentAt immediate hot)) := by
  induction distances with
  | nil => rfl
  | cons distance distances ih =>
    obtain ⟨hfew, hlast⟩ := h distance List.mem_cons_self
    have hlow := ctx.currentPiece.le_toInt
    have hhigh := ctx.lastPiece.toInt_lt
    rw [assignmentsAt, i32_of_fits (by omega) (by omega), ok_bind, if_neg (by omega),
      assignmentFor_eq hfew, ok_bind,
      ih fun distance' hmem => h distance' (List.mem_cons_of_mem _ hmem)]
    rfl

/-! ### The decision -/

/-- The decision with these windows. -/
def decision (ctx : PriorityContext) (w : PieceWindows) : PriorityDecision where
  assignments := (List.range (w.hot + w.warm).toNat).map (ctx.assignmentAt w.immediate w.hot)
  targetWindowPieces := w.hot + w.warm
  immediatePieces := w.immediate
  hotWindowPieces := w.hot
  warmWindowPieces := w.warm
  reason := w.reason

/-- **The decision**, if the numbers fit: the windows are not too large for the cache, the file and the
bytes. -/
theorem decide_eq (hvalid : ctx.Valid) (hsound : ctx.Sound) :
    ∃ w w', Fits ctx (ctx.lastPiece.toInt - ctx.currentPiece.toInt + 1) w w' ∧
      w'.hot * ctx.pieceLength.toNat < ctx.hotByteCap + ctx.pieceLength.toNat ∧
      PlaybackPriorityPolicy.decide ctx = .ok (ctx.decision w') := by
  obtain ⟨hcurrent, hleft, hcache, hdouble⟩ := hsound
  obtain ⟨w, hw⟩ := windows_ok_iff.mpr hdouble
  have hpiece : 0 < ctx.pieceLength.toNat := by
    have hne : ctx.pieceLength.toNat ≠ 0 := fun heq => hvalid.1 (UInt64.toNat_inj.mp heq)
    omega
  have hfits := fit_fits (w := ctx.capBytes (ctx.clampMemory w)) (maxCachePieces_nonneg_iff.mpr hcache)
    (show 0 ≤ ctx.lastPiece.toInt - ctx.currentPiece.toInt + 1 by omega)
  have hbytes : (ctx.capBytes (ctx.clampMemory w)).hot * ctx.pieceLength.toNat <
      ctx.hotByteCap + ctx.pieceLength.toNat := capPiecesByBytes_spec hpiece hotByteCap_pos
  refine ⟨_, _, hfits, ?_, ?_⟩
  · have hle := mul_le_mul_of_nonneg_right hfits.hot_le (Int.natCast_nonneg ctx.pieceLength.toNat)
    have hcap : 0 ≤ (ctx.capBytes (ctx.clampMemory w)).hot := capPiecesByBytes_nonneg
    rw [max_eq_right hcap] at hle
    exact lt_of_le_of_lt hle hbytes
  · have hremaining : saturatingI32 (ctx.lastPiece.toInt - ctx.currentPiece.toInt) =
        ctx.lastPiece.toInt - ctx.currentPiece.toInt := by
      rw [saturatingI32]
      omega
    obtain ⟨himmediate, himmediate', hwarm, -, hfile, hfew, -⟩ := hfits
    have hnot : ¬ ¬ ctx.Valid := fun h => h hvalid
    rw [PlaybackPriorityPolicy.decide, if_neg hnot, hremaining,
      i32_of_fits (by omega) (by omega), ok_bind, hw, ok_bind]
    generalize ctx.fit (ctx.lastPiece.toInt - ctx.currentPiece.toInt + 1)
      (ctx.capBytes (ctx.clampMemory w)) = w' at *
    have hroom : capacity (w'.hot + w'.warm) = .ok (w'.hot + w'.warm).toNat :=
      capacity_eq_ok_iff.mpr ⟨by omega, rfl⟩
    dsimp only
    rw [i32_of_fits (by omega) (by omega), ok_bind, hroom, ok_bind, assignmentsAt_eq, ok_bind,
      decision]
    intro distance hdistance
    rw [List.mem_range] at hdistance
    omega

/-- What has been done where there is a decision. -/
theorem decide_inv {d : PriorityDecision} (hvalid : ctx.Valid)
    (h : PlaybackPriorityPolicy.decide ctx = .ok d) :
    saturatingI32 (ctx.lastPiece.toInt - ctx.currentPiece.toInt) + 1 < 2 ^ 31 ∧
      ∃ w, ctx.windows = .ok w ∧ d.hotWindowPieces =
        (ctx.fit (saturatingI32 (ctx.lastPiece.toInt - ctx.currentPiece.toInt) + 1)
          (ctx.capBytes (ctx.clampMemory w))).hot := by
  have hnot : ¬ ¬ ctx.Valid := fun h => h hvalid
  rw [PlaybackPriorityPolicy.decide, if_neg hnot] at h
  obtain ⟨remaining, hremaining, h⟩ := bind_ok_iff.mp h
  obtain ⟨w, hw, h⟩ := bind_ok_iff.mp h
  obtain ⟨target, -, h⟩ := bind_ok_iff.mp h
  obtain ⟨room, -, h⟩ := bind_ok_iff.mp h
  obtain ⟨assignments, -, h⟩ := bind_ok_iff.mp h
  cases h
  obtain ⟨⟨-, hhigh⟩, rfl⟩ := i32_eq_ok_iff.mp hremaining
  exact ⟨hhigh, w, hw, rfl⟩

/-- What comes to a decision that is not negative fits. -/
theorem sound_of_decide {d : PriorityDecision} (hvalid : ctx.Valid)
    (h : PlaybackPriorityPolicy.decide ctx = .ok d) (hnonneg : 0 ≤ d.hotWindowPieces) : ctx.Sound := by
  obtain ⟨hhigh, w, hw, hhot⟩ := decide_inv hvalid h
  have hfits : ¬ (ctx.maxCachePieces < 0 ∨
      saturatingI32 (ctx.lastPiece.toInt - ctx.currentPiece.toInt) + 1 < 0) := by
    intro hneg
    rw [hhot] at hnonneg
    exact absurd hnonneg (not_le.mpr (fit_hot_neg hneg))
  rw [not_or, not_lt, not_lt, maxCachePieces_nonneg_iff] at hfits
  have hlow := ctx.lastPiece.le_toInt
  have hcurrent := ctx.currentPiece.toInt_lt
  simp only [saturatingI32] at hfits hhigh
  exact ⟨by omega, by omega, hfits.1, windows_ok_iff.mp ⟨w, hw⟩⟩

theorem decision_inside {w w' : PieceWindows} (hvalid : ctx.Valid)
    (h : Fits ctx (ctx.lastPiece.toInt - ctx.currentPiece.toInt + 1) w w') :
    ∀ a ∈ (ctx.decision w').assignments,
      ctx.firstPiece.toInt ≤ a.pieceIdx ∧ a.pieceIdx ≤ ctx.lastPiece.toInt := by
  intro a ha
  obtain ⟨distance, hdistance, rfl⟩ := List.mem_map.mp ha
  rw [List.mem_range] at hdistance
  have hfirst := hvalid.2.1
  have hfile := h.file
  simp only [assignmentAt]
  omega

theorem decision_getElem? {w : PieceWindows} {k : ℕ} {a : PriorityAssignment}
    (h : (ctx.decision w).assignments[k]? = some a) :
    a = ctx.assignmentAt w.immediate w.hot k := by
  rw [decision, List.getElem?_map, Option.map_eq_some_iff] at h
  obtain ⟨distance, hdistance, rfl⟩ := h
  obtain ⟨hlt, heq⟩ := List.getElem?_eq_some_iff.mp hdistance
  rw [← heq, List.getElem_range]

/-- Further away the priority is lower, and the deadline later. -/
theorem bandOf_mono (ctx : PriorityContext) {distance distance' : ℤ} (immediate hot : ℤ)
    (h : distance ≤ distance') :
    (ctx.bandOf distance' immediate hot).2.1 ≤ (ctx.bandOf distance immediate hot).2.1 ∧
      (ctx.bandOf distance immediate hot).2.2 ≤ (ctx.bandOf distance' immediate hot).2.2 := by
  rw [bandOf, bandOf]
  cases ctx.intent with
  | containerMetadata | internalProbe | background => exact ⟨le_refl _, le_refl _⟩
  | _ =>
    dsimp only
    split_ifs <;> first | omega | decide

theorem bandOf_playback (h : ctx.intent.isPlayback) (distance immediate hot : ℤ) :
    (ctx.bandOf distance immediate hot).1 =
      if distance < immediate then .immediate else if distance < hot then .hot else .warm := by
  rw [bandOf]
  cases hintent : ctx.intent with
  | containerMetadata | internalProbe | background =>
    rw [hintent] at h
    cases h
  | _ =>
    dsimp only
    split
    · rfl
    · split <;> rfl

theorem assignmentAt_mono {distance distance' : ℕ} (immediate hot : ℤ) (h : distance < distance') :
    (ctx.assignmentAt immediate hot distance').piecePriority ≤
        (ctx.assignmentAt immediate hot distance).piecePriority ∧
      (ctx.assignmentAt immediate hot distance).deadline ≤
        (ctx.assignmentAt immediate hot distance').deadline := by
  have hle : (distance : ℤ) ≤ distance' := by omega
  obtain ⟨hpriority, hlead⟩ := ctx.bandOf_mono immediate hot hle
  have htime : (distance : ℤ) * ctx.deadlineStep ≤ distance' * ctx.deadlineStep := by
    exact_mod_cast Nat.mul_le_mul_right _ h.le
  exact ⟨hpriority, add_le_add hlead htime⟩

/-- **A decision with windows that fit is in order.** -/
theorem decision_ordered {w w' : PieceWindows} (hvalid : ctx.Valid)
    (hfits : Fits ctx (ctx.lastPiece.toInt - ctx.currentPiece.toInt + 1) w w')
    (hbytes : w'.hot * ctx.pieceLength.toNat < ctx.hotByteCap + ctx.pieceLength.toNat) :
    OrderedDecision ctx (ctx.decision w') := by
  obtain ⟨himmediate, himmediate', hwarm, hcache, -⟩ := id hfits
  have hmono : ((List.range (w'.hot + w'.warm).toNat).map
      (ctx.assignmentAt w'.immediate w'.hot)).Pairwise fun a a' =>
        a'.piecePriority ≤ a.piecePriority ∧ a.deadline ≤ a'.deadline :=
    List.pairwise_map.mpr (List.pairwise_lt_range.imp fun h => assignmentAt_mono _ _ h)
  constructor
  case length_eq =>
    simp only [decision, List.length_map, List.length_range]
    omega
  case target_eq => rfl
  case consecutive =>
    intro k a ha
    rw [decision_getElem? ha]
    rfl
  case inside => exact decision_inside hvalid hfits
  case target_le =>
    intro hne
    have hpos : 0 < ctx.cacheSizeBytes := UInt64.pos_iff_ne_zero.mpr hne
    have hle := asI32_le (max (ctx.cacheSizeBytes.toNat / ctx.pieceLength.toNat) 1)
    rw [maxCachePieces, if_pos hpos] at hcache
    rw [max_comm]
    exact le_trans hcache hle
  case immediate_le => exact himmediate'
  case priorities => exact List.pairwise_map.mpr (hmono.imp fun h => h.1)
  case deadlines => exact List.pairwise_map.mpr (hmono.imp fun h => h.2)
  case bands =>
    intro hplayback k a ha
    rw [decision_getElem? ha]
    exact bandOf_playback hplayback _ _ _
  case bytes_lt => exact hbytes

end PriorityContext

open PriorityContext

variable {ctx : PriorityContext}

/-- **The policy comes to a safe decision exactly if** it has nothing to say, or the numbers fit and the
current piece is no further than the one behind the file. -/
theorem decidesSafely_iff : DecidesSafely ctx ↔ ¬ ctx.Valid ∨ ctx.Sound := by
  by_cases hvalid : ctx.Valid
  · constructor
    · intro h
      obtain ⟨d, hd, hsafe⟩ := h
      exact Or.inr (sound_of_decide hvalid hd hsafe.hot_nonneg)
    · intro h
      obtain ⟨w, w', hfits, -, hd⟩ := decide_eq hvalid (h.resolve_left fun hnot => hnot hvalid)
      obtain ⟨himmediate, himmediate', hwarm, -⟩ := id hfits
      refine ⟨_, hd, ⟨?_, himmediate, ?_, hwarm, decision_inside hvalid hfits⟩⟩
      · simp only [decision]
        omega
      · simp only [decision]
        omega
  · refine iff_of_true ⟨.invalid, if_pos hvalid, ?_⟩ (Or.inl hvalid)
    exact ⟨le_refl _, le_refl _, le_refl _, le_refl _, fun a ha => absurd ha List.not_mem_nil⟩

/-- **The pieces come in order, and within the bounds, exactly if** fewer than `2 ^ 31` are left. -/
theorem decidesInOrder_iff (hpiece : 0 < ctx.pieceLength)
    (hfirst : ctx.firstPiece ≤ ctx.currentPiece) (hlast : ctx.currentPiece ≤ ctx.lastPiece)
    (hcache : ctx.cacheSizeBytes.toNat / ctx.pieceLength.toNat < 2 ^ 31)
    (hrate : ∀ bitrate, ctx.bitrateBytesPerSec = some bitrate →
      bitrate.toNat * 10 / ctx.pieceLength.toNat < 2 ^ 30) :
    DecidesInOrder ctx ↔ ctx.lastPiece.toInt - ctx.currentPiece.toInt < 2 ^ 31 - 1 := by
  rw [Int32.le_iff_toInt_le] at hfirst hlast
  have hvalid : ctx.Valid := ⟨UInt64.pos_iff_ne_zero.mp hpiece, hfirst, le_trans hfirst hlast⟩
  constructor
  · intro h
    obtain ⟨d, hd, -⟩ := h
    have hhigh := (decide_inv hvalid hd).1
    rw [saturatingI32] at hhigh
    omega
  · intro hleft
    have hdouble : ¬ ctx.DoublesTooFar := by
      intro h
      obtain ⟨-, -, -, -, bitrate, hbitrate, hplayed, -⟩ := h
      have hlt : ctx.playedPieces bitrate < 2 ^ 30 := by
        refine lt_of_le_of_lt ?_ (hrate bitrate hbitrate)
        exact Nat.div_le_div_right (Nat.min_le_left _ _)
      omega
    obtain ⟨w, w', hfits, hbytes, hd⟩ := decide_eq hvalid ⟨by omega, hleft, by
      rw [Nat.mod_eq_of_lt (by omega)]
      exact hcache, hdouble⟩
    exact ⟨_, hd, decision_ordered hvalid hfits hbytes⟩

/-- A reader that has been sent to a piece of a file with pieces of 1 MB. -/
def seekContext (currentPiece lastPiece : Int32) : PriorityContext where
  intent := .directSeek
  currentPiece := currentPiece
  firstPiece := 0
  lastPiece := lastPiece
  pieceLength := 1048576
  fileSize := 1048576000
  bitrateBytesPerSec := some 1048576
  downloadRateBytesPerSec := 2097152
  peers := 10
  cacheSizeBytes := 1073741824
  memoryPressure := .normal
  consecutiveWaits := 0
  firstByteSent := true

theorem seekContext_decidesInOrder : DecidesInOrder (seekContext 100 999) := by
  have hrate : ∀ bitrate, (seekContext 100 999).bitrateBytesPerSec = some bitrate →
      bitrate.toNat * 10 / (seekContext 100 999).pieceLength.toNat < 2 ^ 30 := by
    intro bitrate hbitrate
    cases hbitrate
    decide
  exact (decidesInOrder_iff (by decide) (by decide) (by decide) (by decide) hrate).mpr (by decide)

/-- One more than the difference of the last possible piece and the first does not fit. -/
theorem hugeFile_not_inOrder :
    0 < (seekContext 0 2147483647).pieceLength ∧
      (seekContext 0 2147483647).firstPiece ≤ (seekContext 0 2147483647).currentPiece ∧
      (seekContext 0 2147483647).currentPiece ≤ (seekContext 0 2147483647).lastPiece ∧
      (seekContext 0 2147483647).cacheSizeBytes.toNat /
        (seekContext 0 2147483647).pieceLength.toNat < 2 ^ 31 ∧
      (∀ bitrate, (seekContext 0 2147483647).bitrateBytesPerSec = some bitrate →
        bitrate.toNat * 10 / (seekContext 0 2147483647).pieceLength.toNat < 2 ^ 30) ∧
      ¬ DecidesInOrder (seekContext 0 2147483647) := by
  have hrun : PlaybackPriorityPolicy.decide (seekContext 0 2147483647) = .error .panic := by
    decide
  refine ⟨by decide, by decide, by decide, by decide, fun bitrate hbitrate => ?_, fun h => ?_⟩
  · cases hbitrate
    decide
  · obtain ⟨d, hd, -⟩ := h
    rw [hrun] at hd
    cases hd

/-- A reader that has been sent two pieces past the end asks for room for `2 ^ 64 - 1` pieces. -/
theorem pastEnd_not_safe : ¬ DecidesSafely (seekContext 1001 999) := by
  have hrun : PlaybackPriorityPolicy.decide (seekContext 1001 999) = .error .panic := by
    decide
  intro h
  obtain ⟨d, hd, -⟩ := h
  rw [hrun] at hd
  cases hd

end StreamServer.Playback

import StreamServer.Metadata.Boxes

/-!
# The ranges that matter

Before a file is played the inspector says which of its ranges to load first: the beginning, and where the
index is.  In a Matroska file the index is where the SeekHead says, in an MP4 file it is the box `moov`.
Both come from the file, and nothing looks whether they lie in it.

The beginning of a Matroska file is read to the end (`read_exact`); all other parts are what one read
brings.

## Main definitions

* `Reads` — what the reads bring.
* `findCriticalRanges`, `keyframeOffsetsChecked` — the inspector, with its arithmetic checked.
* `IndexFits` — the index that is found lies in the file.
* `RangesSafe` — the ranges lie in the file, and no arithmetic of 64 bits overflows.

## Main results

* `cuesOffsetChecked_eq`, `mkvKeyframesChecked_eq` — the functions of `StreamServer.Metadata.Matroska`,
  with each index checked.
* `rangesSafe_iff` — **the ranges are safe exactly if** the index that is found lies in the file.

## References

`enginefs/src/backend/metadata.rs`, `find_critical_ranges`, `find_keyframe_offsets`.
-/

namespace StreamServer.Metadata

open Checked Readers

/-! ### Matroska -/

/-- The loop that looks for the element behind its header. -/
def skipHeaderBody (id buffer : List UInt8) (_ : Unit) (pos : ℕ) : Run (ScanStep Unit (Option ℕ)) := do
  let limit ← add (2 ^ 64) pos 4
  if limit < buffer.length then
    match ← headerAtChecked id buffer pos with
    | some (_, headerSize) => do
        let next ← add (2 ^ 64) pos headerSize
        .ok (.stop (some next))
    | none => .ok (.advance () 0)
  else .ok (.stop none)

/-- The loops that look for the EBML header and the Segment, from there on: where what is behind the
header begins. -/
def skipHeaderChecked (id buffer : List UInt8) (pos : ℕ) : Run (Option ℕ) :=
  indexLoop (skipHeaderBody id buffer) (buffer.length + 1) () pos

/-- The position of the Cues that a SeekHead gives, if it stands there. -/
def seekHeadAtChecked (buffer : List UInt8) (pos : ℕ) : Run (Option ℕ) := do
  match ← headerAtChecked seekHeadId buffer pos with
  | some (size, headerSize) => do
      let seekHeadData ← behind buffer pos headerSize
      let seekHead ← slice seekHeadData 0 (min size seekHeadData.length)
      seekHeadChecked seekHead
  | none => .ok none

/-- The loop that looks for the seek head. -/
def cuesPositionBody (buffer : List UInt8) (_ : Unit) (pos : ℕ) :
    Run (ScanStep Unit (Option ℕ)) := do
  let limit ← add (2 ^ 64) pos 4
  if limit < buffer.length then
    match ← seekHeadAtChecked buffer pos with
    | some cuesPos => .ok (.stop (some cuesPos))
    | none => do
        if ← standsAt buffer clusterId pos then .ok (.stop none) else .ok (.advance () 0)
  else .ok (.stop none)

/-- `find_mkv_cues_offset`. -/
def cuesOffsetChecked (file : List UInt8) : Run (Option ℕ) := do
  let buffer := file.take 102400
  match ← skipHeaderChecked ebmlId buffer 0 with
  | none => .ok none
  | some pos => do
      match ← skipHeaderChecked segmentId buffer pos with
      | none => .ok none
      | some segmentDataStart => do
          match ← indexLoop (cuesPositionBody buffer) (buffer.length + 1) () segmentDataStart with
          | none => .ok none
          | some cuesPos => do
              let offset ← add (2 ^ 64) segmentDataStart cuesPos
              .ok (some offset)

/-- `inspect_mkv_full`. -/
def inspectMkvFull (file : List UInt8) : Run (List (ℕ × ℕ)) := do
  match ← cuesOffsetChecked file with
  | some cuesOffset => do
      let left ← sub file.length cuesOffset
      .ok [(0, min 1048576 file.length), (cuesOffset, min 500000 left)]
  | none =>
      if 1000000 < file.length then do
        let start ← sub file.length 1000000
        .ok [(0, min 1048576 file.length), (start, 1000000)]
      else .ok [(0, min 1048576 file.length)]

/-- `find_mkv_keyframes`, where the read of the Cues brings `bytesRead` bytes. -/
def mkvKeyframesChecked (file : List UInt8) (bytesRead : ℕ) : Run (List ℕ) := do
  match ← cuesOffsetChecked file with
  | some cuesOffset => do
      let left ← sub file.length cuesOffset
      cuePointsChecked (((file.drop cuesOffset).take (min 1048576 left)).take bytesRead)
  | none => .ok []

/-! ### The inspector -/

/-- `guess_container`; `toLowercase` is that of the standard library. -/
def guessContainer (toLowercase : String → String) (filename : String) : ContainerType :=
  let name := (toLowercase filename).toList
  if ".mp4".toList <:+ name ∨ ".m4v".toList <:+ name ∨ ".mov".toList <:+ name then .mp4
  else if ".mkv".toList <:+ name ∨ ".webm".toList <:+ name then .matroska
  else .unknown

/-- How many bytes the reads of one inspection bring: those at each box, and that of the index. -/
structure Reads where
  boxes : ℕ → BoxReads
  index : ℕ

/-- What is found in the container. -/
def containerRanges (file : List UInt8) (reads : Reads) : ContainerType → Run (List (ℕ × ℕ))
  | .mp4 => inspectMp4Full file reads.boxes
  | .matroska => inspectMkvFull file
  | .unknown =>
      if 128000 < file.length then do
        let start ← sub file.length 128000
        .ok [(start, 128000)]
      else .ok []

/-- `find_critical_ranges`. -/
def findCriticalRanges (toLowercase : String → String) (file : List UInt8) (reads : Reads)
    (filename : String) : Run (List (ℕ × ℕ)) := do
  let ranges ← containerRanges file reads (guessContainer toLowercase filename)
  .ok ((0, min 65536 file.length) :: ranges)

/-- `find_keyframe_offsets`. -/
def keyframeOffsetsChecked (toLowercase : String → String) (file : List UInt8) (reads : Reads)
    (filename : String) : Run (List ℕ) :=
  match guessContainer toLowercase filename with
  | .mp4 => findMp4Keyframes file reads.boxes reads.index
  | .matroska => mkvKeyframesChecked file reads.index
  | .unknown => .ok []

/-! ### What is safe -/

/-- **The ranges lie in the file, and no arithmetic of 64 bits overflows**, where the reads of the first
inspection bring `reads` and those of the second `again`. -/
def RangesSafe (toLowercase : String → String) (file : List UInt8) (reads again : Reads)
    (filename : String) : Prop :=
  (∃ ranges, findCriticalRanges toLowercase file reads filename = .ok ranges ∧
    RangesInside file ranges) ∧
    keyframeOffsetsChecked toLowercase file again filename ≠ .error .panic

/-- Where the data of the Segment begins, and the position that the first SeekHead with one gives for the
Cues. -/
def cuesPosition (file : List UInt8) : Option (ℕ × ℕ) := do
  let buffer := file.take 102400
  let afterEbml ← skipHeader ebmlId buffer
  let segmentData ← skipHeader segmentId afterEbml
  let cuesPos ← findCuesPosition segmentData
  some (buffer.length - segmentData.length, cuesPos)

/-- The position that the first SeekHead with one gives for the Cues, counted from where the data of the
Segment begins, lies in the file. -/
def CuesInside (file : List UInt8) : Prop :=
  ∀ segmentDataStart cuesPos, cuesPosition file = some (segmentDataStart, cuesPos) →
    segmentDataStart + cuesPos ≤ file.length

/-- The index that is found lies in the file, and the boxes come to in search of the keyframes start where
8 bytes more fit. -/
def IndexFits (file : List UInt8) (reads again : Reads) : ContainerType → Prop
  | .mp4 => IndexInside file reads.boxes ∧ StartsFit file again.boxes
  | .matroska => CuesInside file
  | .unknown => True

/-! ### The loops are scans -/

variable {id buffer file : List UInt8} {pos : ℕ}

theorem skipHeaderBody_matches (hlength : buffer.length < 2 ^ 63) (hid : id.length = 4) (t : Unit)
    (hpos : pos < buffer.length) : ∃ step, skipHeaderBody id buffer t pos = .ok step ∧
      Matches (2 ^ 57) (fun t _ => t) pos step ((skipHeaderStep id t (buffer.drop pos)).mapResult
        (Option.map fun rest => buffer.length - rest.length)) := by
  have hdrop : (buffer.drop pos).length = buffer.length - pos := List.length_drop
  rw [skipHeaderBody, skipHeaderStep, add_of_lt (by omega), ok_bind]
  by_cases hlong : pos + 4 < buffer.length
  · rw [if_pos hlong, if_neg (by omega), headerAtChecked_eq (by omega), ok_bind]
    cases hat : headerAt id (buffer.drop pos) with
    | some header =>
      obtain ⟨size, headerSize⟩ := header
      obtain ⟨-, -, -, hin⟩ := headerAt_spec hat
      have hrest : buffer.length - ((buffer.drop pos).drop headerSize).length = pos + headerSize := by
        rw [List.length_drop]
        omega
      dsimp only
      rw [add_of_lt (by omega), ok_bind]
      refine ⟨_, rfl, ?_⟩
      rw [Matches, ScanStep.mapResult, Option.map_some, hrest]
    | none => exact ⟨_, rfl, by decide, rfl⟩
  · rw [if_neg hlong, if_pos (by omega)]
    exact ⟨_, rfl, rfl⟩

theorem skipHeaderChecked_eq (hlength : buffer.length < 2 ^ 63) (hid : id.length = 4)
    (hpos : pos ≤ buffer.length) : skipHeaderChecked id buffer pos =
      .ok ((skipHeader id (buffer.drop pos)).map fun rest => buffer.length - rest.length) := by
  have hmap : scan (fun t data => (skipHeaderStep id t data).mapResult
      (Option.map fun rest => buffer.length - rest.length)) (fun _ => none) 0 () (buffer.drop pos) =
      (skipHeader id (buffer.drop pos)).map fun rest => buffer.length - rest.length :=
    @scan_map _ _ _ (skipHeaderStep id) (fun _ => none) _
      (Option.map fun rest => buffer.length - rest.length) 0 () (buffer.drop pos)
  rw [← hmap]
  refine indexLoop_eq_scan (fun t _ => t) (2 ^ 57) (by omega)
    (fun t pos hpos => skipHeaderBody_matches hlength hid t hpos) (fun t pos hpos hle => ?_) _
    (by omega) (by omega) (by omega)
  rw [skipHeaderBody, add_of_lt (by omega), ok_bind, if_neg (by omega)]

theorem seekHeadAtChecked_eq (hlength : buffer.length < 2 ^ 63) (hpos : pos + 4 ≤ buffer.length) :
    seekHeadAtChecked buffer pos = .ok (seekHeadAt (buffer.drop pos)) := by
  rw [seekHeadAtChecked, seekHeadAt, headerAtChecked_eq (by
    have hid : seekHeadId.length = 4 := rfl
    omega), ok_bind]
  cases hat : headerAt seekHeadId (buffer.drop pos) with
  | some header =>
    obtain ⟨size, headerSize⟩ := header
    have hhead : (((buffer.drop pos).drop headerSize).take size).length < 2 ^ 63 := by
      rw [List.length_take, List.length_drop, List.length_drop]
      omega
    dsimp only
    rw [behind_eq hlength hat (by omega), ok_bind, part_eq, ok_bind, seekHeadChecked_eq hhead]
  | none => rfl

theorem cuesPositionBody_matches (hlength : buffer.length < 2 ^ 63) (t : Unit)
    (hpos : pos < buffer.length) : ∃ step, cuesPositionBody buffer t pos = .ok step ∧
      Matches (2 ^ 57) (fun t _ => t) pos step (cuesPositionStep t (buffer.drop pos)) := by
  have hdrop : (buffer.drop pos).length = buffer.length - pos := List.length_drop
  rw [cuesPositionBody, cuesPositionStep, add_of_lt (by omega), ok_bind]
  by_cases hlong : pos + 4 < buffer.length
  · rw [if_pos hlong, if_neg (by omega), seekHeadAtChecked_eq hlength (by omega), ok_bind]
    cases seekHeadAt (buffer.drop pos) with
    | some cuesPos => exact ⟨_, rfl, rfl⟩
    | none =>
      dsimp only
      have hid : clusterId.length = 4 := rfl
      rw [standsAt_eq (by omega), ok_bind, hid]
      by_cases hcluster : (buffer.drop pos).take 4 = clusterId
      · rw [if_pos hcluster, if_pos (decide_eq_true hcluster)]
        exact ⟨_, rfl, rfl⟩
      · rw [if_neg hcluster, if_neg (by rw [decide_eq_true_iff]; exact hcluster)]
        exact ⟨_, rfl, by decide, rfl⟩
  · rw [if_neg hlong, if_pos (by omega)]
    exact ⟨_, rfl, rfl⟩

theorem findCuesPosition_eq (hlength : buffer.length < 2 ^ 63) (hpos : pos ≤ buffer.length) :
    indexLoop (cuesPositionBody buffer) (buffer.length + 1) () pos =
      .ok (findCuesPosition (buffer.drop pos)) := by
  refine indexLoop_eq_scan (fun t _ => t) (2 ^ 57) (by omega)
    (fun t pos hpos => cuesPositionBody_matches hlength t hpos) (fun t pos hpos hle => ?_) _
    (by omega) (by omega) (by omega)
  rw [cuesPositionBody, add_of_lt (by omega), ok_bind, if_neg (by omega)]

/-- What the panic of an unchecked function is. -/
def ofPanic {β : Type} : Option β → Run β
  | some b => .ok b
  | none => .error .panic

/-- What is behind a header that has been skipped. -/
theorem skipHeader_suffix {data rest : List UInt8} (h : skipHeader id data = some rest) :
    rest <:+ data := by
  obtain ⟨t, ys, hys, hstop⟩ := scan_eq_some h
  rw [skipHeaderStep] at hstop
  split at hstop
  · cases hstop
  · split at hstop
    · cases hstop
      exact (List.drop_suffix _ _).trans hys
    · cases hstop

theorem drop_of_suffix {data rest : List UInt8} (h : rest <:+ data) :
    data.drop (data.length - rest.length) = rest := by
  obtain ⟨front, rfl⟩ := h
  rw [List.length_append, Nat.add_sub_cancel, List.drop_left' rfl]

/-- **`find_mkv_cues_offset`**: only the last sum may overflow. -/
theorem cuesOffsetChecked_eq (file : List UInt8) :
    cuesOffsetChecked file = ofPanic (findMkvCuesOffset true file) := by
  have hlength : (file.take 102400).length < 2 ^ 63 := by
    rw [List.length_take]
    omega
  rw [cuesOffsetChecked, findMkvCuesOffset]
  dsimp only
  generalize file.take 102400 = buffer at hlength ⊢
  rw [skipHeaderChecked_eq hlength rfl (Nat.zero_le _), ok_bind, List.drop_zero]
  cases hebml : skipHeader ebmlId buffer with
  | none => rfl
  | some afterEbml =>
    have hsuffix := skipHeader_suffix hebml
    rw [Option.map_some]
    dsimp only
    rw [skipHeaderChecked_eq hlength rfl (by omega), ok_bind, drop_of_suffix hsuffix]
    cases hsegment : skipHeader segmentId afterEbml with
    | none => rfl
    | some segmentData =>
      have hsuffix' := (skipHeader_suffix hsegment).trans hsuffix
      rw [Option.map_some]
      dsimp only
      rw [findCuesPosition_eq hlength (by omega), ok_bind, drop_of_suffix hsuffix']
      cases findCuesPosition segmentData with
      | none => rfl
      | some cuesPos =>
        dsimp only
        rw [addU64, add]
        by_cases hfits : buffer.length - segmentData.length + cuesPos < 2 ^ 64
        · rw [if_pos hfits, if_pos (by rw [maxU64]; omega)]
          rfl
        · rw [if_neg hfits, if_neg (by rw [maxU64]; omega)]
          rfl

/-- `find_mkv_keyframes`, where the read brings all it asks for: only the position of the Cues may lead to
an overflow. -/
theorem mkvKeyframesChecked_eq (file : List UInt8) {bytesRead : ℕ} (hread : 1048576 ≤ bytesRead) :
    mkvKeyframesChecked file bytesRead = ofPanic (findMkvKeyframes true file) := by
  rw [mkvKeyframesChecked, findMkvKeyframes, cuesOffsetChecked_eq]
  cases findMkvCuesOffset true file with
  | none => rfl
  | some found =>
    cases found with
    | none => rfl
    | some cuesOffset =>
      rw [ofPanic, ok_bind]
      dsimp only
      by_cases hin : cuesOffset ≤ file.length
      · have htake : ((file.drop cuesOffset).take (min 1048576 (file.length - cuesOffset))).take
            bytesRead = (file.drop cuesOffset).take 1048576 := by
          rw [List.take_take, ← List.length_drop, min_eq_right (by omega), ← List.take_eq_take_min]
        have hcues : ((file.drop cuesOffset).take 1048576).length < 2 ^ 63 := by
          rw [List.length_take]
          omega
        rw [sub_of_le hin, ok_bind, htake, cuePointsChecked_eq hcues, if_neg (by omega)]
        rfl
      · rw [sub, if_neg hin, if_pos ⟨by omega, rfl⟩]
        rfl

/-! ### When the ranges are safe -/

theorem findMkvCuesOffset_cuesPosition (file : List UInt8) : findMkvCuesOffset true file =
    match cuesPosition file with
    | none => some none
    | some (segmentDataStart, cuesPos) => (addU64 true segmentDataStart cuesPos).map some := by
  rw [findMkvCuesOffset, cuesPosition]
  dsimp only
  generalize file.take 102400 = buffer
  cases skipHeader ebmlId buffer with
  | none => rfl
  | some afterEbml =>
    rw [Option.bind_eq_bind, Option.bind_some]
    dsimp only
    cases skipHeader segmentId afterEbml with
    | none => rfl
    | some segmentData =>
      rw [Option.bind_eq_bind, Option.bind_some]
      dsimp only
      cases findCuesPosition segmentData with
      | none => rfl
      | some cuesPos => rfl

theorem cuesInside_iff (hlength : file.length < 2 ^ 64) : CuesInside file ↔
    ∃ found, findMkvCuesOffset true file = some found ∧ ∀ offset ∈ found, offset ≤ file.length := by
  rw [CuesInside, findMkvCuesOffset_cuesPosition]
  cases cuesPosition file with
  | none => simp
  | some position =>
    obtain ⟨segmentDataStart, cuesPos⟩ := position
    dsimp only
    rw [addU64, maxU64]
    split
    · simp
    · refine iff_of_false (fun h => ?_) (by simp)
      have hle := h segmentDataStart cuesPos rfl
      omega

theorem inspectMkvFull_inside_iff (hlength : file.length < 2 ^ 64) :
    (∃ ranges, inspectMkvFull file = .ok ranges ∧ RangesInside file ranges) ↔ CuesInside file := by
  rw [cuesInside_iff hlength, inspectMkvFull, cuesOffsetChecked_eq]
  cases findMkvCuesOffset true file with
  | none => simp [ofPanic]
  | some found =>
    rw [ofPanic, ok_bind]
    cases found with
    | none =>
      refine iff_of_true ?_ ⟨none, rfl, by simp⟩
      dsimp only
      by_cases hlarge : 1000000 < file.length
      · rw [if_pos hlarge, sub_of_le hlarge.le, ok_bind]
        refine ⟨_, rfl, rangesInside_cons.mpr ⟨by omega, rangesInside_cons.mpr ⟨by omega, ?_⟩⟩⟩
        exact rangesInside_nil file
      · rw [if_neg hlarge]
        exact ⟨_, rfl, rangesInside_cons.mpr ⟨by omega, rangesInside_nil file⟩⟩
    | some cuesOffset =>
      dsimp only
      by_cases hin : cuesOffset ≤ file.length
      · rw [sub_of_le hin, ok_bind]
        refine iff_of_true ⟨_, rfl, ?_⟩ ⟨some cuesOffset, rfl, by simpa using hin⟩
        refine rangesInside_cons.mpr ⟨by omega, rangesInside_cons.mpr ⟨by omega, ?_⟩⟩
        exact rangesInside_nil file
      · rw [sub, if_neg hin, error_bind]
        refine iff_of_false (by simp) fun h => hin ?_
        obtain ⟨found, hfound, hle⟩ := h
        cases hfound
        exact hle cuesOffset rfl

theorem mkvKeyframes_ne_panic (hlength : file.length < 2 ^ 64) (h : CuesInside file)
    (bytesRead : ℕ) : mkvKeyframesChecked file bytesRead ≠ .error .panic := by
  obtain ⟨found, hfound, hle⟩ := (cuesInside_iff hlength).mp h
  rw [mkvKeyframesChecked, cuesOffsetChecked_eq, hfound, ofPanic, ok_bind]
  cases found with
  | none => simp
  | some cuesOffset =>
    have hcues : (((file.drop cuesOffset).take (min 1048576 (file.length - cuesOffset))).take
        bytesRead).length < 2 ^ 63 := by
      rw [List.length_take, List.length_take]
      omega
    dsimp only
    rw [sub_of_le (hle cuesOffset rfl), ok_bind, cuePointsChecked_eq hcues]
    simp

theorem containerRanges_inside_iff (hlength : file.length < 2 ^ 64) (reads again : Reads)
    (container : ContainerType) :
    (∃ ranges, containerRanges file reads container = .ok ranges ∧ RangesInside file ranges) ∧
        (container = .mp4 → StartsFit file again.boxes) ↔
      IndexFits file reads again container := by
  cases container with
  | mp4 => exact and_congr (inspectMp4Full_inside_iff hlength) (by simp)
  | matroska =>
    rw [and_iff_left (by simp)]
    exact inspectMkvFull_inside_iff hlength
  | unknown =>
    refine iff_of_true ⟨?_, by simp⟩ trivial
    rw [containerRanges]
    by_cases hlarge : 128000 < file.length
    · rw [if_pos hlarge, sub_of_le hlarge.le, ok_bind]
      exact ⟨_, rfl, rangesInside_cons.mpr ⟨by omega, rangesInside_nil file⟩⟩
    · rw [if_neg hlarge]
      exact ⟨[], rfl, rangesInside_nil file⟩

/-- The second inspection overflows in a Matroska file only where the first does. -/
theorem keyframes_ne_panic_iff {toLowercase : String → String} {filename : String}
    (hlength : file.length < 2 ^ 64) (reads : Reads)
    (hcues : guessContainer toLowercase filename = .matroska → CuesInside file) :
    keyframeOffsetsChecked toLowercase file reads filename ≠ .error .panic ↔
      (guessContainer toLowercase filename = .mp4 → StartsFit file reads.boxes) := by
  rw [keyframeOffsetsChecked]
  cases hcontainer : guessContainer toLowercase filename with
  | mp4 => simpa using findMp4Keyframes_ne_panic_iff hlength reads.index
  | matroska => exact iff_of_true (mkvKeyframes_ne_panic hlength (hcues hcontainer) _) (by simp)
  | unknown => simp

/-- **The ranges are safe exactly if the index that is found lies in the file**, whatever the reads
bring. -/
theorem rangesSafe_iff {toLowercase : String → String} {filename : String} {reads again : Reads}
    (hlength : file.length < 2 ^ 64) : RangesSafe toLowercase file reads again filename ↔
      IndexFits file reads again (guessContainer toLowercase filename) := by
  have hfirst : 0 + min 65536 file.length ≤ file.length := by omega
  have hranges : (∃ ranges, findCriticalRanges toLowercase file reads filename = .ok ranges ∧
      RangesInside file ranges) ↔ ∃ ranges, containerRanges file reads
        (guessContainer toLowercase filename) = .ok ranges ∧ RangesInside file ranges := by
    constructor
    · intro h
      obtain ⟨all, hrun, hall⟩ := h
      obtain ⟨ranges, hranges, hcons⟩ := bind_ok_iff.mp hrun
      cases hcons
      exact ⟨ranges, hranges, (rangesInside_cons.mp hall).2⟩
    · intro h
      obtain ⟨ranges, hranges, hinside⟩ := h
      refine ⟨(0, min 65536 file.length) :: ranges, ?_, rangesInside_cons.mpr ⟨hfirst, hinside⟩⟩
      rw [findCriticalRanges, hranges]
      rfl
  rw [RangesSafe, hranges, ← containerRanges_inside_iff hlength]
  refine and_congr_right fun h => keyframes_ne_panic_iff hlength again fun hcontainer => ?_
  rw [hcontainer] at h
  exact (inspectMkvFull_inside_iff hlength).mp h

/-- A file of one box, an empty index of this size. -/
def emptyIndex (size : UInt8) : List UInt8 := [0, 0, 0, size, 0x6D, 0x6F, 0x6F, 0x76]

/-- Each read brings all it asks for. -/
def wholeReads : Reads := ⟨fun _ => ⟨8, 8, 5000000⟩, 20000000⟩

theorem emptyIndex_safe :
    RangesSafe String.toLower (emptyIndex 8) wholeReads wholeReads "film.MP4" := by
  have hcontainer : guessContainer String.toLower "film.MP4" = .mp4 := by decide +kernel
  have hranges : inspectMp4Full (emptyIndex 8) wholeReads.boxes = .ok [(0, 8)] := by decide +kernel
  have hinside : IndexInside (emptyIndex 8) wholeReads.boxes := by
    refine (inspectMp4Full_inside_iff (by decide)).mp ⟨_, hranges, ?_⟩
    exact rangesInside_cons.mpr ⟨by decide, rangesInside_nil _⟩
  refine (rangesSafe_iff (by decide)).mpr ?_
  rw [hcontainer]
  exact ⟨hinside, hinside.fits⟩

/-- An index that is said to be longer than the file. -/
theorem longIndex_not_safe :
    ¬ RangesSafe String.toLower (emptyIndex 9) wholeReads wholeReads "film.MP4" := by
  have hrun : findCriticalRanges String.toLower (emptyIndex 9) wholeReads "film.MP4" =
      .ok [(0, 8), (0, 9)] := by
    decide +kernel
  intro h
  obtain ⟨⟨ranges, hranges, hinside⟩, -⟩ := h
  rw [hrun] at hranges
  cases hranges
  have hle : 0 + 9 ≤ (emptyIndex 9).length := hinside (0, 9) (by decide)
  exact absurd hle (by decide)

end StreamServer.Metadata

import StreamServer.Lib.IndexLoop
import StreamServer.Metadata.Keyframes

/-!
# Looking into buffers

The functions that look for the Cues and through them, once more, with each index and each slice checked.
They end on every buffer, and what they return is what the scans of `StreamServer.Metadata.Matroska` come
to.

## Main definitions

* `headerChecked`, `headerAtChecked` — headers.
* `seekElementChecked`, `seekHeadChecked` — the SeekHead.
* `trackPositionsChecked`, `cuePointChecked`, `cuePointsChecked` — the Cues.

## Main results

* `seekHeadChecked_eq`, `seekElementChecked_eq`, `cuePointsChecked_eq` — **nothing is looked at outside
  of a buffer**, and the loops are scans.

## References

`enginefs/src/backend/metadata.rs`.
-/

namespace StreamServer.Metadata

open Checked

/-! ### Headers -/

/-- `parse_vint`. -/
def vintChecked (data : List UInt8) : Run (Option (ℕ × ℕ)) :=
  if data = [] then .ok none
  else do
    let first ← elem data 0
    let len := leadingZeros first + 1
    if 8 < len ∨ data.length < len then .ok none
    else .ok (some (bigEndian (first.toNat % 2 ^ (8 - len)) ((data.take len).drop 1), len))

/-- `parse_ebml_element_header`. -/
def headerChecked (data : List UInt8) : Run (Option (ℕ × ℕ)) :=
  if data = [] then .ok none
  else do
    match ← vintChecked data with
    | none => .ok none
    | some (_, idLen) =>
        if data.length < idLen then .ok none
        else do
          let rest ← slice data idLen data.length
          match ← vintChecked rest with
          | none => .ok none
          | some (size, sizeLen) => do
              let headerSize ← add (2 ^ 64) idLen sizeLen
              .ok (some (size, headerSize))

/-- The bytes from there on begin with an id, and a header can be read. -/
def headerAtChecked (id data : List UInt8) (pos : ℕ) : Run (Option (ℕ × ℕ)) := do
  if ← standsAt data id pos then
    let rest ← slice data pos data.length
    headerChecked rest
  else .ok none

/-- What comes behind a header: it begins there, and is so long. -/
def behind (data : List UInt8) (pos headerSize : ℕ) : Run (List UInt8) := do
  let start ← add (2 ^ 64) pos headerSize
  slice data start data.length

/-! ### The SeekHead -/

/-- The loop body of `parse_seek_element`. -/
def seekElementBody (data : List UInt8) (s : SeekState) (pos : ℕ) :
    Run (ScanStep SeekState (Option ℕ)) := do
  let limit ← add (2 ^ 64) pos 2
  if limit < data.length then
    match ← headerAtChecked seekIdId data pos with
    | some (size, headerSize) => do
        let idData ← behind data pos headerSize
        let jump ← add (2 ^ 64) headerSize size
        .ok (.advance
          (if size ≤ idData.length then
            { s with seekId := some (bigEndian 0 (idData.take size) % 2 ^ 32) } else s) (jump - 1))
    | none => do
        match ← headerAtChecked seekPositionId data pos with
        | some (size, headerSize) => do
            let posData ← behind data pos headerSize
            let jump ← add (2 ^ 64) headerSize size
            .ok (.advance
              (if size ≤ posData.length then
                { s with seekPosition := some (bigEndian 0 (posData.take size) % 2 ^ 64) } else s)
              (jump - 1))
        | none => .ok (.advance s 0)
  else .ok (.stop s.cuesPosition)

/-- `parse_seek_element`. -/
def seekElementChecked (data : List UInt8) : Run (Option ℕ) :=
  indexLoop (seekElementBody data) (data.length + 1) ⟨none, none⟩ 0

/-- The loop body of `parse_seek_head`. -/
def seekHeadBody (data : List UInt8) (_ : Unit) (pos : ℕ) : Run (ScanStep Unit (Option ℕ)) := do
  let limit ← add (2 ^ 64) pos 2
  if limit < data.length then
    match ← headerAtChecked seekId data pos with
    | some (size, headerSize) => do
        let seekData ← behind data pos headerSize
        let seek ← slice seekData 0 (min size seekData.length)
        match ← seekElementChecked seek with
        | some cuesPos => .ok (.stop (some cuesPos))
        | none => do
            let jump ← add (2 ^ 64) headerSize size
            .ok (.advance () (jump - 1))
    | none => .ok (.advance () 0)
  else .ok (.stop none)

/-- `parse_seek_head`. -/
def seekHeadChecked (data : List UInt8) : Run (Option ℕ) :=
  indexLoop (seekHeadBody data) (data.length + 1) () 0

/-! ### The Cues -/

/-- The loop over the track positions of a cue point. -/
def trackPositionsBody (trackSize : ℕ) (trackData : List UInt8) (_ : Unit) (tpos : ℕ) :
    Run (ScanStep Unit (Option ℕ)) := do
  let limit ← add (2 ^ 64) tpos 1
  if limit < trackSize then
    match ← headerAtChecked cueClusterPositionId trackData tpos with
    | some (psize, pheader) => do
        let pdata ← behind trackData tpos pheader
        if psize ≤ pdata.length then
          .ok (.stop (some (bigEndian 0 (pdata.take psize) % 2 ^ 64)))
        else .ok (.advance () 0)
    | none => .ok (.advance () 0)
  else .ok (.stop none)

/-- The loop over track positions. -/
def trackPositionsChecked (trackSize : ℕ) (trackData : List UInt8) : Run (Option ℕ) :=
  indexLoop (trackPositionsBody trackSize trackData) (trackData.length + 1) () 0

/-- The loop body of `parse_cue_point`. -/
def cuePointBody (data : List UInt8) (_ : Unit) (pos : ℕ) : Run (ScanStep Unit (Option ℕ)) := do
  let limit ← add (2 ^ 64) pos 1
  if limit < data.length then
    match ← headerAtChecked cueTrackPositionsId data pos with
    | some (size, headerSize) => do
        let trackData ← behind data pos headerSize
        match ← trackPositionsChecked (min size trackData.length) trackData with
        | some clusterPos => .ok (.stop (some clusterPos))
        | none => do
            let jump ← add (2 ^ 64) headerSize size
            .ok (.advance () (jump - 1))
    | none => .ok (.advance () 0)
  else .ok (.stop none)

/-- `parse_cue_point`. -/
def cuePointChecked (data : List UInt8) : Run (Option ℕ) :=
  indexLoop (cuePointBody data) (data.length + 1) () 0

/-- The loop body of `parse_cue_points`. -/
def cuePointsBody (data : List UInt8) (positions : List ℕ) (pos : ℕ) :
    Run (ScanStep (List ℕ) (List ℕ)) := do
  let limit ← add (2 ^ 64) pos 1
  if limit < data.length ∧ positions.length < 50 then
    match ← headerAtChecked cuePointId data pos with
    | some (size, headerSize) => do
        let cueData ← behind data pos headerSize
        let cue ← slice cueData 0 (min size cueData.length)
        let clusterPos ← cuePointChecked cue
        let jump ← add (2 ^ 64) headerSize size
        .ok (.advance (positions ++ clusterPos.toList) (jump - 1))
    | none => .ok (.advance positions 0)
  else .ok (.stop positions)

/-- `parse_cue_points`. -/
def cuePointsChecked (data : List UInt8) : Run (List ℕ) := do
  let pos ← if 4 < data.length then do
      match ← headerAtChecked cuesId data 0 with
      | some (_, headerSize) => .ok headerSize
      | none => .ok 0
    else .ok 0
  indexLoop (cuePointsBody data) (data.length + 1) [] pos

/-! ### Headers are read -/

theorem parseVint_spec {data : List UInt8} {value len : ℕ} (h : parseVint data = some (value, len)) :
    value < 2 ^ 56 ∧ 1 ≤ len ∧ len ≤ 8 ∧ len ≤ data.length := by
  have hin := (parseVint_append h []).2
  cases data with
  | nil => cases h
  | cons first rest =>
    rw [parseVint] at h
    split at h
    · cases h
    · next hlen =>
      cases h
      refine ⟨?_, by omega, by omega, hin⟩
      -- the first byte has `8 - len` bits of the value, and the others eight each
      have hlt := bigEndian_lt (rest.take (leadingZeros first + 1 - 1))
        (first.toNat % 2 ^ (8 - (leadingZeros first + 1)))
      have hmask : first.toNat % 2 ^ (8 - (leadingZeros first + 1)) + 1 ≤
          2 ^ (8 - (leadingZeros first + 1)) := Nat.mod_lt _ (Nat.two_pow_pos _)
      have hlength : (rest.take (leadingZeros first + 1 - 1)).length = leadingZeros first := by
        rw [List.length_take]
        omega
      rw [hlength] at hlt
      calc bigEndian (first.toNat % 2 ^ (8 - (leadingZeros first + 1)))
            (rest.take (leadingZeros first + 1 - 1))
          < (first.toNat % 2 ^ (8 - (leadingZeros first + 1)) + 1) * 256 ^ leadingZeros first := hlt
        _ ≤ 2 ^ (8 - (leadingZeros first + 1)) * 256 ^ leadingZeros first :=
            Nat.mul_le_mul_right _ hmask
        _ = 2 ^ (8 - (leadingZeros first + 1) + 8 * leadingZeros first) := by
            rw [show 256 = 2 ^ 8 by decide, ← Nat.pow_mul, ← Nat.pow_add]
        _ ≤ 2 ^ 56 := Nat.pow_le_pow_right (by decide) (by omega)

theorem parseHeader_spec {data : List UInt8} {size headerSize : ℕ}
    (h : parseEbmlElementHeader data = some (size, headerSize)) :
    size < 2 ^ 56 ∧ 2 ≤ headerSize ∧ headerSize ≤ 16 ∧ headerSize ≤ data.length := by
  have hin := (parseEbmlElementHeader_append h []).2
  rw [parseEbmlElementHeader] at h
  split at h
  · cases h
  · next idValue idLen hid =>
    split at h
    · cases h
    · next size' sizeLen hsize =>
      cases h
      obtain ⟨-, hid1, hid8, -⟩ := parseVint_spec hid
      obtain ⟨hlt, hsize1, hsize8, -⟩ := parseVint_spec hsize
      exact ⟨hlt, by omega, by omega, hin⟩

theorem headerAt_spec {id data : List UInt8} {size headerSize : ℕ}
    (h : headerAt id data = some (size, headerSize)) :
    size < 2 ^ 56 ∧ 2 ≤ headerSize ∧ headerSize ≤ 16 ∧ headerSize ≤ data.length := by
  rw [headerAt] at h
  split at h
  · exact parseHeader_spec h
  · cases h

theorem vintChecked_eq (data : List UInt8) : vintChecked data = .ok (parseVint data) := by
  cases data with
  | nil => rfl
  | cons first rest =>
    rw [vintChecked, if_neg (List.cons_ne_nil _ _), elem_of_lt (Nat.succ_pos _), ok_bind, parseVint]
    dsimp only [List.getElem_cons_zero]
    rw [List.length_cons, List.take_succ_cons, List.drop_succ_cons, List.drop_zero,
      Nat.add_sub_cancel]
    split <;> rfl

theorem headerChecked_eq (data : List UInt8) :
    headerChecked data = .ok (parseEbmlElementHeader data) := by
  rw [headerChecked, parseEbmlElementHeader, vintChecked_eq]
  split
  · next hnil => rw [hnil]; rfl
  · rw [ok_bind]
    cases hid : parseVint data with
    | none => rfl
    | some id =>
      obtain ⟨value, idLen⟩ := id
      obtain ⟨-, -, hid8, hin⟩ := parseVint_spec hid
      dsimp only
      rw [if_neg (by omega), slice_end hin, ok_bind, vintChecked_eq, ok_bind]
      cases hsize : parseVint (data.drop idLen) with
      | none => rfl
      | some size =>
        obtain ⟨size, sizeLen⟩ := size
        obtain ⟨-, -, hsize8, -⟩ := parseVint_spec hsize
        dsimp only
        rw [add_of_lt (by omega), ok_bind]

theorem headerAtChecked_eq {id data : List UInt8} {pos : ℕ} (h : pos + id.length ≤ data.length) :
    headerAtChecked id data pos = .ok (headerAt id (data.drop pos)) := by
  rw [headerAtChecked, standsAt_eq h, ok_bind, headerAt]
  by_cases hid : (data.drop pos).take id.length = id
  · rw [if_pos hid, decide_eq_true hid, if_pos rfl, slice_end (by omega), ok_bind, headerChecked_eq]
  · rw [if_neg hid, decide_eq_false hid]
    rfl

variable {data : List UInt8} {pos : ℕ}

/-- What comes behind a header that has been read. -/
theorem behind_eq {id : List UInt8} {size headerSize : ℕ} (hlength : data.length < 2 ^ 63)
    (h : headerAt id (data.drop pos) = some (size, headerSize)) (hpos : pos ≤ data.length) :
    behind data pos headerSize = .ok ((data.drop pos).drop headerSize) := by
  obtain ⟨-, -, -, hin⟩ := headerAt_spec h
  rw [List.length_drop] at hin
  rw [behind, add_of_lt (by omega), ok_bind, slice_end (by omega), List.drop_drop]

/-- A slice that is cut to what is there. -/
theorem part_eq (data : List UInt8) (size : ℕ) :
    slice data 0 (min size data.length) = .ok (data.take size) := by
  rw [slice_of_le (Nat.zero_le _) (Nat.min_le_right _ _), List.drop_zero, ← List.take_eq_take_min]

/-- How far a loop goes past an element. -/
theorem jump_eq {id : List UInt8} {size headerSize : ℕ}
    (h : headerAt id (data.drop pos) = some (size, headerSize)) :
    add (2 ^ 64) headerSize size = .ok (headerSize + size) ∧
      headerSize + size - 1 + 1 ≤ 2 ^ 57 := by
  obtain ⟨hsize, htwo, hheader, -⟩ := headerAt_spec h
  exact ⟨add_of_lt (by omega), by omega⟩

/-! ### The loops are scans -/

theorem seekElementBody_matches (hlength : data.length < 2 ^ 63) (s : SeekState)
    (hpos : pos < data.length) : ∃ step, seekElementBody data s pos = .ok step ∧
      Matches (2 ^ 57) (fun s _ => s) pos step (seekElementStep s (data.drop pos)) := by
  have hdrop : (data.drop pos).length = data.length - pos := List.length_drop
  rw [seekElementBody, seekElementStep, add_of_lt (by omega), ok_bind]
  by_cases hlong : pos + 2 < data.length
  · rw [if_pos hlong, if_neg (by omega), headerAtChecked_eq (by
      have hid : seekIdId.length = 2 := rfl
      omega), ok_bind]
    cases hat : headerAt seekIdId (data.drop pos) with
    | some header =>
      obtain ⟨size, headerSize⟩ := header
      obtain ⟨hjump, hbound⟩ := jump_eq hat
      dsimp only
      rw [behind_eq hlength hat hpos.le, ok_bind, hjump, ok_bind]
      exact ⟨_, rfl, hbound, rfl⟩
    | none =>
      dsimp only
      rw [headerAtChecked_eq (by
        have hid : seekPositionId.length = 2 := rfl
        omega), ok_bind]
      cases hat' : headerAt seekPositionId (data.drop pos) with
      | some header =>
        obtain ⟨size, headerSize⟩ := header
        obtain ⟨hjump, hbound⟩ := jump_eq hat'
        dsimp only
        rw [behind_eq hlength hat' hpos.le, ok_bind, hjump, ok_bind]
        exact ⟨_, rfl, hbound, rfl⟩
      | none => exact ⟨_, rfl, by decide, rfl⟩
  · rw [if_neg hlong, if_pos (by omega)]
    exact ⟨_, rfl, rfl⟩

/-- `parse_seek_element` ends, and looks at nothing outside. -/
theorem seekElementChecked_eq (hlength : data.length < 2 ^ 63) :
    seekElementChecked data = .ok (parseSeekElement data) := by
  refine indexLoop_eq_scan (fun s _ => s) (2 ^ 57) (by omega)
    (fun s pos hpos => seekElementBody_matches hlength s hpos) (fun s pos hpos hle => ?_) _
    (Nat.zero_le _) (by omega) (by omega)
  rw [seekElementBody, add_of_lt (by omega), ok_bind, if_neg (by omega)]

theorem seekHeadBody_matches (hlength : data.length < 2 ^ 63) (t : Unit)
    (hpos : pos < data.length) : ∃ step, seekHeadBody data t pos = .ok step ∧
      Matches (2 ^ 57) (fun t _ => t) pos step (seekHeadStep t (data.drop pos)) := by
  have hdrop : (data.drop pos).length = data.length - pos := List.length_drop
  rw [seekHeadBody, seekHeadStep, add_of_lt (by omega), ok_bind]
  by_cases hlong : pos + 2 < data.length
  · rw [if_pos hlong, if_neg (by omega), headerAtChecked_eq (by
      have hid : seekId.length = 2 := rfl
      omega), ok_bind]
    cases hat : headerAt seekId (data.drop pos) with
    | some header =>
      obtain ⟨size, headerSize⟩ := header
      obtain ⟨hjump, hbound⟩ := jump_eq hat
      have hrest : ((data.drop pos).drop headerSize).length < 2 ^ 63 := by
        rw [List.length_drop]
        omega
      have htake := part_eq ((data.drop pos).drop headerSize) size
      have hseek : (((data.drop pos).drop headerSize).take size).length < 2 ^ 63 := by
        rw [List.length_take]
        omega
      dsimp only
      rw [behind_eq hlength hat hpos.le, ok_bind, htake, ok_bind, seekElementChecked_eq hseek,
        ok_bind]
      cases parseSeekElement (((data.drop pos).drop headerSize).take size) with
      | some cuesPos => exact ⟨_, rfl, rfl⟩
      | none =>
        dsimp only
        rw [hjump, ok_bind]
        exact ⟨_, rfl, hbound, rfl⟩
    | none => exact ⟨_, rfl, by decide, rfl⟩
  · rw [if_neg hlong, if_pos (by omega)]
    exact ⟨_, rfl, rfl⟩

/-- **`parse_seek_head` ends, and looks at nothing outside.** -/
theorem seekHeadChecked_eq (hlength : data.length < 2 ^ 63) :
    seekHeadChecked data = .ok (parseSeekHead data) := by
  refine indexLoop_eq_scan (fun t _ => t) (2 ^ 57) (by omega)
    (fun t pos hpos => seekHeadBody_matches hlength t hpos) (fun t pos hpos hle => ?_) _
    (Nat.zero_le _) (by omega) (by omega)
  rw [seekHeadBody, add_of_lt (by omega), ok_bind, if_neg (by omega)]

theorem trackPositionsBody_matches {trackSize : ℕ} (hlength : data.length < 2 ^ 63) (t : Unit)
    (hsize : trackSize ≤ data.length) (hpos : pos < data.length) :
    ∃ step, trackPositionsBody trackSize data t pos = .ok step ∧
      Matches (2 ^ 57) (fun _ pos => trackSize - pos) pos step
        (trackPositionsStep (trackSize - pos) (data.drop pos)) := by
  have hdrop : (data.drop pos).length = data.length - pos := List.length_drop
  have hnext : trackSize - pos - 1 = trackSize - (pos + (0 + 1)) := by omega
  rw [trackPositionsBody, trackPositionsStep, add_of_lt (by omega), ok_bind]
  by_cases hlong : pos + 1 < trackSize
  · rw [if_pos hlong, if_neg (by omega), headerAtChecked_eq (by
      have hid : cueClusterPositionId.length = 1 := rfl
      omega), ok_bind, hnext]
    cases hat : headerAt cueClusterPositionId (data.drop pos) with
    | some header =>
      obtain ⟨psize, pheader⟩ := header
      dsimp only
      rw [behind_eq hlength hat hpos.le, ok_bind]
      split
      · exact ⟨_, rfl, rfl⟩
      · exact ⟨_, rfl, by decide, rfl⟩
    | none => exact ⟨_, rfl, by decide, rfl⟩
  · rw [if_neg hlong, if_pos (by omega)]
    exact ⟨_, rfl, rfl⟩

theorem trackPositionsChecked_eq {trackSize : ℕ} (hlength : data.length < 2 ^ 63)
    (hsize : trackSize ≤ data.length) :
    trackPositionsChecked trackSize data = .ok (parseTrackPositions trackSize data) := by
  refine indexLoop_eq_scan (fun _ pos => trackSize - pos) (2 ^ 57) (by omega)
    (fun t pos hpos => trackPositionsBody_matches hlength t hsize hpos) (fun t pos hpos hle => ?_) ()
    (Nat.zero_le _) (by omega) (by omega)
  rw [trackPositionsBody, add_of_lt (by omega), ok_bind, if_neg (by omega)]

theorem cuePointBody_matches (hlength : data.length < 2 ^ 63) (t : Unit)
    (hpos : pos < data.length) : ∃ step, cuePointBody data t pos = .ok step ∧
      Matches (2 ^ 57) (fun t _ => t) pos step (cuePointStep t (data.drop pos)) := by
  have hdrop : (data.drop pos).length = data.length - pos := List.length_drop
  rw [cuePointBody, cuePointStep, add_of_lt (by omega), ok_bind]
  by_cases hlong : pos + 1 < data.length
  · rw [if_pos hlong, if_neg (by omega), headerAtChecked_eq (by
      have hid : cueTrackPositionsId.length = 1 := rfl
      omega), ok_bind]
    cases hat : headerAt cueTrackPositionsId (data.drop pos) with
    | some header =>
      obtain ⟨size, headerSize⟩ := header
      obtain ⟨hjump, hbound⟩ := jump_eq hat
      have hrest : ((data.drop pos).drop headerSize).length < 2 ^ 63 := by
        rw [List.length_drop]
        omega
      dsimp only
      rw [behind_eq hlength hat hpos.le, ok_bind,
        trackPositionsChecked_eq hrest (Nat.min_le_right _ _), ok_bind]
      cases parseTrackPositions (min size ((data.drop pos).drop headerSize).length)
          ((data.drop pos).drop headerSize) with
      | some clusterPos => exact ⟨_, rfl, rfl⟩
      | none =>
        dsimp only
        rw [hjump, ok_bind]
        exact ⟨_, rfl, hbound, rfl⟩
    | none => exact ⟨_, rfl, by decide, rfl⟩
  · rw [if_neg hlong, if_pos (by omega)]
    exact ⟨_, rfl, rfl⟩

theorem cuePointChecked_eq (hlength : data.length < 2 ^ 63) :
    cuePointChecked data = .ok (parseCuePoint data) := by
  refine indexLoop_eq_scan (fun t _ => t) (2 ^ 57) (by omega)
    (fun t pos hpos => cuePointBody_matches hlength t hpos) (fun t pos hpos hle => ?_) _
    (Nat.zero_le _) (by omega) (by omega)
  rw [cuePointBody, add_of_lt (by omega), ok_bind, if_neg (by omega)]

theorem cuePointsBody_matches (hlength : data.length < 2 ^ 63) (positions : List ℕ)
    (hpos : pos < data.length) : ∃ step, cuePointsBody data positions pos = .ok step ∧
      Matches (2 ^ 57) (fun positions _ => positions) pos step
        (cuePointsStep positions (data.drop pos)) := by
  have hdrop : (data.drop pos).length = data.length - pos := List.length_drop
  rw [cuePointsBody, cuePointsStep, add_of_lt (by omega), ok_bind]
  by_cases hlong : pos + 1 < data.length ∧ positions.length < 50
  · rw [if_pos hlong, if_neg (by omega), headerAtChecked_eq (by
      have hid : cuePointId.length = 1 := rfl
      omega), ok_bind]
    cases hat : headerAt cuePointId (data.drop pos) with
    | some header =>
      obtain ⟨size, headerSize⟩ := header
      obtain ⟨hjump, hbound⟩ := jump_eq hat
      have hrest : ((data.drop pos).drop headerSize).length < 2 ^ 63 := by
        rw [List.length_drop]
        omega
      have hcue : (((data.drop pos).drop headerSize).take size).length < 2 ^ 63 := by
        rw [List.length_take]
        omega
      dsimp only
      rw [behind_eq hlength hat hpos.le, ok_bind, part_eq, ok_bind, cuePointChecked_eq hcue, ok_bind,
        hjump, ok_bind]
      exact ⟨_, rfl, hbound, rfl⟩
    | none => exact ⟨_, rfl, by decide, rfl⟩
  · rw [if_neg hlong, if_pos (by omega)]
    exact ⟨_, rfl, rfl⟩

/-- **`parse_cue_points` ends, and looks at nothing outside.** -/
theorem cuePointsChecked_eq (hlength : data.length < 2 ^ 63) :
    cuePointsChecked data = .ok (parseCuePoints data) := by
  have hloop : ∀ pos ≤ data.length, indexLoop (cuePointsBody data) (data.length + 1) [] pos =
      .ok (scan cuePointsStep id 0 [] (data.drop pos)) := by
    intro pos hpos
    refine indexLoop_eq_scan (fun positions _ => positions) (2 ^ 57) (by omega)
      (fun positions pos hpos => cuePointsBody_matches hlength positions hpos)
      (fun positions pos hpos hle => ?_) _ (by omega) (by omega) (by omega)
    rw [cuePointsBody, add_of_lt (by omega), ok_bind, if_neg (by omega)]
    rfl
  rw [cuePointsChecked, parseCuePoints, skipCuesHeader]
  by_cases hlong : 4 < data.length
  · rw [if_pos hlong, if_neg (by omega), headerAtChecked_eq (by
      have hid : cuesId.length = 4 := rfl
      omega), ok_bind, List.drop_zero]
    cases hat : headerAt cuesId data with
    | some header =>
      obtain ⟨size, headerSize⟩ := header
      exact hloop headerSize (headerAt_spec hat).2.2.2
    | none => exact hloop 0 (Nat.zero_le _)
  · rw [if_neg hlong, if_pos (by omega)]
    exact hloop 0 (Nat.zero_le _)

end StreamServer.Metadata

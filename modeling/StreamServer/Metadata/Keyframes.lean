import StreamServer.Metadata.Matroska

/-!
# The offsets of keyframes

A Matroska file gives positions relative to where the data of its Segment starts, and that
depends on the lengths of two headers.  `find_mkv_cues_offset` adds it, `find_mkv_keyframes`
does not: what it returns are the positions as they stand in the cue points.  So no file
with a cue point gets the offset of its first keyframe.

## Main definitions

* `CuePoint`, `Cues`, `SeekEntry`, `SeekHead`, `MatroskaFile` — well-formed files, in which
  the ids the inspector looks for occur only where their elements begin.
* `MatroskaFile.KeyframesAbsolute` — the offsets returned are offsets in the file.

## Main results

* `findMkvCuesOffset_eq` — the inspector finds the Cues.
* `findMkvKeyframes_take` — and returns the positions of the cue points.
* `keyframesAbsolute_iff` — **the offsets are absolute only if there is no cue point.**

## References

`enginefs/src/backend/metadata.rs`.
-/

namespace StreamServer.Metadata

open Readers

/-! ### Elements among noise -/

theorem headerAt_header {id : List UInt8} (h : Header) (ys : List UInt8) (hid : h.id.bytes = id) :
    headerAt id (h.bytes ++ ys) = some (h.size.value, h.bytes.length) := by
  have htake : (h.bytes ++ ys).take id.length = id := by
    rw [Header.bytes, List.append_assoc, hid, List.take_left' rfl]
  rw [headerAt, if_pos htake, parseEbmlElementHeader_bytes]

theorem headerAt_element {id : List UInt8} (e : Element) (ys : List UInt8)
    (hid : e.id.bytes = id) :
    headerAt id (e.bytes ++ ys) = some (e.payload.length, e.toHeader.bytes.length) := by
  rw [Element.bytes, List.append_assoc, headerAt_header e.toHeader _ hid, e.size_eq]

/-- Another element is not taken for one with this id. -/
theorem headerAt_other {id : List UInt8} (e : Element) (ys : List UInt8)
    (hlength : e.id.bytes.length = id.length) (hid : e.id.bytes ≠ id) :
    headerAt id (e.bytes ++ ys) = none := by
  refine if_neg ?_
  rw [← hlength, e.take_id]
  exact hid

theorem headerAt_noise {id noise next : List UInt8} (h : Avoids id noise next)
    (hnext : id.length ≤ next.length + 1) (ys : List UInt8) {k : ℕ} (hk : k < noise.length) :
    headerAt id ((noise ++ (next ++ ys)).drop k) = none :=
  if_neg (h.append hnext ys hk)

/-- An id does not begin in the noise before an element. -/
theorem headerAt_before {id noise : List UInt8} (e : Element) (h : Avoids id noise e.id.bytes)
    (hid : id.length ≤ e.id.bytes.length + 1) (ys : List UInt8) {k : ℕ} (hk : k < noise.length) :
    headerAt id ((noise ++ (e.bytes ++ ys)).drop k) = none := by
  have hbytes : e.bytes ++ ys = e.id.bytes ++ (e.size.bytes ++ (e.payload ++ ys)) := by
    simp [Element.bytes, Header.bytes]
  rw [hbytes]
  exact headerAt_noise h hid _ hk

/-- What is left of noise before an element is long enough to go on. -/
theorem length_drop_noise {noise : List UInt8} (rest : List UInt8) {k : ℕ}
    (hk : k < noise.length) : rest.length < ((noise ++ rest).drop k).length := by
  simp only [List.length_drop, List.length_append]
  omega

/-! ### Well-formed files -/

/-- A cue point.  Before its track positions there are elements that the inspector does not
look for, such as the cue time, and so there are in the track positions before the position of
the cluster. -/
structure CuePoint where
  /-- What stands between this cue point and the one before. -/
  gap : List UInt8
  point : Element
  before : List UInt8
  track : Element
  after : List UInt8
  trackBefore : List UInt8
  position : Element
  trackAfter : List UInt8
  point_id : point.id.bytes = cuePointId
  track_id : track.id.bytes = cueTrackPositionsId
  position_id : position.id.bytes = cueClusterPositionId
  point_payload : point.payload = before ++ (track.bytes ++ after)
  track_payload : track.payload = trackBefore ++ (position.bytes ++ trackAfter)
  position_le : position.payload.length ≤ 8
  gap_avoids : Avoids cuePointId gap []
  before_avoids : Avoids cueTrackPositionsId before []
  trackBefore_avoids : Avoids cueClusterPositionId trackBefore []

namespace CuePoint

variable (p : CuePoint)

/-- The cue point and what stands before it. -/
def bytes : List UInt8 := p.gap ++ p.point.bytes

/-- `CueClusterPosition`. -/
def clusterPosition : ℕ := bigEndian 0 p.position.payload

end CuePoint

/-- The Cues: cue points, and nothing behind them that looks like one. -/
structure Cues where
  element : Element
  points : List CuePoint
  tail : List UInt8
  id_eq : element.id.bytes = cuesId
  payload_eq : element.payload = points.flatMap CuePoint.bytes ++ tail
  tail_avoids : Avoids cuePointId tail []

/-- The two elements of a Seek. -/
inductive SeekFieldKind
  | id
  | position
  deriving DecidableEq, Repr

/-- The id of the element that holds the field. -/
def SeekFieldKind.elementId : SeekFieldKind → List UInt8
  | .id => seekIdId
  | .position => seekPositionId

/-- How many bytes the field may have. -/
def SeekFieldKind.maxLength : SeekFieldKind → ℕ
  | .id => 4
  | .position => 8

/-- A field of a Seek element, with the bytes in front of it. -/
structure SeekField where
  gap : List UInt8
  kind : SeekFieldKind
  element : Element
  id_eq : element.id.bytes = kind.elementId
  length_le : element.payload.length ≤ kind.maxLength
  gap_avoids : ∀ kind' : SeekFieldKind, Avoids kind'.elementId gap kind.elementId

/-- The field as it is written. -/
def SeekField.bytes (f : SeekField) : List UInt8 := f.gap ++ f.element.bytes

/-- The number the field holds. -/
def SeekField.value (f : SeekField) : ℕ := bigEndian 0 f.element.payload

/-- A Seek, in which the id and the position may stand in either order. -/
structure SeekEntry where
  gap : List UInt8
  seek : Element
  idField : SeekField
  positionField : SeekField
  idFirst : Bool
  tail : List UInt8
  seek_id : seek.id.bytes = seekId
  idField_kind : idField.kind = .id
  positionField_kind : positionField.kind = .position
  payload_eq : seek.payload =
    (if idFirst then [idField, positionField] else [positionField, idField]).flatMap
      SeekField.bytes ++ tail
  gap_avoids : Avoids seekId gap seekId
  tail_avoids : ∀ kind : SeekFieldKind, Avoids kind.elementId tail []

namespace SeekEntry

variable (e : SeekEntry)

/-- The entry as it is written. -/
def bytes : List UInt8 := e.gap ++ e.seek.bytes

/-- The id of the element that the entry points to. -/
def target : ℕ := e.idField.value

/-- Where the entry points to, from the data of the segment. -/
def position : ℕ := e.positionField.value

end SeekEntry

/-- A SeekHead with an entry for the Cues. -/
structure SeekHead where
  element : Element
  before : List SeekEntry
  cuesEntry : SeekEntry
  tail : List UInt8
  id_eq : element.id.bytes = seekHeadId
  payload_eq : element.payload = before.flatMap SeekEntry.bytes ++ (cuesEntry.bytes ++ tail)
  before_target : ∀ e ∈ before, e.target ≠ CUES
  cuesEntry_target : cuesEntry.target = CUES

/-- A Matroska file whose headers lie in the first 100 KB.  Its SeekHead gives the position of
the Cues in the data of the Segment.  If the first cue point does not lie in the first 1 MB of
the Cues, it has no other byte that is taken for the id of the position of a cluster. -/
structure MatroskaFile where
  ebml : Element
  segment : Header
  gap : List UInt8
  seekHead : SeekHead
  rest : List UInt8
  cues : Cues
  cuesTail : List UInt8
  ebml_id : ebml.id.bytes = ebmlId
  segment_id : segment.id.bytes = segmentId
  ebml_avoids : Avoids segmentId ebml.payload segmentId
  gap_avoids : Avoids seekHeadId gap seekHeadId ∧ Avoids clusterId gap seekHeadId
  head_le : ebml.bytes.length + segment.bytes.length + gap.length +
    seekHead.element.bytes.length ≤ 102400
  cues_at : (gap ++ (seekHead.element.bytes ++ rest)).drop seekHead.cuesEntry.position =
    cues.element.bytes ++ cuesTail
  firstPoint_spec : ∀ p ∈ cues.points.head?,
    cues.element.toHeader.bytes.length + p.bytes.length ≤ 1048576 ∨ p.bytes.count 0xF1 = 1
  length_lt : ebml.bytes.length + segment.bytes.length + gap.length +
    seekHead.element.bytes.length + rest.length < 2 ^ 63

namespace MatroskaFile

variable (f : MatroskaFile)

/-- The data of the Segment. -/
def segmentData : List UInt8 := f.gap ++ (f.seekHead.element.bytes ++ f.rest)

/-- The file as it is written. -/
def bytes : List UInt8 := f.ebml.bytes ++ (f.segment.bytes ++ f.segmentData)

/-- Where the data of the Segment starts. -/
def segmentDataStart : ℕ := f.ebml.bytes.length + f.segment.bytes.length

/-- The offset of the Cues in the file. -/
def cuesOffset : ℕ := f.segmentDataStart + f.seekHead.cuesEntry.position

/-- For each of the first 50 cue points the offset of its cluster in the file is returned. -/
def KeyframesAbsolute (result : Option (List ℕ)) : Prop :=
  ∃ offsets, result = some offsets ∧
    ∀ i < 50, ∀ p, f.cues.points[i]? = some p →
      offsets[i]? = some (f.segmentDataStart + p.clusterPosition)

end MatroskaFile

/-! ### Cue points are found -/

/-- The position of the cluster is found in the track positions. -/
theorem parseTrackPositions_eq (p : CuePoint) (ys : List UInt8) :
    parseTrackPositions p.track.payload.length (p.track.payload ++ ys) =
      some p.clusterPosition := by
  have hheader := p.position.toHeader.two_le_length
  have hlength := p.position.length_bytes
  have hsize : p.track.payload.length =
      p.trackBefore.length + (p.position.bytes.length + p.trackAfter.length) := by
    simp [p.track_payload]
  have hdata : p.track.payload ++ ys =
      p.trackBefore ++ (p.position.bytes ++ (p.trackAfter ++ ys)) := by
    simp [p.track_payload]
  have hnoise : ∀ k < p.trackBefore.length,
      trackPositionsStep (p.track.payload.length - k)
          ((p.trackBefore ++ (p.position.bytes ++ (p.trackAfter ++ ys))).drop k) =
        .advance (p.track.payload.length - (k + 1)) 0 := by
    intro k hk
    have hnone := headerAt_noise p.trackBefore_avoids (Nat.le_refl 1)
      (p.position.bytes ++ (p.trackAfter ++ ys)) hk
    rw [List.nil_append] at hnone
    rw [trackPositionsStep, if_neg (by omega), hnone, Nat.sub_sub]
  have hpass : scan trackPositionsStep (fun _ => none) 0 p.track.payload.length
        (p.trackBefore ++ (p.position.bytes ++ (p.trackAfter ++ ys))) =
      scan trackPositionsStep (fun _ => none) 0 (p.track.payload.length - p.trackBefore.length)
        (p.position.bytes ++ (p.trackAfter ++ ys)) :=
    scan_pass (fun k => p.track.payload.length - k) p.trackBefore _ hnoise
  rw [parseTrackPositions, hdata, hpass]
  refine scan_stop (by simp [p.position.bytes_ne_nil]) ?_
  have hcut := bigEndian_mod p.position_le
  rw [show 256 ^ 8 = 2 ^ 64 by decide] at hcut
  rw [trackPositionsStep, if_neg (by omega), headerAt_element p.position _ p.position_id]
  dsimp only
  rw [p.position.drop_header, if_pos (by simp), List.take_left' rfl, hcut]
  rfl

/-- A cue point has the position of its cluster. -/
theorem parseCuePoint_eq (p : CuePoint) :
    parseCuePoint p.point.payload = some p.clusterPosition := by
  have hheader := p.track.toHeader.two_le_length
  have hlength := p.track.length_bytes
  have hnoise : ∀ k < p.before.length,
      cuePointStep () ((p.before ++ (p.track.bytes ++ p.after)).drop k) = .advance () 0 := by
    intro k hk
    have hleft := length_drop_noise (p.track.bytes ++ p.after) hk
    have hnone := headerAt_noise p.before_avoids (Nat.le_refl 1) (p.track.bytes ++ p.after) hk
    rw [List.nil_append] at hnone
    rw [List.length_append] at hleft
    rw [cuePointStep, if_neg (by omega), hnone]
  rw [parseCuePoint, p.point_payload, scan_noise hnoise]
  refine scan_stop (by simp [p.track.bytes_ne_nil]) ?_
  rw [cuePointStep, if_neg (by rw [List.length_append]; omega),
    headerAt_element p.track _ p.track_id]
  dsimp only
  rw [p.track.drop_header, min_eq_left (by simp), parseTrackPositions_eq]

/-- The loop over the Cues takes up one cue point. -/
theorem scan_cuePoint (p : CuePoint) (ys : List UInt8) {positions : List ℕ}
    (h : positions.length < 50) :
    scan cuePointsStep id 0 positions (p.bytes ++ ys) =
      scan cuePointsStep id 0 (positions ++ [p.clusterPosition]) ys := by
  have hheader := p.point.toHeader.two_le_length
  have hlength := p.point.length_bytes
  have hnoise : ∀ k < p.gap.length,
      cuePointsStep positions ((p.gap ++ (p.point.bytes ++ ys)).drop k) =
        .advance positions 0 := by
    intro k hk
    have hleft := length_drop_noise (p.point.bytes ++ ys) hk
    have hnone := headerAt_noise p.gap_avoids (Nat.le_refl 1) (p.point.bytes ++ ys) hk
    rw [List.nil_append] at hnone
    rw [List.length_append] at hleft
    rw [cuePointsStep, if_neg (by omega), hnone]
  rw [CuePoint.bytes, List.append_assoc, scan_noise hnoise]
  refine scan_jump p.point.bytes_ne_nil ?_
  rw [cuePointsStep, if_neg (by rw [List.length_append]; omega),
    headerAt_element p.point _ p.point_id]
  dsimp only
  rw [p.point.drop_header, List.take_left' rfl, parseCuePoint_eq, hlength]
  rfl

/-- A turn of the loop keeps what has been found. -/
theorem cuePointsStep_cases (positions : List ℕ) (data : List UInt8) :
    cuePointsStep positions data = .stop positions ∨
      ∃ more skip, cuePointsStep positions data = .advance (positions ++ more) skip := by
  unfold cuePointsStep
  split
  · exact Or.inl rfl
  · split
    · exact Or.inr ⟨_, _, rfl⟩
    · exact Or.inr ⟨[], 0, by simp⟩

/-- What the loop has found it returns, with what it finds later behind it. -/
theorem prefix_scan_cuePoints (ys : List UInt8) (skip : ℕ) (positions : List ℕ) :
    ∃ more, scan cuePointsStep id skip positions ys = positions ++ more := by
  induction ys generalizing skip positions with
  | nil => exact ⟨[], by simp [scan_nil]⟩
  | cons y ys ih =>
    cases skip with
    | succ skip => exact ih skip positions
    | zero =>
      rcases cuePointsStep_cases positions (y :: ys) with hstop | ⟨found, skip, hadvance⟩
      · exact ⟨[], by simp [scan, hstop]⟩
      · obtain ⟨more, hmore⟩ := ih skip (positions ++ found)
        exact ⟨found ++ more, by simp [scan, hadvance, hmore]⟩

/-- The loop takes up the cue points that come first, up to 50 of them. -/
theorem scan_cuePoints (points : List CuePoint) (ys : List UInt8) (positions : List ℕ)
    (h : positions.length + points.length ≤ 50) :
    ∃ more, scan cuePointsStep id 0 positions (points.flatMap CuePoint.bytes ++ ys) =
      positions ++ (points.map CuePoint.clusterPosition ++ more) := by
  induction points generalizing positions with
  | nil => simpa using prefix_scan_cuePoints ys 0 positions
  | cons p points ih =>
    rw [List.length_cons] at h
    rw [List.flatMap_cons, List.append_assoc, scan_cuePoint p _ (by omega)]
    obtain ⟨more, hmore⟩ := ih (positions ++ [p.clusterPosition]) (by
      rw [List.length_append, List.length_singleton]
      omega)
    exact ⟨more, by rw [hmore]; simp⟩

/-! ### What is found is there -/

/-- A number stands in the data behind the id of the position of a cluster. -/
def PositionIn (data : List UInt8) (position : ℕ) : Prop :=
  ∃ found, found <:+: data ∧ ∃ size headerSize,
    headerAt cueClusterPositionId found = some (size, headerSize) ∧
      size ≤ (found.drop headerSize).length ∧
      position = bigEndian 0 ((found.drop headerSize).take size) % 2 ^ 64

theorem PositionIn.of_part {data data' : List UInt8} {position : ℕ}
    (h : PositionIn data position) (hdata : data <:+: data') : PositionIn data' position := by
  obtain ⟨found, hfound, hread⟩ := h
  exact ⟨found, hfound.trans hdata, hread⟩

theorem positionIn_of_parseTrackPositions {trackSize position : ℕ} {trackData : List UInt8}
    (h : parseTrackPositions trackSize trackData = some position) :
    PositionIn trackData position := by
  obtain ⟨left, found, hfound, hstop⟩ := scan_eq_some h
  unfold trackPositionsStep at hstop
  split at hstop
  · simp at hstop
  · split at hstop
    · next size headerSize hat =>
      dsimp only at hstop
      split at hstop
      · next hsize =>
        rw [ScanStep.stop.injEq, Option.some.injEq] at hstop
        exact ⟨found, hfound.isInfix, size, headerSize, hat, hsize, hstop.symm⟩
      · cases hstop
    · cases hstop

theorem positionIn_of_parseCuePoint {position : ℕ} {data : List UInt8}
    (h : parseCuePoint data = some position) : PositionIn data position := by
  obtain ⟨_, found, hfound, hstop⟩ := scan_eq_some h
  unfold cuePointStep at hstop
  split at hstop
  · simp at hstop
  · split at hstop
    · next size headerSize hat =>
      dsimp only at hstop
      split at hstop
      · next clusterPos hparse =>
        rw [ScanStep.stop.injEq, Option.some.injEq] at hstop
        subst hstop
        exact (positionIn_of_parseTrackPositions hparse).of_part
          ((List.drop_suffix _ _).trans hfound).isInfix
      · cases hstop
    · cases hstop

/-- What the loop over the Cues returns stands in them. -/
theorem positionIn_of_mem_scan {ys : List UInt8} {skip position : ℕ} {positions : List ℕ}
    (h : position ∈ scan cuePointsStep id skip positions ys) :
    position ∈ positions ∨ PositionIn ys position := by
  induction ys generalizing skip positions with
  | nil =>
    rw [scan_nil] at h
    exact Or.inl h
  | cons y ys ih =>
    have hlater : ∀ {skip positions}, position ∈ scan cuePointsStep id skip positions ys →
        position ∈ positions ∨ PositionIn (y :: ys) position :=
      fun h => (ih h).imp_right fun hin => hin.of_part (List.suffix_cons y ys).isInfix
    cases skip with
    | succ skip => exact hlater h
    | zero =>
      rw [scan] at h
      unfold cuePointsStep at h
      split at h
      · next result hlook =>
        split at hlook
        · cases hlook
          exact Or.inl h
        · split at hlook <;> cases hlook
      · next positions' skip hlook =>
        split at hlook
        · cases hlook
        · split at hlook
          · cases hlook
            rcases hlater h with hmem | hin
            · rcases List.mem_append.mp hmem with hmem | hparse
              · exact Or.inl hmem
              · refine Or.inr ((positionIn_of_parseCuePoint
                  (Option.mem_toList.mp hparse)).of_part ?_)
                exact (List.take_prefix _ _).isInfix.trans (List.drop_suffix _ _).isInfix
            · exact Or.inr hin
          · cases hlook
            exact hlater h

/-- A cue point with one byte like the id of the position of a cluster has one position. -/
theorem CuePoint.eq_of_positionIn (p : CuePoint) (hcount : p.bytes.count 0xF1 = 1)
    {data : List UInt8} (hdata : data <+: p.bytes) {position : ℕ} (h : PositionIn data position) :
    position = p.clusterPosition := by
  obtain ⟨found, hfound, size, headerSize, hat, hsize, rfl⟩ := h
  obtain ⟨hbegin, hheader⟩ : found.take 1 = cueClusterPositionId ∧
      parseEbmlElementHeader found = some (size, headerSize) := by
    unfold headerAt at hat
    split at hat
    · next hbegin => exact ⟨hbegin, hat⟩
    · cases hat
  obtain ⟨rest, rfl⟩ : ∃ rest, found = 0xF1 :: rest := by
    cases found with
    | nil => cases hbegin
    | cons first rest =>
      simp only [List.take_succ_cons, List.take_zero, cueClusterPositionId,
        List.cons.injEq, and_true] at hbegin
      exact ⟨rest, by rw [hbegin]⟩
  have hposition : p.position.bytes = 0xF1 :: (p.position.size.bytes ++ p.position.payload) := by
    simp [Element.bytes, Header.bytes, p.position_id, cueClusterPositionId]
  obtain ⟨before, after, hsplit⟩ := hfound.trans hdata.isInfix
  have hbytes : p.bytes = (p.gap ++ p.point.toHeader.bytes ++ p.before ++
      p.track.toHeader.bytes ++ p.trackBefore) ++ (p.position.bytes ++ (p.trackAfter ++
        p.after)) := by
    simp [CuePoint.bytes, Element.bytes, p.point_payload, p.track_payload]
  -- the byte occurs once, so it is the same one
  have hsame : p.position.bytes ++ (p.trackAfter ++ p.after) = (0xF1 :: rest) ++ after := by
    rw [← hsplit, List.append_assoc, List.count_append, List.cons_append,
      List.count_cons_self] at hcount
    rw [← hsplit, List.append_assoc, hposition, List.cons_append, List.cons_append,
      List.append_cons_inj_of_notMem (List.count_eq_zero.mp (by omega))
        (List.count_eq_zero.mp (by omega))] at hbytes
    rw [hposition, List.cons_append, List.cons_append, hbytes.2.2]
  obtain ⟨hread, hle⟩ := parseEbmlElementHeader_append hheader after
  rw [← hsame, p.position.parse_bytes, Option.some.injEq, Prod.mk.injEq] at hread
  obtain ⟨rfl, rfl⟩ := hread
  have hpayload := p.position.drop_header (p.trackAfter ++ p.after)
  rw [hsame, List.drop_append_of_le_length hle] at hpayload
  have htake : (((0xF1 :: rest).drop p.position.toHeader.bytes.length) ++ after).take
      p.position.payload.length = ((0xF1 :: rest).drop p.position.toHeader.bytes.length).take
        p.position.payload.length := List.take_append_of_le_length hsize
  rw [hpayload, List.take_left' rfl] at htake
  have hcut := bigEndian_mod p.position_le
  rw [show 256 ^ 8 = 2 ^ 64 by decide] at hcut
  rw [← htake, hcut, CuePoint.clusterPosition]

/-! ### The Cues are found -/

namespace SeekField

variable (f : SeekField)

/-- What `parse_seek_element` knows when it has seen the field. -/
def update (s : SeekState) (f : SeekField) : SeekState :=
  match f.kind with
  | .id => { s with seekId := some f.value }
  | .position => { s with seekPosition := some f.value }

theorem value_mod : f.value % 256 ^ f.kind.maxLength = f.value := bigEndian_mod f.length_le

/-- The two ids are not taken for each other. -/
theorem headerAt_kind (ys : List UInt8) (kind : SeekFieldKind) :
    headerAt kind.elementId (f.element.bytes ++ ys) =
      if kind = f.kind then some (f.element.payload.length, f.element.toHeader.bytes.length)
      else none := by
  by_cases hkind : kind = f.kind
  · rw [if_pos hkind, hkind]
    exact headerAt_element f.element ys f.id_eq
  · rw [if_neg hkind]
    refine headerAt_other f.element ys ?_ ?_
    · rw [f.id_eq]
      cases kind <;> cases f.kind <;> decide
    · rw [f.id_eq]
      cases kind <;> cases hf : f.kind <;> first | decide | exact absurd hf.symm hkind

theorem length_elementId (kind : SeekFieldKind) : kind.elementId.length = 2 := by
  cases kind <;> decide

theorem headerAt_gap (ys : List UInt8) (kind : SeekFieldKind) {k : ℕ} (hk : k < f.gap.length) :
    headerAt kind.elementId ((f.gap ++ (f.element.bytes ++ ys)).drop k) = none := by
  refine headerAt_before f.element ?_ ?_ ys hk
  · rw [f.id_eq]
    exact f.gap_avoids kind
  · rw [f.id_eq, length_elementId, length_elementId]
    omega

/-- The loop over a Seek takes up a field. -/
theorem scan_bytes (s : SeekState) (ys : List UInt8) :
    scan seekElementStep SeekState.cuesPosition 0 s (f.bytes ++ ys) =
      scan seekElementStep SeekState.cuesPosition 0 (update s f) ys := by
  have hlength := f.element.length_bytes
  have hheader : 3 ≤ f.element.toHeader.bytes.length := by
    have hid := length_elementId f.kind
    rw [← f.id_eq] at hid
    simp only [Header.bytes, List.length_append, hid, Vint.length_bytes]
    omega
  -- no field begins inside the gap: the scan goes over it byte by byte
  have hnoise : ∀ k < f.gap.length,
      seekElementStep s ((f.gap ++ (f.element.bytes ++ ys)).drop k) = .advance s 0 := by
    intro k hk
    have hleft := length_drop_noise (f.element.bytes ++ ys) hk
    have hnoId := f.headerAt_gap ys .id hk
    have hnoPosition := f.headerAt_gap ys .position hk
    simp only [SeekFieldKind.elementId] at hnoId hnoPosition
    rw [List.length_append] at hleft
    rw [seekElementStep, if_neg (by omega), hnoId]
    dsimp only
    rw [hnoPosition]
  rw [SeekField.bytes, List.append_assoc, scan_noise hnoise]
  refine scan_jump f.element.bytes_ne_nil ?_
  have hatId := f.headerAt_kind ys .id
  have hatPosition := f.headerAt_kind ys .position
  have hmod := f.value_mod
  simp only [SeekFieldKind.elementId] at hatId hatPosition
  rw [seekElementStep, if_neg (by rw [List.length_append]; omega), hatId]
  cases hkind : f.kind with
  | id =>
    rw [hkind, show 256 ^ SeekFieldKind.id.maxLength = 2 ^ 32 by decide] at hmod
    simp only [if_true, f.element.drop_header, List.take_left' rfl, hlength]
    rw [if_pos (by simp), ← SeekField.value, hmod]
    simp [update, hkind]
  | position =>
    rw [hkind, show 256 ^ SeekFieldKind.position.maxLength = 2 ^ 64 by decide] at hmod
    rw [hkind] at hatPosition
    simp only [reduceCtorEq, if_false, hatPosition, if_true, f.element.drop_header,
      List.take_left' rfl, hlength]
    rw [if_pos (by simp), ← SeekField.value, hmod]
    simp [update, hkind]

end SeekField

namespace SeekEntry

variable (e : SeekEntry)

/-- A Seek gives its position if it points to the Cues. -/
theorem parseSeekElement_eq :
    parseSeekElement e.seek.payload = if e.target = CUES then some e.position else none := by
  have htail : ∀ s : SeekState,
      scan seekElementStep SeekState.cuesPosition 0 s e.tail = s.cuesPosition := by
    intro s
    refine scan_rest fun k hk => ?_
    have hnone : ∀ kind : SeekFieldKind, headerAt kind.elementId (e.tail.drop k) = none := by
      intro kind
      have h := e.tail_avoids kind k hk
      rw [List.append_nil] at h
      exact if_neg h
    have hnoId := hnone .id
    have hnoPosition := hnone .position
    simp only [SeekFieldKind.elementId] at hnoId hnoPosition
    unfold seekElementStep
    split
    · exact Or.inr rfl
    · rw [hnoId]
      dsimp only
      rw [hnoPosition]
      exact Or.inl rfl
  rw [parseSeekElement, e.payload_eq, scan_items SeekField.bytes SeekField.update _ _
    (fun f _ s ys => f.scan_bytes s ys), htail]
  have hid := e.idField_kind
  have hposition := e.positionField_kind
  cases e.idFirst with
  | true =>
    simp only [if_true, List.foldl_cons, List.foldl_nil, SeekField.update, hid, hposition]
    rfl
  | false =>
    simp only [Bool.false_eq_true, if_false, List.foldl_cons, List.foldl_nil, SeekField.update,
      hid, hposition]
    rfl

/-- The loop over a SeekHead passes what stands before a Seek. -/
theorem scan_gap (ys : List UInt8) :
    scan seekHeadStep (fun _ => none) 0 () (e.bytes ++ ys) =
      scan seekHeadStep (fun _ => none) 0 () (e.seek.bytes ++ ys) := by
  have hheader := e.seek.toHeader.two_le_length
  have hlength := e.seek.length_bytes
  rw [SeekEntry.bytes, List.append_assoc]
  refine scan_noise fun k hk => ?_
  have hleft := length_drop_noise (e.seek.bytes ++ ys) hk
  have hnone : headerAt seekId ((e.gap ++ (e.seek.bytes ++ ys)).drop k) = none := by
    refine headerAt_before e.seek ?_ ?_ ys hk
    · rw [e.seek_id]
      exact e.gap_avoids
    · rw [e.seek_id]
      omega
  rw [List.length_append] at hleft
  rw [seekHeadStep, if_neg (by omega), hnone]

theorem seekHeadStep_eq (ys : List UInt8) :
    seekHeadStep () (e.seek.bytes ++ ys) =
      if e.target = CUES then .stop (some e.position)
      else .advance () (e.seek.bytes.length - 1) := by
  have hlength := e.seek.length_bytes
  have hheader : 3 ≤ e.seek.toHeader.bytes.length := by
    have hid : e.seek.id.bytes.length = 2 := by
      rw [e.seek_id]
      decide
    simp only [Header.bytes, List.length_append, hid, Vint.length_bytes]
    omega
  rw [seekHeadStep, if_neg (by rw [List.length_append]; omega),
    headerAt_element e.seek _ e.seek_id]
  dsimp only
  rw [e.seek.drop_header, List.take_left' rfl, e.parseSeekElement_eq, hlength]
  by_cases htarget : e.target = CUES
  · simp [htarget]
  · simp [htarget]

end SeekEntry

/-- The SeekHead gives the position of the Cues. -/
theorem parseSeekHead_eq (h : SeekHead) :
    parseSeekHead h.element.payload = some h.cuesEntry.position := by
  rw [parseSeekHead, h.payload_eq,
    scan_items SeekEntry.bytes (fun s _ => s) _ _ fun e he s ys => ?_, SeekEntry.scan_gap]
  · refine scan_stop (by simp [h.cuesEntry.seek.bytes_ne_nil]) ?_
    rw [SeekEntry.seekHeadStep_eq, if_pos h.cuesEntry_target]
  · rw [e.scan_gap]
    refine scan_jump e.seek.bytes_ne_nil ?_
    rw [e.seekHeadStep_eq, if_neg (h.before_target e he)]

/-- A header that stands at hand is skipped. -/
theorem skipHeader_eq {id noise : List UInt8} (h : Header) (hid : h.id.bytes = id)
    (hlength : id.length = 4) (havoids : Avoids id noise id) (ys : List UInt8) :
    skipHeader id (noise ++ (h.bytes ++ ys)) = some ys := by
  have hheader : 5 ≤ h.bytes.length := by
    simp only [Header.bytes, List.length_append, hid, hlength, Vint.length_bytes]
    omega
  have hbytes : h.bytes ++ ys = id ++ (h.size.bytes ++ ys) := by
    rw [Header.bytes, hid, List.append_assoc]
  have hnoise : ∀ k < noise.length,
      skipHeaderStep id () ((noise ++ (h.bytes ++ ys)).drop k) = .advance () 0 := by
    intro k hk
    have hleft := length_drop_noise (h.bytes ++ ys) hk
    rw [List.length_append] at hleft
    rw [skipHeaderStep, if_neg (by omega), hbytes, headerAt_noise havoids (by omega) _ hk]
  rw [skipHeader, scan_noise hnoise]
  refine scan_stop (fun hnil => ?_) ?_
  · have hzero := congrArg List.length hnil
    rw [List.length_append, List.length_nil] at hzero
    omega
  · rw [skipHeaderStep, if_neg (by rw [List.length_append]; omega), headerAt_header h ys hid]
    dsimp only
    rw [List.drop_left' rfl]

namespace MatroskaFile

variable (f : MatroskaFile)

/-- The SeekHead is found in the data of the Segment. -/
theorem findCuesPosition_eq (rest : List UInt8) :
    findCuesPosition (f.gap ++ (f.seekHead.element.bytes ++ rest)) =
      some f.seekHead.cuesEntry.position := by
  have hlength := f.seekHead.element.length_bytes
  have hid : f.seekHead.element.id.bytes.length = 4 := by
    rw [f.seekHead.id_eq]
    decide
  have hheader : 5 ≤ f.seekHead.element.toHeader.bytes.length := by
    simp only [Header.bytes, List.length_append, hid, Vint.length_bytes]
    omega
  have hbytes : f.seekHead.element.bytes ++ rest = seekHeadId ++
      (f.seekHead.element.size.bytes ++ (f.seekHead.element.payload ++ rest)) := by
    simp [Element.bytes, Header.bytes, f.seekHead.id_eq]
  have hnoise : ∀ k < f.gap.length,
      cuesPositionStep () ((f.gap ++ (f.seekHead.element.bytes ++ rest)).drop k) =
        .advance () 0 := by
    intro k hk
    have hleft := length_drop_noise (f.seekHead.element.bytes ++ rest) hk
    have hnone : seekHeadAt ((f.gap ++ (f.seekHead.element.bytes ++ rest)).drop k) = none := by
      rw [seekHeadAt, hbytes, headerAt_noise f.gap_avoids.1 (by decide) _ hk]
    have hcluster := f.gap_avoids.2.append (by decide)
      (f.seekHead.element.size.bytes ++ (f.seekHead.element.payload ++ rest)) hk
    rw [← hbytes, show clusterId.length = 4 by decide] at hcluster
    rw [List.length_append] at hleft
    rw [cuesPositionStep, if_neg (by omega), hnone]
    dsimp only
    rw [if_neg hcluster]
  rw [findCuesPosition, scan_noise hnoise]
  refine scan_stop (by simp [f.seekHead.element.bytes_ne_nil]) ?_
  have hat : seekHeadAt (f.seekHead.element.bytes ++ rest) =
      some f.seekHead.cuesEntry.position := by
    rw [seekHeadAt, headerAt_element f.seekHead.element _ f.seekHead.id_eq]
    dsimp only
    rw [f.seekHead.element.drop_header, List.take_left' rfl, parseSeekHead_eq]
  rw [cuesPositionStep, if_neg (by rw [List.length_append]; omega), hat]

theorem length_bytes : f.bytes.length = f.ebml.bytes.length + f.segment.bytes.length +
    f.gap.length + f.seekHead.element.bytes.length + f.rest.length := by
  simp only [bytes, segmentData, List.length_append]
  omega

/-- The Cues lie in the data of the Segment. -/
theorem position_lt : f.seekHead.cuesEntry.position < f.segmentData.length := by
  by_contra hle
  have hdrop := f.cues_at
  rw [List.drop_of_length_le (by rw [segmentData] at hle; omega)] at hdrop
  exact f.cues.element.bytes_ne_nil (List.append_eq_nil_iff.mp hdrop.symm).1

/-- **The inspector finds the Cues**, at their offset in the file. -/
theorem findMkvCuesOffset_eq (checks : Bool) :
    findMkvCuesOffset checks f.bytes = some (some f.cuesOffset) := by
  have hhead := f.head_le
  have hlt := f.length_lt
  have hposition := f.position_lt
  have hlength := f.length_bytes
  simp only [segmentData, List.length_append] at hposition
  -- the first 100 KB reach behind the SeekHead
  obtain ⟨rest, hbuffer⟩ : ∃ rest, f.bytes.take 102400 =
      [] ++ (f.ebml.toHeader.bytes ++ (f.ebml.payload ++ (f.segment.bytes ++
        (f.gap ++ (f.seekHead.element.bytes ++ rest))))) := by
    refine ⟨f.rest.take (102400 - (f.ebml.bytes.length + f.segment.bytes.length + f.gap.length +
      f.seekHead.element.bytes.length)), ?_⟩
    have hsplit : f.bytes = (f.ebml.bytes ++ f.segment.bytes ++ f.gap ++
        f.seekHead.element.bytes) ++ f.rest := by
      simp [bytes, segmentData]
    rw [hsplit, List.take_append, List.take_of_length_le (by simp; omega)]
    simp [Element.bytes, Nat.add_assoc]
  have hebml := skipHeader_eq f.ebml.toHeader f.ebml_id (by decide)
    (show Avoids ebmlId [] ebmlId from fun k hk => by simp at hk)
    (f.ebml.payload ++ (f.segment.bytes ++ (f.gap ++ (f.seekHead.element.bytes ++ rest))))
  have hsegment := skipHeader_eq f.segment f.segment_id (by decide) f.ebml_avoids
    (f.gap ++ (f.seekHead.element.bytes ++ rest))
  have hstart : (f.bytes.take 102400).length -
      (f.gap ++ (f.seekHead.element.bytes ++ rest)).length = f.segmentDataStart := by
    rw [hbuffer, segmentDataStart, f.ebml.length_bytes]
    simp only [List.length_append, List.nil_append]
    omega
  have hadd : addU64 checks f.segmentDataStart f.seekHead.cuesEntry.position =
      some f.cuesOffset :=
    if_pos (by unfold segmentDataStart maxU64; omega)
  rw [← hbuffer] at hebml
  unfold findMkvCuesOffset
  dsimp only
  rw [hebml]
  dsimp only
  rw [hsegment]
  dsimp only
  rw [f.findCuesPosition_eq]
  dsimp only
  rw [hstart, hadd, Option.map_some]

/-- The bytes at the offset of the Cues. -/
theorem drop_cuesOffset : f.bytes.drop f.cuesOffset = f.cues.element.bytes ++ f.cuesTail := by
  rw [bytes, cuesOffset, segmentDataStart, ← List.append_assoc, ← List.drop_drop,
    List.drop_left' (by simp)]
  exact f.cues_at

theorem cues_header_bounds : 5 ≤ f.cues.element.toHeader.bytes.length ∧
    f.cues.element.toHeader.bytes.length ≤ 16 := by
  have hid : f.cues.element.id.bytes.length = 4 := by
    rw [f.cues.id_eq]
    decide
  have hsize := f.cues.element.size.rest_lt
  simp only [Header.bytes, List.length_append, hid, Vint.length_bytes]
  omega

/-- The inspector goes through what it has read behind the header of the Cues. -/
theorem findMkvKeyframes_eq (checks : Bool) : findMkvKeyframes checks f.bytes =
    some (scan cuePointsStep id 0 []
      ((f.cues.element.payload ++ f.cuesTail).take
        (1048576 - f.cues.element.toHeader.bytes.length))) := by
  have hle : ¬ f.bytes.length < f.cuesOffset := by
    have hposition := f.position_lt
    have hlength := f.length_bytes
    simp only [segmentData, List.length_append] at hposition
    simp only [cuesOffset, segmentDataStart]
    omega
  have hheader := f.cues_header_bounds
  have hread : (f.bytes.drop f.cuesOffset).take 1048576 =
      f.cues.element.toHeader.bytes ++ (f.cues.element.payload ++ f.cuesTail).take
        (1048576 - f.cues.element.toHeader.bytes.length) := by
    rw [f.drop_cuesOffset, Element.bytes, List.append_assoc, List.take_append,
      List.take_of_length_le (by omega)]
  have hskip : ∀ ys, skipCuesHeader (f.cues.element.toHeader.bytes ++ ys) = ys := by
    intro ys
    rw [skipCuesHeader, if_neg (by rw [List.length_append]; omega),
      headerAt_header f.cues.element.toHeader ys f.cues.id_eq]
    dsimp only
    rw [List.drop_left' rfl]
  rw [findMkvKeyframes, f.findMkvCuesOffset_eq]
  dsimp only
  rw [if_neg (fun h => hle h.1), hread, parseCuePoints, hskip]

/-- **The inspector returns the positions of the cue points**, as far as the cue points lie in
the first 1 MB of the Cues and are not more than 50. -/
theorem findMkvKeyframes_take (checks : Bool) (points : List CuePoint)
    (hfirst : points <+: f.cues.points) (hpoints : points.length ≤ 50)
    (hfit : f.cues.element.toHeader.bytes.length + (points.flatMap CuePoint.bytes).length ≤
      1048576) :
    ∃ more, findMkvKeyframes checks f.bytes =
      some (points.map CuePoint.clusterPosition ++ more) := by
  obtain ⟨later, hlater⟩ := hfirst
  have hsplit : f.cues.element.payload ++ f.cuesTail = points.flatMap CuePoint.bytes ++
      (later.flatMap CuePoint.bytes ++ (f.cues.tail ++ f.cuesTail)) := by
    rw [f.cues.payload_eq, ← hlater]
    simp
  rw [f.findMkvKeyframes_eq, hsplit, List.take_append, List.take_of_length_le (by omega)]
  obtain ⟨more, hmore⟩ := scan_cuePoints points ((later.flatMap CuePoint.bytes ++
    (f.cues.tail ++ f.cuesTail)).take (1048576 - f.cues.element.toHeader.bytes.length -
      (points.flatMap CuePoint.bytes).length)) [] (by simpa using hpoints)
  exact ⟨more, by rw [hmore, List.nil_append]⟩

/-- The first position returned, if there is one, is that of the first cue point. -/
theorem head_findMkvKeyframes (checks : Bool) {p : CuePoint} (hp : p ∈ f.cues.points.head?)
    {offsets : List ℕ} (h : findMkvKeyframes checks f.bytes = some offsets) :
    ∀ offset ∈ offsets.head?, offset = p.clusterPosition := by
  obtain ⟨points, hpoints⟩ : ∃ points, f.cues.points = p :: points := by
    cases hcues : f.cues.points with
    | nil => simp [hcues] at hp
    | cons q points =>
      rw [hcues, List.head?_cons, Option.mem_some_iff] at hp
      exact ⟨points, by rw [hp]⟩
  by_cases hfit : f.cues.element.toHeader.bytes.length + p.bytes.length ≤ 1048576
  · obtain ⟨more, hmore⟩ := f.findMkvKeyframes_take checks [p] (by simp [hpoints]) (by simp)
      (by simpa using hfit)
    rw [h, Option.some.injEq] at hmore
    intro offset hoffset
    simpa [hmore, eq_comm] using hoffset
  · -- nothing but a part of the first cue point has been read
    have hcount := (f.firstPoint_spec p hp).resolve_left hfit
    have hheader := f.cues_header_bounds
    have hpayload : f.cues.element.payload ++ f.cuesTail =
        p.bytes ++ (points.flatMap CuePoint.bytes ++ (f.cues.tail ++ f.cuesTail)) := by
      rw [f.cues.payload_eq, hpoints]
      simp
    rw [f.findMkvKeyframes_eq, hpayload, List.take_append_of_le_length (by omega),
      Option.some.injEq] at h
    intro offset hoffset
    have hmem := List.mem_of_mem_head? hoffset
    rw [← h] at hmem
    have hin := (positionIn_of_mem_scan hmem).resolve_left List.not_mem_nil
    exact p.eq_of_positionIn hcount (List.take_prefix _ _) hin

/-- **The offsets are absolute only if there is no cue point.** -/
theorem keyframesAbsolute_iff (checks : Bool) (mp4Keyframes : List UInt8 → List ℕ) :
    f.KeyframesAbsolute (findKeyframeOffsets checks mp4Keyframes f.bytes .matroska) ↔
      f.cues.points = [] := by
  have hstart : 0 < f.segmentDataStart := by
    have := f.segment.two_le_length
    unfold segmentDataStart
    omega
  dsimp only [findKeyframeOffsets]
  constructor
  · intro ⟨offsets, hresult, habsolute⟩
    cases hpoints : f.cues.points with
    | nil => rfl
    | cons p points =>
      have hfirst := habsolute 0 (by omega) p (by simp [hpoints])
      -- the first offset is the position in the data of the Segment
      have hrelative := f.head_findMkvKeyframes checks (p := p) (by simp [hpoints]) hresult
        (f.segmentDataStart + p.clusterPosition) (by rw [List.head?_eq_getElem?]; exact hfirst)
      omega
  · intro hnil
    exact ⟨_, f.findMkvKeyframes_eq checks, fun i _ p hp => by simp [hnil] at hp⟩

end MatroskaFile

/-! ### A small file -/

/-- A cue point at time 0, in the first track. -/
def firstCuePoint : CuePoint where
  gap := []
  point :=
    { id := ⟨0xBB, [], by decide, by decide⟩
      size := ⟨0x8B, [], by decide, by decide⟩
      payload := [0xB3, 0x81, 0x00, 0xB7, 0x86, 0xF7, 0x81, 0x01, 0xF1, 0x81, 0x25]
      size_eq := by decide }
  before := [0xB3, 0x81, 0x00]
  track :=
    { id := ⟨0xB7, [], by decide, by decide⟩
      size := ⟨0x86, [], by decide, by decide⟩
      payload := [0xF7, 0x81, 0x01, 0xF1, 0x81, 0x25]
      size_eq := by decide }
  after := []
  trackBefore := [0xF7, 0x81, 0x01]
  position :=
    { id := ⟨0xF1, [], by decide, by decide⟩
      size := ⟨0x81, [], by decide, by decide⟩
      payload := [0x25]
      size_eq := by decide }
  trackAfter := []
  point_id := by decide
  track_id := by decide
  position_id := by decide
  point_payload := by decide
  track_payload := by decide
  position_le := by decide
  gap_avoids := by decide
  before_avoids := by decide
  trackBefore_avoids := by decide

/-- Cues of one point. -/
def smallCues : Cues where
  element :=
    { id := ⟨0x1C, [0x53, 0xBB, 0x6B], by decide, by decide⟩
      size := ⟨0x8D, [], by decide, by decide⟩
      payload := firstCuePoint.bytes
      size_eq := by decide }
  points := [firstCuePoint]
  tail := []
  id_eq := by decide
  payload_eq := by decide
  tail_avoids := by decide

/-- The entry of the seek head for these cues. -/
def cuesEntry : SeekEntry where
  gap := []
  seek :=
    { id := ⟨0x4D, [0xBB], by decide, by decide⟩
      size := ⟨0x8B, [], by decide, by decide⟩
      payload := [0x53, 0xAB, 0x84, 0x1C, 0x53, 0xBB, 0x6B, 0x53, 0xAC, 0x81, 0x13]
      size_eq := by decide }
  idField :=
    { gap := []
      kind := .id
      element :=
        { id := ⟨0x53, [0xAB], by decide, by decide⟩
          size := ⟨0x84, [], by decide, by decide⟩
          payload := [0x1C, 0x53, 0xBB, 0x6B]
          size_eq := by decide }
      id_eq := by decide
      length_le := by decide
      gap_avoids := fun kind' => by cases kind' <;> decide }
  positionField :=
    { gap := []
      kind := .position
      element :=
        { id := ⟨0x53, [0xAC], by decide, by decide⟩
          size := ⟨0x81, [], by decide, by decide⟩
          payload := [0x13]
          size_eq := by decide }
      id_eq := by decide
      length_le := by decide
      gap_avoids := fun kind' => by cases kind' <;> decide }
  idFirst := true
  tail := []
  seek_id := by decide
  idField_kind := by decide
  positionField_kind := by decide
  payload_eq := by decide
  gap_avoids := by decide
  tail_avoids := fun kind' => by cases kind' <;> decide

/-- A Segment with a SeekHead, the Cues and an empty Cluster, to which the cue point leads. -/
def smallFile : MatroskaFile where
  ebml :=
    { id := ⟨0x1A, [0x45, 0xDF, 0xA3], by decide, by decide⟩
      size := ⟨0x80, [], by decide, by decide⟩
      payload := []
      size_eq := by decide }
  segment :=
    { id := ⟨0x18, [0x53, 0x80, 0x67], by decide, by decide⟩
      size := ⟨0xAA, [], by decide, by decide⟩ }
  gap := []
  seekHead :=
    { element :=
        { id := ⟨0x11, [0x4D, 0x9B, 0x74], by decide, by decide⟩
          size := ⟨0x8E, [], by decide, by decide⟩
          payload := cuesEntry.bytes
          size_eq := by decide }
      before := []
      cuesEntry := cuesEntry
      tail := []
      id_eq := by decide
      payload_eq := by decide
      before_target := by simp
      cuesEntry_target := by decide }
  rest := smallCues.element.bytes ++ (clusterId ++ [0x80])
  cues := smallCues
  cuesTail := clusterId ++ [0x80]
  ebml_id := by decide
  segment_id := by decide
  ebml_avoids := by decide
  gap_avoids := by decide
  head_le := by decide
  cues_at := by decide
  firstPoint_spec := by
    intro p hp
    cases hp
    exact Or.inl (by decide)
  length_lt := by decide

/-- The Cluster stands at 47, 37 bytes into the data of the Segment; what is returned is 37. -/
theorem keyframes_relative :
    findKeyframeOffsets true (fun _ => []) smallFile.bytes .matroska = some [37] ∧
      (smallFile.bytes.drop 47).take 4 = clusterId ∧
      findMkvCuesOffset true smallFile.bytes = some (some 29) ∧
      (smallFile.bytes.drop 29).take 4 = cuesId ∧
      smallFile.cues.points.map CuePoint.clusterPosition = [37] ∧ smallFile.segmentDataStart = 10 ∧
      ¬ smallFile.KeyframesAbsolute
        (findKeyframeOffsets true (fun _ => []) smallFile.bytes .matroska) := by
  have hresult : findKeyframeOffsets true (fun _ => []) smallFile.bytes .matroska = some [37] := by
    decide
  refine ⟨hresult, by decide, by decide, by decide, by decide, by decide, ?_⟩
  intro ⟨offsets, hoffsets, habsolute⟩
  have hfirst := habsolute 0 (by decide) firstCuePoint rfl
  rw [hresult, Option.some.injEq] at hoffsets
  rw [← hoffsets] at hfirst
  exact absurd hfirst (by decide)

end StreamServer.Metadata

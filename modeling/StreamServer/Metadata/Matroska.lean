import StreamServer.Lib.Scan
import StreamServer.Metadata.Ebml
import StreamServer.Readers.FileStream

/-!
# Looking for keyframes in a Matroska file

The metadata inspector does not parse a file: it goes through the bytes of a buffer until
it sees the id of the element it looks for.  In the first 100 KB it looks for the EBML
header, the Segment and the SeekHead, and in that for the entry of the Cues; then it reads
up to 1 MB where the Cues are, and looks there for cue points, in those for track positions
and in those for the position of a cluster.

A loop over an index is a scan of what is left of the buffer (`StreamServer.Lib.Scan`).
The reader gives as many bytes as are asked for and there.

## Main definitions

* `skipHeader` — the loops that look for the EBML header and the Segment.
* `parseSeekElement`, `parseSeekHead`, `findMkvCuesOffset` — where the Cues are.
* `parseCuePoint`, `parseCuePoints`, `findMkvKeyframes` — what they say.
* `findKeyframeOffsets` — what the inspector returns.

## References

`enginefs/src/backend/metadata.rs`.
-/

namespace StreamServer.Metadata

open Readers

/-! ### Ids -/

/-- The id of the EBML header. -/
def ebmlId : List UInt8 := [0x1A, 0x45, 0xDF, 0xA3]

/-- The id of Segment. -/
def segmentId : List UInt8 := [0x18, 0x53, 0x80, 0x67]

/-- The id of SeekHead. -/
def seekHeadId : List UInt8 := [0x11, 0x4D, 0x9B, 0x74]

/-- The id of Seek. -/
def seekId : List UInt8 := [0x4D, 0xBB]

/-- The id of SeekID. -/
def seekIdId : List UInt8 := [0x53, 0xAB]

/-- The id of SeekPosition. -/
def seekPositionId : List UInt8 := [0x53, 0xAC]

/-- The id of Cues. -/
def cuesId : List UInt8 := [0x1C, 0x53, 0xBB, 0x6B]

/-- `ebml_ids::CUES`. -/
def CUES : ℕ := 0x1C53BB6B

/-- The id of CuePoint. -/
def cuePointId : List UInt8 := [0xBB]

/-- The id of CueTrackPositions. -/
def cueTrackPositionsId : List UInt8 := [0xB7]

/-- The id of CueClusterPosition. -/
def cueClusterPositionId : List UInt8 := [0xF1]

/-- The id of Cluster. -/
def clusterId : List UInt8 := [0x1F, 0x43, 0xB6, 0x75]

/-- The bytes at hand begin with an id, and a header can be read. -/
def headerAt (id data : List UInt8) : Option (ℕ × ℕ) :=
  if data.take id.length = id then parseEbmlElementHeader data else none

/-! ### Where the Cues are -/

/-- One turn of the loops that look for the EBML header and the Segment. -/
def skipHeaderStep (id : List UInt8) (_ : Unit) (data : List UInt8) :
    ScanStep Unit (Option (List UInt8)) :=
  if data.length ≤ 4 then .stop none
  else
    match headerAt id data with
    | some (_, headerSize) => .stop (some (data.drop headerSize))
    | none => .advance () 0

/-- What stands behind the first header with this id. -/
def skipHeader (id data : List UInt8) : Option (List UInt8) :=
  scan (skipHeaderStep id) (fun _ => none) 0 () data

/-- What `parse_seek_element` knows so far. -/
structure SeekState where
  seekId : Option ℕ
  seekPosition : Option ℕ
  deriving DecidableEq, Repr

/-- The position, if the element points to the Cues. -/
def SeekState.cuesPosition (s : SeekState) : Option ℕ :=
  match s.seekId, s.seekPosition with
  | some id, some position => if id = CUES then some position else none
  | _, _ => none

/-- One turn of the loop of `parse_seek_element`. -/
def seekElementStep (s : SeekState) (data : List UInt8) : ScanStep SeekState (Option ℕ) :=
  if data.length ≤ 2 then .stop s.cuesPosition
  else
    match headerAt seekIdId data with
    | some (size, headerSize) =>
        let idData := data.drop headerSize
        .advance
          (if size ≤ idData.length then
            { s with seekId := some (bigEndian 0 (idData.take size) % 2 ^ 32) } else s)
          (headerSize + size - 1)
    | none =>
        match headerAt seekPositionId data with
        | some (size, headerSize) =>
            let posData := data.drop headerSize
            .advance
              (if size ≤ posData.length then
                { s with seekPosition := some (bigEndian 0 (posData.take size) % 2 ^ 64) } else s)
              (headerSize + size - 1)
        | none => .advance s 0

/-- `parse_seek_element`. -/
def parseSeekElement (data : List UInt8) : Option ℕ :=
  scan seekElementStep SeekState.cuesPosition 0 ⟨none, none⟩ data

/-- One turn of the loop of `parse_seek_head`. -/
def seekHeadStep (_ : Unit) (data : List UInt8) : ScanStep Unit (Option ℕ) :=
  if data.length ≤ 2 then .stop none
  else
    match headerAt seekId data with
    | some (size, headerSize) =>
        match parseSeekElement ((data.drop headerSize).take size) with
        | some cuesPos => .stop (some cuesPos)
        | none => .advance () (headerSize + size - 1)
    | none => .advance () 0

/-- `parse_seek_head`. -/
def parseSeekHead (data : List UInt8) : Option ℕ := scan seekHeadStep (fun _ => none) 0 () data

/-- The position of the Cues that a SeekHead gives, if it stands here. -/
def seekHeadAt (data : List UInt8) : Option ℕ :=
  match headerAt seekHeadId data with
  | some (size, headerSize) => parseSeekHead ((data.drop headerSize).take size)
  | none => none

/-- One turn of the loop that looks for the SeekHead, as far as the first Cluster. -/
def cuesPositionStep (_ : Unit) (data : List UInt8) : ScanStep Unit (Option ℕ) :=
  if data.length ≤ 4 then .stop none
  else
    match seekHeadAt data with
    | some cuesPos => .stop (some cuesPos)
    | none => if data.take 4 = clusterId then .stop none else .advance () 0

/-- The position of the Cues by the first SeekHead in front of the Clusters. -/
def findCuesPosition (data : List UInt8) : Option ℕ :=
  scan cuesPositionStep (fun _ => none) 0 () data

/-- `find_mkv_cues_offset`; the outer `none` is a panic. -/
def findMkvCuesOffset (checks : Bool) (file : List UInt8) : Option (Option ℕ) :=
  let buffer := file.take 102400
  match skipHeader ebmlId buffer with
  | none => some none
  | some afterEbml =>
      match skipHeader segmentId afterEbml with
      | none => some none
      | some segmentData =>
          match findCuesPosition segmentData with
          | none => some none
          | some cuesPos =>
              let segmentDataStart := buffer.length - segmentData.length
              (addU64 checks segmentDataStart cuesPos).map some

/-! ### What the Cues say -/

/-- One turn of the loop over the payload of track positions, of which `trackSize` bytes are
left. -/
def trackPositionsStep (trackSize : ℕ) (trackData : List UInt8) : ScanStep ℕ (Option ℕ) :=
  if trackSize ≤ 1 then .stop none
  else
    match headerAt cueClusterPositionId trackData with
    | some (psize, pheader) =>
        let pdata := trackData.drop pheader
        if psize ≤ pdata.length then .stop (some (bigEndian 0 (pdata.take psize) % 2 ^ 64))
        else .advance (trackSize - 1) 0
    | none => .advance (trackSize - 1) 0

/-- The position of the cluster among the track positions. -/
def parseTrackPositions (trackSize : ℕ) (trackData : List UInt8) : Option ℕ :=
  scan trackPositionsStep (fun _ => none) 0 trackSize trackData

/-- One turn of the loop of `parse_cue_point`. -/
def cuePointStep (_ : Unit) (data : List UInt8) : ScanStep Unit (Option ℕ) :=
  if data.length ≤ 1 then .stop none
  else
    match headerAt cueTrackPositionsId data with
    | some (size, headerSize) =>
        let trackData := data.drop headerSize
        match parseTrackPositions (min size trackData.length) trackData with
        | some clusterPos => .stop (some clusterPos)
        | none => .advance () (headerSize + size - 1)
    | none => .advance () 0

/-- `parse_cue_point`. -/
def parseCuePoint (data : List UInt8) : Option ℕ := scan cuePointStep (fun _ => none) 0 () data

/-- The header of the Cues is skipped if it is there. -/
def skipCuesHeader (data : List UInt8) : List UInt8 :=
  if data.length ≤ 4 then data
  else
    match headerAt cuesId data with
    | some (_, headerSize) => data.drop headerSize
    | none => data

/-- One turn of the loop of `parse_cue_points`. -/
def cuePointsStep (positions : List ℕ) (data : List UInt8) : ScanStep (List ℕ) (List ℕ) :=
  if data.length ≤ 1 ∨ 50 ≤ positions.length then .stop positions
  else
    match headerAt cuePointId data with
    | some (size, headerSize) =>
        .advance (positions ++ (parseCuePoint ((data.drop headerSize).take size)).toList)
          (headerSize + size - 1)
    | none => .advance positions 0

/-- `parse_cue_points`. -/
def parseCuePoints (data : List UInt8) : List ℕ :=
  scan cuePointsStep id 0 [] (skipCuesHeader data)

/-- `find_mkv_keyframes`; `none` is a panic: `total_size - cues_offset` overflows.  Without
overflow checks the reader has nothing there. -/
def findMkvKeyframes (checks : Bool) (file : List UInt8) : Option (List ℕ) :=
  match findMkvCuesOffset checks file with
  | none => none
  | some none => some []
  | some (some cuesOffset) =>
      if file.length < cuesOffset ∧ checks then none
      else some (parseCuePoints ((file.drop cuesOffset).take 1048576))

/-- `ContainerType`. -/
inductive ContainerType
  | mp4
  | matroska
  | unknown
  deriving DecidableEq, Repr

/-- `find_keyframe_offsets`, with what it finds in an MP4 file. -/
def findKeyframeOffsets (checks : Bool) (mp4Keyframes : List UInt8 → List ℕ) (file : List UInt8) :
    ContainerType → Option (List ℕ)
  | .mp4 => some (mp4Keyframes file)
  | .matroska => findMkvKeyframes checks file
  | .unknown => some []

end StreamServer.Metadata

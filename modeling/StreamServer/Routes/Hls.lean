import Mathlib.Algebra.Order.Floor.Ring
import Mathlib.Data.Rat.Floor
import StreamServer.Lib.Decimal
import StreamServer.Lib.Text
import StreamServer.Lib.Uri
import StreamServer.Routes.Router

/-!
# HLS playlists and segments

A client loads a playlist of a file and then the segments that the playlist names.  Several routes
lead to the same two functions, the one that writes a playlist and the one that serves a segment;
each route has a way of its own to find the torrent, the file and the segment in the path.

## Main definitions

* `getSegments`, `getStreamPlaylist` — the segments of a file, and the playlist that names them.
* `parseHlsId`, `legacyPair`, `hlsV2SegmentAlias`, `segmentOf` — what is read from a path.
* `handleHlsResource`, `hlsV2Resource`, `legacyHlsResource` — the handlers.
* `respond` — what the server answers.
* `uriLines` — what a client finds in a playlist.

## References

`server/src/routes/hls.rs`; `server/src/routes/compat.rs`, `parse_hls_id`, `resolve_file_idx`;
`enginefs/src/hls.rs`, `get_segments`, `get_stream_playlist`.
-/

namespace StreamServer.Routes

open Router Uri

/-! ### Playlists -/

/-- What a probe tells, as far as a playlist depends on it. -/
structure ProbeResult where
  duration : ℚ

/-- How many seconds a segment lasts. -/
def segmentDuration : ℚ := 4

/-- The start and the duration of each segment. -/
def getSegments (duration : ℚ) : List (ℚ × ℚ) :=
  let count := min ⌈duration / segmentDuration⌉.toNat (2 ^ 64 - 1)
  (List.range count).map fun i : ℕ =>
    let start := (i : ℚ) * segmentDuration
    (start, if start + segmentDuration > duration then duration - start else segmentDuration)

/-- The nearest integer; of two that are as near, the even one. -/
def roundHalfEven (q : ℚ) : ℤ :=
  let rest := q - ⌊q⌋
  if rest < 1 / 2 then ⌊q⌋
  else if 1 / 2 < rest then ⌊q⌋ + 1
  else if ⌊q⌋ % 2 = 0 then ⌊q⌋ else ⌊q⌋ + 1

/-- A number with six decimals. -/
def fixedSix (q : ℚ) : List Char :=
  let millionths := roundHalfEven (q * 1000000)
  (if millionths < 0 then ['-'] else []) ++ Nat.toDigits 10 (millionths.natAbs / 1000000) ++
    '.' :: Decimal.padded 6 (millionths.natAbs % 1000000)

/-- The name of a segment. -/
def segmentName (audioTrackIdx : Option ℕ) (i : ℕ) : List Char :=
  match audioTrackIdx with
  | some audioIdx =>
      "audio-".toList ++ Nat.toDigits 10 audioIdx ++ '-' :: Nat.toDigits 10 i ++ ".ts".toList
  | none => Nat.toDigits 10 i ++ ".ts".toList

/-- The playlist of a file that cannot be probed yet; a client loads it again. -/
def reloadableLines : List (List Char) :=
  ["#EXTM3U".toList, "#EXT-X-VERSION:3".toList, "#EXT-X-TARGETDURATION:2".toList,
    "#EXT-X-MEDIA-SEQUENCE:0".toList]

/-- The lines in front of the segments. -/
def headLines (maxDuration : ℕ) : List (List Char) :=
  ["#EXTM3U".toList, "#EXT-X-VERSION:3".toList,
    "#EXT-X-TARGETDURATION:".toList ++ Nat.toDigits 10 maxDuration,
    "#EXT-X-MEDIA-SEQUENCE:0".toList, "#EXT-X-PLAYLIST-TYPE:VOD".toList]

/-- The line in front of a segment. -/
def extinf (duration : ℚ) : List Char := "#EXTINF:".toList ++ fixedSix duration ++ [',']

/-- The last line. -/
def endlist : List Char := "#EXT-X-ENDLIST".toList

/-- The lines of a playlist. -/
def streamPlaylistLines (probe : ProbeResult) (segmentBaseUrl : List Char)
    (audioTrackIdx : Option ℕ) (queryStr : List Char) : List (List Char) :=
  let segments := getSegments probe.duration
  if segments = [] then reloadableLines
  else
    let maxDuration := ((segments.map fun s => min ⌈s.2⌉.toNat (2 ^ 32 - 1)).max?).getD 4
    headLines maxDuration ++
    segments.zipIdx.flatMap (fun (s, i) =>
      [extinf s.2, segmentBaseUrl ++ segmentName audioTrackIdx i ++ '?' :: queryStr]) ++
    [endlist]

/-- `get_stream_playlist`. -/
def getStreamPlaylist (probe : ProbeResult) (segmentBaseUrl : List Char)
    (audioTrackIdx : Option ℕ) (queryStr : List Char) : List Char :=
  (streamPlaylistLines probe segmentBaseUrl audioTrackIdx queryStr).flatMap fun line =>
    line ++ ['\n']

/-- Whether a line of a playlist is a URI: it is neither empty nor a tag. -/
def isUriLine (line : List Char) : Bool := line.head?.isSome && line.head? != some '#'

/-- The URIs in a playlist. -/
def uriLines (playlist : List Char) : List (List Char) := playlist.textLines.filter isUriLine

/-! ### What is read from a path -/

/-- `is_ascii_hexdigit()`. -/
def isAsciiHexdigit (c : Char) : Bool :=
  c.isDigit || ('a' ≤ c && c ≤ 'f') || ('A' ≤ c && c ≤ 'F')

/-- `is_info_hash`. -/
def isInfoHash (value : String) : Bool :=
  value.utf8ByteSize == 40 && value.toList.all isAsciiHexdigit

/-- `to_ascii_lowercase()`. -/
def toAsciiLowercase (value : String) : String := String.ofList (value.toList.map Char.toLower)

/-- `parse::<usize>()`. -/
def parseUsize (text : List Char) : Option ℕ := Decimal.parse (2 ^ 64) text

/-- What stands before and behind the last separator. -/
def rsplitOnce (sep : Char) (text : List Char) : Option (List Char × List Char) :=
  match text.reverse.span (· ≠ sep) with
  | (after, _ :: before) => some (before.reverse, after.reverse)
  | (_, []) => none

/-- The torrent and the file in the id of a converter, which is escaped once more. -/
def parseHlsId (id : String) : Option (String × ℕ) := do
  let decoded ← percentDecode id
  let (infoHash, fileIdx) ← rsplitOnce '-' decoded.toList
  if isInfoHash (String.ofList infoHash) then
    let fileIdx ← parseUsize fileIdx
    return (toAsciiLowercase (String.ofList infoHash), fileIdx)
  else none

/-- `legacy_pair`: the hash and the index of an address of the old form. -/
def legacyPair (first second : String) : Option (String × String) :=
  if isInfoHash first ∧ (second = "-1" ∨ (parseUsize second.toList).isSome) then
    some (toAsciiLowercase first, second)
  else none

/-- The resource is a stream playlist of the old form. -/
def legacyStreamPlaylist (resource : String) : Bool :=
  ".m3u8".toList <:+ resource.toList ∧
    ("stream-".toList <+: resource.toList ∨ "stream-q-".toList <+: resource.toList)

/-- A segment that is asked for under the name `segment`. -/
def hlsV2SegmentAlias (resource : String) : Option String :=
  if ¬ ".ts".toList <:+ resource.toList then none
  else
    let segment :=
      if "segment".toList <+: resource.toList then resource.toList.drop "segment".toList.length
      else resource.toList
    if (parseUsize (segment.trimEndMatches ".ts".toList)).isSome then some (String.ofList segment)
    else none

/-- The track of an audio playlist. -/
def audioTrackOf (playlistName : String) : Option ℕ :=
  if "audio-".toList <+: playlistName.toList then
    parseUsize ((playlistName.toList.trimStartMatches "audio-".toList).trimEndMatches
      ".m3u8".toList)
  else none

/-- The index and the track in the name of a segment. -/
def segmentOf (segment : String) : Except String (ℕ × Option ℕ) :=
  let segmentName := segment.toList.trimEndMatches ".ts".toList
  if "audio-".toList <+: segmentName then
    match segmentName.splitOn '-' with
    | _ :: trackIdx :: segIdx :: _ => .ok ((parseUsize segIdx).getD 0, parseUsize trackIdx)
    | _ => .error "Invalid audio segment format"
  else
    match parseUsize segmentName with
    | some i => .ok (i, none)
    | none => .error "Invalid segment"

/-! ### The file of a torrent -/

/-- A file that playback could be about. -/
structure FileCandidate where
  index : ℕ
  name : String
  length : ℕ

/-- The extension is one of a video. -/
def isVideoName (name : String) : Bool :=
  let extension := ((name.toList.map Char.toLower).splitOn '.').getLast?.getD []
  extension ∈ ["mkv".toList, "mp4".toList, "avi".toList, "webm".toList, "mov".toList, "wmv".toList,
    "m4v".toList, "ts".toList]

/-- The longest file; of several, the last. -/
def maxByLength (files : List FileCandidate) : Option FileCandidate :=
  files.foldl (fun best file =>
    match best with
    | some longest => if longest.length ≤ file.length then some file else some longest
    | none => some file) none

/-- The file that is asked for, where no filter is given. -/
def resolveFileIdx (requestedIdx : String) (files : List FileCandidate) : Except String ℕ :=
  if requestedIdx ≠ "-1" then
    match parseUsize requestedIdx.toList with
    | none => .error s!"Invalid file index: {requestedIdx}"
    | some idx =>
        if files.any fun file => file.index == idx then .ok idx
        else .error "File index out of bounds"
  else if files = [] then .error "No files available"
  else
    match maxByLength (files.filter fun file => isVideoName file.name) <|> maxByLength files with
    | some file => .ok file.index
    | none => .error "No playable file found"

/-! ### Answers -/

/-- The torrents and the probes: the files of a torrent that can be loaded, and what the probe of a
file tells. -/
structure Server where
  files : String → Except String (List FileCandidate)
  probe : String → ℕ → Except String ProbeResult

/-- What is answered. -/
inductive Reply
  | streamPlaylist (infoHash : String) (fileIdx : ℕ) (audioTrackIdx : Option ℕ)
      (playlist : List Char)
  | masterPlaylist (infoHash : String) (fileIdx : ℕ)
  | segment (infoHash : String) (fileIdx segIndex : ℕ) (audioTrackIdx : Option ℕ)
  | status (code : ℕ) (message : String)
  | unsupported (feature : String)
  | other (handler : Handler) (values : List String)

/-- The number of a file in a path; a name counts as the first file. -/
def fileIdxOf (fileIdx : String) : ℕ := (parseUsize fileIdx.toList).getD 0

/-- The answer for a stream playlist. -/
def streamPlaylist (server : Server) (infoHash : String) (fileIdx : ℕ) (playlistName : String)
    (query : Option Query) : Reply :=
  match server.files infoHash with
  | .error e => .status 500 s!"Failed to load engine: {e}"
  | .ok _ =>
      match server.probe infoHash fileIdx with
      | .error e => .status 500 e
      | .ok probe =>
          .streamPlaylist infoHash fileIdx (audioTrackOf playlistName)
            (getStreamPlaylist probe "./".toList (audioTrackOf playlistName)
              ((query.map fun q => q.1.toList).getD []))

/-- `get_segment`. -/
def getSegment (server : Server) (infoHash : String) (fileIdx : ℕ) (segment : String) : Reply :=
  match server.files infoHash with
  | .error e => .status 500 s!"Failed to load engine: {e}"
  | .ok _ =>
      match segmentOf segment with
      | .error message => .status 400 message
      | .ok (segIndex, audioTrackIdx) =>
          match server.probe infoHash fileIdx with
          | .error e => .status 500 e
          | .ok probe =>
              match (getSegments probe.duration)[segIndex]? with
              | some _ => .segment infoHash fileIdx segIndex audioTrackIdx
              | none => .status 404 "Segment out of bounds"

/-- `handle_hls_resource`. -/
def handleHlsResource (server : Server) (infoHash fileIdxStr resource : String)
    (query : Option Query) : Reply :=
  match parseHlsId infoHash with
  | some (realInfoHash, realFileIdx) =>
      if resource = "init.mp4" then .unsupported "hlsv2 fMP4 init segments"
      else
        match hlsV2SegmentAlias resource with
        | some segment => getSegment server realInfoHash realFileIdx segment
        | none =>
            if "segment".toList <+: resource.toList then .unsupported "hlsv2 fMP4 media segments"
            else if ".m3u8".toList <:+ resource.toList then
              streamPlaylist server realInfoHash realFileIdx resource query
            else .unsupported "hlsv2 track resource"
  | none =>
      if ".m3u8".toList <:+ resource.toList then
        streamPlaylist server infoHash (fileIdxOf fileIdxStr) resource query
      else getSegment server infoHash (fileIdxOf fileIdxStr) resource

/-- `handle_hls_fmp4_segment`. -/
def handleHlsFmp4Segment (server : Server) (infoHash fileIdxStr track segment : String) : Reply :=
  getSegment server infoHash (fileIdxOf fileIdxStr) s!"{track}/{segment}"

/-- `hls_v2_resource`. -/
def hlsV2Resource (server : Server) (id resource : String) (query : Option Query) : Reply :=
  match parseHlsId id with
  | none => .unsupported "hlsv2 arbitrary converter playlist"
  | some (infoHash, fileIdx) =>
      if resource = "init.mp4" ∨ "segment".toList <+: resource.toList then
        match hlsV2SegmentAlias resource with
        | some segment => getSegment server infoHash fileIdx segment
        | none => .unsupported "hlsv2 fMP4 media segments"
      else if ¬ ".m3u8".toList <:+ resource.toList then .status 404 "HLS resource not found"
      else
        let track := resource.toList.trimEndMatches ".m3u8".toList
        if track = "master".toList ∨ track = "hls".toList then .masterPlaylist infoHash fileIdx
        else streamPlaylist server infoHash fileIdx resource query

/-- `resolve_legacy_file_idx`. -/
def resolveLegacyFileIdx (server : Server) (infoHash requestedIdx : String) : Except Reply ℕ :=
  match parseUsize requestedIdx.toList with
  | some idx => .ok idx
  | none =>
      match server.files infoHash with
      | .error e => .error (.status 500 s!"Failed to load engine: {e}")
      | .ok files =>
          match resolveFileIdx requestedIdx files with
          | .ok idx => .ok idx
          | .error message => .error (.status 404 message)

/-- `legacy_hls_resource`. -/
def legacyHlsResource (server : Server) (first second resource : String)
    (query : Option Query) : Reply :=
  match legacyPair first second with
  | none => .status 404 "legacy file/url HLS resource not found"
  | some (infoHash, requestedIdx) =>
      match resolveLegacyFileIdx server infoHash requestedIdx with
      | .error reply => reply
      | .ok fileIdx =>
          if resource = "hls.m3u8" ∨ resource = "master.m3u8" then .masterPlaylist infoHash fileIdx
          else if resource = "stream.m3u8" then
            streamPlaylist server infoHash fileIdx "stream-0.m3u8" query
          else if resource = "thumb.jpg" then .status 404 "thumbnail not available"
          else if resource = "dlna" then .unsupported "legacy HLS DLNA discovery"
          else if legacyStreamPlaylist resource then
            streamPlaylist server infoHash fileIdx resource query
          else if "subs-".toList <+: resource.toList then
            .unsupported "legacy HLS subtitle playlist"
          else if "mp4stream".toList <+: resource.toList then
            .unsupported "legacy HLS MP4 segments"
          else if ".ts".toList <:+ resource.toList then getSegment server infoHash fileIdx resource
          else .status 404 "legacy HLS resource not found"

/-- `legacy_hls_segment`. -/
def legacyHlsSegment (server : Server) (first second variant seg : String) : Reply :=
  match legacyPair first second with
  | none => .status 404 "legacy file/url HLS segment not found"
  | some (infoHash, requestedIdx) =>
      match resolveLegacyFileIdx server infoHash requestedIdx with
      | .error reply => reply
      | .ok fileIdx =>
          if "mp4stream".toList <+: variant.toList then .unsupported "legacy HLS MP4 segments"
          else if variant = "stream" ∨ "stream-".toList <+: variant.toList ∨
              "stream-q-".toList <+: variant.toList then
            getSegment server infoHash fileIdx seg
          else .unsupported "legacy HLS segment variant"

/-- What a handler answers to the values of its parameters. -/
def handle (server : Server) (query : Option Query) : Handler → List String → Reply
  | .handleHlsResource, [infoHash, fileIdx, resource] =>
      handleHlsResource server infoHash fileIdx resource query
  | .handleHlsFmp4Segment, [infoHash, fileIdx, track, segment] =>
      handleHlsFmp4Segment server infoHash fileIdx track segment
  | .hlsV2Resource, [id, resource] => hlsV2Resource server id resource query
  | .legacyHlsResource, [first, second, resource] =>
      legacyHlsResource server first second resource query
  | .legacyHlsSegment, [first, second, variant, seg] =>
      legacyHlsSegment server first second variant seg
  | handler, values => .other handler values

/-- What the server answers to a request. -/
def respond (server : Server) (target : Target) : Reply :=
  match dispatch buildRouter target.path with
  | none => .status 404 ""
  | some (handler, values) =>
      match values.mapM percentDecode with
      | none => .status 400 "Invalid UTF-8 in path"
      | some values => handle server target.query handler values

end StreamServer.Routes

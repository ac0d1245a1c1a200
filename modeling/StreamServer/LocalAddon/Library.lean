import Mathlib.Algebra.Ring.Nat
import StreamServer.Lib.HashTable
import StreamServer.Lib.Signed
import StreamServer.Lib.Uri

/-!
# The local library

Videos that are found on the disk are put into an index, one after the other, while the server runs.  A
client asks in three steps: a catalog lists what has been found, one entry for a title; an entry leads to
the list of its videos; and a video leads to the stream that it plays.  Nothing but the texts of the
identifiers is carried from one step to the next.

The hash of a path, the lower case of a text and the statistics of the engines are given.  The order in
which a hash table is gone through is an argument.

## Main definitions

* `LocalIndex.insert` — an item is put into the index.
* `handleCatalog`, `handleMeta`, `handleStream` — the three requests.

## References

`server/src/local_addon/index.rs`; `server/src/local_addon/mod.rs`, `_handle_catalog`, `handle_meta`,
`handle_stream`; `server/src/local_addon/parser.rs`, `VideoMetadata`.
-/

namespace StreamServer.LocalAddon

/-! ### Items -/

/-- What the name of a file says.  A list of episodes is not empty. -/
structure VideoMetadata where
  name : Option String
  year : Option Int32
  season : Option Int32
  episode : Option { episodes : List Int32 // episodes ≠ [] }
  type_ : String
  deriving DecidableEq, Repr

/-- `IndexItem`. -/
structure IndexItem where
  id : String
  imdbId : Option String
  metadata : VideoMetadata
  path : String
  infoHash : Option String
  fileIdx : Option ℕ
  deriving DecidableEq, Repr

/-- `LocalIndex`. -/
structure LocalIndex where
  items : AList fun _ : String => List IndexItem
  pathMap : AList fun _ : String => String

/-- An identifier of the library, as it goes with the requests of a client. -/
def localId (name : String) : String := "local:" ++ name

/-- The identifier of a torrent. -/
def torrentId (infoHash : String) : String := "bt:" ++ infoHash

section Index

variable (hashPath : String → ℕ)

/-- The identifier under which an item is put. -/
def IndexItem.key (item : IndexItem) : String :=
  if item.id ≠ "" then item.id
  else
    match item.imdbId with
    | some imdb => localId imdb
    | none => localId (String.ofList (Nat.toDigits 10 (hashPath item.path)))

/-- The item as the index keeps it, under its key. -/
def IndexItem.stored (item : IndexItem) : IndexItem := { item with id := item.key hashPath }

namespace LocalIndex

/-- `LocalIndex::new()`. -/
def new : LocalIndex := ⟨∅, ∅⟩

/-- `insert`: the item joins the others of its key. -/
def insert (index : LocalIndex) (item : IndexItem) : LocalIndex :=
  let key := item.key hashPath
  { items := index.items.insert key ((index.items.lookup key).getD [] ++ [item.stored hashPath])
    pathMap := index.pathMap.insert item.path key }

/-- The index when so many items have been found, in this order. -/
def ofItems (items : List IndexItem) : LocalIndex :=
  items.foldl (fun index item => index.insert hashPath item) new

end LocalIndex

end Index

/-! ### Texts -/

/-- `strip_suffix`, or the text itself. -/
def stripSuffix (text suffix : String) : String :=
  if suffix.toList <:+ text.toList then
    String.ofList (text.toList.take (text.toList.length - suffix.toList.length))
  else text

/-- `parse::<i32>`. -/
def parseI32 (text : List Char) : Option Int32 := (Decimal.parseSigned (2 ^ 31) text).map Int32.ofInt

/-- How `format!` writes an `i32`. -/
def showI32 (n : Int32) : String := String.ofList (Decimal.signed n.toInt)

/-! ### The catalog -/

/-- An entry of the catalog, the fields of its JSON object. -/
structure CatalogEntry where
  id : String
  type_ : String
  name : String
  description : String
  deriving DecidableEq, Repr

/-- Items of one title are listed once. -/
def IndexItem.title (item : IndexItem) : String := item.imdbId.getD item.path

/-- The entry that `handle_catalog` makes of an item. -/
def IndexItem.entry (item : IndexItem) : CatalogEntry :=
  ⟨item.id, item.metadata.type_, item.metadata.name.getD "Unknown", "Local file: " ++ item.path⟩

/-- The first item of each title. -/
def firstOfTitles (items : List IndexItem) : AList fun _ : String => IndexItem :=
  items.foldl (fun acc item => if item.title ∈ acc then acc else acc.insert item.title item) ∅

/-- The catalog of a type, when the index is gone through in this order. -/
def handleCatalog (values : List (List IndexItem)) (type_ : String) : List CatalogEntry :=
  (firstOfTitles (values.flatten.filter fun item => item.metadata.type_ = type_)).values.map
    IndexItem.entry

/-! ### The videos of an entry -/

/-- The statistics of an engine, with the names of its files. -/
structure EngineStats where
  name : String
  files : List String
  files_lt : files.length < 2 ^ 63

/-- A video of the answer for an item of the index. -/
structure Video where
  id : String
  title : Option String
  season : Int32
  episode : Int32
  released : String
  deriving DecidableEq, Repr

/-- A video of the answer for a torrent. -/
structure TorrentVideo where
  id : String
  title : String
  released : String
  infoHash : String
  fileIdx : ℕ
  deriving DecidableEq, Repr

/-- The answers of `handle_meta`. -/
inductive Meta
  | torrent (id type_ name description : String) (videos : List TorrentVideo)
  | library (id type_ : String) (name : Option String) (videos : List Video)
  deriving DecidableEq, Repr

/-- The season that is shown, `1` where there is none. -/
def IndexItem.shownSeason (item : IndexItem) : Int32 := item.metadata.season.getD 1

/-- The first of the episodes, `1` where there is none. -/
def IndexItem.shownEpisode (item : IndexItem) : Int32 :=
  (item.metadata.episode.map fun e => e.1.head e.2).getD 1

/-- The identifier of an episode. -/
def videoId (id : String) (season episode : Int32) : String :=
  id ++ ":" ++ showI32 season ++ ":" ++ showI32 episode

/-- The video that `handle_meta` makes of an item. -/
def IndexItem.video (id : String) (item : IndexItem) : Video where
  id := videoId id item.shownSeason item.shownEpisode
  title := item.metadata.name
  season := item.shownSeason
  episode := item.shownEpisode
  released := showI32 (item.metadata.year.getD 2020)

/-- The video that `handle_meta` makes of a file of a torrent. -/
def torrentVideo (id infoHash : String) (idx : ℕ) (file : String) : TorrentVideo where
  id := id ++ ":" ++ String.ofList (Nat.toDigits 10 idx)
  title := file
  released := "2020-01-01T00:00:00.000Z"
  infoHash := infoHash
  fileIdx := idx

section Requests

variable (toLowercase : String → String) (engines : String → Option EngineStats) (index : LocalIndex)

/-- `handle_meta`. -/
def handleMeta (type_ idExt : String) : Option Meta :=
  let id := stripSuffix idExt ".json"
  if "bt:".toList <+: id.toList then
    let infoHash := toLowercase (String.ofList (id.toList.drop "bt:".toList.length))
    (engines infoHash).map fun stats =>
      .torrent id type_ (if stats.name = "" then "Torrent" else stats.name) "Torrent stream"
        (stats.files.mapIdx (torrentVideo id infoHash))
  else
    match index.items.lookup id with
    | some (first :: rest) =>
      some (.library id type_ first.metadata.name ((first :: rest).map (IndexItem.video id)))
    | _ => none

/-! ### The stream of a video -/

/-- The answers of `handle_stream`. -/
inductive StreamLink
  | torrent (title infoHash : String) (fileIdx : ℕ)
  | archive (title url bingeGroup : String)
  | file (title url : String)
  deriving DecidableEq, Repr

/-- What is in front of the first `|`, and what is behind it. -/
def splitBar (text : List Char) : Option (List Char × List Char) :=
  match text.span (· ≠ '|') with
  | (front, _ :: back) => some (front, back)
  | (_, []) => none

/-- An item plays an episode; without a season, any item does. -/
def IndexItem.plays (item : IndexItem) (season episode : Option Int32) : Bool :=
  match season with
  | some s =>
    item.metadata.season = some s ∧
      (item.metadata.episode.map fun e => decide (episode.getD 1 ∈ e.1)).getD false
  | none => true

variable (baseUrl : String)

/-- The link that `handle_stream` makes of an item. -/
def IndexItem.link (item : IndexItem) : StreamLink :=
  match item.infoHash, item.fileIdx with
  | some infoHash, some fileIdx =>
    .torrent (item.metadata.name.getD "Torrent File") infoHash fileIdx
  | _, _ =>
    if "archive:".toList <+: item.path.toList then
      match splitBar (item.path.toList.drop "archive:".toList.length) with
      | some (archivePath, internalPath) =>
        .archive (item.metadata.name.getD "Archive File")
          (baseUrl ++ "/zip/stream?archive=" ++
            String.ofList (Uri.percentEncode (String.ofList archivePath)) ++ "&file=" ++
            String.ofList (Uri.percentEncode (String.ofList internalPath)))
          ("archive:" ++ String.ofList archivePath)
      | none => .file "Local File" ("file://" ++ item.path)
    else .file "Local File" ("file://" ++ item.path)

/-- `handle_stream`. -/
def handleStream (idExt : String) : Option StreamLink :=
  match (stripSuffix idExt ".json").toList.splitOn ':' with
  | first :: second :: rest =>
    if first = "bt".toList then
      let infoHash := toLowercase (String.ofList second)
      let fileIdx := (rest[0]?.bind (Decimal.parse (2 ^ 64))).getD 0
      (engines infoHash).map fun stats =>
        .torrent (stats.files[fileIdx]?.getD "Unknown") infoHash fileIdx
    else
      let baseId := String.ofList (first ++ ':' :: second)
      let targetSeason := rest[0]?.bind parseI32
      let targetEpisode := rest[1]?.bind parseI32
      (((index.items.lookup baseId).getD []).find? fun item =>
        item.plays targetSeason targetEpisode).map (IndexItem.link baseUrl)
  | _ => none

end Requests

end StreamServer.LocalAddon

import Mathlib.Data.List.Dedup
import StreamServer.LocalAddon.Library

/-!
# What is listed can be streamed

From each entry of a catalog a client comes to a list of videos, and from a video to the stream of the item
that has been found first for its episode.  What is found later does not change the answer.  A video of an
item without a season, or without an episode, plays nothing, unless another item under its identifier has
that episode.

## Main definitions

* `Scanned` — an item as the scan makes it.
* `LeadsToVideos`, `LeadsToFiles` — where an entry leads.

## Main results

* `getD_ofItems` — the index keeps the items of an identifier in the order in which they were found.
* `catalog_streams` — **what is listed can be streamed**.

## References

`server/src/local_addon/mod.rs`; `server/src/local_addon/scanner.rs`, `scan_background`.
-/

namespace StreamServer.LocalAddon

/-! ### Texts -/

theorem stripSuffix_append (text suffix : String) : stripSuffix (text ++ suffix) suffix = text := by
  rw [stripSuffix, String.toList_append, if_pos (List.suffix_append _ _), List.length_append,
    Nat.add_sub_cancel, List.take_left, String.ofList_toList]

theorem parseI32_showI32 (n : Int32) : parseI32 (showI32 n).toList = some n := by
  have hlow := n.le_toInt
  have hhigh := n.toInt_lt
  rw [parseI32, showI32, String.toList_ofList, Decimal.parseSigned_signed hlow hhigh, Option.map_some,
    Int32.ofInt_toInt]

theorem colon_notMem_showI32 (n : Int32) : ':' ∉ (showI32 n).toList := by
  rw [showI32, String.toList_ofList]
  exact Decimal.notMem_signed (by decide) (by decide)

/-- The parts of an identifier of an episode. -/
theorem splitOn_videoId {name : String} (hname : ':' ∉ name.toList) (season episode : Int32) :
    (videoId (localId name) season episode).toList.splitOn ':' =
      ["local".toList, name.toList, (showI32 season).toList, (showI32 episode).toList] := by
  have hpieces : ∀ piece ∈ ["local".toList, name.toList, (showI32 season).toList,
      (showI32 episode).toList], ':' ∉ piece := by
    intro piece hpiece
    simp only [List.mem_cons, List.not_mem_nil, or_false] at hpiece
    rcases hpiece with rfl | rfl | rfl | rfl
    · decide
    · exact hname
    · exact colon_notMem_showI32 season
    · exact colon_notMem_showI32 episode
  rw [← List.splitOn_intercalate ':' hpieces (by simp)]
  simp [videoId, localId]

/-- The parts of an identifier of a file of a torrent. -/
theorem splitOn_torrentVideo {hash : String} (hhash : ':' ∉ hash.toList) (infoHash file : String)
    (idx : ℕ) :
    (torrentVideo (torrentId hash) infoHash idx file).id.toList.splitOn ':' =
      ["bt".toList, hash.toList, Nat.toDigits 10 idx] := by
  have hpieces : ∀ piece ∈ ["bt".toList, hash.toList, Nat.toDigits 10 idx], ':' ∉ piece := by
    intro piece hpiece
    simp only [List.mem_cons, List.not_mem_nil, or_false] at hpiece
    rcases hpiece with rfl | rfl | rfl
    · decide
    · exact hhash
    · exact Decimal.notMem_digits (by decide)
  rw [← List.splitOn_intercalate ':' hpieces (by simp)]
  simp [torrentVideo, torrentId]

/-! ### The index -/

section Index

variable {hashPath : String → ℕ} {found : List IndexItem} {item : IndexItem} {key : String}

theorem LocalIndex.ofItems_concat (found : List IndexItem) (item : IndexItem) :
    LocalIndex.ofItems hashPath (found ++ [item]) =
      (LocalIndex.ofItems hashPath found).insert hashPath item := by
  rw [ofItems, List.foldl_append, List.foldl_cons, List.foldl_nil]
  rfl

/-- **The index keeps the items of an identifier**, in the order in which they were found. -/
theorem LocalIndex.getD_ofItems (found : List IndexItem) (key : String) :
    ((ofItems hashPath found).items.lookup key).getD [] =
      (found.filter fun item => item.key hashPath = key).map (IndexItem.stored hashPath) := by
  induction found using List.reverseRecOn with
  | nil => rfl
  | append_singleton found item ih =>
    rw [ofItems_concat, List.filter_append, List.map_append, ← ih, insert]
    dsimp only
    rw [AList.lookup_insert_eq_ite]
    by_cases h : key = item.key hashPath
    · subst h
      simp
    · simp [h, Ne.symm h]

theorem LocalIndex.lookup_ofItems (hitem : item ∈ found) :
    (ofItems hashPath found).items.lookup (item.key hashPath) =
      some ((found.filter fun other => other.key hashPath = item.key hashPath).map
        (IndexItem.stored hashPath)) := by
  have hmem : item.stored hashPath ∈
      (found.filter fun other => other.key hashPath = item.key hashPath).map
        (IndexItem.stored hashPath) :=
    List.mem_map_of_mem (List.mem_filter.mpr ⟨hitem, decide_eq_true rfl⟩)
  have hget := @getD_ofItems hashPath found (item.key hashPath)
  cases hl : (ofItems hashPath found).items.lookup (item.key hashPath) with
  | none =>
    rw [hl] at hget
    rw [← hget] at hmem
    cases hmem
  | some l =>
    rw [hl] at hget
    rw [← hget]
    rfl

/-- Whatever the order of the table: it holds what has been found. -/
theorem mem_values_flatten {values : List (List IndexItem)}
    (h : values.Perm (LocalIndex.ofItems hashPath found).items.values) {stored : IndexItem} :
    stored ∈ values.flatten ↔ ∃ item ∈ found, stored = item.stored hashPath := by
  rw [List.mem_flatten]
  constructor
  · rintro ⟨l, hl, hstored⟩
    obtain ⟨key, hkey⟩ := AList.mem_values.mp (h.mem_iff.mp hl)
    have hget := @LocalIndex.getD_ofItems hashPath found key
    rw [hkey, Option.getD_some] at hget
    rw [hget] at hstored
    obtain ⟨item, hitem, rfl⟩ := List.mem_map.mp hstored
    exact ⟨item, (List.mem_filter.mp hitem).1, rfl⟩
  · rintro ⟨item, hitem, rfl⟩
    refine ⟨_, h.mem_iff.mpr (AList.mem_values.mpr ⟨_, LocalIndex.lookup_ofItems hitem⟩), ?_⟩
    exact List.mem_map_of_mem (List.mem_filter.mpr ⟨hitem, decide_eq_true rfl⟩)

end Index

/-! ### The catalog -/

theorem lookup_firstOfTitles (items : List IndexItem) (title : String) :
    (firstOfTitles items).lookup title = items.find? fun item => item.title = title := by
  induction items using List.reverseRecOn with
  | nil => rfl
  | append_singleton items item ih =>
    have hstep : firstOfTitles (items ++ [item]) =
        if item.title ∈ firstOfTitles items then firstOfTitles items
        else (firstOfTitles items).insert item.title item := by
      rw [firstOfTitles, List.foldl_append]
      rfl
    -- the item that is found last only counts if nothing has its title yet
    rw [hstep, List.find?_append, ← ih]
    split
    · next hmem =>
      by_cases h : item.title = title
      · -- the title has an item that was found before
        obtain ⟨first, hfirst⟩ := Option.isSome_iff_exists.mp (AList.lookup_isSome.mpr (h ▸ hmem))
        rw [hfirst, Option.some_or]
      · rw [List.find?_cons_of_neg (by simpa using h), List.find?_nil, Option.or_none]
    · next hmem =>
      rw [AList.lookup_insert_eq_ite]
      by_cases h : item.title = title
      · subst h
        rw [if_pos rfl, AList.lookup_eq_none.mpr hmem, Option.none_or,
          List.find?_cons_of_pos (by simp)]
      · rw [if_neg (Ne.symm h), List.find?_cons_of_neg (by simpa using h), List.find?_nil,
          Option.or_none]

/-- The entries of a catalog are the first items of the titles of its type. -/
theorem mem_handleCatalog {values : List (List IndexItem)} {type_ : String} {entry : CatalogEntry} :
    entry ∈ handleCatalog values type_ ↔ ∃ title item,
      (values.flatten.filter fun item => item.metadata.type_ = type_).find?
        (fun item => item.title = title) = some item ∧ entry = item.entry := by
  rw [handleCatalog, List.mem_map]
  constructor
  · rintro ⟨item, hitem, rfl⟩
    obtain ⟨title, htitle⟩ := AList.mem_values.mp hitem
    exact ⟨title, item, lookup_firstOfTitles _ _ ▸ htitle, rfl⟩
  · rintro ⟨title, item, hitem, rfl⟩
    exact ⟨item, AList.mem_values.mpr ⟨title, (lookup_firstOfTitles _ _).trans hitem⟩, rfl⟩

/-- A catalog has as many entries as there are titles of its type. -/
theorem length_handleCatalog {hashPath : String → ℕ} {found : List IndexItem}
    {values : List (List IndexItem)}
    (hvalues : values.Perm (LocalIndex.ofItems hashPath found).items.values) (type_ : String) :
    (handleCatalog values type_).length =
      ((found.filter fun item => item.metadata.type_ = type_).map IndexItem.title).dedup.length := by
  have hkeys : (firstOfTitles (values.flatten.filter fun item => item.metadata.type_ = type_)).keys.Perm
      ((found.filter fun item => item.metadata.type_ = type_).map IndexItem.title).dedup := by
    rw [List.perm_ext_iff_of_nodup (AList.keys_nodup _) (List.nodup_dedup _)]
    intro title
    rw [← AList.mem_keys, ← AList.lookup_isSome, lookup_firstOfTitles, List.find?_isSome,
      List.mem_dedup, List.mem_map]
    constructor
    · rintro ⟨stored, hmem, htitle⟩
      obtain ⟨hflat, htype⟩ := List.mem_filter.mp hmem
      obtain ⟨item, hitem, rfl⟩ := (mem_values_flatten hvalues).mp hflat
      exact ⟨item, List.mem_filter.mpr ⟨hitem, htype⟩, of_decide_eq_true htitle⟩
    · rintro ⟨item, hmem, htitle⟩
      obtain ⟨hitem, htype⟩ := List.mem_filter.mp hmem
      have hflat := (mem_values_flatten hvalues).mpr ⟨item, hitem, rfl⟩
      exact ⟨_, List.mem_filter.mpr ⟨hflat, htype⟩, decide_eq_true htitle⟩
  rw [handleCatalog, List.length_map, AList.values, List.length_map, ← hkeys.length_eq, AList.keys,
    List.keys, List.length_map]

/-! ### From an entry to a stream -/

section Requests

variable (hashPath : String → ℕ) (toLowercase : String → String) (baseUrl : String)

/-- An item as the scan makes it: of a file, whose title may be known, or of a torrent. -/
structure Scanned (item : IndexItem) : Prop where
  id : item.id = "" ∨ (∃ imdb, item.imdbId = some imdb ∧ item.id = localId imdb) ∨
    ∃ hash, ':' ∉ hash.toList ∧ item.id = torrentId hash
  imdb : ∀ imdb, item.imdbId = some imdb → ':' ∉ imdb.toList

/-- An entry of the library leads to a video for each item under its identifier.  A video plays the first
item that has been found for its episode, and goes on playing it, whatever is found later. -/
structure LeadsToVideos (found : List IndexItem) (id : String) : Prop where
  listed : ∀ engines type_, ∃ name,
    handleMeta toLowercase engines (.ofItems hashPath found) type_ (id ++ ".json") =
      some (.library id type_ name
        ((found.filter fun item => item.key hashPath = id).map (IndexItem.video id)))
  streamed : ∀ item ∈ found, item.key hashPath = id → ∀ engines later,
    handleStream toLowercase engines (.ofItems hashPath (found ++ later)) baseUrl
        ((item.video id).id ++ ".json") =
      ((found ++ later).find? fun other => decide (other.key hashPath = id) &&
        other.plays (some item.shownSeason) (some item.shownEpisode)).map (IndexItem.link baseUrl)
  kept : ∀ item ∈ found, item.key hashPath = id → item.metadata.season ≠ none →
    item.metadata.episode ≠ none → ∃ first ∈ found, first.key hashPath = id ∧
      first.plays (some item.shownSeason) (some item.shownEpisode) = true ∧
      ∀ engines later,
        handleStream toLowercase engines (.ofItems hashPath (found ++ later)) baseUrl
          ((item.video id).id ++ ".json") = some (first.link baseUrl)

/-- An entry of a torrent leads to its files as long as its engine is running, and to nothing without
one. -/
structure LeadsToFiles (found : List IndexItem) (hash : String) : Prop where
  running : ∀ engines stats, engines (toLowercase hash) = some stats → ∀ type_, ∃ name videos,
    handleMeta toLowercase engines (.ofItems hashPath found) type_ (torrentId hash ++ ".json") =
      some (.torrent (torrentId hash) type_ name "Torrent stream" videos) ∧
    videos.map TorrentVideo.title = stats.files ∧
    ∀ v ∈ videos, ∀ engines' index, engines' (toLowercase hash) = some stats →
      handleStream toLowercase engines' index baseUrl (v.id ++ ".json") =
        some (.torrent v.title v.infoHash v.fileIdx)
  stopped : ∀ engines, engines (toLowercase hash) = none → ∀ type_,
    handleMeta toLowercase engines (.ofItems hashPath found) type_ (torrentId hash ++ ".json") = none

variable {hashPath} {found : List IndexItem} {item : IndexItem} {name hash : String}

/-- An item of the library has an identifier of the library, with one colon. -/
theorem Scanned.key (h : Scanned item) :
    (∃ name, ':' ∉ name.toList ∧ item.key hashPath = localId name) ∨
      ∃ hash, ':' ∉ hash.toList ∧ item.key hashPath = torrentId hash := by
  have hne : ∀ front back : String, front ≠ "" → front ++ back ≠ "" := by
    intro front back hfront heq
    exact hfront (String.append_eq_empty_iff.mp heq).1
  rcases h.id with hid | ⟨imdb, himdb, hid⟩ | ⟨hash, hhash, hid⟩
  · left
    rw [IndexItem.key, if_neg (not_not.mpr hid)]
    cases himdb : item.imdbId with
    | some imdb => exact ⟨imdb, h.imdb imdb himdb, rfl⟩
    | none =>
      refine ⟨_, ?_, rfl⟩
      rw [String.toList_ofList]
      exact Decimal.notMem_digits (by decide)
  · left
    refine ⟨imdb, h.imdb imdb himdb, ?_⟩
    rw [IndexItem.key, hid, if_pos (show localId imdb ≠ "" from hne "local:" imdb (by decide))]
  · right
    refine ⟨hash, hhash, ?_⟩
    rw [IndexItem.key, hid, if_pos (show torrentId hash ≠ "" from hne "bt:" hash (by decide))]

/-- The item that the request for an episode finds. -/
theorem handleStream_videoId (hname : ':' ∉ name.toList) (engines : String → Option EngineStats)
    (season episode : Int32) :
    handleStream toLowercase engines (.ofItems hashPath found) baseUrl
        (videoId (localId name) season episode ++ ".json") =
      (found.find? fun item => decide (item.key hashPath = localId name) &&
        item.plays (some season) (some episode)).map (IndexItem.link baseUrl) := by
  have hbase : String.ofList ("local".toList ++ ':' :: name.toList) = localId name := by
    simp [localId, ← String.toList_inj]
  rw [handleStream, stripSuffix_append, splitOn_videoId hname]
  dsimp only
  rw [if_neg (by decide), hbase, LocalIndex.getD_ofItems, List.getElem?_cons_zero,
    List.getElem?_cons_succ, List.getElem?_cons_zero, Option.bind_some, Option.bind_some,
    parseI32_showI32, parseI32_showI32, List.find?_map, List.find?_filter, Option.map_map]
  simp only [Bool.decide_and, Bool.decide_eq_true]
  rfl

/-- An episode of an item is played by the item. -/
theorem plays_shown (hseason : item.metadata.season ≠ none) (hepisode : item.metadata.episode ≠ none) :
    item.plays (some item.shownSeason) (some item.shownEpisode) = true := by
  obtain ⟨season, hs⟩ := Option.ne_none_iff_exists'.mp hseason
  obtain ⟨episodes, he⟩ := Option.ne_none_iff_exists'.mp hepisode
  simp [IndexItem.plays, IndexItem.shownSeason, IndexItem.shownEpisode, hs, he]

theorem leadsToVideos (hname : ':' ∉ name.toList) (hitem : item ∈ found)
    (hkey : item.key hashPath = localId name) :
    LeadsToVideos hashPath toLowercase baseUrl found (localId name) where
  listed engines type_ := by
    have hlookup := @LocalIndex.lookup_ofItems hashPath found item hitem
    rw [hkey] at hlookup
    have hnot : ¬ "bt:".toList <+: (localId name).toList := by
      rw [localId, String.toList_append]
      intro h
      exact absurd (List.cons_prefix_cons.mp h).1 (by decide)
    have hmem : item.stored hashPath ∈
        (found.filter fun other => other.key hashPath = localId name).map
          (IndexItem.stored hashPath) :=
      List.mem_map_of_mem (List.mem_filter.mpr ⟨hitem, decide_eq_true hkey⟩)
    -- the item itself is under the identifier, so there is a first one to name the entry
    rw [handleMeta, stripSuffix_append, if_neg hnot, hlookup]
    cases hl : (found.filter fun other => other.key hashPath = localId name).map
        (IndexItem.stored hashPath) with
    | nil =>
      rw [hl] at hmem
      cases hmem
    | cons first rest =>
      refine ⟨first.metadata.name, ?_⟩
      dsimp only
      rw [← hl, List.map_map]
      rfl
  streamed item hitem hkey engines later := handleStream_videoId toLowercase baseUrl hname engines _ _
  kept item hitem hkey hseason hepisode := by
    -- the item itself has the episode, so some item is the first to have it
    have hfind : (found.find? fun other => decide (other.key hashPath = localId name) &&
        other.plays (some item.shownSeason) (some item.shownEpisode)) ≠ none := by
      intro hnone
      have hnot := List.find?_eq_none.mp hnone item hitem
      rw [decide_eq_true hkey, plays_shown hseason hepisode] at hnot
      exact hnot rfl
    obtain ⟨first, hfirst⟩ := Option.ne_none_iff_exists'.mp hfind
    have hspec := List.find?_some hfirst
    rw [Bool.and_eq_true, decide_eq_true_iff] at hspec
    refine ⟨first, List.mem_of_find?_eq_some hfirst, hspec.1, hspec.2, ?_⟩
    intro engines later
    refine (handleStream_videoId toLowercase baseUrl hname engines _ _).trans ?_
    rw [List.find?_append, hfirst, Option.some_or, Option.map_some]

theorem leadsToFiles (hhash : ':' ∉ hash.toList) (found : List IndexItem) :
    LeadsToFiles hashPath toLowercase baseUrl found hash := by
  have hpre : "bt:".toList <+: (torrentId hash).toList := by
    rw [torrentId, String.toList_append]
    exact List.prefix_append _ _
  have hdrop : String.ofList ((torrentId hash).toList.drop "bt:".toList.length) = hash := by
    rw [torrentId, String.toList_append, List.drop_left, String.ofList_toList]
  refine ⟨fun engines stats hstats type_ => ?_, fun engines hnone type_ => ?_⟩
  case refine_2 =>
    rw [handleMeta, stripSuffix_append, if_pos hpre, hdrop]
    dsimp only
    rw [hnone, Option.map_none]
  refine ⟨if stats.name = "" then "Torrent" else stats.name,
    stats.files.mapIdx (torrentVideo (torrentId hash) (toLowercase hash)), ?_, ?_, ?_⟩
  · rw [handleMeta, stripSuffix_append, if_pos hpre, hdrop]
    dsimp only
    rw [hstats, Option.map_some]
  · apply List.ext_getElem
    · simp
    · intro i h₁ h₂
      simp [torrentVideo]
  · intro v hv engines' index hengine
    obtain ⟨idx, hidx, rfl⟩ := List.mem_mapIdx.mp hv
    have hlt : idx < 2 ^ 64 := lt_trans (lt_trans hidx stats.files_lt) (by decide)
    rw [handleStream, stripSuffix_append, splitOn_torrentVideo hhash]
    dsimp only
    rw [if_pos rfl, String.ofList_toList, hengine, List.getElem?_cons_zero, Option.bind_some,
      Decimal.parse_digits hlt, Option.getD_some, Option.map_some, List.getElem?_eq_getElem hidx]
    rfl

/-- **What is listed can be streamed.**  In a catalog, every item that has been found is listed under its
title, each title once, and every entry is of an item that has been found.  The entry of an item of the
library leads to its videos and from there to what they play, now and after more has been found; that of
a torrent leads to its files. -/
theorem catalog_streams (hscanned : ∀ item ∈ found, Scanned item) {values : List (List IndexItem)}
    (hvalues : values.Perm (LocalIndex.ofItems hashPath found).items.values) (type_ : String) :
    (∀ item ∈ found, item.metadata.type_ = type_ → ∃ other ∈ found, other.title = item.title ∧
      (other.stored hashPath).entry ∈ handleCatalog values type_) ∧
    (handleCatalog values type_).length =
      ((found.filter fun item => item.metadata.type_ = type_).map IndexItem.title).dedup.length ∧
    ∀ entry ∈ handleCatalog values type_, ∃ item ∈ found, item.metadata.type_ = type_ ∧
      entry = (item.stored hashPath).entry ∧
      (LeadsToVideos hashPath toLowercase baseUrl found entry.id ∨
        ∃ hash, entry.id = torrentId hash ∧ LeadsToFiles hashPath toLowercase baseUrl found hash) := by
  refine ⟨?_, length_handleCatalog hvalues type_, ?_⟩
  · intro item hitem htype
    have hmem : item.stored hashPath ∈
        values.flatten.filter fun item => item.metadata.type_ = type_ :=
      List.mem_filter.mpr ⟨(mem_values_flatten hvalues).mpr ⟨item, hitem, rfl⟩, decide_eq_true htype⟩
    have hfind : (values.flatten.filter fun item => item.metadata.type_ = type_).find?
        (fun other => other.title = item.title) ≠ none := by
      intro hnone
      exact List.find?_eq_none.mp hnone _ hmem (decide_eq_true rfl)
    obtain ⟨first, hfirst⟩ := Option.ne_none_iff_exists'.mp hfind
    have htitle : first.title = item.title := by simpa using List.find?_some hfirst
    obtain ⟨other, hother, rfl⟩ := (mem_values_flatten hvalues).mp
      (List.mem_filter.mp (List.mem_of_find?_eq_some hfirst)).1
    exact ⟨other, hother, htitle, mem_handleCatalog.mpr ⟨_, _, hfirst, rfl⟩⟩
  · intro entry hentry
    obtain ⟨title, first, hfirst, rfl⟩ := mem_handleCatalog.mp hentry
    obtain ⟨hmem, htype⟩ := List.mem_filter.mp (List.mem_of_find?_eq_some hfirst)
    obtain ⟨item, hitem, rfl⟩ := (mem_values_flatten hvalues).mp hmem
    refine ⟨item, hitem, of_decide_eq_true htype, rfl, ?_⟩
    rcases @Scanned.key hashPath item (hscanned item hitem) with
      ⟨name, hname, hkey⟩ | ⟨hash, hhash, hkey⟩
    · left
      change LeadsToVideos hashPath toLowercase baseUrl found (item.key hashPath)
      rw [hkey]
      exact leadsToVideos toLowercase baseUrl hname hitem hkey
    · exact .inr ⟨hash, hkey, leadsToFiles toLowercase baseUrl hhash found⟩

end Requests

/-- Two episodes of a series, and another file with the second of them. -/
def sampleFound : List IndexItem :=
  let episode (path : String) (episode : Int32) : IndexItem :=
    ⟨"local:tt7", some "tt7",
      ⟨some "Show", none, some 1, some ⟨[episode], List.cons_ne_nil _ _⟩, "series"⟩, path, none, none⟩
  [episode "/1.mkv" 1, episode "/2.mkv" 2, episode "/other.mkv" 2]

theorem sampleFound_scanned : ∀ item ∈ sampleFound, Scanned item := by
  intro item hitem
  simp only [sampleFound, List.mem_cons, List.not_mem_nil, or_false] at hitem
  rcases hitem with rfl | rfl | rfl <;>
    exact ⟨.inr (.inl ⟨"tt7", rfl, rfl⟩), fun imdb h => Option.some.inj h ▸ by decide⟩

theorem sampleFound_streams :
    (handleCatalog (LocalIndex.ofItems (fun _ => 0) sampleFound).items.values "series").length = 1 ∧
    ∀ entry ∈ handleCatalog (LocalIndex.ofItems (fun _ => 0) sampleFound).items.values "series",
      ∃ item ∈ sampleFound, item.metadata.type_ = "series" ∧
        entry = (item.stored fun _ => 0).entry ∧
        (LeadsToVideos (fun _ => 0) id "http://127.0.0.1:11470" sampleFound entry.id ∨
          ∃ hash, entry.id = torrentId hash ∧
            LeadsToFiles (fun _ => 0) id "http://127.0.0.1:11470" sampleFound hash) := by
  have hperm : (LocalIndex.ofItems (fun _ => 0) sampleFound).items.values.Perm
      (LocalIndex.ofItems (fun _ => 0) sampleFound).items.values := .refl _
  have hstreams := (catalog_streams id "http://127.0.0.1:11470" sampleFound_scanned hperm "series").2
  exact ⟨hstreams.1.trans (by decide), hstreams.2⟩

end StreamServer.LocalAddon

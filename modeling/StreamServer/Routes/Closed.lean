import StreamServer.Routes.Playlists

/-!
# What a playlist names is served

The entries of a playlist are references to files beside it, so an entry is asked for at the route
that the path of the playlist, with another last segment, takes.

## Main definitions

* `Leads` — each entry of a playlist leads to its segment.
* `ServesEntries` — the paths at which the entries are served, too.

## Main results

* `leads_iff` — **the entries of a playlist lead to their segments exactly where they are served**, or
  if there are none.
-/

namespace StreamServer.Routes

open Router Uri Piece

variable {server : Server} {target : Target} {infoHash : String} {fileIdx i : ℕ}
  {track : Option ℕ} {playlist : List Char} {query : Option Query}

/-! ### Requests and handlers -/

/-- The pattern of a handler that serves playlists or segments. -/
def Handler.pattern : Handler → Option Pattern
  | .hlsV2Resource => some [lit "hlsv2", param, param]
  | .handleHlsResource => some [lit "hlsv2", param, param, param]
  | .handleHlsFmp4Segment => some [lit "hlsv2", param, param, param, param]
  | .legacyHlsResource => some [param, param, param]
  | .legacyHlsSegment => some [param, param, param, param]
  | _ => none

theorem pattern_of_mem : ∀ route ∈ buildRouter,
    route.2.pattern = none ∨ route.2.pattern = some route.1 := by
  decide

theorem captures_of_dispatch {path values : List String} {handler : Handler} {pattern : Pattern}
    (h : dispatch buildRouter path = some (handler, values))
    (hpattern : handler.pattern = some pattern) : captures pattern path = some values := by
  obtain ⟨pattern', hmem, hvalues⟩ := dispatch_mem h
  rcases pattern_of_mem _ hmem with hnone | hsome
  · rw [hnone] at hpattern
    cases hpattern
  · rw [hsome] at hpattern
    cases hpattern
    exact hvalues

/-- An answer that is no refusal comes from a handler. -/
theorem respond_cases {reply : Reply} (h : respond server target = reply)
    (hreply : ∀ code message, reply ≠ .status code message) :
    ∃ handler raw values, dispatch buildRouter target.path = some (handler, raw) ∧
      raw.mapM percentDecode = some values ∧
      handle server target.query handler values = reply := by
  rw [respond] at h
  split at h
  · exact absurd h.symm (hreply _ _)
  · next handler raw hdispatch =>
    split at h
    · exact absurd h.symm (hreply _ _)
    · next values hvalues => exact ⟨handler, raw, values, hdispatch, hvalues, h⟩

theorem mapM_cons_eq_some {f : String → Option String} {a : String} {l values : List String}
    (h : (a :: l).mapM f = some values) :
    ∃ b values', f a = some b ∧ l.mapM f = some values' ∧ values = b :: values' := by
  simp only [List.mapM_cons, Option.bind_eq_bind, Option.bind_eq_some_iff, Option.pure_def,
    Option.some.injEq] at h
  obtain ⟨b, hb, values', hvalues, rfl⟩ := h
  exact ⟨b, values', hb, hvalues, rfl⟩

theorem mapM_of_cons {f : String → Option String} {a b : String} {l values : List String}
    (ha : f a = some b) (hl : l.mapM f = some values) :
    (a :: l).mapM f = some (b :: values) := by
  simp [List.mapM_cons, ha, hl]

theorem mapM_of_nil (f : String → Option String) : ([] : List String).mapM f = some [] := rfl

/-! ### Who writes a playlist -/

theorem streamPlaylist_eq {hash name : String} {idx : ℕ}
    (h : streamPlaylist server hash idx name query = .streamPlaylist infoHash fileIdx track playlist) :
    infoHash = hash ∧ fileIdx = idx ∧ track = audioTrackOf name ∧
      ∃ files probe, server.files hash = .ok files ∧ server.probe hash idx = .ok probe ∧
        playlist = getStreamPlaylist probe "./".toList track
          ((query.map fun q => q.1.toList).getD []) := by
  rw [streamPlaylist] at h
  split at h
  · cases h
  · next files hfiles =>
    split at h
    · cases h
    · next probe hprobe =>
      cases h
      exact ⟨rfl, rfl, rfl, files, probe, hfiles, hprobe, rfl⟩

/-- A segment is served, or refused. -/
theorem getSegment_cases (server : Server) (infoHash : String) (fileIdx : ℕ) (segment : String) :
    (∃ code message, getSegment server infoHash fileIdx segment = .status code message) ∨
      ∃ i track, getSegment server infoHash fileIdx segment = .segment infoHash fileIdx i track := by
  rw [getSegment]
  split
  · exact Or.inl ⟨_, _, rfl⟩
  · split
    · exact Or.inl ⟨_, _, rfl⟩
    · split
      · exact Or.inl ⟨_, _, rfl⟩
      · split
        · exact Or.inr ⟨_, _, rfl⟩
        · exact Or.inl ⟨_, _, rfl⟩

theorem getSegment_ne {hash segment : String} {idx : ℕ} :
    getSegment server hash idx segment ≠ .streamPlaylist infoHash fileIdx track playlist := by
  intro h
  rcases getSegment_cases server hash idx segment with ⟨_, _, heq⟩ | ⟨_, _, heq⟩
  · rw [heq] at h
    cases h
  · rw [heq] at h
    cases h

theorem playlist_of_handleHlsResource {first second resource : String}
    (h : handleHlsResource server first second resource query =
      .streamPlaylist infoHash fileIdx track playlist) :
    (parseHlsId first = some (infoHash, fileIdx) ∨
      parseHlsId first = none ∧ infoHash = first ∧ fileIdx = fileIdxOf second) ∧
      streamPlaylist server infoHash fileIdx resource query =
        .streamPlaylist infoHash fileIdx track playlist := by
  rw [handleHlsResource] at h
  split at h
  · next hid =>
    split at h
    · cases h
    · split at h
      · exact absurd h getSegment_ne
      · split at h
        · cases h
        · split at h
          · obtain ⟨rfl, rfl, -⟩ := streamPlaylist_eq h
            exact ⟨Or.inl hid, h⟩
          · cases h
  · next hid =>
    split at h
    · obtain ⟨rfl, rfl, -⟩ := streamPlaylist_eq h
      exact ⟨Or.inr ⟨hid, rfl, rfl⟩, h⟩
    · exact absurd h getSegment_ne

theorem playlist_of_hlsV2Resource {id resource : String}
    (h : hlsV2Resource server id resource query =
      .streamPlaylist infoHash fileIdx track playlist) :
    streamPlaylist server infoHash fileIdx resource query =
      .streamPlaylist infoHash fileIdx track playlist := by
  rw [hlsV2Resource] at h
  split at h
  · cases h
  · split at h
    · split at h
      · exact absurd h getSegment_ne
      · cases h
    · split at h
      · cases h
      · dsimp only at h
        split at h
        · cases h
        · obtain ⟨rfl, rfl, -⟩ := streamPlaylist_eq h
          exact h

theorem resolveLegacyFileIdx_error {requestedIdx : String} {reply : Reply}
    (h : resolveLegacyFileIdx server infoHash requestedIdx = .error reply) :
    ∃ code message, reply = .status code message := by
  rw [resolveLegacyFileIdx] at h
  split at h
  · cases h
  · split at h
    · cases h
      exact ⟨_, _, rfl⟩
    · split at h
      · cases h
      · cases h
        exact ⟨_, _, rfl⟩

theorem audioTrackOf_legacy {resource : String} (h : legacyStreamPlaylist resource = true) :
    audioTrackOf resource = none := by
  rw [legacyStreamPlaylist, decide_eq_true_iff] at h
  rw [audioTrackOf, if_neg]
  intro haudio
  obtain ⟨rest, hrest⟩ := haudio
  rcases h.2 with ⟨rest', hrest'⟩ | ⟨rest', hrest'⟩
  · rw [← hrest'] at hrest
    cases hrest
  · rw [← hrest'] at hrest
    cases hrest

/-- A playlist of the old form is one for video. -/
theorem playlist_of_legacyHlsResource {first second resource : String}
    (h : legacyHlsResource server first second resource query =
      .streamPlaylist infoHash fileIdx track playlist) :
    (∃ requestedIdx, legacyPair first second = some (infoHash, requestedIdx) ∧
      resolveLegacyFileIdx server infoHash requestedIdx = .ok fileIdx) ∧ track = none ∧
      ∃ name, streamPlaylist server infoHash fileIdx name query =
        .streamPlaylist infoHash fileIdx track playlist := by
  rw [legacyHlsResource] at h
  split at h
  · cases h
  · next hash requestedIdx hpair =>
    split at h
    · next reply hidx =>
      obtain ⟨code, message, rfl⟩ := resolveLegacyFileIdx_error hidx
      cases h
    · next idx hidx =>
      split_ifs at h with h1 h2 h3 h4 h5
      · obtain ⟨rfl, rfl, htrack, -⟩ := streamPlaylist_eq h
        exact ⟨⟨requestedIdx, hpair, hidx⟩, htrack, _, h⟩
      · obtain ⟨rfl, rfl, htrack, -⟩ := streamPlaylist_eq h
        rw [audioTrackOf_legacy h5] at htrack
        exact ⟨⟨requestedIdx, hpair, hidx⟩, htrack, _, h⟩
      · exact absurd h getSegment_ne

theorem legacyHlsSegment_ne {first second variant seg : String} :
    legacyHlsSegment server first second variant seg ≠
      .streamPlaylist infoHash fileIdx track playlist := by
  intro h
  rw [legacyHlsSegment] at h
  split at h
  · cases h
  · split at h
    · next reply hidx =>
      obtain ⟨code, message, rfl⟩ := resolveLegacyFileIdx_error hidx
      cases h
    · split_ifs at h
      exact getSegment_ne h

/-- **What a request for a playlist looks like**: it takes one of three forms. -/
theorem playlist_forms
    (h : respond server target = .streamPlaylist infoHash fileIdx track playlist) :
    (∃ name, streamPlaylist server infoHash fileIdx name target.query =
      .streamPlaylist infoHash fileIdx track playlist) ∧
    ((∃ id name, target.path = ["hlsv2", id, name]) ∨
      (∃ first second name first' second' name', target.path = ["hlsv2", first, second, name] ∧
        first ≠ "" ∧ second ≠ "" ∧ percentDecode first = some first' ∧
        percentDecode second = some second' ∧ percentDecode name = some name' ∧
        track = audioTrackOf name' ∧
        (parseHlsId first' = some (infoHash, fileIdx) ∨
          parseHlsId first' = none ∧ infoHash = first' ∧ fileIdx = fileIdxOf second')) ∨
      ∃ first second name first' second' requestedIdx, target.path = [first, second, name] ∧
        first ≠ "" ∧ second ≠ "" ∧ percentDecode first = some first' ∧
        percentDecode second = some second' ∧ track = none ∧
        legacyPair first' second' = some (infoHash, requestedIdx) ∧
        resolveLegacyFileIdx server infoHash requestedIdx = .ok fileIdx) := by
  obtain ⟨handler, raw, values, hdispatch, hvalues, hhandle⟩ :=
    respond_cases h (fun _ _ heq => by cases heq)
  -- three handlers answer with a playlist: their routes give the three forms
  unfold handle at hhandle
  split at hhandle
  · next first' second' name' =>
    obtain ⟨path₁, hpath₁, hcaptures⟩ := captures_lit (captures_of_dispatch hdispatch rfl)
    obtain ⟨first, path₂, values₂, rfl, rfl, hfirst, hcaptures⟩ := captures_param hcaptures
    obtain ⟨second, path₃, values₃, rfl, rfl, hsecond, hcaptures⟩ := captures_param hcaptures
    obtain ⟨name, path₄, values₄, rfl, rfl, -, hcaptures⟩ := captures_param hcaptures
    obtain ⟨rfl, rfl⟩ := captures_nil hcaptures
    obtain ⟨_, _, hfirst', hvalues, heq⟩ := mapM_cons_eq_some hvalues
    cases heq
    obtain ⟨_, _, hsecond', hvalues, heq⟩ := mapM_cons_eq_some hvalues
    cases heq
    obtain ⟨_, _, hname', -, heq⟩ := mapM_cons_eq_some hvalues
    cases heq
    obtain ⟨hid, hplaylist⟩ := playlist_of_handleHlsResource hhandle
    exact ⟨⟨name', hplaylist⟩, Or.inr (Or.inl ⟨first, second, name, first', second', name', hpath₁,
      hfirst, hsecond, hfirst', hsecond', hname', (streamPlaylist_eq hplaylist).2.2.1, hid⟩)⟩
  · exact absurd hhandle getSegment_ne
  · next id' name' =>
    obtain ⟨path₁, hpath₁, hcaptures⟩ := captures_lit (captures_of_dispatch hdispatch rfl)
    obtain ⟨id, path₂, values₂, rfl, rfl, -, hcaptures⟩ := captures_param hcaptures
    obtain ⟨name, path₃, values₃, rfl, rfl, -, hcaptures⟩ := captures_param hcaptures
    obtain ⟨rfl, rfl⟩ := captures_nil hcaptures
    exact ⟨⟨name', playlist_of_hlsV2Resource hhandle⟩, Or.inl ⟨id, name, hpath₁⟩⟩
  · next first' second' name' =>
    have hcaptures := captures_of_dispatch hdispatch rfl
    obtain ⟨first, path₂, values₂, hpath, rfl, hfirst, hcaptures⟩ := captures_param hcaptures
    obtain ⟨second, path₃, values₃, rfl, rfl, hsecond, hcaptures⟩ := captures_param hcaptures
    obtain ⟨name, path₄, values₄, rfl, rfl, -, hcaptures⟩ := captures_param hcaptures
    obtain ⟨rfl, rfl⟩ := captures_nil hcaptures
    obtain ⟨_, _, hfirst', hvalues, heq⟩ := mapM_cons_eq_some hvalues
    cases heq
    obtain ⟨_, _, hsecond', hvalues, heq⟩ := mapM_cons_eq_some hvalues
    cases heq
    obtain ⟨⟨requestedIdx, hpair, hidx⟩, htrack, hplaylist⟩ :=
      playlist_of_legacyHlsResource hhandle
    exact ⟨hplaylist, Or.inr (Or.inr ⟨first, second, name, first', second', requestedIdx, hpath,
      hfirst, hsecond, hfirst', hsecond', htrack, hpair, hidx⟩)⟩
  · exact absurd hhandle legacyHlsSegment_ne
  · cases hhandle

/-! ### What becomes of an entry -/

/-- The name of a segment, as the last segment of a path. -/
def entryFile (track : Option ℕ) (i : ℕ) : String := String.ofList (segmentName track i)

theorem entryFile_toList : (entryFile track i).toList = segmentName track i := String.toList_ofList

theorem entryFile_ne {word : String} (h : ¬ ".ts".toList <:+ word.toList) :
    entryFile track i ≠ word := by
  intro heq
  exact segmentName_ne h (by rw [← heq, entryFile_toList])

theorem percentDecode_entryFile : percentDecode (entryFile track i) = some (entryFile track i) := by
  refine percentDecode_plain fun hmem => ?_
  rw [entryFile_toList] at hmem
  exact ne_of_mem_segmentName hmem (by decide) rfl

theorem getSegment_entryFile {files : List FileCandidate} {probe : ProbeResult}
    (hfiles : server.files infoHash = .ok files) (hprobe : server.probe infoHash fileIdx = .ok probe)
    (htrack : ∀ k ∈ track, k < 2 ^ 64) (hi : i < (getSegments probe.duration).length) :
    getSegment server infoHash fileIdx (entryFile track i) = .segment infoHash fileIdx i track := by
  have hbound : i < 2 ^ 64 := by
    rw [getSegments, List.length_map, List.length_range] at hi
    omega
  rw [getSegment, hfiles, entryFile, segmentOf_segmentName hbound htrack, hprobe]
  dsimp only
  rw [List.getElem?_eq_getElem hi]

theorem hlsV2SegmentAlias_entryFile_none (hi : i < 2 ^ 64) :
    hlsV2SegmentAlias (entryFile none i) = some (entryFile none i) := by
  have hnot : ¬ "segment".toList <+: segmentName none i := not_begins_segmentName (by decide)
  rw [hlsV2SegmentAlias, entryFile_toList, if_neg (not_not.mpr suffix_segmentName)]
  dsimp only
  rw [if_neg hnot, trimEndMatches_segmentName, segmentStem_none, parseUsize, Decimal.parse_digits hi]
  rfl

theorem hlsV2SegmentAlias_entryFile_some {k : ℕ} : hlsV2SegmentAlias (entryFile (some k) i) = none := by
  have hnot : ¬ "segment".toList <+: segmentName (some k) i := not_begins_segmentName (by decide)
  rw [hlsV2SegmentAlias, entryFile_toList, if_neg (not_not.mpr suffix_segmentName)]
  dsimp only
  rw [if_neg hnot, trimEndMatches_segmentName]
  rfl

/-- The route of the id of a converter does not serve a segment under its name. -/
theorem hlsV2Resource_entryFile {id hash : String} {idx j : ℕ} {track' : Option ℕ} :
    hlsV2Resource server id (entryFile track i) query ≠ .segment hash idx j track' := by
  have hinit : ¬(entryFile track i = "init.mp4" ∨ "segment".toList <+: segmentName track i) :=
    not_or.mpr ⟨entryFile_ne (by decide), not_begins_segmentName (by decide)⟩
  have hplaylist : ¬ ".m3u8".toList <:+ segmentName track i :=
    not_suffix_segmentName (by decide) (by decide)
  intro h
  rw [hlsV2Resource] at h
  split at h
  · cases h
  · rw [entryFile_toList, if_neg hinit, if_pos hplaylist] at h
    cases h

theorem handleHlsResource_entryFile_plain {first second : String} (h : parseHlsId first = none) :
    handleHlsResource server first second (entryFile track i) query =
      getSegment server first (fileIdxOf second) (entryFile track i) := by
  have hplaylist : ¬ ".m3u8".toList <:+ segmentName track i :=
    not_suffix_segmentName (by decide) (by decide)
  rw [handleHlsResource, h, entryFile_toList]
  exact if_neg hplaylist

theorem handleHlsResource_entryFile_id {first second : String}
    (h : parseHlsId first = some (infoHash, fileIdx)) (hi : i < 2 ^ 64) :
    handleHlsResource server first second (entryFile none i) query =
      getSegment server infoHash fileIdx (entryFile none i) := by
  rw [handleHlsResource, h]
  dsimp only
  rw [if_neg (entryFile_ne (by decide)), hlsV2SegmentAlias_entryFile_none hi]

/-- Under the id of a converter the segments of an audio track are not served. -/
theorem handleHlsResource_entryFile_audio {first second hash : String} {k idx j : ℕ}
    {track' : Option ℕ} (h : parseHlsId first = some (infoHash, fileIdx)) :
    handleHlsResource server first second (entryFile (some k) i) query ≠
      .segment hash idx j track' := by
  have hplaylist : ¬ ".m3u8".toList <:+ segmentName (some k) i :=
    not_suffix_segmentName (by decide) (by decide)
  have hsegment : ¬ "segment".toList <+: segmentName (some k) i :=
    not_begins_segmentName (by decide)
  rw [handleHlsResource, h]
  dsimp only
  rw [if_neg (entryFile_ne (by decide)), hlsV2SegmentAlias_entryFile_some]
  dsimp only
  rw [entryFile_toList, if_neg hsegment, if_neg hplaylist]
  intro heq
  cases heq

theorem legacyHlsResource_entryFile {first second requestedIdx : String}
    (hpair : legacyPair first second = some (infoHash, requestedIdx))
    (hidx : resolveLegacyFileIdx server infoHash requestedIdx = .ok fileIdx) :
    legacyHlsResource server first second (entryFile track i) query =
      getSegment server infoHash fileIdx (entryFile track i) := by
  have hne : ∀ word : String, ¬ ".ts".toList <:+ word.toList → ¬ entryFile track i = word :=
    fun word hword => entryFile_ne hword
  have hsubs : ¬ "subs-".toList <+: segmentName track i := not_begins_segmentName (by decide)
  have hstream : ¬ "mp4stream".toList <+: segmentName track i :=
    not_begins_segmentName (by decide)
  have hplaylist : legacyStreamPlaylist (entryFile track i) = false := by
    rw [legacyStreamPlaylist, decide_eq_false_iff_not, entryFile_toList]
    exact fun h => not_suffix_segmentName (by decide) (by decide) h.1
  rw [legacyHlsResource, hpair]
  dsimp only
  rw [hidx]
  dsimp only
  rw [if_neg (not_or.mpr ⟨hne _ (by decide), hne _ (by decide)⟩), if_neg (hne _ (by decide)),
    if_neg (hne _ (by decide)), if_neg (hne _ (by decide)), hplaylist, entryFile_toList,
    if_neg (by decide), if_neg hsubs, if_neg hstream, if_pos suffix_segmentName]

/-! ### Where an entry is asked for -/

theorem getSegments_eq_nil_iff {duration : ℚ} : getSegments duration = [] ↔ duration ≤ 0 := by
  have hceil : ⌈duration / segmentDuration⌉ ≤ 0 ↔ duration ≤ 0 := by
    rw [Int.ceil_le, Int.cast_zero, segmentDuration]
    constructor
    · intro h
      linarith
    · intro h
      linarith
  rw [getSegments, List.map_eq_nil_iff, List.range_eq_nil, ← hceil]
  omega

theorem respond_of_dispatch {path raw values : List String} {handler : Handler}
    (hdispatch : dispatch buildRouter path = some (handler, raw))
    (hvalues : raw.mapM percentDecode = some values) :
    respond server ⟨path, query⟩ = handle server query handler values := by
  rw [respond, hdispatch]
  dsimp only
  rw [hvalues]

theorem respond_hls {first second first' second' : String} (hfirst : first ≠ "")
    (hsecond : second ≠ "") (hfirst' : percentDecode first = some first')
    (hsecond' : percentDecode second = some second') :
    respond server ⟨["hlsv2", first, second, entryFile track i], query⟩ =
      handleHlsResource server first' second' (entryFile track i) query := by
  have hfits : List.Forall₂ Clue.Fits
      [.known "hlsv2", .unlike [], .unlike [], .unlike ["master.m3u8"]]
      ["hlsv2", first, second, entryFile track i] := by
    refine .cons rfl (.cons List.not_mem_nil (.cons List.not_mem_nil (.cons ?_ .nil)))
    exact fun hmem => entryFile_ne (by decide) (List.mem_singleton.mp hmem)
  have hcaptures : captures [lit "hlsv2", param, param, param]
      ["hlsv2", first, second, entryFile track i] = some [first, second, entryFile track i] :=
    captures_param_cons hfirst (captures_param_cons hsecond
      (captures_param_cons (entryFile_ne (by decide)) rfl))
  have hdispatch : dispatch buildRouter ["hlsv2", first, second, entryFile track i] =
      some (.handleHlsResource, [first, second, entryFile track i]) :=
    dispatch_of_clues hfits (by decide) hcaptures (by decide +kernel)
  exact respond_of_dispatch hdispatch (mapM_of_cons hfirst'
    (mapM_of_cons hsecond' (mapM_of_cons percentDecode_entryFile (mapM_of_nil _))))

/-- The words that a path can begin with. -/
def headWords : List String :=
  buildRouter.filterMap fun route =>
    match route.1 with
    | lit word :: _ => some word
    | _ => none

/-- The words that can stand behind two segments of a path. -/
def thirdWords : List String :=
  buildRouter.filterMap fun route =>
    match route.1 with
    | _ :: _ :: lit word :: _ => some word
    | _ => none

/-- No word in front of a path is the hash of a torrent. -/
theorem headWords_plain : ∀ word ∈ headWords, '%' ∉ word.toList ∧ isInfoHash word = false := by
  decide

theorem notMem_headWords {first first' : String} (h : percentDecode first = some first')
    (hhash : isInfoHash first' = true) : first ∉ headWords := by
  intro hmem
  obtain ⟨hplain, hnot⟩ := headWords_plain first hmem
  rw [percentDecode_plain hplain] at h
  cases h
  rw [hnot] at hhash
  cases hhash

theorem entryFile_notMem_thirdWords : entryFile track i ∉ thirdWords := by
  have hwords : ∀ word ∈ thirdWords, ¬ ".ts".toList <:+ word.toList := by decide
  exact fun hmem => entryFile_ne (hwords _ hmem) rfl

theorem respond_legacy {first second first' second' : String} (hfirst : first ≠ "")
    (hsecond : second ≠ "") (hfirst' : percentDecode first = some first')
    (hsecond' : percentDecode second = some second') (hhash : isInfoHash first' = true) :
    respond server ⟨[first, second, entryFile track i], query⟩ =
      legacyHlsResource server first' second' (entryFile track i) query := by
  have hfits : List.Forall₂ Clue.Fits [.unlike headWords, .unlike [], .unlike thirdWords]
      [first, second, entryFile track i] :=
    .cons (notMem_headWords hfirst' hhash) (.cons List.not_mem_nil
      (.cons entryFile_notMem_thirdWords .nil))
  have hcaptures : captures [param, param, param] [first, second, entryFile track i] =
      some [first, second, entryFile track i] :=
    captures_param_cons hfirst (captures_param_cons hsecond
      (captures_param_cons (entryFile_ne (by decide)) rfl))
  have hdispatch : dispatch buildRouter [first, second, entryFile track i] =
      some (.legacyHlsResource, [first, second, entryFile track i]) :=
    dispatch_of_clues hfits (by decide) hcaptures (by decide +kernel)
  exact respond_of_dispatch hdispatch (mapM_of_cons hfirst'
    (mapM_of_cons hsecond' (mapM_of_cons percentDecode_entryFile (mapM_of_nil _))))

/-- **Closer to the root** no segment is served under its name. -/
theorem not_segment_of_short {front : List String} {hash : String} {idx j : ℕ} {track' : Option ℕ}
    (hfront : front = [] ∨ (∃ segment, front = [segment]) ∨ ∃ segment, front = ["hlsv2", segment]) :
    respond server ⟨front ++ [entryFile track i], query⟩ ≠ .segment hash idx j track' := by
  intro h
  have hlength : (front ++ [entryFile track i]).length ≤ 3 := by
    rcases hfront with rfl | ⟨segment, rfl⟩ | ⟨segment, rfl⟩ <;> simp
  obtain ⟨handler, raw, values, hdispatch, hvalues, hhandle⟩ :=
    respond_cases h (fun _ _ heq => by cases heq)
  unfold handle at hhandle
  split at hhandle
  · have hpath := length_of_captures (by decide) (captures_of_dispatch hdispatch rfl)
    exact absurd (hpath ▸ hlength) (by decide)
  · have hpath := length_of_captures (by decide) (captures_of_dispatch hdispatch rfl)
    exact absurd (hpath ▸ hlength) (by decide)
  · next id' name' =>
    -- the converter's route: two segments and the entry
    obtain ⟨path₁, hpath, hcaptures⟩ := captures_lit (captures_of_dispatch hdispatch rfl)
    obtain ⟨id, path₂, values₂, rfl, rfl, -, hcaptures⟩ := captures_param hcaptures
    obtain ⟨name, path₃, values₃, rfl, rfl, -, hcaptures⟩ := captures_param hcaptures
    obtain ⟨rfl, rfl⟩ := captures_nil hcaptures
    have hname : name = entryFile track i := by
      have hlast := congrArg List.getLast? hpath
      simpa using hlast.symm
    obtain ⟨_, _, -, hvalues, heq⟩ := mapM_cons_eq_some hvalues
    cases heq
    obtain ⟨_, _, hname', -, heq⟩ := mapM_cons_eq_some hvalues
    cases heq
    rw [hname, percentDecode_entryFile] at hname'
    cases hname'
    exact hlsV2Resource_entryFile hhandle
  · next first' second' name' =>
    -- the old route: what comes first is no hash
    have hcaptures := captures_of_dispatch hdispatch rfl
    obtain ⟨first, path₂, values₂, hpath, rfl, -, hcaptures⟩ := captures_param hcaptures
    obtain ⟨second, path₃, values₃, rfl, rfl, -, hcaptures⟩ := captures_param hcaptures
    obtain ⟨name, path₄, values₄, rfl, rfl, -, hcaptures⟩ := captures_param hcaptures
    obtain ⟨rfl, rfl⟩ := captures_nil hcaptures
    obtain ⟨_, _, hfirst', -, heq⟩ := mapM_cons_eq_some hvalues
    cases heq
    have hfirst : first = "hlsv2" := by
      rcases hfront with rfl | ⟨segment, rfl⟩ | ⟨segment, rfl⟩
      · simp at hpath
      · simp at hpath
      · exact (List.cons.inj hpath).1.symm
    have hplain : percentDecode "hlsv2" = some "hlsv2" := percentDecode_plain (by decide)
    rw [hfirst, hplain] at hfirst'
    cases hfirst'
    have hpair : legacyPair "hlsv2" second' = none := if_neg fun h => absurd h.1 (by decide)
    rw [legacyHlsResource, hpair] at hhandle
    cases hhandle
  · have hpath := length_of_captures (by decide) (captures_of_dispatch hdispatch rfl)
    exact absurd (hpath ▸ hlength) (by decide)
  · cases hhandle

/-! ### Playlists whose entries are served -/

/-- Each entry of a playlist leads to its segment. -/
def Leads (server : Server) (target : Target) (infoHash : String) (fileIdx : ℕ)
    (track : Option ℕ) (playlist : List Char) : Prop :=
  ∀ i uri, (uriLines playlist)[i]? = some uri →
    ∃ next, resolve target (String.ofList uri) = some next ∧
      respond server next = .segment infoHash fileIdx i track

/-- The query of the entries. -/
def entryQuery (query : Option Query) : Query := query.getD ⟨"", by decide⟩

theorem entryQuery_toList (query : Option Query) :
    (query.map fun q => q.1.toList).getD [] = (entryQuery query).1.toList := by
  cases query with
  | none => rfl
  | some q => rfl

/-- Each of so many entries beside a path leads to its segment. -/
def EntriesLead (server : Server) (target : Target) (infoHash : String) (fileIdx : ℕ)
    (track : Option ℕ) (count : ℕ) : Prop :=
  ∀ i < count, respond server ⟨walk target.path.dropLast ++ [entryFile track i],
    some (entryQuery target.query)⟩ = .segment infoHash fileIdx i track

/-- The entries beside a path are served: under the old form, and where neither the torrent nor the
file in the path is a dot segment, unless the torrent is the id of a converter and the playlist is that
of an audio track. -/
def ServesEntries (target : Target) : Prop :=
  target.path.head? ≠ some "hlsv2" ∨
    ∃ first second name, target.path = ["hlsv2", first, second, name] ∧
      (first ≠ "." ∧ first ≠ "..") ∧ (second ≠ "." ∧ second ≠ "..") ∧
      ((percentDecode first).bind parseHlsId = none ∨ (percentDecode name).bind audioTrackOf = none)

theorem resolve_segmentUri (track : Option ℕ) (query : Query) (i : ℕ) :
    resolve target (String.ofList (segmentUri track query i)) =
      some ⟨walk target.path.dropLast ++ [entryFile track i], some query⟩ := by
  refine resolve_file target (fun c hc => ?_) (entryFile_ne (by decide)) (entryFile_ne (by decide))
    query
  exact ⟨ne_of_mem_segmentName hc (by decide), ne_of_mem_segmentName hc (by decide),
    ne_of_mem_segmentName hc (by decide)⟩

theorem leads_iff_entries {probe : ProbeResult} :
    Leads server target infoHash fileIdx track
        (getStreamPlaylist probe "./".toList track
          ((target.query.map fun q => q.1.toList).getD [])) ↔
      EntriesLead server target infoHash fileIdx track (getSegments probe.duration).length := by
  rw [entryQuery_toList, Leads, uriLines_getStreamPlaylist]
  constructor
  · intro h i hi
    obtain ⟨next, hnext, hsegment⟩ := h i (segmentUri track (entryQuery target.query) i)
      (by rw [List.getElem?_map, List.getElem?_range hi, Option.map_some])
    rw [resolve_segmentUri] at hnext
    cases hnext
    exact hsegment
  · intro h i uri huri
    rw [List.getElem?_map, Option.map_eq_some_iff] at huri
    obtain ⟨j, hj, rfl⟩ := huri
    obtain ⟨hi, rfl⟩ := List.getElem?_eq_some_iff.mp hj
    rw [List.getElem_range, resolve_segmentUri]
    exact ⟨_, rfl, h i (by simpa using hi)⟩

/-- Dot segments lead closer to the root. -/
theorem walk_dots {first second : String}
    (h : ¬((first ≠ "." ∧ first ≠ "..") ∧ second ≠ "." ∧ second ≠ "..")) :
    walk ["hlsv2", first, second] = [] ∨
      (∃ segment, walk ["hlsv2", first, second] = [segment]) ∨
      ∃ segment, walk ["hlsv2", first, second] = ["hlsv2", segment] := by
  have hroot : enter [] "hlsv2" = ["hlsv2"] := rfl
  rw [walk, List.foldl_cons, List.foldl_cons, List.foldl_cons, List.foldl_nil, hroot]
  unfold enter
  split_ifs <;> simp_all

/-- The old form has no dot segments. -/
theorem legacyPair_plain {first second first' second' requestedIdx : String}
    (h : legacyPair first' second' = some (infoHash, requestedIdx))
    (hfirst : percentDecode first = some first') (hsecond : percentDecode second = some second') :
    isInfoHash first' = true ∧ ∀ segment ∈ [first, second], segment ≠ "." ∧ segment ≠ ".." := by
  rw [legacyPair] at h
  split at h
  · next hboth =>
    obtain ⟨hhash, hindex⟩ := hboth
    have hdots : ∀ dots ∈ [".", ".."], percentDecode dots = some dots ∧ isInfoHash dots = false ∧
        ¬(dots = "-1" ∨ (parseUsize dots.toList).isSome) := by
      intro dots hdots
      refine ⟨percentDecode_plain ?_, ?_⟩
      · revert dots
        decide
      · revert dots
        decide
    have hne : ∀ dots ∈ [".", ".."], first ≠ dots ∧ second ≠ dots := by
      intro dots hmem
      obtain ⟨hdecode, hnot, hno⟩ := hdots dots hmem
      constructor
      · intro heq
        rw [heq, hdecode] at hfirst
        cases hfirst
        rw [hnot] at hhash
        cases hhash
      · intro heq
        rw [heq, hdecode] at hsecond
        cases hsecond
        exact hno hindex
    refine ⟨hhash, fun segment hsegment => ?_⟩
    rcases List.mem_pair.mp hsegment with rfl | rfl
    · exact ⟨(hne "." (by decide)).1, (hne ".." (by decide)).1⟩
    · exact ⟨(hne "." (by decide)).2, (hne ".." (by decide)).2⟩
  · cases h

theorem walk_short (segment : String) :
    walk ["hlsv2", segment] = [] ∨ (∃ segment', walk ["hlsv2", segment] = [segment']) ∨
      ∃ segment', walk ["hlsv2", segment] = ["hlsv2", segment'] := by
  have hroot : enter [] "hlsv2" = ["hlsv2"] := rfl
  rw [walk, List.foldl_cons, List.foldl_cons, List.foldl_nil, hroot]
  unfold enter
  split_ifs <;> simp_all

section Forms

variable {count : ℕ} (hpos : 0 < count)

include hpos

/-- With the id of a converter in front of its name, a playlist names nothing that is served. -/
theorem entriesLead_converter {id name : String} (hpath : target.path = ["hlsv2", id, name]) :
    EntriesLead server target infoHash fileIdx track count ↔ ServesEntries target := by
  refine iff_of_false (fun hall => ?_) (fun hserves => ?_)
  · refine not_segment_of_short ?_ (hall 0 hpos)
    rw [hpath]
    exact walk_short id
  · rcases hserves with hhead | ⟨first, second, name', hpath', -⟩
    · exact hhead (by rw [hpath]; rfl)
    · rw [hpath] at hpath'
      cases hpath'

/-- Dot segments lead away from the route of the playlist. -/
theorem entriesLead_dots {first second name : String}
    (hpath : target.path = ["hlsv2", first, second, name])
    (hdots : ¬((first ≠ "." ∧ first ≠ "..") ∧ second ≠ "." ∧ second ≠ "..")) :
    EntriesLead server target infoHash fileIdx track count ↔ ServesEntries target := by
  refine iff_of_false (fun hall => ?_) (fun hserves => ?_)
  · refine not_segment_of_short ?_ (hall 0 hpos)
    rw [hpath]
    exact walk_dots hdots
  · rcases hserves with hhead | ⟨f, s, n, hpath', hf, hs, -⟩
    · exact hhead (by rw [hpath]; rfl)
    · rw [hpath] at hpath'
      cases hpath'
      exact hdots ⟨hf, hs⟩

/-- The form with the torrent and the file: what the converter's id leaves out is the audio. -/
theorem entriesLead_hls {first second name first' second' name' : String}
    (hpath : target.path = ["hlsv2", first, second, name]) (hfirst : first ≠ "")
    (hsecond : second ≠ "") (hfirst' : percentDecode first = some first')
    (hsecond' : percentDecode second = some second') (hname' : percentDecode name = some name')
    (htrack : track = audioTrackOf name')
    (hid : parseHlsId first' = some (infoHash, fileIdx) ∨
      parseHlsId first' = none ∧ infoHash = first' ∧ fileIdx = fileIdxOf second')
    (hdots : (first ≠ "." ∧ first ≠ "..") ∧ second ≠ "." ∧ second ≠ "..")
    (hcount : ∀ i < count, i < 2 ^ 64)
    (hserved : ∀ i < count, getSegment server infoHash fileIdx (entryFile track i) =
      .segment infoHash fileIdx i track) :
    EntriesLead server target infoHash fileIdx track count ↔ ServesEntries target := by
  -- the directory of the playlist has no dots, so the reference is resolved next to it
  have hwalk : walk target.path.dropLast = ["hlsv2", first, second] := by
    rw [hpath]
    refine walk_of_plain fun segment hsegment => ?_
    simp only [List.dropLast_cons_cons, List.dropLast_singleton, List.mem_cons, List.not_mem_nil,
      or_false] at hsegment
    rcases hsegment with rfl | rfl | rfl
    · decide
    · exact hdots.1
    · exact hdots.2
  have hrespond : ∀ i, respond server ⟨walk target.path.dropLast ++ [entryFile track i],
      some (entryQuery target.query)⟩ =
      handleHlsResource server first' second' (entryFile track i)
        (some (entryQuery target.query)) := by
    intro i
    rw [hwalk]
    exact respond_hls hfirst hsecond hfirst' hsecond'
  have hserves : ServesEntries target ↔ (parseHlsId first' = none ∨ audioTrackOf name' = none) := by
    constructor
    · intro hserves
      rcases hserves with hhead | ⟨f, s, n, hpath', -, -, hor⟩
      · exact absurd (by rw [hpath]; rfl) hhead
      · rw [hpath] at hpath'
        cases hpath'
        rw [hfirst', hname'] at hor
        exact hor
    · intro hor
      refine Or.inr ⟨first, second, name, hpath, hdots.1, hdots.2, ?_⟩
      rw [hfirst', hname']
      exact hor
  rw [hserves]
  -- an id of the converter leaves out the audio track, the entries of a plain hash name it
  rcases hid with hid | ⟨hid, rfl, rfl⟩
  · cases track with
    | none =>
      refine iff_of_true (fun i hi => ?_) (Or.inr htrack.symm)
      rw [hrespond, handleHlsResource_entryFile_id hid (hcount i hi), hserved i hi]
    | some k =>
      refine iff_of_false (fun hall => ?_) (fun hor => ?_)
      · have hentry := hall 0 hpos
        rw [hrespond] at hentry
        exact handleHlsResource_entryFile_audio hid hentry
      · rw [hid, ← htrack] at hor
        rcases hor with hor | hor
        · cases hor
        · cases hor
  · refine iff_of_true (fun i hi => ?_) (Or.inl hid)
    rw [hrespond, handleHlsResource_entryFile_plain hid, hserved i hi]

omit hpos

/-- Under the old form the entries are served. -/
theorem entriesLead_legacy {first second name first' second' requestedIdx : String}
    (hpath : target.path = [first, second, name]) (hfirst : first ≠ "") (hsecond : second ≠ "")
    (hfirst' : percentDecode first = some first') (hsecond' : percentDecode second = some second')
    (hpair : legacyPair first' second' = some (infoHash, requestedIdx))
    (hidx : resolveLegacyFileIdx server infoHash requestedIdx = .ok fileIdx)
    (hserved : ∀ i < count, getSegment server infoHash fileIdx (entryFile track i) =
      .segment infoHash fileIdx i track) :
    EntriesLead server target infoHash fileIdx track count ↔ ServesEntries target := by
  obtain ⟨hhash, hplain⟩ := legacyPair_plain hpair hfirst' hsecond'
  have hwalk : walk target.path.dropLast = [first, second] := by
    rw [hpath]
    exact walk_of_plain hplain
  refine iff_of_true (fun i hi => ?_) (Or.inl ?_)
  · rw [hwalk, ← hserved i hi, ← legacyHlsResource_entryFile hpair hidx]
    exact respond_legacy hfirst hsecond hfirst' hsecond' hhash
  · rw [hpath]
    intro hhead
    cases hhead
    exact notMem_headWords hfirst' hhash (by decide)

end Forms

/-- **The entries of a playlist lead to their segments exactly where they are served**, or if there
are none. -/
theorem leads_iff
    (h : respond server target = .streamPlaylist infoHash fileIdx track playlist) :
    Leads server target infoHash fileIdx track playlist ↔
      (∀ probe, server.probe infoHash fileIdx = .ok probe → probe.duration ≤ 0) ∨
        ServesEntries target := by
  obtain ⟨⟨name, hplaylist⟩, hforms⟩ := playlist_forms h
  obtain ⟨-, -, htrack, files, probe, hfiles, hprobe, rfl⟩ := streamPlaylist_eq hplaylist
  have hbound : ∀ k ∈ track, k < 2 ^ 64 := by
    intro k hk
    rw [htrack, audioTrackOf] at hk
    split at hk
    · exact Decimal.lt_of_parse hk
    · cases hk
  have hcount : ∀ i < (getSegments probe.duration).length, i < 2 ^ 64 := by
    intro i hi
    rw [getSegments, List.length_map, List.length_range] at hi
    omega
  have hnone : (∀ probe', server.probe infoHash fileIdx = .ok probe' → probe'.duration ≤ 0) ↔
      (getSegments probe.duration).length = 0 := by
    rw [List.length_eq_zero_iff, getSegments_eq_nil_iff, hprobe]
    constructor
    · exact fun hall => hall probe rfl
    · intro hduration probe' heq
      cases heq
      exact hduration
  have hserved : ∀ i < (getSegments probe.duration).length,
      getSegment server infoHash fileIdx (entryFile track i) = .segment infoHash fileIdx i track :=
    fun i hi => getSegment_entryFile hfiles hprobe hbound hi
  rw [leads_iff_entries, hnone]
  -- a playlist without entries leads wherever it is asked for
  by_cases hzero : (getSegments probe.duration).length = 0
  · exact iff_of_true (fun i hi => absurd hi (by omega)) (Or.inl hzero)
  · have hpos := Nat.pos_of_ne_zero hzero
    rw [or_iff_right hzero]
    rcases hforms with ⟨id, name, hpath⟩ |
      ⟨first, second, name, first', second', name', hpath, hfirst, hsecond, hfirst', hsecond',
        hname', htrack', hid⟩ |
      ⟨first, second, name, first', second', requestedIdx, hpath, hfirst, hsecond, hfirst',
        hsecond', rfl, hpair, hidx⟩
    · exact entriesLead_converter hpos hpath
    · by_cases hdots : (first ≠ "." ∧ first ≠ "..") ∧ second ≠ "." ∧ second ≠ ".."
      · exact entriesLead_hls hpos hpath hfirst hsecond hfirst' hsecond' hname' htrack' hid hdots
          hcount hserved
      · exact entriesLead_dots hpos hpath hdots
    · exact entriesLead_legacy hpath hfirst hsecond hfirst' hsecond' hpair hidx hserved

/-! ### Examples -/

/-- A server with one torrent, whose files last six seconds. -/
def sampleServer : Server := ⟨fun _ => .ok [], fun _ _ => .ok ⟨6⟩⟩

/-- A hash of forty digits. -/
def sampleHash : String := "0123456789abcdef0123456789abcdef01234567"

/-- A playlist of an audio track, under the hash of a torrent. -/
def audioTarget : Target := ⟨["hlsv2", sampleHash, "1", "audio-2.m3u8"], none⟩

/-- A playlist of the video, under the id of a converter. -/
def converterTarget : Target := ⟨["hlsv2", sampleHash ++ "-1", "stream-0.m3u8"], none⟩

theorem audioTarget_playlist : respond sampleServer audioTarget =
    .streamPlaylist sampleHash 1 (some 2) (getStreamPlaylist ⟨6⟩ "./".toList (some 2) []) := by
  have hdispatch : dispatch buildRouter ["hlsv2", sampleHash, "1", "audio-2.m3u8"] =
      some (.handleHlsResource, [sampleHash, "1", "audio-2.m3u8"]) := by
    decide
  have hplain : ∀ text ∈ [sampleHash, "1", "audio-2.m3u8"], percentDecode text = some text := by
    intro text htext
    refine percentDecode_plain ?_
    revert text
    decide
  have hid : parseHlsId sampleHash = none := by
    rw [parseHlsId, hplain _ (by simp)]
    decide
  rw [audioTarget, respond_of_dispatch hdispatch (mapM_of_cons (hplain _ (by simp))
    (mapM_of_cons (hplain _ (by simp)) (mapM_of_cons (hplain _ (by simp)) (mapM_of_nil _))))]
  rw [handle, handleHlsResource, hid]
  rfl

theorem converterTarget_playlist : respond sampleServer converterTarget =
    .streamPlaylist sampleHash 1 none (getStreamPlaylist ⟨6⟩ "./".toList none []) := by
  have hdispatch : dispatch buildRouter ["hlsv2", sampleHash ++ "-1", "stream-0.m3u8"] =
      some (.hlsV2Resource, [sampleHash ++ "-1", "stream-0.m3u8"]) := by
    decide
  have hplain : ∀ text ∈ [sampleHash ++ "-1", "stream-0.m3u8"], percentDecode text = some text := by
    intro text htext
    refine percentDecode_plain ?_
    revert text
    decide
  have hid : parseHlsId (sampleHash ++ "-1") = some (sampleHash, 1) := by
    rw [parseHlsId, hplain _ (by simp)]
    decide
  rw [converterTarget, respond_of_dispatch hdispatch (mapM_of_cons (hplain _ (by simp))
    (mapM_of_cons (hplain _ (by simp)) (mapM_of_nil _)))]
  rw [handle, hlsV2Resource, hid]
  rfl

theorem leads_iff_audio :
    Leads sampleServer audioTarget sampleHash 1 (some 2)
        (getStreamPlaylist ⟨6⟩ "./".toList (some 2) []) ↔
      (∀ probe, sampleServer.probe sampleHash 1 = .ok probe → probe.duration ≤ 0) ∨
        ServesEntries audioTarget :=
  leads_iff audioTarget_playlist

/-- A player that loads this playlist never gets a segment. -/
theorem converter_not_leads : respond sampleServer converterTarget =
      .streamPlaylist sampleHash 1 none (getStreamPlaylist ⟨6⟩ "./".toList none []) ∧
    ¬ Leads sampleServer converterTarget sampleHash 1 none
      (getStreamPlaylist ⟨6⟩ "./".toList none []) := by
  refine ⟨converterTarget_playlist, fun hleads => ?_⟩
  have hentries := leads_iff_entries.mp hleads
  have hpos : 0 < (getSegments 6).length := by
    rw [List.length_pos_iff, ne_eq, getSegments_eq_nil_iff]
    norm_num
  exact not_segment_of_short (walk_short _) (hentries 0 hpos)

end StreamServer.Routes

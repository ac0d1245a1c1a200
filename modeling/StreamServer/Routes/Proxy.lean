import Mathlib.Algebra.Ring.Nat
import StreamServer.Lib.Decimal
import StreamServer.Lib.Occurrence
import StreamServer.Lib.Text
import StreamServer.Lib.Uri
import StreamServer.Routes.Router

/-!
# The proxy

The proxy fetches a URL for a client.  Of a playlist it rewrites the URIs, so that the client fetches
what they stand for through the proxy, too.

## Main definitions

* `UrlLibrary` — what the proxy uses of URLs.
* `proxyRequest` — what the proxy asks for on behalf of a client.
* `rewritePlaylist` — how a playlist is rewritten.
* `responseHeaders` — the headers of an answer.
* `ClosedUnderProxy` — what a rewritten playlist names is fetched through the proxy, with the length and
  the headers of the answer.

## Main results

* `closed_iff` — **a rewritten playlist is closed under the proxy exactly if it has no URIs** and its
  length is the one that is announced.

## References

`server/src/routes/proxy.rs`.
-/

namespace StreamServer.Routes

open Router Uri

/-! ### Requests -/

/-- What the proxy uses of URLs and of queries. -/
structure UrlLibrary where
  Url : Type
  parse : String → Option Url
  join : Url → String → Option Url
  toString : Url → String
  setQuery : Url → Query → Url
  /-- The pairs in a query. -/
  pairs : String → List (String × String)

variable (lib : UrlLibrary)

/-- Headers by name; what is put in later counts. -/
abbrev Headers := List (String × String)

/-- `insert`, which replaces what the name had. -/
def Headers.insert (headers : Headers) (name value : String) : Headers :=
  headers.filter (fun header => header.1 ≠ name) ++ [(name, value)]

/-- What stands in the first segment of a path: a target, and headers. -/
structure PathQuery where
  targetUrl : String := ""
  customHeaders : Headers := []
  customResponseHeaders : Headers := []

/-- A header `Name:Value`. -/
def parseHeader (value : String) : Option (String × String) :=
  match value.toList.span (· ≠ ':') with
  | (name, _ :: value) => some (String.ofList name.trim, String.ofList value.trim)
  | (_, []) => none

/-- What a parameter of the query adds. -/
def PathQuery.read (query : PathQuery) (pair : String × String) : PathQuery :=
  if pair.1 = "d" then { query with targetUrl := pair.2 }
  else if pair.1 = "h" then
    match parseHeader pair.2 with
    | some (name, value) =>
        { query with customHeaders := query.customHeaders.insert name value }
    | none => query
  else if pair.1 = "r" then
    match parseHeader pair.2 with
    | some (name, value) =>
        { query with customResponseHeaders := query.customResponseHeaders.insert name value }
    | none => query
  else query

/-- The target with the rest of the path behind it. -/
def pathTarget (targetUrl rest pathSeg : String) : String :=
  if targetUrl = "" then rest
  else if pathSeg = "" then targetUrl
  else if targetUrl.toList.getLast? = some '/' then targetUrl ++ pathSeg
  else targetUrl ++ "/" ++ pathSeg

/-- What the proxy asks for: the URL, the headers of the client for the request, and those for the
answer. -/
structure Outgoing where
  url : lib.Url
  customHeaders : Headers
  customResponseHeaders : Headers

/-- What `proxy_handler` asks for. -/
def proxyRequest (rest : String) (query : Option Query) : Option (Outgoing lib) :=
  let params := (query.map fun q => lib.pairs q.1).getD []
  match (params.reverse.lookup "d") with
  | some targetUrl => (lib.parse targetUrl).map ({ url := ·, customHeaders := [], customResponseHeaders := [] })
  | none =>
      let (querySeg, pathSeg) :=
        match rest.toList.span (· ≠ '/') with
        | (before, _ :: after) => (String.ofList before, String.ofList after)
        | (_, []) => (rest, "")
      let read := (lib.pairs querySeg).foldl PathQuery.read {}
      (lib.parse (pathTarget read.targetUrl rest pathSeg)).map fun url =>
        { url := (query.map (lib.setQuery url)).getD url, customHeaders := read.customHeaders,
          customResponseHeaders := read.customResponseHeaders }

/-- What the proxy asks for when the server gets a request, if the request is one for the proxy. -/
def proxied (target : Target) : Option (Outgoing lib) :=
  match dispatch buildRouter target.path with
  | some (.proxyHandler, [rest]) =>
      (percentDecode rest).bind fun rest => proxyRequest lib rest target.query
  | _ => none

/-! ### Playlists -/

/-- The length of a text in bytes. -/
def byteLength (text : List Char) : ℕ := (utf8 (String.ofList text)).length

variable {lib}

/-- What a URI stands for, as it is written into the playlist. -/
def absoluteUri (baseUrl : lib.Url) (uri : List Char) : String :=
  if (uri.occurrence? "://".toList).isSome then String.ofList uri
  else ((lib.join baseUrl (String.ofList uri)).map lib.toString).getD (String.ofList uri)

/-- The address of the proxy for a URI of the playlist. -/
def proxyUri (baseUrl : lib.Url) (uri : List Char) : List Char :=
  "/proxy/?d=".toList ++ percentEncode (absoluteUri baseUrl uri)

/-- The first URI in the attributes of a line, between what stands in front of it and behind it. -/
def attribute? (line : List Char) : Option (List Char × List Char × List Char) :=
  match line.occurrence? "URI=\"".toList with
  | some start =>
      let rest := line.drop (start + 5)
      (rest.idxOf? '"').map fun stop => (line.take (start + 5), rest.take stop, rest.drop stop)
  | none => none

/-- A line of the playlist, with its URI behind the proxy. -/
def rewriteLine (baseUrl : lib.Url) (line : List Char) : List Char :=
  if line = [] then []
  else if "#".toList <+: line then
    match attribute? line with
    | some (before, uri, after) => before ++ proxyUri baseUrl uri ++ after
    | none => line
  else proxyUri baseUrl line

/-- `rewrite_playlist`. -/
def rewritePlaylist (body : List Char) (baseUrl : lib.Url) : List Char :=
  body.textLines.flatMap fun line => rewriteLine baseUrl line ++ ['\n']

/-! ### Answers -/

/-- The headers of the answer that are handed on. -/
def allowedResHeaders : List String :=
  ["accept-ranges", "content-type", "content-length", "content-range", "connection",
    "transfer-encoding", "last-modified", "etag", "server", "date"]

/-- The headers of an answer: some of those that the proxy got, those that the client asked for, and
those for other origins. -/
def responseHeaders (resHeaders customResponseHeaders : Headers) : Headers :=
  allowedResHeaders.filterMap (fun name => (resHeaders.lookup name).map (name, ·)) ++
    customResponseHeaders ++
    [("access-control-allow-origin", "*"), ("access-control-allow-methods", "GET, POST, OPTIONS"),
      ("access-control-allow-headers", "*")]

/-- The lengths that an answer announces. -/
def contentLengths (headers : Headers) : List String :=
  (headers.filter fun header => header.1.eqIgnoreAsciiCase "content-length").map (·.2)

/-! ### What a client finds in a playlist -/

/-- The URIs in the attributes of a line. -/
def attributeUris : ℕ → List Char → List (List Char)
  | 0, _ => []
  | n + 1, line =>
      match attribute? line with
      | some (_, uri, after) => uri :: attributeUris n after.tail
      | none => []

/-- The URIs of a line: those in the attributes of a tag, or the line. -/
def lineUris (line : List Char) : List (List Char) :=
  if line = [] then []
  else if "#".toList <+: line then attributeUris line.length line
  else [line]

/-- The request for a reference, from the root of the server. -/
def fetched (lib : UrlLibrary) (reference : List Char) : Option (Outgoing lib) :=
  (resolve ⟨[""], none⟩ (String.ofList reference)).bind (proxied lib)

/-- What a rewritten playlist names is fetched through the proxy: for each URI the URL that it stands
for, with the headers that the client asked for; lines without a URI stay, and the length that is
announced is that of the playlist. -/
structure ClosedUnderProxy (baseUrl : lib.Url) (customHeaders headers : Headers)
    (body : List Char) : Prop where
  fetches : ∀ line ∈ body.textLines, List.Forall₂ (fun uri uri' => ∃ request,
    fetched lib uri' = some request ∧ lib.join baseUrl (String.ofList uri) = some request.url ∧
      request.customHeaders = customHeaders) (lineUris line) (lineUris (rewriteLine baseUrl line))
  unchanged : ∀ line ∈ body.textLines, lineUris line = [] → rewriteLine baseUrl line = line
  length : ∀ value ∈ contentLengths headers,
    Decimal.parse (2 ^ 64) value.toList = some (byteLength (rewritePlaylist body baseUrl))

/-! ### What becomes of a URI -/

variable {baseUrl : lib.Url} {line uri : List Char}

/-- The query of a rewritten URI. -/
def proxyQuery (baseUrl : lib.Url) (uri : List Char) : Query :=
  ⟨String.ofList ("d=".toList ++ percentEncode (absoluteUri baseUrl uri)), by
    have hstart : ∀ c ∈ "d=".toList, isQueryChar c = true := by decide
    intro c hc
    rw [String.toList_ofList] at hc
    rcases List.mem_append.mp hc with hc | hc
    · exact hstart c hc
    · exact (mem_percentEncode hc).1⟩

/-- The path of a rewritten URI. -/
def proxyPath : List Char := ['p', 'r', 'o', 'x', 'y', '/']

theorem proxyUri_eq (baseUrl : lib.Url) (uri : List Char) :
    proxyUri baseUrl uri = '/' :: proxyPath ++ '?' :: (proxyQuery baseUrl uri).1.toList := by
  have hstart : "/proxy/?d=".toList = '/' :: proxyPath ++ '?' :: "d=".toList := by decide
  have hquery : (proxyQuery baseUrl uri).1.toList =
      "d=".toList ++ percentEncode (absoluteUri baseUrl uri) := by
    rw [proxyQuery, String.toList_ofList]
  calc proxyUri baseUrl uri
      = ('/' :: proxyPath ++ '?' :: "d=".toList) ++ percentEncode (absoluteUri baseUrl uri) :=
        congrArg (· ++ percentEncode (absoluteUri baseUrl uri)) hstart
    _ = '/' :: proxyPath ++ '?' :: ("d=".toList ++ percentEncode (absoluteUri baseUrl uri)) := by
        simp only [List.append_assoc, List.cons_append]
    _ = '/' :: proxyPath ++ '?' :: (proxyQuery baseUrl uri).1.toList := by rw [hquery]

theorem segments_proxyPath : removeDots (segments proxyPath) = ["proxy", ""] := by decide

/-- The proxy wants something behind its path. -/
theorem dispatch_proxyPath : dispatch buildRouter ["proxy", ""] = none := by decide

/-- **A rewritten URI leads nowhere.** -/
theorem fetched_proxyUri (baseUrl : lib.Url) (uri : List Char) :
    fetched lib (proxyUri baseUrl uri) = none := by
  have hpath : ∀ c ∈ proxyPath, c ≠ '?' ∧ c ≠ '#' := by decide
  have hhead : proxyPath.head? ≠ some '/' := by decide
  have hroot := resolve_root ⟨[""], none⟩ hpath hhead (proxyQuery baseUrl uri)
  rw [segments_proxyPath] at hroot
  rw [fetched, proxyUri_eq, hroot, Option.bind_some, proxied, dispatch_proxyPath]

theorem lineUris_proxyUri (baseUrl : lib.Url) (uri : List Char) :
    lineUris (proxyUri baseUrl uri) = [proxyUri baseUrl uri] := by
  have hne : proxyUri baseUrl uri ≠ [] := by
    rw [proxyUri_eq]
    exact List.cons_ne_nil _ _
  have htag : ¬ "#".toList <+: proxyUri baseUrl uri := by
    rw [proxyUri_eq]
    intro h
    obtain ⟨rest, hrest⟩ := h
    cases hrest
  rw [lineUris, if_neg hne, if_neg htag]

/-- There is no quotation mark in a rewritten URI. -/
theorem quote_notMem_proxyUri (baseUrl : lib.Url) (uri : List Char) :
    '"' ∉ proxyUri baseUrl uri := by
  intro hmem
  rcases List.mem_append.mp hmem with hmem | hmem
  · exact absurd hmem (by decide)
  · exact (mem_percentEncode hmem).2 rfl

theorem attribute?_eq {before after : List Char} (h : attribute? line = some (before, uri, after)) :
    ∃ start, line.occurrence? "URI=\"".toList = some start ∧ before = line.take (start + 5) ∧
      start + 5 ≤ line.length ∧ after.head? = some '"' := by
  rw [attribute?] at h
  split at h
  · next start hstart =>
    obtain ⟨stop, hstop, heq⟩ := Option.map_eq_some_iff.mp h
    cases heq
    obtain ⟨hlt, hquote, -⟩ := List.idxOf?_eq_some_iff.mp hstop
    have hlength := (List.occurrence?_eq_some_iff.mp hstart).2.1.length_le
    have hpattern : "URI=\"".toList.length = 5 := by decide
    rw [hpattern, List.length_drop] at hlength
    refine ⟨start, hstart, rfl, by omega, ?_⟩
    rw [List.head?_drop, List.getElem?_eq_getElem hlt, hquote]
  · cases h

/-- **A rewritten attribute is found where the attribute was.** -/
theorem attribute?_rewritten {before after uri' : List Char}
    (h : attribute? line = some (before, uri, after)) (hquote : '"' ∉ uri') :
    attribute? (before ++ uri' ++ after) = some (before, uri', after) := by
  obtain ⟨start, hstart, hbefore, hlength, hafter⟩ := attribute?_eq h
  have hpattern : "URI=\"".toList.length = 5 := by decide
  have hfound := List.occurrence?_take_append hstart (uri' ++ after)
  rw [hpattern, ← hbefore, ← List.append_assoc] at hfound
  have hbefore_length : before.length = start + 5 := by
    rw [hbefore, List.length_take, Nat.min_eq_left hlength]
  have hdrop : (before ++ uri' ++ after).drop (start + 5) = uri' ++ after := by
    rw [List.append_assoc, ← hbefore_length, List.drop_left]
  have htake : (before ++ uri' ++ after).take (start + 5) = before := by
    rw [List.append_assoc, ← hbefore_length, List.take_left]
  have hstop : (uri' ++ after).idxOf? '"' = some uri'.length := by
    obtain ⟨rest, rfl⟩ : ∃ rest, after = '"' :: rest := List.head?_eq_some_iff.mp hafter
    exact List.idxOf?_append_cons hquote rest
  rw [attribute?, hfound]
  dsimp only
  rw [hdrop, hstop, htake, Option.map_some, List.take_left, List.drop_left]

/-! ### What becomes of a line -/

/-- A line without URIs stays. -/
theorem rewriteLine_eq (h : lineUris line = []) : rewriteLine baseUrl line = line := by
  rw [lineUris] at h
  rw [rewriteLine]
  split at h
  · next hnil => rw [if_pos hnil, hnil]
  · next hne =>
    rw [if_neg hne]
    split at h
    · next htag =>
      rw [if_pos htag]
      obtain ⟨n, hn⟩ := Nat.exists_eq_succ_of_ne_zero (mt List.length_eq_zero_iff.mp hne)
      rw [hn, attributeUris] at h
      split at h
      · cases h
      · rfl
    · cases h

/-- **The first URI of a line is rewritten.** -/
theorem lineUris_rewriteLine (h : lineUris line ≠ []) :
    ∃ uri rest, lineUris (rewriteLine baseUrl line) = proxyUri baseUrl uri :: rest := by
  rw [lineUris] at h
  split at h
  · exact absurd rfl h
  · next hne =>
    rw [rewriteLine, if_neg hne]
    split at h
    · next htag =>
      rw [if_pos htag]
      obtain ⟨n, hn⟩ := Nat.exists_eq_succ_of_ne_zero (mt List.length_eq_zero_iff.mp hne)
      rw [hn, attributeUris] at h
      split at h
      · next before uri after hattribute =>
        have hrewritten := attribute?_rewritten hattribute (quote_notMem_proxyUri baseUrl uri)
        obtain ⟨start, -, hbefore, hlength, -⟩ := attribute?_eq hattribute
        -- the line still begins as it did
        have hhash : "#".toList <+: before := by
          refine List.prefix_of_prefix_length_le htag (hbefore ▸ List.take_prefix _ _) ?_
          rw [hbefore, List.length_take, Nat.min_eq_left hlength]
          exact Nat.succ_le_of_lt (Nat.succ_pos _)
        have htag' : "#".toList <+: before ++ proxyUri baseUrl uri ++ after := by
          rw [List.append_assoc]
          exact hhash.trans (List.prefix_append _ _)
        have hne' : before ++ proxyUri baseUrl uri ++ after ≠ [] := by
          intro hnil
          rw [hnil] at htag'
          exact absurd (List.prefix_nil.mp htag') (by decide)
        obtain ⟨m, hm⟩ := Nat.exists_eq_succ_of_ne_zero (mt List.length_eq_zero_iff.mp hne')
        refine ⟨uri, attributeUris m after.tail, ?_⟩
        rw [lineUris, if_neg hne', if_pos htag', hm, attributeUris, hrewritten]
      · exact absurd rfl h
    · next htag =>
      rw [if_neg htag]
      exact ⟨line, [], lineUris_proxyUri baseUrl line⟩

/-- A line whose URIs are all fetched has none. -/
theorem lineUris_of_fetched {P : List Char → Outgoing lib → Prop}
    (h : List.Forall₂ (fun uri uri' => ∃ request, fetched lib uri' = some request ∧ P uri request)
      (lineUris line) (lineUris (rewriteLine baseUrl line))) : lineUris line = [] := by
  by_contra hne
  obtain ⟨uri, rest, huris⟩ := @lineUris_rewriteLine lib baseUrl line hne
  rw [huris] at h
  obtain ⟨_, _, hfirst, _, _⟩ := List.forall₂_cons_right_iff.mp h
  obtain ⟨request, hfetched, -⟩ := hfirst
  rw [fetched_proxyUri] at hfetched
  cases hfetched

theorem rewritePlaylist_eq {body : List Char} (h : ∀ line ∈ body.textLines, lineUris line = []) :
    rewritePlaylist body baseUrl = body.textLines.flatMap fun line => line ++ ['\n'] := by
  rw [rewritePlaylist]
  refine List.flatMap_congr fun line hline => ?_
  rw [rewriteLine_eq (h line hline)]

variable {customHeaders resHeaders customResponseHeaders : Headers} {body : List Char}

/-- **A rewritten playlist is closed under the proxy exactly if it has no URIs** and its length is
the one that is announced. -/
theorem closed_iff :
    ClosedUnderProxy baseUrl customHeaders (responseHeaders resHeaders customResponseHeaders) body ↔
      (∀ line ∈ body.textLines, lineUris line = []) ∧
      ∀ value ∈ contentLengths (responseHeaders resHeaders customResponseHeaders),
        Decimal.parse (2 ^ 64) value.toList =
          some (byteLength (body.textLines.flatMap fun line => line ++ ['\n'])) := by
  constructor
  · intro h
    have hnone : ∀ line ∈ body.textLines, lineUris line = [] := fun line hline =>
      lineUris_of_fetched (h.fetches line hline)
    refine ⟨hnone, fun value hvalue => ?_⟩
    rw [h.length value hvalue, rewritePlaylist_eq hnone]
  · intro h
    obtain ⟨hnone, hlength⟩ := h
    refine ⟨fun line hline => ?_, fun line hline _ => rewriteLine_eq (hnone line hline),
      fun value hvalue => ?_⟩
    · rw [rewriteLine_eq (hnone line hline), hnone line hline]
      exact List.Forall₂.nil
    · rw [hlength value hvalue, rewritePlaylist_eq hnone]

/-- URLs as they are written, without what stands behind the directory of a base. -/
def sampleLibrary : UrlLibrary where
  Url := String
  parse url := some url
  join base reference := some (String.ofList
    ((base.toList.rdropWhile (· ≠ '/')) ++ reference.toList))
  toString url := url
  setQuery url query := url ++ "?" ++ query.1
  pairs query := (query.toList.splitOn '&').map fun pair =>
    match pair.span (· ≠ '=') with
    | (key, _ :: value) => (String.ofList key, (percentDecode (String.ofList value)).getD "")
    | (key, []) => (String.ofList key, "")

/-- A playlist of one segment, as it was announced: the URI that it is rewritten to is not served. -/
theorem segment_not_closed : ¬ @ClosedUnderProxy sampleLibrary "http://host/a.m3u8" []
    (responseHeaders [("content-length", "7")] []) "seg.ts\n".toList := by
  intro h
  have hlines : "seg.ts\n".toList.textLines = ["seg.ts".toList] := by decide
  have huris : lineUris "seg.ts".toList = ["seg.ts".toList] := by decide
  have hnone := lineUris_of_fetched (h.fetches "seg.ts".toList (by rw [hlines]; simp))
  rw [huris] at hnone
  cases hnone

end StreamServer.Routes

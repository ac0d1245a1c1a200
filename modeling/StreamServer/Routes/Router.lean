import StreamServer.Lib.Router

/-!
# The routes of the server

`buildRouter` is the table of the server's routes, in the order in which they are registered.  The
handlers that serve playlists, segments and what is fetched for a client have names; the others are
one.

* `Routes.buildRouter` — the routes.
* `Routes.Handler` — what a route leads to.
-/

namespace StreamServer.Routes

open Router Piece

/-- What a route leads to. -/
inductive Handler
  | hlsStatus
  | hlsDestroy
  | hlsBurn
  | masterPlaylistByUrl
  | hlsV2Resource
  | getMasterPlaylist
  | handleHlsResource
  | handleHlsFmp4Segment
  | probeByUrl
  | getProbe
  | getTracksByUrl
  | legacyHlsResource
  | legacyHlsSegment
  | streamVideo
  | proxyHandler
  | other
  deriving DecidableEq

/-- Puts routes behind the beginning of a path. -/
def nest (outer : Pattern) (routes : List (Pattern × Handler)) : List (Pattern × Handler) :=
  routes.map fun route => (if route.1 = [lit ""] then outer else outer ++ route.1, route.2)

/-- The routes of the updates. -/
def updateRouter : List (Pattern × Handler) :=
  [([lit "status"], .other), ([lit "changelog"], .other), ([lit "check"], .other),
    ([lit "download"], .other), ([lit "install"], .other), ([lit "cancel"], .other)]

/-- The routes of the downloader. -/
def downloaderRouter : List (Pattern × Handler) :=
  [([lit "getAll"], .other), ([lit "get"], .other), ([lit "add"], .other), ([lit "pause"], .other),
    ([lit "resume"], .other), ([lit "remove"], .other)]

/-- The route of the videos. -/
def youtubeRouter : List (Pattern × Handler) := [([param], .other)]

/-- The routes of an archive. -/
def archiveRouter : List (Pattern × Handler) :=
  [([lit "create"], .other), ([lit "create", param], .other), ([lit "stream"], .other),
    ([lit "stream", param], .other), ([lit "stream", param, rest], .other)]

/-- The routes of the newsgroups. -/
def nzbRouter : List (Pattern × Handler) :=
  [([lit "create"], .other), ([lit "create", param], .other), ([lit "stream"], .other),
    ([lit "stream", param, rest], .other)]

/-- The routes of the local addon. -/
def localAddonRouter : List (Pattern × Handler) :=
  [([lit "manifest.json"], .other), ([lit "catalog", param, param], .other),
    ([lit "catalog", param, param, param], .other), ([lit "meta", param, param], .other),
    ([lit "stream", param, param], .other)]

/-- The routes of the proxy: what comes behind `/proxy/`, and is not empty. -/
def proxyRouter : List (Pattern × Handler) := [([rest], .proxyHandler)]

/-- The routes of FTP. -/
def ftpRouter : List (Pattern × Handler) :=
  [([lit "create"], .other), ([lit "create", param], .other), ([lit "stream"], .other),
    ([lit "stream", param, rest], .other), ([param], .other)]

/-- The routes of casting. -/
def castingRouter : List (Pattern × Handler) :=
  [([lit ""], .other), ([lit "transcode"], .other), ([lit "convert"], .other), ([param], .other),
    ([param, lit "player"], .other)]

/-- The routes of the server. -/
def buildRouter : List (Pattern × Handler) :=
  [([lit ""], .other), ([lit "heartbeat"], .other), ([lit "stats.json"], .other),
    ([lit "network-info"], .other)] ++
  nest [lit "update"] updateRouter ++
  [([lit "diagnostics", lit "memory"], .other), ([lit "diagnostics", lit "streams"], .other),
    ([lit "diagnostics", lit "crashes"], .other), ([lit "diagnostics", lit "logs"], .other),
    ([lit "diagnostics", lit "logs", lit "current"], .other),
    ([lit "diagnostics", lit "export"], .other), ([lit "settings"], .other), ([lit "list"], .other),
    ([lit "removeAll"], .other), ([lit "create"], .other), ([param, lit "create"], .other)] ++
  nest [param, lit "downloader"] downloaderRouter ++
  [([param, lit "remove"], .other), ([param, lit "stats.json"], .other),
    ([param, param, lit "stats.json"], .other), ([param, lit "peers"], .other),
    ([lit "stream", param, param], .streamVideo), ([param, param], .streamVideo),
    ([lit "subtitles.vtt"], .other), ([start "subtitles."], .other),
    ([param, param, lit "subtitles.vtt"], .other), ([lit "opensubHash"], .other),
    ([lit "opensubHash", param, param], .other), ([lit "subtitlesTracks"], .other),
    ([lit "device-info"], .other), ([lit "hwaccel-profiler"], .other),
    ([lit "get-https"], .other)] ++
  nest [lit "yt"] youtubeRouter ++
  nest [lit "rar"] archiveRouter ++
  nest [lit "zip"] archiveRouter ++
  nest [lit "7zip"] archiveRouter ++
  nest [lit "tar"] archiveRouter ++
  nest [lit "tgz"] archiveRouter ++
  nest [lit "nzb"] nzbRouter ++
  nest [lit "local-addon"] localAddonRouter ++
  nest [lit "proxy"] proxyRouter ++
  nest [lit "ftp"] ftpRouter ++
  [([lit "samples", param], .other), ([lit "hlsv2", lit "status"], .hlsStatus),
    ([lit "hlsv2", param, lit "destroy"], .hlsDestroy),
    ([lit "hlsv2", param, lit "burn"], .hlsBurn),
    ([lit "hlsv2", param, lit "master.m3u8"], .masterPlaylistByUrl),
    ([lit "hlsv2", param, param], .hlsV2Resource),
    ([lit "hlsv2", param, param, lit "master.m3u8"], .getMasterPlaylist),
    ([lit "hlsv2", param, param, param], .handleHlsResource),
    ([lit "hlsv2", param, param, param, param], .handleHlsFmp4Segment),
    ([lit "hlsv2", lit "probe"], .probeByUrl), ([lit "probe"], .probeByUrl),
    ([lit "probe", param, param], .getProbe), ([lit "tracks", rest], .getTracksByUrl),
    ([param, param, param], .legacyHlsResource),
    ([param, param, param, param], .legacyHlsSegment), ([lit "thumb.jpg"], .other)] ++
  nest [lit "casting"] castingRouter ++
  [([lit "favicon.ico"], .other)]

end StreamServer.Routes

import StreamServer.Lib.GuardedSystem
import StreamServer.Lib.HashTable
import StreamServer.Playback.Windows
import StreamServer.Playback.State
import StreamServer.Playback.Selection
import StreamServer.Playback.Coordinator
import StreamServer.Playback.Tasks
import StreamServer.Playback.Acknowledged
import StreamServer.Playback.Completion
import StreamServer.Playback.Registry
import StreamServer.Playback.Generations
import StreamServer.Playback.Unattended
import StreamServer.Playback.Permits
import StreamServer.Playback.IdlePause
import StreamServer.Playback.Probes
import StreamServer.Playback.WindowOwners
import StreamServer.Lib.Stretch
import StreamServer.Readers.Layout
import StreamServer.Readers.File
import StreamServer.Readers.DiskStream
import StreamServer.Readers.DiskBytes
import StreamServer.Readers.DiskErrors
import StreamServer.Archives.Cache
import StreamServer.Archives.Delivery
import StreamServer.Archives.Wakeups
import StreamServer.Archives.Tar
import StreamServer.Alerts.Hub
import StreamServer.Alerts.Attached
import StreamServer.Lib.Overlay
import StreamServer.Memory.Storage
import StreamServer.Memory.Apart
import StreamServer.Readers.Agreement
import StreamServer.Lib.Scan
import StreamServer.Metadata.Ebml
import StreamServer.Metadata.Matroska
import StreamServer.Metadata.Keyframes
import StreamServer.Routes.Ranges
import StreamServer.Routes.Router
import StreamServer.Routes.Hls
import StreamServer.Routes.Playlists
import StreamServer.Routes.Closed
import StreamServer.Lib.Lines
import StreamServer.Nzb.Nntp
import StreamServer.Nzb.Transfer
import StreamServer.Nzb.Article
import StreamServer.Nzb.Pool
import StreamServer.Lib.Occurrence
import StreamServer.Nzb.YEnc
import StreamServer.Nzb.Segments
import StreamServer.Archives.Extraction
import StreamServer.Archives.Truthful
import StreamServer.EngineFs.State
import StreamServer.EngineFs.Steps
import StreamServer.EngineFs.Effects
import StreamServer.EngineFs.Session
import StreamServer.EngineFs.Flow
import StreamServer.EngineFs.Streams
import StreamServer.EngineFs.Counts
import StreamServer.EngineFs.Lifecycle
import StreamServer.EngineFs.Removal
import StreamServer.EngineFs.Pauses
import StreamServer.EngineFs.Cleanup
import StreamServer.LocalAddon.Bencode
import StreamServer.LocalAddon.Sha1
import StreamServer.LocalAddon.Torrent
import StreamServer.Lib.Files
import StreamServer.Lib.Text
import StreamServer.Lib.Decimal
import StreamServer.Lib.Uri
import StreamServer.Lib.Router
import StreamServer.Updater.Helper
import StreamServer.Updater.Recovery
import StreamServer.Updater.Rollback
import StreamServer.Updater.Installer
import StreamServer.Updater.Staging
import StreamServer.Updater.Manager
import StreamServer.Settings.Saving
import StreamServer.Routes.Proxy
import StreamServer.Routes.Redirects
import StreamServer.Lib.ByteRange
import StreamServer.Routes.RangeGrammar
import StreamServer.Lib.Checked
import StreamServer.LocalAddon.Checked
import StreamServer.LocalAddon.Safety
import StreamServer.LocalAddon.Encoding
import StreamServer.LocalAddon.Sorted
import StreamServer.Lib.IndexLoop
import StreamServer.Metadata.Cues
import StreamServer.Metadata.Samples
import StreamServer.Metadata.Buffers
import StreamServer.Metadata.SeekHeads
import StreamServer.Lib.Words
import StreamServer.Playback.Priorities
import StreamServer.Playback.PriorityOrder
import StreamServer.Playback.Silence
import StreamServer.Metadata.Boxes
import StreamServer.Metadata.Inspector
import StreamServer.Lib.Paragraphs
import StreamServer.Lib.Pattern
import StreamServer.Subtitles.Formats
import StreamServer.Subtitles.Clock
import StreamServer.Subtitles.Srt
import StreamServer.Lib.Ink
import StreamServer.Subtitles.Vtt
import StreamServer.Lib.SecureHash
import StreamServer.LocalAddon.Digest
import StreamServer.Lib.Parameters
import StreamServer.Routes.Attachment
import StreamServer.EngineFs.Trackers
import StreamServer.Lib.SemVer
import StreamServer.Updater.Versions
import StreamServer.Updater.Releases
import StreamServer.Cache.Cleaner
import StreamServer.Lib.Replacement
import StreamServer.Subtitles.Stamp
import StreamServer.Subtitles.Offset
import StreamServer.Lib.LineEnds
import StreamServer.Subtitles.VttFile
import StreamServer.Lib.SingleFlight
import StreamServer.Readers.ReadExact
import StreamServer.EngineFs.OpensubHash
import StreamServer.EngineFs.Inflight
import StreamServer.Readers.Pipeline
import StreamServer.Readers.PipelineBytes
import StreamServer.Readers.PipelineWakeups
import StreamServer.Readers.PipelineProgress
import StreamServer.Readers.Session
import StreamServer.Memory.DiskIo
import StreamServer.Readers.ReadyPieces
import StreamServer.Readers.PinsKept
import StreamServer.Lib.Signed
import StreamServer.LocalAddon.Library
import StreamServer.LocalAddon.Listed
import StreamServer.Updater.ChecksumFile

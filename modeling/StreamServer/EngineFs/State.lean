import Mathlib.Data.List.Basic
import Mathlib.Logic.Function.Basic

/-!
# The registry of engines

The server keeps an engine for each torrent it knows, next to the session of the backend.  It
counts the streams on a torrent and on a file, keeps a lease for each file that is played over
HLS, and, for a torrent with several files, the one file that is selected.  These maps are
guarded by locks of their own.

A count in a map is the number of times the key stands in a list: a key is taken out of the
map when its count falls to zero.

## Main definitions

* `Engine`, `Torrent`, `Selection`, `OpenStream` — what the maps hold.
* `Shared` — the maps, the session and the time.
* `Shared.touch`, `Shared.update`, `Shared.setTorrent` — changes.
* `Check`, `Shared.active` — what keeps a torrent from being paused or removed.

## References

`enginefs/src/lib.rs`, `enginefs/src/engine.rs`.
-/

namespace StreamServer.EngineFs

/-! ### Constants -/

/-- `INACTIVE_TORRENT_REMOVE_TIMEOUT`. -/
def removeTimeout : ℕ := 300

/-- `INACTIVE_TORRENT_PAUSE_GRACE`. -/
def pauseGrace : ℕ := 15

/-- `HLS_PLAYBACK_LEASE_TTL`. -/
def leaseTtl : ℕ := 300

/-- `LIBTORRENT_HLS_PLAYBACK_LEASE_TTL`. -/
def nativeLeaseTtl : ℕ := 15

/-- The delay of a cleanup. -/
def cleanupDelay : ℕ := 5

/-- How often the loop runs. -/
def loopPeriod : ℕ := 15

/-! ### What the maps hold -/

/-- `Engine`, the fields that the tasks change. -/
structure Engine where
  lastAccessed : ℕ
  /-- `active_streams`: readers of files and of metadata. -/
  readers : ℕ
  idlePaused : Bool
  deriving DecidableEq, Repr

/-- A torrent in the session of the backend. -/
structure Torrent where
  paused : Bool
  /-- The file that is wanted. -/
  wanted : Option ℕ
  deriving DecidableEq, Repr

/-- What `select` remembers of a torrent: the file and its generation. -/
structure Selection where
  fileIdx : ℕ
  generation : ℕ
  deriving DecidableEq, Repr

/-- A stream, by the call that starts it. -/
structure OpenStream where
  id : ℕ
  infoHash : String
  fileIdx : ℕ
  /-- It is ended by the guard of a request. -/
  guarded : Bool
  deriving DecidableEq, Repr

/-- What all tasks share. -/
structure Shared where
  /-- The backend manages playback itself. -/
  native : Bool
  seedingEnabled : Bool
  now : ℕ
  engines : List (String × ℕ)
  /-- The tasks that hold the lock of `engines` for reading while they wait. -/
  engineReaders : ℕ
  arena : ℕ → Engine
  newEngine : ℕ
  session : String → Option Torrent
  activeStreams : List String
  activeFileStreams : List (String × ℕ)
  activeFile : Option (String × ℕ)
  /-- `active_playback_leases`: when each expires. -/
  leases : List ((String × ℕ) × ℕ)
  /-- `active_multifile_files`. -/
  selections : String → Option Selection
  priorityGeneration : ℕ
  newStream : ℕ
  /-- The streams that have been started and not been ended. -/
  streams : List OpenStream
  /-- When `get_engine` last returned the engine. -/
  handedOut : String → Option ℕ

/-- What keeps a torrent from being paused or removed. -/
inductive Check
  | streams
  | fileStreams
  | leases
  | activeFile
  | selection
  deriving DecidableEq, Repr

namespace Shared

variable (s : Shared)

/-! ### Looking -/

/-- The engine that the map has for `h`. -/
def engine (h : String) : Option ℕ := s.engines.lookup h

/-- The keys of the map. -/
def hashes : List String := s.engines.map (·.1)

/-- There is an engine, and it manages playback itself. -/
def managed (h : String) : Bool := (s.engine h).isSome && s.native

/-- The file has a lease that has not run out. -/
def leaseActive (key : String × ℕ) (now : ℕ) : Bool :=
  match s.leases.lookup key with
  | some expires => now < expires
  | none => false

/-- What the check finds. -/
def active (h : String) (now : ℕ) : Check → Bool
  | .streams => s.activeStreams.contains h
  | .fileStreams => s.activeFileStreams.any fun key => key.1 == h
  | .leases => s.leases.any fun lease => lease.1.1 == h && now < lease.2
  | .activeFile => s.activeFile.any fun key => key.1 == h
  | .selection => (s.selections h).isSome

/-! ### Changing -/

/-- The engine `a` is changed by `f`. -/
def update (a : ℕ) (f : Engine → Engine) : Shared :=
  { s with arena := Function.update s.arena a (f (s.arena a)) }

/-- `Engine::touch`. -/
def touch (a : ℕ) : Shared := s.update a fun engine => { engine with lastAccessed := s.now }

/-- `get_engine`: the engine that is found is touched, and handed out. -/
def getEngine (h : String) : Shared :=
  match s.engine h with
  | none => s
  | some a => { s.touch a with handedOut := Function.update s.handedOut h (some s.now) }

/-- The torrent `h` of the session, if there is one, is changed by `f`. -/
def setTorrent (h : String) (f : Torrent → Torrent) : Shared :=
  { s with session := Function.update s.session h ((s.session h).map f) }

/-- Keep the entries of the map that belong to other torrents or to the file. -/
def keepFile {α : Type} (h : String) (f : ℕ) (key : α → String × ℕ) (entries : List α) : List α :=
  entries.filter fun entry => (key entry).1 != h || (key entry).2 == f

end Shared

end StreamServer.EngineFs

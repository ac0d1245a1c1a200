import Mathlib.Data.Int.Notation
import Mathlib.Data.List.Basic
import Mathlib.Logic.Function.Basic
import StreamServer.Lib.GuardedSystem
import StreamServer.Lib.Overlay

/-!
# The memory storage of torrents

Without a disk cache the native library keeps the pieces of its torrents in memory, in one
storage for each torrent that has its metadata.  The library knows a storage by its index.
Readers know a torrent by its info hash only, and a storage does not get its hash when it
is made: whoever adds or reads a torrent labels the newest storage that has no label yet.

Storages are shared pointers.  A disk job looks its storage up and works on it later, when
the storage may have left the table; a direct read copies the table and goes through the
copy.  Labelling, clearing and reading exclude each other.

## Main definitions

* `Storage` — a storage, with the torrent it was created for and what has been written.
* `MemoryDiskIo`, `Action`, `memoryDiskIo` — the disk interface and its steps.
* `MemoryDiskIo.found` — what the read under way finds next.

## References

`bindings/libtorrent-sys/cpp/memory_storage.cpp`.
-/

namespace StreamServer.Memory

/-- The info hash of a torrent.  A storage without a label has the empty string there. -/
abbrev InfoHash := {hash : String // hash ≠ ""}

/-- `storage_index_t`. -/
abbrev StorageIndex := UInt32

/-! ### A storage -/

/-- `memory_torrent_storage`. -/
structure Storage where
  /-- The torrent the native library creates it for.  The code does not keep it. -/
  torrent : InfoHash
  infoHash : String
  pieces : ℤ → Option (List UInt8)
  /-- What has been written to each piece since it was last erased. -/
  written : ℤ → List (Block UInt8)

/-- What a disk job does to its storage. -/
inductive StorageOp
  | write (piece : ℤ) (block : Block UInt8)
  | deleteFiles
  | clearPiece (piece : ℤ)
  deriving DecidableEq, Repr

namespace Storage

variable (st : Storage)

/-- The storage of a new torrent. -/
def new (torrent : InfoHash) : Storage := ⟨torrent, "", fun _ => none, fun _ => []⟩

/-- `async_write`: the piece grows to the end of the block, with zeros in between. -/
def write (piece : ℤ) (block : Block UInt8) : Storage :=
  { st with
    pieces := Function.update st.pieces piece (some (block.put 0 ((st.pieces piece).getD [])))
    written := Function.update st.written piece (st.written piece ++ [block]) }

/-- `async_delete_files`. -/
def deleteFiles : Storage := { st with pieces := fun _ => none, written := fun _ => [] }

/-- `async_clear_piece`. -/
def clearPiece (piece : ℤ) : Storage :=
  { st with
    pieces := Function.update st.pieces piece none
    written := Function.update st.written piece [] }

/-- What a job does to the storage it has found. -/
def apply : StorageOp → Storage
  | .write piece block => st.write piece block
  | .deleteFiles => st.deleteFiles
  | .clearPiece piece => st.clearPiece piece

end Storage

/-! ### The disk interface -/

/-- A job that holds its storage. -/
structure DiskJob where
  storage : ℕ
  op : StorageOp
  deriving DecidableEq, Repr

/-- A call of `memory_read_piece_direct`, and the storages it has not looked at. -/
structure DirectRead where
  infoHash : InfoHash
  piece : ℤ
  remaining : List ℕ
  deriving DecidableEq

/-- `memory_disk_io`, with the jobs that are under way. -/
structure MemoryDiskIo where
  storages : ℕ → Storage
  /-- The number of storages made so far. -/
  allocated : ℕ
  /-- In the order of the map, by index. -/
  torrents : List (StorageIndex × ℕ)
  nextStorageIndex : StorageIndex
  jobs : ℕ → Option DiskJob
  read : Option DirectRead

/-- `m_torrents[idx] = storage`. -/
def assign (idx : StorageIndex) (st : ℕ) : List (StorageIndex × ℕ) → List (StorageIndex × ℕ)
  | [] => [(idx, st)]
  | (k, x) :: rest =>
      if idx < k then (idx, st) :: (k, x) :: rest
      else if idx = k then (idx, st) :: rest
      else (k, x) :: assign idx st rest

namespace MemoryDiskIo

variable (s : MemoryDiskIo)

/-- `new_torrent`. -/
def newTorrent (torrent : InfoHash) : MemoryDiskIo :=
  { s with
    storages := Function.update s.storages s.allocated (.new torrent)
    allocated := s.allocated + 1
    torrents := assign s.nextStorageIndex s.allocated s.torrents
    nextStorageIndex := s.nextStorageIndex + 1 }

/-- `remove_torrent`. -/
def removeTorrent (idx : StorageIndex) : MemoryDiskIo :=
  { s with torrents := s.torrents.filter fun entry => entry.1 ≠ idx }

/-- `get_storage`. -/
def getStorage (idx : StorageIndex) : Option ℕ :=
  (s.torrents.find? fun entry => entry.1 = idx).map Prod.snd

/-- `get_all_storages`. -/
def getAllStorages : List ℕ := s.torrents.map Prod.snd

/-- The newest storage without a label. -/
def lastUnlabeled : Option ℕ :=
  s.getAllStorages.reverse.find? fun st => (s.storages st).infoHash = ""

/-- The storage `st` is put to `storage`. -/
def setStorage (st : ℕ) (storage : Storage) : MemoryDiskIo :=
  { s with storages := Function.update s.storages st storage }

/-- `label_last_unlabeled_storage`. -/
def labelLastUnlabeledStorage (infoHash : InfoHash) : MemoryDiskIo :=
  match s.lastUnlabeled with
  | some st => s.setStorage st { s.storages st with infoHash := infoHash.val }
  | none => s

/-- The storages with the label leave the map. -/
def clearTorrent (infoHash : InfoHash) : MemoryDiskIo :=
  { s with torrents := s.torrents.filter fun entry => (s.storages entry.2).infoHash ≠ infoHash.val }

/-- What the read under way finds in the next storage, if that is labelled with its hash and
has the piece. -/
def found (read : DirectRead) : Option (ℕ × List UInt8) :=
  match read.remaining with
  | [] => none
  | st :: _ =>
      if (s.storages st).infoHash = read.infoHash.val then
        ((s.storages st).pieces read.piece).map fun data => (st, data)
      else none

/-- The read goes on to the next storage, or returns. -/
def readNext (read : DirectRead) : MemoryDiskIo :=
  match s.found read with
  | some _ => { s with read := none }
  | none =>
      match read.remaining with
      | [] => { s with read := none }
      | _ :: rest => { s with read := some { read with remaining := rest } }

/-- The thread `t` does its job. -/
def runJob (t : ℕ) (job : DiskJob) : MemoryDiskIo :=
  { s.setStorage job.storage ((s.storages job.storage).apply job.op) with
    jobs := Function.update s.jobs t none }

end MemoryDiskIo

/-! ### Steps -/

/-- The calls of the library, and the jobs of its threads. -/
inductive Action
  | newTorrent (torrent : InfoHash)
  | removeTorrent (idx : StorageIndex)
  | label (infoHash : InfoHash)
  | clearTorrent (infoHash : InfoHash)
  /-- A thread looks up the storage its job is about. -/
  | getStorage (t : ℕ) (idx : StorageIndex) (op : StorageOp)
  | runJob (t : ℕ)
  | readPieceDirect (infoHash : InfoHash) (piece : ℤ)
  | readNext
  deriving DecidableEq

/-- The callers that take the lock of the disk interface wait for the read under way. -/
def Action.guard (s : MemoryDiskIo) : Action → Prop
  | .newTorrent _ | .removeTorrent _ => True
  | .label _ | .clearTorrent _ | .readPieceDirect _ _ => s.read = none
  | .getStorage t idx _ => s.jobs t = none ∧ s.getStorage idx ≠ none
  | .runJob t => s.jobs t ≠ none
  | .readNext => s.read ≠ none

/-- What an action does. -/
def Action.effect (s : MemoryDiskIo) : Action → MemoryDiskIo
  | .newTorrent torrent => s.newTorrent torrent
  | .removeTorrent idx => s.removeTorrent idx
  | .label infoHash => s.labelLastUnlabeledStorage infoHash
  | .clearTorrent infoHash => s.clearTorrent infoHash
  | .getStorage t idx op =>
      { s with jobs := Function.update s.jobs t ((s.getStorage idx).map fun st => ⟨st, op⟩) }
  | .runJob t =>
      match s.jobs t with
      | some job => s.runJob t job
      | none => s
  | .readPieceDirect infoHash piece =>
      { s with read := some ⟨infoHash, piece, s.getAllStorages⟩ }
  | .readNext =>
      match s.read with
      | some read => s.readNext read
      | none => s

/-- The disk interface, and those that use it. -/
def memoryDiskIo : GuardedSystem MemoryDiskIo Action :=
  ⟨fun s a => a.guard s, fun s a => a.effect s⟩

/-- A disk interface that has just been made; what is beyond the storages made so far does
not matter. -/
def MemoryDiskIo.new : MemoryDiskIo :=
  ⟨fun _ => .new ⟨"-", by decide⟩, 0, [], 0, fun _ => none, none⟩

instance (s : MemoryDiskIo) : ∀ a : Action, Decidable (a.guard s)
  | .newTorrent _ | .removeTorrent _ => inferInstanceAs (Decidable True)
  | .label _ | .clearTorrent _ | .readPieceDirect _ _ => inferInstanceAs (Decidable (_ = _))
  | .getStorage _ _ _ => inferInstanceAs (Decidable (_ ∧ _))
  | .runJob _ | .readNext => inferInstanceAs (Decidable (_ ≠ _))

instance (s : MemoryDiskIo) (a : Action) : Decidable (memoryDiskIo.guard s a) :=
  inferInstanceAs (Decidable (a.guard s))

end StreamServer.Memory

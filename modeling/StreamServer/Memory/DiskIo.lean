import StreamServer.Memory.Apart

/-!
# The memory storage as a disk

The native library writes the blocks of a piece as they arrive, in any order and some of them twice,
and has the piece hashed when it has them all.  Then it reads from the piece, to send it to other
peers.  A disk job looks its storage up first and works on it later, and jobs of many torrents go on
at once.

What a job of reading comes to depends on nothing but the blocks that have been written to its piece
since the piece was last erased: at each place it is the value written last.

## Main definitions

* `PeerRequest`, `Storage.asyncRead`, `Storage.asyncHash` — the jobs that read.
* `readOf` — what a read should come to.
* `Storage.Kept` — the invariant: a piece is there if something has been written to it, and is what
  its blocks make.

## Main results

* `diskIo_reads` — **what the jobs come to, in every state**, and that a piece whose blocks have all
  come is hashed and read as it is.

## References

`bindings/libtorrent-sys/cpp/memory_storage.cpp`, `async_read`, `async_hash`, `async_write`,
`async_clear_piece`, `async_delete_files`.
-/

namespace StreamServer.Memory

/-- The error of a job without a storage. -/
inductive StorageError
  | noSuchFileOrDirectory
  deriving DecidableEq, Repr

/-- `lt::peer_request`. -/
structure PeerRequest where
  piece : ℤ
  start : ℕ
  length : ℕ
  deriving DecidableEq, Repr

/-- What a read should come to: at each place what has been written there last. -/
def readOf (blocks : List (Block UInt8)) (start length : ℕ) : Except StorageError (List UInt8) :=
  if blocks = [] ∨ extent blocks < start + length then .error .noSuchFileOrDirectory
  else .ok ((List.range length).map fun k => (latest blocks (start + k)).getD 0)

namespace Storage

variable (st : Storage)

/-- `async_read`, on the storage it has looked up. -/
def asyncRead (r : PeerRequest) : Except StorageError (List UInt8) :=
  match st.pieces r.piece with
  | none => .error .noSuchFileOrDirectory
  | some data =>
      if data.length < r.start + r.length then .error .noSuchFileOrDirectory
      else .ok ((data.drop r.start).take r.length)

/-- `async_hash`, on the storage it has looked up, with the hash function of the cryptographic
library. -/
def asyncHash (sha1 : List UInt8 → List UInt8) (piece : ℤ) : Except StorageError (List UInt8) :=
  match st.pieces piece with
  | none => .error .noSuchFileOrDirectory
  | some data => .ok (sha1 data)

/-- A piece is what its blocks make, and is there if there are any. -/
structure Kept (st : Storage) : Prop where
  overlaid : st.Overlaid
  present : ∀ piece, st.pieces piece = none ↔ st.written piece = []

variable {st}

theorem kept_new (torrent : InfoHash) : (new torrent).Kept := by
  refine ⟨overlaid_new torrent, fun piece => ?_⟩
  simp [new]

/-- **A disk job keeps the storage.** -/
theorem Kept.apply (h : st.Kept) (op : StorageOp) : (st.apply op).Kept := by
  refine ⟨h.overlaid.apply op, fun piece => ?_⟩
  cases op with
  | write piece' block =>
    by_cases hp : piece = piece'
    · simp [Storage.apply, Storage.write, hp]
    · simpa [Storage.apply, Storage.write, hp] using h.present piece
  | deleteFiles => simp [Storage.apply, Storage.deleteFiles]
  | clearPiece piece' =>
    by_cases hp : piece = piece'
    · simp [Storage.apply, Storage.clearPiece, hp]
    · simpa [Storage.apply, Storage.clearPiece, hp] using h.present piece

/-- The piece as a whole. -/
theorem Kept.pieces_eq (h : st.Kept) (piece : ℤ) :
    st.pieces piece = if st.written piece = [] then none else some (overlay 0 (st.written piece)) := by
  split
  · next hnil => exact (h.present piece).mpr hnil
  · next hne =>
    obtain ⟨data, hdata⟩ := Option.ne_none_iff_exists'.mp (mt (h.present piece).mp hne)
    have heq := h.overlaid piece
    rw [hdata, Option.getD_some] at heq
    rw [hdata, heq]

/-- **What a read comes to.** -/
theorem Kept.asyncRead_eq (h : st.Kept) (r : PeerRequest) :
    st.asyncRead r = readOf (st.written r.piece) r.start r.length := by
  unfold readOf
  rw [asyncRead, h.pieces_eq]
  by_cases hnil : st.written r.piece = []
  · rw [if_pos hnil, if_pos (Or.inl hnil)]
  · rw [if_neg hnil]
    dsimp only
    rw [length_overlay]
    by_cases hshort : extent (st.written r.piece) < r.start + r.length
    · rw [if_pos hshort, if_pos (Or.inr hshort)]
    · rw [if_neg hshort, if_neg (not_or.mpr ⟨hnil, hshort⟩),
        overlay_slice _ (Nat.not_lt.mp hshort)]

end Storage

section Runs

variable {s t : MemoryDiskIo}

theorem kept_of_reach {C : MemoryDiskIo → Action → Prop} (h : memoryDiskIo.Reach C .new s) (n : ℕ) :
    (s.storages n).Kept := by
  have hall : (fun u : MemoryDiskIo => ∀ n, (u.storages n).Kept) s := by
    apply h.invariant
    · exact fun n => Storage.kept_new _
    · intro u a hu _ _ n
      apply a.forall_storages hu Storage.kept_new (fun st op hst => hst.apply op)
      intro infoHash st _ _
      exact ⟨(hu st).overlaid, (hu st).present⟩
  exact hall n

/-- **The memory storage is a disk.**  In every state that jobs of any number of torrents can come
to, and whichever storage a job has looked up before: what it reads at a place is what has been
written there last since the piece was erased.  When the blocks of a piece have all come, in
whatever order and some of them twice, any part of it is read as it is, and its hash is that of the
piece. -/
theorem diskIo_reads (sha1 : List UInt8 → List UInt8)
    (h : memoryDiskIo.Reach GuardedSystem.anyStep .new s) (n : ℕ) (piece : ℤ) :
    (∀ start length, (s.storages n).asyncRead ⟨piece, start, length⟩ =
      readOf ((s.storages n).written piece) start length) ∧
    (∀ content, content ≠ [] → Agree ((s.storages n).written piece) content →
      (∀ i < content.length, Covered ((s.storages n).written piece) i) →
      (s.storages n).asyncHash sha1 piece = .ok (sha1 content) ∧
        ∀ start length, start + length ≤ content.length →
          (s.storages n).asyncRead ⟨piece, start, length⟩ =
            .ok ((content.drop start).take length)) := by
  have hkept := kept_of_reach h n
  refine ⟨fun start length => hkept.asyncRead_eq ⟨piece, start, length⟩, ?_⟩
  intro content hne hagree hcovered
  have hwhole : (s.storages n).pieces piece = some content := by
    rw [hkept.pieces_eq, if_neg, overlay_eq_of_agree hagree hcovered]
    intro hnil
    -- without a block nothing is covered
    obtain ⟨b, hb, -⟩ := hcovered 0 (List.length_pos_of_ne_nil hne)
    rw [hnil] at hb
    cases hb
  constructor
  · rw [Storage.asyncHash, hwhole]
  · intro start length hle
    rw [Storage.asyncRead, hwhole]
    exact if_neg (Nat.not_lt.mpr hle)

/-- Two torrents, and the second block of a piece of the first one comes before the first. -/
def outOfOrder : List Action :=
  [.newTorrent torrentA, .newTorrent torrentB, .getStorage 0 0 (.write 0 ⟨2, [3, 4]⟩),
    .getStorage 1 1 (.write 0 ⟨0, [9]⟩), .getStorage 2 0 (.write 0 ⟨0, [1, 2]⟩), .runJob 0, .runJob 1,
    .runJob 2]

theorem outOfOrder_read : ∃ s, memoryDiskIo.Reach GuardedSystem.anyStep .new s ∧
    (s.storages 0).asyncRead ⟨0, 1, 2⟩ = .ok [2, 3] ∧
      (s.storages 0).asyncHash (fun data => data.reverse) 0 = .ok [4, 3, 2, 1] := by
  obtain ⟨s, hs, hwritten⟩ : ∃ s, memoryDiskIo.Reach GuardedSystem.anyStep .new s ∧
      (s.storages 0).written 0 = [⟨2, [3, 4]⟩, ⟨0, [1, 2]⟩] :=
    GuardedSystem.exists_reach_of_exec outOfOrder (by decide)
  have hreads := (diskIo_reads (fun data => data.reverse) hs 0 0).2 [1, 2, 3, 4]
  rw [hwritten] at hreads
  obtain ⟨hhash, hread⟩ := hreads (by decide) (by decide) (by decide)
  exact ⟨s, hs, hread 1 2 (by decide), hhash⟩

end Runs

end StreamServer.Memory

import StreamServer.Memory.Storage

/-!
# Torrents that share the memory

What is read for a torrent should have been written to the storage created for it, and
clearing a torrent should erase its own storages only.

A storage gets its label from whoever comes first, though: the newest storage without a
label may belong to another torrent, which has obtained its metadata later.  From then on
the two torrents are mixed up.

A piece is also read too early if its blocks have come out of order: the storage fills the
gaps with zeros, which nobody has written.

## Main definitions

* `MemoryDiskIo.ClearsOwn`, `Action.ReturnsOwn` — torrents are kept apart.
* `LabelsOwn` — the condition: storages are labelled with their own hash, and pieces with
  gaps are not read.

## Main results

* `MemoryDiskIo.inOrder_of_reach` — labels are right in every run under the condition.
* `torrents_apart` — torrents are kept apart exactly as long as the condition is met.

## References

`bindings/libtorrent-sys/cpp/memory_storage.cpp`.
-/

namespace StreamServer.Memory

/-! ### What is asked of the storages, and the condition -/

/-- Whatever is cleared belongs to the torrent that is cleared. -/
def MemoryDiskIo.ClearsOwn (s : MemoryDiskIo) : Prop :=
  ∀ infoHash : InfoHash, ∀ entry ∈ s.torrents, entry ∉ (s.clearTorrent infoHash).torrents →
    (s.storages entry.2).torrent = infoHash

/-- The bytes have been written to a piece of the storage, where they stand. -/
def Storage.HasWritten (st : Storage) (piece : ℤ) (data : List UInt8) : Prop :=
  ∀ (i : ℕ) (b : UInt8), data[i]? = some b → ∃ block ∈ st.written piece, block.Holds i b

/-- What a read returns has been written to its piece of a storage of its torrent. -/
def Action.ReturnsOwn (s : MemoryDiskIo) : Action → Prop
  | .readNext =>
      ∀ read ∈ s.read, ∀ result ∈ s.found read,
        (s.storages result.1).torrent = read.infoHash ∧
          (s.storages result.1).HasWritten read.piece result.2
  | _ => True

/-- **The condition.**  A storage is labelled with the hash of its own torrent, and no piece
is read that has been written with gaps. -/
def LabelsOwn (s : MemoryDiskIo) : Action → Prop
  | .label infoHash => ∀ st ∈ s.lastUnlabeled, (s.storages st).torrent = infoHash
  | .readNext =>
      ∀ read ∈ s.read, ∀ result ∈ s.found read, ∀ i < result.2.length,
        Covered ((s.storages result.1).written read.piece) i
  | _ => True

instance (s : MemoryDiskIo) : ∀ a : Action, Decidable (LabelsOwn s a)
  | .label infoHash =>
      inferInstanceAs (Decidable (∀ st ∈ s.lastUnlabeled, (s.storages st).torrent = infoHash))
  | .readNext =>
      inferInstanceAs (Decidable (∀ read ∈ s.read, ∀ result ∈ s.found read,
        ∀ i < result.2.length, Covered ((s.storages result.1).written read.piece) i))
  | .newTorrent _ | .removeTorrent _ | .clearTorrent _ | .getStorage _ _ _ | .runJob _
  | .readPieceDirect _ _ => inferInstanceAs (Decidable True)

/-! ### What each storage keeps -/

/-- A piece is what its blocks make. -/
def Storage.Overlaid (st : Storage) : Prop :=
  ∀ piece, (st.pieces piece).getD [] = overlay 0 (st.written piece)

/-- A storage has its own hash or no label. -/
def Storage.WellLabelled (st : Storage) : Prop :=
  st.infoHash = "" ∨ st.infoHash = st.torrent.val

namespace Storage

variable {st : Storage}

theorem overlaid_new (torrent : InfoHash) : (new torrent).Overlaid := by
  simp [Overlaid, new]

theorem Overlaid.apply (h : st.Overlaid) (op : StorageOp) : (st.apply op).Overlaid := by
  intro piece
  cases op with
  | write piece' block =>
    by_cases hp : piece = piece'
    · subst hp
      simp [Storage.apply, Storage.write, overlay_concat, h piece]
    · simpa [Storage.apply, Storage.write, hp] using h piece
  | deleteFiles => simp [Storage.apply, Storage.deleteFiles]
  | clearPiece piece' =>
    by_cases hp : piece = piece'
    · simp [Storage.apply, Storage.clearPiece, hp]
    · simpa [Storage.apply, Storage.clearPiece, hp] using h piece

/-- A disk job leaves the torrent and the label alone. -/
@[simp] theorem torrent_apply (op : StorageOp) : (st.apply op).torrent = st.torrent := by
  cases op <;> simp [Storage.apply, Storage.write, Storage.deleteFiles, Storage.clearPiece]

@[simp] theorem infoHash_apply (op : StorageOp) : (st.apply op).infoHash = st.infoHash := by
  cases op <;> simp [Storage.apply, Storage.write, Storage.deleteFiles, Storage.clearPiece]

/-- What is read has been written exactly if the blocks leave no gap. -/
theorem Overlaid.hasWritten_iff (h : st.Overlaid) {piece : ℤ} {data : List UInt8}
    (hdata : st.pieces piece = some data) :
    st.HasWritten piece data ↔ ∀ i < data.length, Covered (st.written piece) i := by
  have heq : data = overlay 0 (st.written piece) := by simpa [hdata] using h piece
  rw [HasWritten, heq]
  exact overlay_written_iff

end Storage

/-! ### What every step keeps -/

section Steps

variable {s : MemoryDiskIo}

/-- A property of storages that new storages have and steps preserve holds of all storages. -/
theorem Action.forall_storages {P : Storage → Prop} (h : ∀ st, P (s.storages st)) {a : Action}
    (hnew : ∀ torrent, P (.new torrent)) (hop : ∀ st op, P st → P (st.apply op))
    (hlabel : ∀ infoHash st, a = .label infoHash → s.lastUnlabeled = some st →
      P { s.storages st with infoHash := infoHash.val }) (st : ℕ) :
    P ((a.effect s).storages st) := by
  have hset : ∀ st' storage, P storage → P ((s.setStorage st' storage).storages st) := by
    intro st' storage hP
    by_cases hst : st = st'
    · simpa [MemoryDiskIo.setStorage, hst] using hP
    · simpa [MemoryDiskIo.setStorage, hst] using h st
  cases a with
  | newTorrent torrent => exact hset s.allocated _ (hnew torrent)
  | label infoHash =>
    dsimp only [Action.effect, MemoryDiskIo.labelLastUnlabeledStorage]
    split
    · next st' hlast => exact hset st' _ (hlabel infoHash st' rfl hlast)
    · exact h st
  | runJob t =>
    dsimp only [Action.effect]
    split
    · next job _ => exact hset job.storage _ (hop _ job.op (h job.storage))
    · exact h st
  | readNext =>
    dsimp only [Action.effect, MemoryDiskIo.readNext]
    split
    · split
      · exact h st
      · split <;> exact h st
    · exact h st
  | removeTorrent _ | clearTorrent _ | getStorage _ _ _ | readPieceDirect _ _ => exact h st

/-- The storage that is labelled is in the table, without a label. -/
theorem MemoryDiskIo.lastUnlabeled_spec {st : ℕ} (h : s.lastUnlabeled = some st) :
    st ∈ s.getAllStorages ∧ (s.storages st).infoHash = "" := by
  unfold MemoryDiskIo.lastUnlabeled at h
  have hmem := List.mem_of_find?_eq_some h
  have hlabel := List.find?_some h
  exact ⟨List.mem_reverse.mp hmem, by simpa using hlabel⟩

/-- Clearing erases what has the label. -/
theorem MemoryDiskIo.clearsOwn_iff :
    s.ClearsOwn ↔ ∀ st ∈ s.getAllStorages, (s.storages st).WellLabelled := by
  constructor
  · intro hclears st hst
    obtain ⟨entry, hentry, rfl⟩ := List.mem_map.mp hst
    by_cases hlabel : (s.storages entry.2).infoHash = ""
    · exact Or.inl hlabel
    · have hown := hclears ⟨_, hlabel⟩ entry hentry (by simp [MemoryDiskIo.clearTorrent])
      exact Or.inr (by rw [hown])
  · intro hall infoHash entry hentry herased
    have hlabel : (s.storages entry.2).infoHash = infoHash.val := by
      by_contra hne
      exact herased (List.mem_filter.mpr ⟨hentry, by simpa using hne⟩)
    rcases hall entry.2 (List.mem_map_of_mem hentry) with hnone | hown
    · exact absurd (hlabel.symm.trans hnone) infoHash.property
    · exact Subtype.ext (hown.symm.trans hlabel)

/-- Labels stay right exactly if the storage that is labelled gets its own hash. -/
theorem MemoryDiskIo.clearsOwn_label (h : ∀ st, (s.storages st).WellLabelled)
    (infoHash : InfoHash) :
    (s.labelLastUnlabeledStorage infoHash).ClearsOwn ↔ LabelsOwn s (.label infoHash) := by
  rw [MemoryDiskIo.clearsOwn_iff]
  cases hlast : s.lastUnlabeled with
  | none => simpa [MemoryDiskIo.labelLastUnlabeledStorage, LabelsOwn, hlast] using fun st _ => h st
  | some st =>
    obtain ⟨hmem, -⟩ := s.lastUnlabeled_spec hlast
    simp only [MemoryDiskIo.labelLastUnlabeledStorage, LabelsOwn, hlast, Option.mem_some_iff,
      forall_eq']
    constructor
    · intro hall
      have hst := hall st hmem
      simp only [MemoryDiskIo.setStorage, Function.update_self] at hst
      rcases hst with hnone | hown
      · exact absurd hnone infoHash.property
      · exact Subtype.ext hown.symm
    · intro hown st' _
      by_cases hst : st' = st
      · subst hst
        exact Or.inr (by simp [MemoryDiskIo.setStorage, hown])
      · simpa [MemoryDiskIo.setStorage, hst] using h st'

/-- What the read finds is the piece of a storage that has the hash it looks for. -/
theorem MemoryDiskIo.found_spec {read : DirectRead} {result : ℕ × List UInt8}
    (h : s.found read = some result) :
    (s.storages result.1).infoHash = read.infoHash.val ∧
      (s.storages result.1).pieces read.piece = some result.2 := by
  unfold MemoryDiskIo.found at h
  split at h
  · cases h
  · next st rest _ =>
    split at h
    · next hlabel =>
      obtain ⟨data, hdata, rfl⟩ := Option.map_eq_some_iff.mp h
      exact ⟨hlabel, hdata⟩
    · cases h

/-- The storages are in order. -/
structure MemoryDiskIo.InOrder (s : MemoryDiskIo) : Prop where
  overlaid : ∀ st, (s.storages st).Overlaid
  labels : ∀ st, (s.storages st).WellLabelled

/-- A step that meets the condition keeps the storages in order. -/
theorem MemoryDiskIo.InOrder.step (h : s.InOrder) {a : Action} (ha : LabelsOwn s a) :
    (a.effect s).InOrder := by
  constructor
  · refine a.forall_storages h.overlaid Storage.overlaid_new (fun st op hst => hst.apply op) ?_
    intro infoHash st _ _
    exact h.overlaid st
  · refine a.forall_storages h.labels (fun torrent => Or.inl (by simp [Storage.new])) ?_ ?_
    · intro st op hst
      simpa [Storage.WellLabelled] using hst
    · intro infoHash st heq hlast
      subst heq
      exact Or.inr (by simp [ha st hlast])

/-- **One step.**  From storages in order, a step keeps torrents apart if and only if it meets
the condition. -/
theorem MemoryDiskIo.InOrder.apart_iff (h : s.InOrder) (a : Action) :
    (a.effect s).ClearsOwn ∧ a.ReturnsOwn s ↔ LabelsOwn s a := by
  constructor
  · intro ⟨hclears, hreturns⟩
    cases a with
    | label infoHash => exact (s.clearsOwn_label h.labels infoHash).mp hclears
    | readNext =>
      intro read hread result hresult
      obtain ⟨-, hdata⟩ := s.found_spec hresult
      have hwritten := (hreturns read hread result hresult).2
      exact ((h.overlaid result.1).hasWritten_iff hdata).mp hwritten
    | newTorrent _ | removeTorrent _ | clearTorrent _ | getStorage _ _ _ | runJob _
    | readPieceDirect _ _ => trivial
  · intro ha
    refine ⟨MemoryDiskIo.clearsOwn_iff.mpr fun st _ => (h.step ha).labels st, ?_⟩
    cases a with
    | readNext =>
      intro read hread result hresult
      obtain ⟨hlabel, hdata⟩ := s.found_spec hresult
      refine ⟨?_, ((h.overlaid result.1).hasWritten_iff hdata).mpr (ha read hread result hresult)⟩
      rcases h.labels result.1 with hnone | hown
      · exact absurd (hlabel.symm.trans hnone) read.infoHash.property
      · exact Subtype.ext (hown.symm.trans hlabel)
    | newTorrent _ | removeTorrent _ | clearTorrent _ | label _ | getStorage _ _ _ | runJob _
    | readPieceDirect _ _ => trivial

end Steps

/-! ### The law -/

/-- Storages are in order in every run under the condition. -/
theorem MemoryDiskIo.inOrder_of_reach {s : MemoryDiskIo}
    (h : memoryDiskIo.Reach LabelsOwn .new s) : s.InOrder := by
  refine h.invariant ⟨fun st => ?_, fun st => ?_⟩ fun u a hu _ ha => hu.step ha
  · exact Storage.overlaid_new _
  · exact Or.inl (by simp [MemoryDiskIo.new, Storage.new])

/-- **Torrents are kept apart exactly as long as the condition is met.**  In every run whose
labels and reads meet the condition, clearing a torrent erases its own storages only, and the
next step keeps it so and returns nothing but what was written to the torrent's own storage if
and only if it meets the condition. -/
theorem torrents_apart {s : MemoryDiskIo} (h : memoryDiskIo.Reach LabelsOwn .new s) :
    s.ClearsOwn ∧
      ∀ a : Action, a.guard s → ((a.effect s).ClearsOwn ∧ a.ReturnsOwn s ↔ LabelsOwn s a) := by
  have horder := MemoryDiskIo.inOrder_of_reach h
  exact ⟨MemoryDiskIo.clearsOwn_iff.mpr fun st _ => horder.labels st,
    fun a _ => horder.apart_iff a⟩

/-- A torrent. -/
def torrentA : InfoHash := ⟨"a", by decide⟩

/-- Another torrent. -/
def torrentB : InfoHash := ⟨"b", by decide⟩

/-- Two torrents obtain their metadata, and each is labelled before the other comes. -/
theorem torrents_apart_labelled :
    ∃ s, memoryDiskIo.Reach LabelsOwn .new s ∧
      (s.getAllStorages.map fun st => (s.storages st).infoHash) = ["a", "b"] ∧ s.ClearsOwn := by
  obtain ⟨s, hs, hlabels⟩ :
      ∃ s, memoryDiskIo.Reach LabelsOwn .new s ∧
        (s.getAllStorages.map fun st => (s.storages st).infoHash) = ["a", "b"] :=
    GuardedSystem.exists_reach_of_exec
      [Action.newTorrent torrentA, .label torrentA, .getStorage 0 0 (.write 0 ⟨0, [7]⟩), .runJob 0,
        .newTorrent torrentB, .label torrentB, .readPieceDirect torrentA 0, .readNext]
      (by decide)
  exact ⟨s, hs, hlabels, (torrents_apart hs).1⟩

/-- Two torrents obtain their metadata, then a reader of the first comes: it reads what has
been written for the second, which is erased when the first is cleared. -/
theorem torrents_mixed :
    ∃ s, memoryDiskIo.Reach GuardedSystem.anyStep .new s ∧
      (s.read = some ⟨torrentA, 0, [1]⟩ ∧ s.found ⟨torrentA, 0, [1]⟩ = some (1, [7]) ∧
        (s.storages 1).torrent = torrentB ∧ s.getAllStorages = [0, 1] ∧
        (s.clearTorrent torrentA).getAllStorages = [0]) :=
  GuardedSystem.exists_reach_of_exec
    [Action.newTorrent torrentA, .newTorrent torrentB, .label torrentA,
      .getStorage 0 1 (.write 0 ⟨0, [7]⟩), .runJob 0, .readPieceDirect torrentA 0, .readNext]
    (by decide)

end StreamServer.Memory

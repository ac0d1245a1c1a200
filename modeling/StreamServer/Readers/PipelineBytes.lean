import StreamServer.Readers.Agreement
import StreamServer.Readers.Pipeline

/-!
# What the readers of a memory-only session hand out

A piece goes through many hands before a reader has it, and what they hold may be the beginning of
it only: a file that is being written is read as far as it has got, and goes into the piece cache
like that.  So a reader may be given less than it asks for, and takes that for the end of its file.
It is never given anything else, and without a disk cache nothing is missing.

## Main definitions

* `IsPart` — the beginning of a piece, or all of it.
* `FileStream.Holds`, `Stream.Right`, `Pipeline.Right` — the invariant, from the reader up.

## Main results

* `FileStream.pollRead_hands` — what a poll comes to if the caches have beginnings of pieces.
* `Pipeline.Right.step` — **every step preserves the invariant.**
-/

namespace StreamServer.Readers

/-- The beginning of a piece, and all of it if the caches are whole. -/
def IsPart (whole : Prop) (data piece : List UInt8) : Prop := data <+: piece ∧ (whole → data = piece)

theorem isPart_self (whole : Prop) (data : List UInt8) : IsPart whole data data :=
  ⟨List.prefix_refl data, fun _ => rfl⟩

/-- What every entry of a table meets, it meets after a change to one that meets it. -/
theorem forall_update {α β : Type} [DecidableEq α] {f : α → Option β} {Q : α → β → Prop} {a : α}
    {value : Option β} (hf : ∀ x y, f x = some y → Q x y) (hvalue : ∀ y, value = some y → Q a y) :
    ∀ x y, Function.update f a value x = some y → Q x y := by
  intro x y hxy
  rcases eq_or_ne x a with rfl | hne
  · rw [Function.update_self] at hxy
    exact hvalue y hxy
  · rw [Function.update_of_ne hne] at hxy
    exact hf x y hxy

/-- Bytes that a read hands out at a position, into a buffer with so much room. -/
def Served.Right (whole : Prop) (L : FileLayout) (x : Served) : Prop :=
  x.bytes = stretch L.fileByte x.position x.bytes.length ∧ x.bytes.length ≤ x.room ∧
    (whole → x.bytes = [] → 0 < x.room → L.fileSize ≤ x.position)

/-! ### The reader -/

namespace FileStream

variable {whole : Prop} {L : FileLayout} {s u : FileStream} {i : MemoryInput}

/-- The reader's own copy is part of its piece. -/
def Holds (whole : Prop) (L : FileLayout) (s : FileStream) : Prop :=
  ∀ piece data, s.cachedPieceData = some (piece, data) →
    IsPart whole data (L.pieceBytes piece.toNat)

/-- What the caches answer is part of the piece of a position. -/
structure Gives (whole : Prop) (piece : List UInt8) (i : MemoryInput) : Prop where
  cached : ∀ data, i.cached = some data → IsPart whole data piece
  lookup : ∀ data, i.lookup = .found data → IsPart whole data piece

/-- A poll moves on by what it hands out, and not at all if it hands out nothing. -/
def Hands (whole : Prop) (L : FileLayout) (pos room : ℕ) (r : FileStream × ReadPoll) : Prop :=
  match r.2 with
  | .pending | .ready (.error _) => r.1.currentPos = pos
  | .ready (.ok bytes) =>
      Served.Right whole L ⟨pos, room, bytes⟩ ∧ r.1.currentPos = pos + bytes.length

/-- The reader is as it should be after a poll. -/
def Polled (whole : Prop) (L : FileLayout) (pos room : ℕ) (r : FileStream × ReadPoll) : Prop :=
  r.1.Holds whole L ∧ Hands whole L pos room r

/-- **Part of a piece is handed out.** -/
theorem serve_hands (h : s.Holds whole L) (hpos : s.currentPos < L.fileSize)
    {data : List UInt8} (hdata : IsPart whole data (L.pieceBytes (L.pieceOf s.currentPos)))
    (piece : ℤ) : Polled whole L s.currentPos i.remaining (s.serve L i piece data) := by
  have hfits := L.fits
  obtain ⟨hstart, hstop⟩ := L.pieceOf_spec s.currentPos
  have hoffset : (L.fileOffset + s.currentPos) % L.pieceLength =
      L.fileOffset + s.currentPos - L.pieceOf s.currentPos * L.pieceLength := by
    rw [Nat.mod_eq_sub_mul_div, Nat.mul_comm]
    rfl
  have hlength := L.length_pieceBytes (L.pieceOf s.currentPos)
  set off := L.fileOffset + s.currentPos - L.pieceOf s.currentPos * L.pieceLength with hoff
  set whole' := L.pieceBytes (L.pieceOf s.currentPos) with hwhole
  have hlen : data.length ≤ whole'.length := hdata.1.length_le
  -- there is a byte of the whole piece at the position
  have hinside : off < whole'.length := by omega
  obtain ⟨n, hn⟩ : ∃ n, n = min (min i.remaining (data.length - off)) (L.fileSize - s.currentPos) :=
    ⟨_, rfl⟩
  have hslice : (data.drop off).take n = stretch L.fileByte s.currentPos n := by
    have hroom : off + n ≤ whole'.length := by omega
    have hshort : n ≤ (data.drop off).length := by
      rw [List.length_drop]
      omega
    rw [← FileLayout.slice_pieceBytes hroom]
    exact ((hdata.1.drop off).take n).eq_of_length (by
      rw [List.length_take, List.length_take, List.length_drop, List.length_drop]
      omega)
  have hright : Served.Right whole L ⟨s.currentPos, i.remaining, stretch L.fileByte s.currentPos n⟩ := by
    refine ⟨by rw [length_stretch], ?_, fun hw hnil hroom => ?_⟩
    · dsimp only
      rw [length_stretch]
      omega
    · have hall := congrArg List.length (hdata.2 hw)
      dsimp only at hnil hroom ⊢
      rw [stretch_eq_nil] at hnil
      omega
  simp only [Polled, serve, Hands, hoffset, ← hn, hslice]
  exact ⟨h, hright, by rw [length_stretch]⟩

/-- A piece that is awaited leaves the reader where it is. -/
theorem awaitPiece_hands (h : s.Holds whole L) (piece : ℤ) (room : ℕ) :
    Polled whole L s.currentPos room (s.awaitPiece i piece) := by
  unfold awaitPiece
  split
  · exact ⟨h, rfl⟩
  · split
    · split
      · exact ⟨h, rfl⟩
      · exact ⟨h, rfl⟩
    · split
      · exact ⟨h, rfl⟩
      · exact ⟨h, rfl⟩

theorem pollLookup_hands (h : s.Holds whole L)
    (hi : Gives whole (L.pieceBytes (L.pieceOf s.currentPos)) i) (room : ℕ) :
    Polled whole L s.currentPos room (s.pollLookup i (L.pieceOf s.currentPos)) := by
  have hgone : ∀ miss, Polled whole L s.currentPos room
      (awaitPiece { s with diskLookup := none, diskLookupMiss := miss } i
        (L.pieceOf s.currentPos)) := fun miss =>
    awaitPiece_hands (s := { s with diskLookup := none, diskLookupMiss := miss }) h _ _
  unfold pollLookup
  split
  · exact awaitPiece_hands h _ _
  · split
    · next data hdata =>
      refine ⟨fun piece data' hcached => ?_, rfl⟩
      simp only [Option.some.injEq, Prod.mk.injEq] at hcached
      obtain ⟨rfl, rfl⟩ := hcached
      rw [Int.toNat_natCast]
      exact hi.lookup data hdata
    · exact hgone _
    · exact ⟨h, rfl⟩
    · exact hgone _
    · exact awaitPiece_hands h _ _

/-- The reader's own copy of a piece. -/
theorem cachedData_eq_some {piece : ℤ} {data : List UInt8} (h : s.cachedData piece = some data) :
    s.cachedPieceData = some (piece, data) := by
  unfold cachedData at h
  split at h
  · next piece' data' hcached =>
    split at h
    · next hsame => rw [hcached, hsame, Option.some.inj h]
    · cases h
  · cases h

theorem readPiece_hands (h : s.Holds whole L) (hpos : s.currentPos < L.fileSize)
    (hi : Gives whole (L.pieceBytes (L.pieceOf s.currentPos)) i) :
    Polled whole L s.currentPos i.remaining (s.readPiece L i (L.pieceOf s.currentPos)) := by
  unfold readPiece
  rw [if_neg (by omega)]
  split
  · next data hdata =>
    have hpart := h _ _ (cachedData_eq_some hdata)
    rw [Int.toNat_natCast] at hpart
    exact serve_hands h hpos hpart _
  · split
    · next data hdata =>
      refine serve_hands (s := { s with
        cachedPieceData := some ((L.pieceOf s.currentPos : ℤ), data)
        diskLookupMiss := none }) (fun piece data' hcached => ?_) hpos (hi.cached data hdata) _
      simp only [Option.some.injEq, Prod.mk.injEq] at hcached
      obtain ⟨rfl, rfl⟩ := hcached
      rw [Int.toNat_natCast]
      exact hi.cached data hdata
    · exact pollLookup_hands (s := s.startLookup (L.pieceOf s.currentPos)) h hi _

/-- **What a poll hands out**, unless it panics. -/
theorem pollRead_hands {checks : Bool} {r : FileStream × ReadPoll} (h : s.Holds whole L)
    (hi : s.currentPos < L.fileSize → Gives whole (L.pieceBytes (L.pieceOf s.currentPos)) i)
    (hr : s.pollRead checks L i = some r) : Polled whole L s.currentPos i.remaining r := by
  rcases pollRead_cases hr with ⟨-, rfl⟩ | ⟨-, hend, rfl⟩ | ⟨-, hpos, -, last, rfl⟩
  · exact ⟨h, rfl⟩
  · refine ⟨h, ⟨rfl, Nat.zero_le _, fun _ _ hroom => ?_⟩, rfl⟩
    rcases hend with hend | hend
    · exact hend
    · exact absurd hend (Nat.pos_iff_ne_zero.mp hroom)
  · rw [pieceIndex_eq hpos]
    exact readPiece_hands (s := { s with lastPrioritiesPiece := last }) h hpos (hi hpos)

/-- A seek forgets the reader's own copy. -/
theorem startSeek_holds {checks : Bool} {position : SeekFrom}
    (hu : s.startSeek checks L position = some u) : u.Holds whole L := by
  obtain ⟨pos, -, rfl⟩ := Option.map_eq_some_iff.mp hu
  intro piece data hcached
  cases hcached

theorem pollComplete_holds {checks : Bool} {p : Planning} {r : FileStream × ℕ}
    (h : s.Holds whole L) (hr : s.pollComplete checks L p = some r) : r.1.Holds whole L := by
  unfold pollComplete at hr
  split at hr
  · obtain ⟨u, hu, rfl⟩ := Option.map_eq_some_iff.mp hr
    obtain ⟨last, rfl⟩ := setPriorities_eq_some hu
    exact h
  · obtain rfl := Option.some.inj hr
    exact h

/-- What a poll puts into the cache is what the memory storage has. -/
theorem put_mem_followUps {data : List UInt8} (h : .put data ∈ s.followUps L i) :
    data = i.stored ∧ i.stored ≠ [] := by
  have hawait : ∀ u : FileStream, ∀ piece, .put data ∈ u.awaitFollowUps i piece →
      data = i.stored ∧ i.stored ≠ [] := by
    intro u piece hmem
    unfold awaitFollowUps at hmem
    split at hmem
    · simp at hmem
    · split at hmem
      · split at hmem
        · simp at hmem
        · next hne => exact ⟨by simpa using hmem, hne⟩
      · split at hmem
        · split at hmem
          · simp at hmem
          · next hne => exact ⟨by simpa using hmem, hne⟩
        · simp at hmem
  unfold followUps at h
  split at h
  · unfold lookupFollowUps at h
    split at h
    · exact hawait _ _ h
    · split at h
      · simp at h
      · simp at h
      all_goals exact hawait _ _ h
  · cases h

end FileStream

/-! ### A stream -/

section Invariant

variable {checks : Bool} {bytes : PieceKey → List UInt8} {config : PieceCacheConfig} {whole : Prop}

/-- A poll under way has been told the truth so far. -/
def Phase.Right (whole : Prop) (bytes : PieceKey → List UInt8) (st : Stream) : Phase → Prop
  | .resting | .waiting => True
  | .asking _ input => FileStream.Gives whole (bytes st.key) input
  | .following room rest reader result =>
      FileStream.Polled whole st.layout st.reader.currentPos room (reader, result) ∧
        ∀ data, .put data ∈ rest → data = bytes st.key

/-- A stream of a torrent: what it holds, and what it has handed out. -/
structure Stream.Right (whole : Prop) (bytes : PieceKey → List UInt8) (st : Stream) : Prop where
  describes : st.layout.Describes bytes st.infoHash
  holds : st.reader.Holds whole st.layout
  lookup : ∀ piece data, st.lookup = some (piece, .done (some data)) →
    IsPart whole data (bytes ⟨st.infoHash, piece⟩)
  phase : st.phase.Right whole bytes st
  served : ∀ x ∈ st.served, x.Right whole st.layout

namespace Stream

variable {st : Stream}

/-- Inside the file, the piece of the stream is the one that its position lies in. -/
theorem bytes_key (h : st.layout.Describes bytes st.infoHash)
    (hpos : st.reader.currentPos < st.layout.fileSize) :
    bytes st.key = st.layout.pieceBytes (st.layout.pieceOf st.reader.currentPos) := by
  rw [h, key, piece, FileStream.pieceIndex_eq hpos]

theorem right_new {infoHash : String} {L : FileLayout} (h : L.Describes bytes infoHash)
    (isComplete : Bool) (last : ℤ) :
    Stream.Right whole bytes
      ⟨infoHash, L, .new isComplete last, .resting, false, .none, none, []⟩ where
  describes := h
  holds := fun _ _ hcached => nomatch hcached
  lookup := fun _ _ hlookup => nomatch hlookup
  phase := trivial
  served := fun _ hx => nomatch hx

theorem Right.setWoken (h : st.Right whole bytes) (woken : Bool) :
    Stream.Right whole bytes { st with woken := woken } :=
  ⟨h.describes, h.holds, h.lookup, h.phase, h.served⟩

theorem Right.scheduleRetry (h : st.Right whole bytes) : st.scheduleRetry.Right whole bytes := by
  unfold Stream.scheduleRetry
  split
  · exact ⟨h.describes, h.holds, h.lookup, h.phase, h.served⟩
  · exact ⟨h.describes, h.holds, h.lookup, h.phase, h.served⟩
  · exact ⟨h.describes, h.holds, h.lookup, h.phase, h.served⟩

theorem Right.setLookup (h : st.Right whole bytes) {lookup : Option (ℤ × Lookup)}
    (hlookup : ∀ piece data, lookup = some (piece, .done (some data)) →
      IsPart whole data (bytes ⟨st.infoHash, piece⟩)) :
    Stream.Right whole bytes { st with lookup := lookup } :=
  ⟨h.describes, h.holds, hlookup, h.phase, h.served⟩

theorem Right.startLookup (h : st.Right whole bytes) : st.startLookup.Right whole bytes := by
  unfold Stream.startLookup
  split
  · exact h.setLookup fun _ _ hlookup => nomatch hlookup
  · split
    · exact h
    · exact h.setLookup fun _ _ hlookup => nomatch hlookup

/-- A stream whose poll goes on. -/
theorem Right.setPhase (h : st.Right whole bytes) {phase : Phase} (hphase : phase.Right whole bytes st) :
    Stream.Right whole bytes { st with phase := phase } :=
  ⟨h.describes, h.holds, h.lookup, hphase, h.served⟩

/-- Between polls the reader may be taken elsewhere. -/
theorem Right.setReader (h : st.Right whole bytes) (hstill : st.Still) {reader : FileStream}
    (hreader : reader.Holds whole st.layout) :
    Stream.Right whole bytes { st with reader := reader } := by
  refine ⟨h.describes, hreader, h.lookup, ?_, h.served⟩
  rcases hstill with hphase | hphase <;>
  · dsimp only
    rw [hphase]
    trivial

theorem startLookup_key (st : Stream) : st.startLookup.key = st.key := by
  unfold Stream.startLookup
  split
  · rfl
  · split <;> rfl

/-- What the poll of the lookup has found is part of the piece. -/
theorem Right.lookupPoll (h : st.Right whole bytes) {data : List UInt8}
    (hdata : st.lookupPoll = .found data) : IsPart whole data (bytes st.key) := by
  unfold Stream.lookupPoll at hdata
  split at hdata
  · next piece lookup hlookup =>
    split at hdata
    · next hpiece =>
      cases lookup with
      | done found =>
        cases found with
        | some data' =>
          obtain rfl : data' = data := LookupPoll.found.inj hdata
          have hpart := h.lookup piece data' hlookup
          rwa [hpiece] at hpart
        | none => cases hdata
      | started => cases hdata
      | missed => cases hdata
    · cases hdata
  · cases hdata

/-- **A poll that returns** has handed out bytes of the file, if any. -/
theorem Right.finish (h : st.Right whole bytes) {room : ℕ} {reader : FileStream} {result : ReadPoll}
    (hpolled : FileStream.Polled whole st.layout st.reader.currentPos room (reader, result)) :
    (st.finish room reader result).Right whole bytes where
  describes := h.describes
  holds := hpolled.1
  lookup := by
    intro piece data hlookup
    dsimp only [Stream.finish] at hlookup
    split at hlookup
    · cases hlookup
    · exact h.lookup piece data hlookup
  phase := by
    dsimp only [Stream.finish]
    split <;> trivial
  served := by
    intro x hx
    match result, hpolled, hx with
    | .ready (.ok data), hpolled, hx =>
      rcases List.mem_cons.mp hx with rfl | hx
      · exact hpolled.2.1
      · exact h.served x hx
    | .ready (.error _), _, hx => exact h.served x hx
    | .pending, _, hx => exact h.served x hx

end Stream

/-! ### All of them -/

/-- Wherever a piece is, it is itself, or its beginning. -/
structure Pipeline.Right (whole : Prop) (bytes : PieceKey → List UInt8) (p : Pipeline) : Prop where
  cache : ∀ key data, p.cache key = some data → IsPart whole data (bytes key)
  files : ∀ key data, p.files key = some data → data <+: bytes key
  writes : ∀ key data, (key, data) ∈ p.writes → data = bytes key
  errands : ∀ key data notifies, .put key data notifies ∈ p.errands → data = bytes key
  streams : ∀ i st, p.streams i = some st → st.Right whole bytes

namespace Pipeline

variable {p : Pipeline} {i n : ℕ} {st : Stream}

theorem right_new : Pipeline.new.Right whole bytes where
  cache := fun _ _ h => nomatch h
  files := fun _ _ h => nomatch h
  writes := fun _ _ h => nomatch h
  errands := fun _ _ _ h => nomatch h
  streams := fun _ _ h => nomatch h

theorem Right.setStream (h : p.Right whole bytes) (hst : st.Right whole bytes) :
    (p.setStream i st).Right whole bytes :=
  ⟨h.cache, h.files, h.writes, h.errands,
    forall_update h.streams fun _ hst' => Option.some.inj hst' ▸ hst⟩

theorem Right.dropStream (h : p.Right whole bytes) (i : ℕ) : (p.dropStream i).Right whole bytes :=
  ⟨h.cache, h.files, h.writes, h.errands, forall_update h.streams fun _ hst' => nomatch hst'⟩

theorem Right.goOn (h : p.Right whole bytes) {result : Option Stream}
    (hresult : ∀ st, result = some st → st.Right whole bytes) :
    (p.goOn i result).Right whole bytes := by
  cases result with
  | some st => exact h.setStream (hresult st rfl)
  | none => exact h.dropStream i

theorem Right.insert (h : p.Right whole bytes) {key : PieceKey} {data : List UInt8}
    (hdata : IsPart whole data (bytes key)) : (p.insert key data).Right whole bytes :=
  ⟨forall_update h.cache fun _ hd => Option.some.inj hd ▸ hdata, h.files, h.writes, h.errands,
    h.streams⟩

theorem Right.putPieceNow (h : p.Right whole bytes) {key : PieceKey} {data : List UInt8}
    (hdata : data = bytes key) : (p.putPieceNow config key data).Right whole bytes := by
  have hinsert : (p.insert key data).Right whole bytes := h.insert (hdata ▸ isPart_self whole data)
  refine ⟨hinsert.cache, hinsert.files, fun key' data' hmem => ?_, hinsert.errands, hinsert.streams⟩
  unfold Pipeline.putPieceNow at hmem
  dsimp only at hmem
  split at hmem
  · rcases List.mem_append.mp hmem with hmem | hmem
    · exact h.writes key' data' hmem
    · obtain ⟨rfl, rfl⟩ := Prod.mk.inj (List.mem_singleton.mp hmem)
      exact hdata
  · exact h.writes key' data' hmem

theorem Right.setFile (h : p.Right whole bytes) {key : PieceKey} {file : Option (List UInt8)}
    (hfile : ∀ data, file = some data → data <+: bytes key) :
    Pipeline.Right whole bytes { p with files := Function.update p.files key file } :=
  ⟨h.cache, forall_update h.files hfile, h.writes, h.errands, h.streams⟩

theorem Right.endWrite (h : p.Right whole bytes) (n : ℕ) :
    Pipeline.Right whole bytes { p with writes := p.writes.eraseIdx n } :=
  ⟨h.cache, h.files, fun key data hmem => h.writes key data (List.mem_of_mem_eraseIdx hmem), h.errands,
    h.streams⟩

theorem Right.setErrands (h : p.Right whole bytes) {errands : List Errand}
    (herrands : ∀ key data notifies, .put key data notifies ∈ errands →
      .put key data notifies ∈ p.errands ∨ data = bytes key) :
    Pipeline.Right whole bytes { p with errands := errands } := by
  refine ⟨h.cache, h.files, h.writes, fun key data notifies hmem => ?_, h.streams⟩
  rcases herrands key data notifies hmem with hmem | hdata
  · exact h.errands key data notifies hmem
  · exact hdata

theorem put_notMem_notifying {key key' : PieceKey} {k notifies : ℕ} {data : List UInt8} :
    .put key' data notifies ∉ (Errand.notifying key k).toList := by
  cases k <;> simp [Errand.notifying]

/-- What is left of the errands when one is over. -/
theorem put_mem_errands {key key' : PieceKey} {k notifies : ℕ} {data : List UInt8}
    (h : .put key' data notifies ∈ p.errands.eraseIdx n ++ (Errand.notifying key k).toList) :
    .put key' data notifies ∈ p.errands := by
  rcases List.mem_append.mp h with hmem | hmem
  · exact List.mem_of_mem_eraseIdx hmem
  · exact absurd hmem put_notMem_notifying

theorem Right.notifyPieceFinished (h : p.Right whole bytes) (key : PieceKey) :
    (p.notifyPieceFinished key).Right whole bytes where
  cache := h.cache
  files := h.files
  writes := h.writes
  errands := h.errands
  streams := by
    intro i st hst
    obtain ⟨st', hst', rfl⟩ := Option.map_eq_some_iff.mp hst
    have hright := h.streams i st' hst'
    split
    · exact hright.setWoken true
    · exact hright

/-- The memory storage has a piece as it was verified. -/
theorem readPieceDirect_eq {key : PieceKey} (h : p.readPieceDirect bytes key ≠ []) :
    p.readPieceDirect bytes key = bytes key := by
  unfold Pipeline.readPieceDirect at h ⊢
  split
  · rfl
  · next hnot => simp [hnot] at h

/-! ### Steps -/

theorem Right.runLookup (h : p.Right (config.diskCacheEnabled = false) bytes)
    (hst : p.streams i = some st) :
    (p.runLookup config i st).Right (config.diskCacheEnabled = false) bytes := by
  have hright := h.streams i st hst
  unfold Pipeline.runLookup
  split
  · next piece hlookup =>
    split
    · next data hcache =>
      apply h.setStream
      refine hright.setLookup fun piece' data' hdone => ?_
      simp only [Option.some.injEq, Prod.mk.injEq, Lookup.done.injEq] at hdone
      obtain ⟨rfl, rfl⟩ := hdone
      exact h.cache _ data hcache
    · exact h.setStream (hright.setLookup fun _ _ hdone => by simp at hdone)
  · next piece hlookup =>
    split
    · next hdisk =>
      split
      · next data hfile =>
        -- the file may not have been written to its end
        have hpart : IsPart (config.diskCacheEnabled = false) data (bytes ⟨st.infoHash, piece⟩) :=
          ⟨h.files _ data hfile, fun hoff => by simp [hdisk] at hoff⟩
        apply (h.insert hpart).setStream
        refine hright.setLookup fun piece' data' hdone => ?_
        simp only [Option.some.injEq, Prod.mk.injEq, Lookup.done.injEq] at hdone
        obtain ⟨rfl, rfl⟩ := hdone
        exact hpart
      · exact h.setStream (hright.setLookup fun _ _ hdone => by simp at hdone)
    · exact h.setStream (hright.setLookup fun _ _ hdone => by simp at hdone)
  · exact h

theorem Right.answer (h : p.Right whole bytes) (hst : p.streams i = some st) {next : Question}
    {input : MemoryInput} (hphase : st.phase = .asking next input) {broken : Option LookupPoll}
    (hbroken : ∀ poll, broken = some poll → poll = .aborted ∨ ∃ error, poll = .failed error) :
    (p.answer checks bytes i st broken input next).Right whole bytes := by
  have hright := h.streams i st hst
  have hgives : FileStream.Gives whole (bytes st.key) input := by
    have := hright.phase
    rwa [hphase] at this
  cases next with
  | cached =>
    apply h.setStream
    apply hright.setPhase
    exact ⟨fun data hdata => h.cache st.key data hdata, hgives.lookup⟩
  | startLookup =>
    dsimp only [Pipeline.answer]
    split
    · apply h.setStream
      apply hright.startLookup.setPhase
      change FileStream.Gives whole (bytes st.startLookup.key) input
      rwa [Stream.startLookup_key]
    · exact h.setStream (hright.setPhase hgives)
  -- an answer that breaks the lookup off brings no bytes
  | lookup =>
    apply h.setStream
    apply hright.setPhase
    refine ⟨hgives.cached, fun data hdata => ?_⟩
    cases hb : broken with
    | none =>
      rw [hb] at hdata
      exact hright.lookupPoll hdata
    | some poll =>
      rw [hb] at hdata
      obtain rfl : poll = .found data := hdata
      rcases hbroken _ hb with hpoll | ⟨error, hpoll⟩
      · cases hpoll
      · cases hpoll
  | havePiece => exact h.setStream (hright.setPhase ⟨hgives.cached, hgives.lookup⟩)
  -- the last answer: the reader goes on with what all of them brought
  | stored =>
    apply h.goOn
    intro st' hst'
    obtain ⟨r, hr, rfl⟩ := Option.map_eq_some_iff.mp hst'
    apply hright.setPhase
    refine ⟨FileStream.pollRead_hands hright.holds (fun hpos => ?_) hr, fun data hdata => ?_⟩
    · rw [← Stream.bytes_key hright.describes hpos]
      exact ⟨hgives.cached, hgives.lookup⟩
    · obtain ⟨rfl, hne⟩ := FileStream.put_mem_followUps hdata
      exact readPieceDirect_eq hne

theorem Right.follow (h : p.Right whole bytes) (hst : st.Right whole bytes) {followUp : FollowUp}
    (hput : ∀ data, followUp = .put data → data = bytes st.key) :
    (p.follow config i st followUp).Right whole bytes := by
  cases followUp with
  | put data => exact (h.putPieceNow (hput data rfl)).setStream hst
  | notify => exact (h.setStream hst).notifyPieceFinished st.key
  | register =>
    have hset : (p.setStream i st).Right whole bytes := h.setStream hst
    exact ⟨hset.cache, hset.files, hset.writes, hset.errands, hset.streams⟩
  | retry => exact h.setStream hst.scheduleRetry
  | wake => exact h.setStream (hst.setWoken true)

theorem Right.carry (h : p.Right whole bytes) {errand : Errand} (he : errand ∈ p.errands) :
    (p.carry config n errand).Right whole bytes := by
  cases errand with
  | put key data notifies =>
    exact (h.putPieceNow (h.errands key data notifies he)).setErrands
      fun _ _ _ hput => Or.inl (put_mem_errands hput)
  | notify key notifies =>
    exact (h.notifyPieceFinished key).setErrands fun _ _ _ hput => Or.inl (put_mem_errands hput)

/-- **What a stream does preserves the invariant.** -/
theorem Right.onStream (h : p.Right (config.diskCacheEnabled = false) bytes)
    (hst : p.streams i = some st) {a : Action} (hg : a.guard bytes config p)
    (ha : a.stream? = some i) :
    (a.onStream checks bytes config p i st).Right (config.diskCacheEnabled = false) bytes := by
  have hright := h.streams i st hst
  cases a with
  | dropStream j => exact h.dropStream i
  -- the piece that is held stays, so it is still right for the new position
  | startSeek j position =>
    apply h.goOn
    intro st' hst'
    obtain ⟨reader, hseek, rfl⟩ := Option.map_eq_some_iff.mp hst'
    obtain ⟨st₀, hst₀, hstill⟩ := hg
    obtain rfl : j = i := Option.some.inj ha
    obtain rfl : st = st₀ := Option.some.inj (hst.symm.trans hst₀)
    apply (hright.setReader hstill (FileStream.startSeek_holds hseek)).setLookup
    exact fun _ _ hlookup => nomatch hlookup
  | pollComplete j planning =>
    apply h.goOn
    intro st' hst'
    obtain ⟨r, hr, rfl⟩ := Option.map_eq_some_iff.mp hst'
    obtain ⟨st₀, hst₀, hstill⟩ := hg
    obtain rfl : j = i := Option.some.inj ha
    obtain rfl : st = st₀ := Option.some.inj (hst.symm.trans hst₀)
    exact hright.setReader hstill (FileStream.pollComplete_holds hright.holds hr)
  | elapse j =>
    exact h.setStream ⟨hright.describes, hright.holds, hright.lookup, hright.phase, hright.served⟩
  | runLookup j => exact h.runLookup hst
  -- a read begins without bytes: nothing has been looked up or served yet
  | pollRead j remaining now cancelled planning replanning =>
    apply h.setStream
    apply (hright.setWoken false).setPhase
    exact ⟨fun _ hcached => (nomatch hcached), fun _ hlookup => (nomatch hlookup)⟩
  | answer j broken =>
    dsimp only [Action.onStream]
    split
    · next next input hphase => exact h.answer hst hphase hg.2
    · exact h
  -- the bytes in the follow-up come from the phase, whose bytes are right
  | follow j =>
    dsimp only [Action.onStream]
    split
    · next room followUp rest reader result hphase =>
      have hfollowing := hright.phase
      rw [hphase] at hfollowing
      apply h.follow
      · exact hright.setPhase ⟨hfollowing.1, fun data hdata =>
          hfollowing.2 data (List.mem_cons_of_mem _ hdata)⟩
      · rintro data rfl
        exact hfollowing.2 data List.mem_cons_self
    · exact h
  | finish j =>
    dsimp only [Action.onStream]
    split
    · next room reader result hphase =>
      have hfollowing := hright.phase
      rw [hphase] at hfollowing
      exact h.setStream (hright.finish hfollowing.1)
    · exact h
  | _ => cases ha

/-- **Every step preserves the invariant.** -/
theorem Right.step (h : p.Right (config.diskCacheEnabled = false) bytes) {a : Action}
    (hg : a.guard bytes config p) :
    (a.effect checks bytes config p).Right (config.diskCacheEnabled = false) bytes := by
  -- the steps of a stream are one lemma, the others change what the streams share
  have hstream : ∀ i, a.stream? = some i →
      (p.withStream i (a.onStream checks bytes config p i)).Right
        (config.diskCacheEnabled = false) bytes := by
    intro i hi
    unfold Pipeline.withStream
    split
    · next st hst => exact h.onStream hst hg hi
    · exact h
  cases a with
  | setStored key stored => exact ⟨h.cache, h.files, h.writes, h.errands, h.streams⟩
  | setHavePiece key have_piece => exact ⟨h.cache, h.files, h.writes, h.errands, h.streams⟩
  | evict key =>
    exact ⟨forall_update h.cache fun _ hdata => (nomatch hdata), h.files, h.writes, h.errands,
      h.streams⟩
  | clearCache infoHash =>
    refine ⟨fun key data hdata => ?_, h.files, h.writes, h.errands, h.streams⟩
    apply h.cache key data
    simp only [Action.effect, Pipeline.clearCache] at hdata
    split at hdata
    · cases hdata
    · exact hdata
  | clearWaiters infoHash => exact ⟨h.cache, h.files, h.writes, h.errands, h.streams⟩
  | removeFile key => exact h.setFile fun _ hdata => nomatch hdata
  -- a write under way shows a prefix of its bytes in the file
  | write n size =>
    dsimp only [Action.effect]
    split
    · next key data hwrite =>
      apply h.setFile
      rintro data' hdata'
      obtain rfl := Option.some.inj hdata'
      rw [h.writes key data (List.mem_of_getElem? hwrite)]
      exact List.take_prefix size _
    · exact h
  | writeDone n =>
    dsimp only [Action.effect]
    split
    · next key data hwrite =>
      apply (h.setFile _).endWrite n
      rintro data' hdata'
      obtain rfl := Option.some.inj hdata'
      rw [h.writes key data (List.mem_of_getElem? hwrite)]
    · exact h
  | writeFailed n => exact h.endWrite n
  -- the courier takes what the storage holds: right bytes, or an errand without bytes
  | fetch courier key =>
    dsimp only [Action.effect]
    apply h.setErrands
    intro key' data notifies hput
    rcases List.mem_append.mp hput with hput | hput
    · exact Or.inl hput
    · right
      split at hput
      · exact absurd hput put_notMem_notifying
      · next hne =>
        simp only [List.mem_singleton, Errand.put.injEq] at hput
        obtain ⟨rfl, rfl, -⟩ := hput
        exact readPieceDirect_eq hne
  | carry n =>
    dsimp only [Action.effect]
    split
    · next errand he => exact h.carry (List.mem_of_getElem? he)
    · exact h
  -- a file of an earlier run is read only with the disk cache on
  | leftover key =>
    dsimp only [Action.effect]
    split
    · next data hfile =>
      exact h.insert ⟨h.files key data hfile, fun hoff => by simp [hg.1] at hoff⟩
    · exact h
  | openStream infoHash layout isComplete last =>
    have hset := h.setStream (i := p.streamCounter) (Stream.right_new hg isComplete last)
    exact ⟨hset.cache, hset.files, hset.writes, hset.errands, hset.streams⟩
  | dropStream i => exact hstream i rfl
  | startSeek i position => exact hstream i rfl
  | pollComplete i planning => exact hstream i rfl
  | elapse i => exact hstream i rfl
  | runLookup i => exact hstream i rfl
  | pollRead i remaining now cancelled planning replanning => exact hstream i rfl
  | answer i broken => exact hstream i rfl
  | follow i => exact hstream i rfl
  | finish i => exact hstream i rfl

theorem right_of_reach {C : Pipeline → Action → Prop}
    (h : (pipeline checks bytes config).Reach C .new p) :
    p.Right (config.diskCacheEnabled = false) bytes :=
  h.invariant right_new fun _ _ hp hg _ => hp.step hg

end Pipeline

end Invariant

end StreamServer.Readers

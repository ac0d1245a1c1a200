import StreamServer.Readers.PipelineWakeups

/-!
# Readers come to their bytes

Once the memory storage has the piece that a reader stands in, nobody else is needed: whatever state
the reader is in, by its own polls, which its timer brings about, it takes the piece into the cache
and hands out bytes of it.  Two polls are enough after the one that is under way, unless a lookup of
the disk cache comes in between.

## Main definitions

* `Own` — the steps of one stream, which is polled by its own task only.
* `CanDeliver` — the stream can come to hand out bytes at a position.

## Main results

* `FileStream.pollRead_awaits` — a poll that finds its piece in no cache brings it there.
* `Pipeline.canDeliver` — **a reader whose piece has been stored can go on by itself.**
-/

namespace StreamServer.Readers

/-! ### Polls -/

namespace FileStream

variable {checks : Bool} {L : FileLayout} {s : FileStream} {i : MemoryInput}

/-- Inside its file a reader that can plan does not panic. -/
theorem exists_pollRead (hpos : s.currentPos ≤ L.fileSize)
    (hfits : s.isComplete = false → i.Fits checks L) : ∃ r, s.pollRead checks L i = some r := by
  unfold pollRead
  split
  · exact ⟨_, rfl⟩
  · split
    · exact ⟨_, rfl⟩
    · obtain ⟨last, hlast⟩ := s.setPriorities_spec hpos fun h => (hfits h).planning
      rw [hlast, Option.bind_some]
      dsimp only
      split
      · exact ⟨_, rfl⟩
      · next p hp =>
        rw [replan_eq (s := { s with lastPrioritiesPiece := last }) fun h =>
          (hfits h).replanning p hp]
        exact ⟨_, rfl⟩

/-- A poll that gets as far as its piece. -/
theorem pollRead_eq {r : FileStream × ReadPoll} (hr : s.pollRead checks L i = some r)
    (hcurrent : i.cancelled = false) (hroom : 0 < i.remaining) (hpos : s.currentPos < L.fileSize) :
    ∃ last, r = ({ s with lastPrioritiesPiece := last } : FileStream).readPiece L i (s.pieceIndex L) := by
  rcases pollRead_cases hr with ⟨hcancelled, -⟩ | ⟨-, hdone, -⟩ | ⟨-, -, -, hread⟩
  · exact absurd (hcurrent.symm.trans hcancelled) Bool.false_ne_true
  · omega
  · exact hread

theorem pieceIndex_nonneg (hpos : s.currentPos < L.fileSize) : 0 ≤ s.pieceIndex L := by
  rw [pieceIndex_eq hpos]
  exact Int.natCast_nonneg _

/-- **A poll that finds its piece hands out bytes.** -/
theorem pollRead_found {r : FileStream × ReadPoll} (hr : s.pollRead checks L i = some r)
    (hcurrent : i.cancelled = false) (hroom : 0 < i.remaining) (hpos : s.currentPos < L.fileSize)
    (hfound : s.cachedData (s.pieceIndex L) ≠ none ∨ i.cached ≠ none) :
    ∃ bytes, r.2 = .ready (.ok bytes) := by
  obtain ⟨last, rfl⟩ := pollRead_eq hr hcurrent hroom hpos
  unfold readPiece
  rw [if_neg (not_lt.mpr (pieceIndex_nonneg hpos)),
    show ({ s with lastPrioritiesPiece := last } : FileStream).cachedData (s.pieceIndex L) =
      s.cachedData (s.pieceIndex L) from rfl]
  cases hown : s.cachedData (s.pieceIndex L) with
  | some data => exact ⟨_, rfl⟩
  | none =>
    cases hcached : i.cached with
    | some data => exact ⟨_, rfl⟩
    | none => exact absurd hfound (by simp [hown, hcached])

theorem put_mem_awaitFollowUps {piece : ℤ} (hhave : i.havePiece = true) (hstored : i.stored ≠ [])
    (hlong : ∀ requestedAt, s.requestedPieceViaApi piece = some requestedAt →
      rerequestDelay < i.now - requestedAt) : .put i.stored ∈ s.awaitFollowUps i piece := by
  unfold awaitFollowUps
  rw [if_neg (by simp [hhave])]
  split
  · simp [hstored]
  · next requestedAt hrequested =>
    rw [if_pos (hlong requestedAt hrequested), if_neg hstored]
    simp

/-- A piece that has been stored is brought into the cache, and served by a later poll. -/
theorem awaitPiece_pending (s : FileStream) (i : MemoryInput) (piece : ℤ) :
    (s.awaitPiece i piece).2 = .pending := by
  unfold awaitPiece
  split
  · rfl
  · split
    · split <;> rfl
    · split <;> rfl

/-- **A poll that does not find its piece** has the lookup's answer, or puts the piece into the
cache. -/
theorem pollRead_awaits {r : FileStream × ReadPoll} (hr : s.pollRead checks L i = some r)
    (hcurrent : i.cancelled = false) (hroom : 0 < i.remaining) (hpos : s.currentPos < L.fileSize)
    (hown : s.cachedData (s.pieceIndex L) = none) (hcached : i.cached = none)
    (hlookup : ∀ error, i.lookup ≠ .failed error) (hhave : i.havePiece = true)
    (hstored : i.stored ≠ []) (hlong : ∀ requestedAt,
      s.requestedPieceViaApi (s.pieceIndex L) = some requestedAt →
        rerequestDelay < i.now - requestedAt) :
    r.2 = .pending ∧
      (r.1.cachedData (s.pieceIndex L) ≠ none ∨ .put i.stored ∈ s.followUps L i) := by
  have hreach : s.ReachesLookup L i :=
    ⟨hcurrent, hpos, hroom.ne', pieceIndex_nonneg hpos, hown, hcached⟩
  have hput : .put i.stored ∈ (s.startLookup (s.pieceIndex L)).awaitFollowUps i (s.pieceIndex L) :=
    put_mem_awaitFollowUps hhave hstored hlong
  obtain ⟨last, rfl⟩ := pollRead_eq hr hcurrent hroom hpos
  unfold readPiece followUps
  rw [if_neg (not_lt.mpr (pieceIndex_nonneg hpos)), if_pos hreach,
    show ({ s with lastPrioritiesPiece := last } : FileStream).cachedData (s.pieceIndex L) = none
      from hown, hcached]
  unfold lookupFollowUps
  dsimp only
  by_cases hnone : (s.startLookup (s.pieceIndex L)).diskLookup = none
  · rw [if_pos hnone]
    refine ⟨?_, Or.inr hput⟩
    unfold pollLookup
    rw [if_pos (show (({ s with lastPrioritiesPiece := last } : FileStream).startLookup
      (s.pieceIndex L)).diskLookup = none from hnone)]
    exact awaitPiece_pending _ _ _
  · rw [if_neg hnone]
    unfold pollLookup
    rw [if_neg (show ¬ (({ s with lastPrioritiesPiece := last } : FileStream).startLookup
      (s.pieceIndex L)).diskLookup = none from hnone)]
    cases hl : i.lookup with
    | found data => exact ⟨rfl, Or.inl (by simp [cachedData])⟩
    | failed error => exact absurd hl (hlookup error)
    | missed => exact ⟨awaitPiece_pending _ _ _, Or.inr hput⟩
    | aborted => exact ⟨awaitPiece_pending _ _ _, Or.inr hput⟩
    | pending => exact ⟨awaitPiece_pending _ _ _, Or.inr hput⟩

end FileStream

/-! ### The steps of one stream -/

section Progress

variable {checks : Bool} {bytes : PieceKey → List UInt8} {config : PieceCacheConfig}

/-- A stream goes on by itself: its task polls it when it is awake, and its timer goes off. -/
def Own (i : ℕ) (p : Pipeline) : Action → Prop
  | .elapse j | .follow j | .finish j => j = i
  | .answer j broken => j = i ∧ broken = none
  | .pollRead j remaining _ cancelled _ _ =>
      j = i ∧ 0 < remaining ∧ cancelled = false ∧
        ∃ st, p.streams i = some st ∧ (st.phase = .resting ∨ st.woken = true)
  | _ => False

/-- The stream can come to hand out bytes at a position. -/
def CanDeliver (checks : Bool) (bytes : PieceKey → List UInt8) (config : PieceCacheConfig) (i pos : ℕ)
    (p : Pipeline) : Prop :=
  ∃ q st x, (pipeline checks bytes config).Reach (Own i) p q ∧ q.streams i = some st ∧
    x ∈ st.served ∧ x.position = pos ∧ x.bytes ≠ []

/-- The same stream, in the same place. -/
structure Stream.Like (st st' : Stream) : Prop where
  infoHash : st'.infoHash = st.infoHash
  layout : st'.layout = st.layout
  reader : st'.reader = st.reader
  served : st'.served = st.served

namespace Stream

variable {st st' st'' : Stream}

theorem Like.refl (st : Stream) : st.Like st := ⟨rfl, rfl, rfl, rfl⟩

theorem Like.trans (h : st.Like st') (h' : st'.Like st'') : st.Like st'' :=
  ⟨h'.infoHash.trans h.infoHash, h'.layout.trans h.layout, h'.reader.trans h.reader,
    h'.served.trans h.served⟩

theorem Like.key (h : st.Like st') : st'.key = st.key := by
  unfold Stream.key Stream.piece
  rw [h.infoHash, h.reader, h.layout]

/-- A poll that has not moved the reader leaves it at its piece. -/
theorem Like.finish_piece (h : st.Like st') (room : ℕ) {reader : FileStream} (result : ReadPoll)
    (hplace : reader.currentPos = st.reader.currentPos) :
    (st'.finish room reader result).piece = st.piece := by
  change reader.pieceIndex st'.layout = _
  rw [h.layout]
  unfold FileStream.pieceIndex Stream.piece FileStream.pieceIndex
  rw [hplace]

theorem Like.finish_key (h : st.Like st') (room : ℕ) {reader : FileStream} (result : ReadPoll)
    (hplace : reader.currentPos = st.reader.currentPos) :
    (st'.finish room reader result).key = st.key := by
  unfold Stream.key
  rw [h.finish_piece room result hplace,
    show (st'.finish room reader result).infoHash = st.infoHash from h.infoHash]

theorem like_startLookup (st : Stream) : st.Like st.startLookup := by
  unfold Stream.startLookup
  split
  · exact ⟨rfl, rfl, rfl, rfl⟩
  · split <;> exact ⟨rfl, rfl, rfl, rfl⟩

theorem like_scheduleRetry (st : Stream) : st.Like st.scheduleRetry := by
  unfold Stream.scheduleRetry
  split <;> exact ⟨rfl, rfl, rfl, rfl⟩

/-- The poll of a lookup does not fail by itself. -/
theorem lookupPoll_ne_failed (st : Stream) (error : IoError) : st.lookupPoll ≠ .failed error := by
  unfold Stream.lookupPoll
  split
  · next piece lookup hlookup =>
    split
    · cases lookup with
      | done found => cases found <;> simp [Lookup.poll]
      | started => simp [Lookup.poll]
      | missed => simp [Lookup.poll]
    · simp
  · simp

end Stream

/-- The reader can plan: one can count beyond its last piece, and the numbers fit in a poll under way
of a file that is not complete. -/
structure Stream.Plans (checks : Bool) (st : Stream) : Prop where
  last : st.layout.lastPiece < 2 ^ 31 - 1
  asking : ∀ {next input}, st.phase = .asking next input → st.reader.isComplete = false →
    input.Fits checks st.layout

namespace Pipeline

variable {p q : Pipeline} {i pos : ℕ} {st : Stream}

theorem setStream_self (p : Pipeline) (i : ℕ) (st : Stream) : (p.setStream i st).streams i = some st :=
  Function.update_self ..

theorem setStream_setStream (p : Pipeline) (i : ℕ) (st st' : Stream) :
    (p.setStream i st).setStream i st' = p.setStream i st' := by
  simp [Pipeline.setStream]

/-- What an action about a stream does. -/
theorem effect_eq_onStream {a : Action} (ha : a.stream? = some i) (hst : p.streams i = some st) :
    a.effect checks bytes config p = a.onStream checks bytes config p i st := by
  have hwith : a.effect checks bytes config p =
      p.withStream i (a.onStream checks bytes config p i) := by
    cases a with
    | dropStream j | startSeek j position | pollComplete j planning | elapse j | runLookup j
    | pollRead j remaining now cancelled planning replanning | answer j broken | follow j | finish j =>
      obtain rfl : j = i := Option.some.inj ha
      rfl
    | _ => cases ha
  rw [hwith, Pipeline.withStream, hst]

/-- One more step of the stream. -/
theorem reach_own {a : Action} {p₀ : Pipeline}
    (h : (pipeline checks bytes config).Reach (Own i) p₀ p) (hg : a.guard bytes config p)
    (hc : Own i p a) (ha : a.stream? = some i) (hst : p.streams i = some st) :
    (pipeline checks bytes config).Reach (Own i) p₀ (a.onStream checks bytes config p i st) := by
  rw [← effect_eq_onStream ha hst]
  exact h.step hg hc

/-! ### A poll takes its answers -/

/-- What a poll has been told in the end, if its answers from a question on are still to come. -/
structure Told (bytes : PieceKey → List UInt8) (p : Pipeline) (key : PieceKey) (next : Question)
    (input input' : MemoryInput) : Prop where
  remaining : input'.remaining = input.remaining
  cancelled : input'.cancelled = input.cancelled
  now : input'.now = input.now
  cached : input'.cached = if next = .cached then p.cache key else input.cached
  lookup : ∀ error, input'.lookup = .failed error → input.lookup = .failed error
  havePiece : input'.havePiece = if next = .stored then input.havePiece else p.havePiece key
  stored : input'.stored = p.readPieceDirect bytes key

/-- The stream `i` has taken all its answers, and knows what the poll comes to. -/
def Decides (checks : Bool) (bytes : PieceKey → List UInt8) (config : PieceCacheConfig) (i : ℕ)
    (p : Pipeline) (st : Stream) (next : Question) (input : MemoryInput) : Prop :=
  ∃ st' input' r, st.Like st' ∧ Told bytes p st.key next input input' ∧
    st.reader.pollRead checks st.layout input' = some r ∧
    st'.phase = .following input'.remaining (st.reader.followUps st.layout input') r.1 r.2 ∧
    (pipeline checks bytes config).Reach (Own i) p (p.setStream i st')

/-- One answer. -/
theorem reach_answer (hst : p.streams i = some st) {next : Question} {input : MemoryInput}
    (hphase : st.phase = .asking next input) :
    (pipeline checks bytes config).Reach (Own i) p (p.answer checks bytes i st none input next) := by
  have hg : (Action.answer i none).guard bytes config p :=
    ⟨⟨st, next, input, hst, hphase⟩, fun _ hnone => nomatch hnone⟩
  have hstep : (pipeline checks bytes config).Reach (Own i) p _ :=
    reach_own (.refl p) hg ⟨rfl, rfl⟩ rfl hst
  dsimp only [Action.onStream] at hstep
  rwa [hphase] at hstep

/-- **A poll that goes on from a question to the next.** -/
theorem Decides.of_next {st' : Stream} {next next' : Question} {input input' : MemoryInput}
    (hreach : (pipeline checks bytes config).Reach (Own i) p (p.setStream i st'))
    (hlike : st.Like st')
    (h : Decides checks bytes config i (p.setStream i st') st' next' input')
    (htold : ∀ input'', Told bytes p st.key next' input' input'' →
      Told bytes p st.key next input input'') :
    Decides checks bytes config i p st next input := by
  obtain ⟨st'', input'', r, hlike', htold', hr, hphase, hreach'⟩ := h
  rw [hlike.reader, hlike.layout] at hr hphase
  rw [hlike.key] at htold'
  refine ⟨st'', input'', r, hlike.trans hlike', htold input'' ?_, hr, hphase, ?_⟩
  · exact ⟨htold'.remaining, htold'.cancelled, htold'.now, htold'.cached, htold'.lookup,
      htold'.havePiece, htold'.stored⟩
  · rw [setStream_setStream] at hreach'
    exact hreach.trans hreach'

theorem decides_stored (hst : p.streams i = some st) {input : MemoryInput}
    (hphase : st.phase = .asking .stored input)
    (hpos : st.reader.currentPos ≤ st.layout.fileSize)
    (hfits : st.reader.isComplete = false → input.Fits checks st.layout) :
    Decides checks bytes config i p st .stored input := by
  have hreach : (pipeline checks bytes config).Reach (Own i) p _ := reach_answer hst hphase
  dsimp only [Pipeline.answer] at hreach
  have hpoll : ∃ r, st.reader.pollRead checks st.layout
      { input with stored := p.readPieceDirect bytes st.key } = some r :=
    FileStream.exists_pollRead hpos fun h => ⟨(hfits h).planning, (hfits h).replanning⟩
  obtain ⟨r, hr⟩ := hpoll
  rw [hr] at hreach
  refine ⟨_, _, r, ?_, ?_, hr, ?_, hreach⟩
  · exact ⟨rfl, rfl, rfl, rfl⟩
  · exact ⟨rfl, rfl, rfl, rfl, fun _ h => h, rfl, rfl⟩
  · rfl

theorem decides_havePiece (hst : p.streams i = some st) {input : MemoryInput}
    (hphase : st.phase = .asking .havePiece input)
    (hpos : st.reader.currentPos ≤ st.layout.fileSize)
    (hfits : st.reader.isComplete = false → input.Fits checks st.layout) :
    Decides checks bytes config i p st .havePiece input :=
  Decides.of_next (reach_answer hst hphase) ⟨rfl, rfl, rfl, rfl⟩
    (decides_stored (setStream_self ..) rfl hpos
      fun h => ⟨(hfits h).planning, (hfits h).replanning⟩)
    fun _ h => ⟨h.remaining, h.cancelled, h.now, h.cached, h.lookup, h.havePiece, h.stored⟩

theorem decides_lookup (hst : p.streams i = some st) {input : MemoryInput}
    (hphase : st.phase = .asking .lookup input)
    (hpos : st.reader.currentPos ≤ st.layout.fileSize)
    (hfits : st.reader.isComplete = false → input.Fits checks st.layout) :
    Decides checks bytes config i p st .lookup input :=
  Decides.of_next (reach_answer hst hphase) ⟨rfl, rfl, rfl, rfl⟩
    (decides_havePiece (setStream_self ..) rfl hpos
      fun h => ⟨(hfits h).planning, (hfits h).replanning⟩)
    fun _ h => ⟨h.remaining, h.cancelled, h.now, h.cached,
      fun error herror => absurd (h.lookup error herror) (st.lookupPoll_ne_failed error),
      h.havePiece, h.stored⟩

theorem decides_startLookup (hst : p.streams i = some st) {input : MemoryInput}
    (hphase : st.phase = .asking .startLookup input)
    (hpos : st.reader.currentPos ≤ st.layout.fileSize)
    (hfits : st.reader.isComplete = false → input.Fits checks st.layout) :
    Decides checks bytes config i p st .startLookup input := by
  have hreach : (pipeline checks bytes config).Reach (Own i) p _ := reach_answer hst hphase
  have hnext : ∀ st' : Stream, st.Like st' → (pipeline checks bytes config).Reach (Own i) p
      (p.setStream i { st' with phase := .asking .lookup input }) →
      Decides checks bytes config i p st .startLookup input := by
    intro st' hlike hreach'
    have hlike' : st.Like { st' with phase := .asking .lookup input } :=
      ⟨hlike.infoHash, hlike.layout, hlike.reader, hlike.served⟩
    refine Decides.of_next hreach' hlike' (decides_lookup (setStream_self ..) rfl ?_ ?_)
      fun _ h => ⟨h.remaining, h.cancelled, h.now, h.cached, h.lookup, h.havePiece, h.stored⟩
    · rw [hlike'.reader, hlike'.layout]
      exact hpos
    · rw [hlike'.reader, hlike'.layout]
      exact hfits
  dsimp only [Pipeline.answer] at hreach
  split at hreach
  · exact hnext _ st.like_startLookup hreach
  · exact hnext st (.refl st) hreach

theorem decides_cached (hst : p.streams i = some st) {input : MemoryInput}
    (hphase : st.phase = .asking .cached input)
    (hpos : st.reader.currentPos ≤ st.layout.fileSize)
    (hfits : st.reader.isComplete = false → input.Fits checks st.layout) :
    Decides checks bytes config i p st .cached input :=
  Decides.of_next (reach_answer hst hphase) ⟨rfl, rfl, rfl, rfl⟩
    (decides_startLookup (setStream_self ..) rfl hpos
      fun h => ⟨(hfits h).planning, (hfits h).replanning⟩)
    fun _ h => ⟨h.remaining, h.cancelled, h.now, h.cached, h.lookup, h.havePiece, h.stored⟩

/-- **A poll under way comes to know its result.** -/
theorem decides (checks : Bool) (bytes : PieceKey → List UInt8) (config : PieceCacheConfig)
    (hst : p.streams i = some st) {next : Question} {input : MemoryInput}
    (hphase : st.phase = .asking next input) (hpos : st.reader.currentPos ≤ st.layout.fileSize)
    (hfits : st.reader.isComplete = false → input.Fits checks st.layout) :
    Decides checks bytes config i p st next input := by
  cases next with
  | cached => exact decides_cached hst hphase hpos hfits
  | startLookup => exact decides_startLookup hst hphase hpos hfits
  | lookup => exact decides_lookup hst hphase hpos hfits
  | havePiece => exact decides_havePiece hst hphase hpos hfits
  | stored => exact decides_stored hst hphase hpos hfits

/-! ### A poll comes to its end -/

/-- What the own steps of a stream leave as it is, and what they add. -/
structure Onward (p p' : Pipeline) (key : PieceKey) : Prop where
  havePiece : p'.havePiece = p.havePiece
  stored : p'.stored = p.stored
  cache : p.cache key ≠ none → p'.cache key ≠ none

theorem Onward.refl (p : Pipeline) (key : PieceKey) : p.Onward p key := ⟨rfl, rfl, id⟩

theorem Onward.trans {p p' p'' : Pipeline} {key : PieceKey} (h : p.Onward p' key)
    (h' : p'.Onward p'' key) : p.Onward p'' key :=
  ⟨h'.havePiece.trans h.havePiece, h'.stored.trans h.stored, fun hc => h'.cache (h.cache hc)⟩

/-- **One follow-up.** -/
theorem follow_spec (config : PieceCacheConfig) (p : Pipeline) (i : ℕ) (st : Stream)
    (followUp : FollowUp) :
    ∃ st', (p.follow config i st followUp).streams i = some st' ∧ st.Like st' ∧
      st'.phase = st.phase ∧ p.Onward (p.follow config i st followUp) st.key ∧
      ∀ data, followUp = .put data → (p.follow config i st followUp).cache st.key ≠ none := by
  cases followUp with
  | put data =>
    have hcache : ((p.putPieceNow config st.key data).setStream i st).cache st.key = some data :=
      Function.update_self ..
    refine ⟨st, setStream_self .., .refl st, rfl, ⟨rfl, rfl, fun _ => ?_⟩, fun _ _ => ?_⟩
    · exact hcache ▸ Option.some_ne_none data
    · exact hcache ▸ Option.some_ne_none data
  | notify =>
    refine ⟨if p.waiter.waits st.key i then { st with woken := true } else st, ?_, ?_, ?_,
      ⟨rfl, rfl, id⟩, fun _ h => nomatch h⟩
    · change Option.map _ ((p.setStream i st).streams i) = _
      rw [setStream_self]
      rfl
    · split <;> exact ⟨rfl, rfl, rfl, rfl⟩
    · split <;> rfl
  | register =>
    exact ⟨st, setStream_self .., .refl st, rfl, ⟨rfl, rfl, id⟩, fun _ h => nomatch h⟩
  | retry =>
    refine ⟨st.scheduleRetry, setStream_self .., st.like_scheduleRetry, ?_, ⟨rfl, rfl, id⟩,
      fun _ h => nomatch h⟩
    unfold Stream.scheduleRetry
    split <;> rfl
  | wake =>
    exact ⟨_, setStream_self .., ⟨rfl, rfl, rfl, rfl⟩, rfl, ⟨rfl, rfl, id⟩, fun _ h => nomatch h⟩

/-- **A poll goes through its follow-ups.** -/
theorem following_runs {room : ℕ} {rest : List FollowUp} {reader : FileStream} {result : ReadPoll}
    (hst : p.streams i = some st) (hphase : st.phase = .following room rest reader result) :
    ∃ p' st', (pipeline checks bytes config).Reach (Own i) p p' ∧ p'.streams i = some st' ∧
      st.Like st' ∧ st'.phase = .following room [] reader result ∧ p.Onward p' st.key ∧
      ∀ data, .put data ∈ rest → p'.cache st.key ≠ none := by
  induction rest generalizing p st with
  | nil => exact ⟨p, st, .refl p, hst, .refl st, hphase, .refl p st.key, fun _ h => nomatch h⟩
  | cons followUp rest ih =>
    have hg : (Action.follow i).guard bytes config p :=
      ⟨st, room, followUp, rest, reader, result, hst, hphase⟩
    have hstep : (pipeline checks bytes config).Reach (Own i) p _ := reach_own (.refl p) hg rfl rfl hst
    dsimp only [Action.onStream] at hstep
    rw [hphase] at hstep
    obtain ⟨st₁, hst₁, hlike₁, hphase₁, honward₁, hput₁⟩ :=
      follow_spec config p i { st with phase := .following room rest reader result } followUp
    obtain ⟨p', st', hreach, hst', hlike, hphase', honward, hput⟩ := ih hst₁ hphase₁
    have hlike' : st.Like st₁ := ⟨hlike₁.infoHash, hlike₁.layout, hlike₁.reader, hlike₁.served⟩
    rw [hlike'.key] at honward hput
    refine ⟨p', st', hstep.trans hreach, hst', hlike'.trans hlike, hphase', honward₁.trans honward,
      fun data hmem => ?_⟩
    rcases List.mem_cons.mp hmem with heq | hmem
    · exact honward.cache (hput₁ data heq.symm)
    · exact hput data hmem

/-- **A poll returns.** -/
theorem following_ends (checks : Bool) (bytes : PieceKey → List UInt8) (config : PieceCacheConfig)
    {room : ℕ} {rest : List FollowUp} {reader : FileStream} {result : ReadPoll}
    (hst : p.streams i = some st) (hphase : st.phase = .following room rest reader result) :
    ∃ p' st', (pipeline checks bytes config).Reach (Own i) p p' ∧ st.Like st' ∧
      p'.streams i = some (st'.finish room reader result) ∧ p.Onward p' st.key ∧
      ∀ data, .put data ∈ rest → p'.cache st.key ≠ none := by
  obtain ⟨p', st', hreach, hst', hlike, hphase', honward, hput⟩ := following_runs hst hphase
  have hg : (Action.finish i).guard bytes config p' := ⟨st', room, reader, result, hst', hphase'⟩
  have hstep : (pipeline checks bytes config).Reach (Own i) p _ := reach_own hreach hg rfl rfl hst'
  dsimp only [Action.onStream] at hstep
  rw [hphase'] at hstep
  exact ⟨_, st', hstep, hlike, setStream_self .., ⟨honward.havePiece, honward.stored, honward.cache⟩,
    hput⟩

/-! ### A poll from its beginning -/

/-- The task of a stream polls it, as soon as it is awake. -/
theorem begins (checks : Bool) (bytes : PieceKey → List UInt8) (config : PieceCacheConfig)
    (hst : p.streams i = some st) (hready : st.phase = .resting ∨ st.phase = .waiting ∧ st.Alert)
    (now : ℕ) {room : ℕ} (hroom : 0 < room) (planning : Planning) :
    ∃ st', st.Like st' ∧
      st'.phase = .asking .cached ⟨room, false, now, planning, none, none, .pending, false, []⟩ ∧
      (pipeline checks bytes config).Reach (Own i) p (p.setStream i st') := by
  have hpoll : ∀ (q : Pipeline) (st₁ : Stream), (pipeline checks bytes config).Reach (Own i) p q →
      q.streams i = some st₁ → (st₁.phase = .resting ∨ st₁.phase = .waiting ∧ st₁.woken = true) →
      ∃ st', st₁.Like st' ∧
        st'.phase = .asking .cached ⟨room, false, now, planning, none, none, .pending, false, []⟩ ∧
        (pipeline checks bytes config).Reach (Own i) p (q.setStream i st') := by
    intro q st₁ hq hst₁ hawake
    have hreach := reach_own (a := .pollRead i room now false planning none) hq
      ⟨st₁, hst₁, hawake.imp_right And.left⟩
      ⟨rfl, hroom, rfl, st₁, hst₁, hawake.imp_right And.right⟩ rfl hst₁
    refine ⟨_, ?_, ?_, hreach⟩
    · exact ⟨rfl, rfl, rfl, rfl⟩
    · rfl
  rcases hready with hresting | ⟨hwaiting, hwoken | harmed⟩
  · exact hpoll p st (.refl p) hst (Or.inl hresting)
  · exact hpoll p st (.refl p) hst (Or.inr ⟨hwaiting, hwoken⟩)
  · -- the timer goes off first
    have helapse : (pipeline checks bytes config).Reach (Own i) p
        (p.setStream i { st with retrySleep := .elapsed, woken := true }) :=
      reach_own (a := .elapse i) (.refl p) ⟨st, hst, harmed⟩ rfl rfl hst
    obtain ⟨st', hlike, hphase, hreach⟩ :=
      hpoll _ _ helapse (setStream_self ..) (Or.inr ⟨hwaiting, rfl⟩)
    rw [setStream_setStream] at hreach
    exact ⟨st', ⟨hlike.infoHash, hlike.layout, hlike.reader, hlike.served⟩, hphase, hreach⟩

/-- What a poll has been told about a piece, and what it has come to. -/
structure Polls (checks : Bool) (bytes : PieceKey → List UInt8) (config : PieceCacheConfig) (i : ℕ)
    (p : Pipeline) (st : Stream) (now : ℕ) (p' : Pipeline) (input : MemoryInput)
    (r : FileStream × ReadPoll) : Prop where
  reach : (pipeline checks bytes config).Reach (Own i) p p'
  told : Told bytes p st.key .cached
    ⟨1, false, now, idlePlanning, none, none, .pending, false, []⟩ input
  result : st.reader.pollRead checks st.layout input = some r
  hands : FileStream.Hands (config.diskCacheEnabled = false) st.layout st.reader.currentPos 1 r
  stream : ∃ st', st.Like st' ∧ p'.streams i = some (st'.finish 1 r.1 r.2)
  onward : p.Onward p' st.key
  put : ∀ data, .put data ∈ st.reader.followUps st.layout input → p'.cache st.key ≠ none

/-- A poll that knows what it comes to hands out bytes of the file, if any. -/
theorem hands_of_following (h : (pipeline checks bytes config).Reach GuardedSystem.anyStep .new p)
    (hst : p.streams i = some st) {room : ℕ} {rest : List FollowUp} {reader : FileStream}
    {result : ReadPoll} (hphase : st.phase = .following room rest reader result) :
    FileStream.Hands (config.diskCacheEnabled = false) st.layout st.reader.currentPos room
      (reader, result) := by
  have hright := ((right_of_reach h).streams i st hst).phase
  rw [hphase] at hright
  exact hright.1.2

/-- The own steps of a stream are steps of the session. -/
theorem reach_any {D : Pipeline → Action → Prop}
    (h : (pipeline checks bytes config).Reach GuardedSystem.anyStep .new p)
    (h' : (pipeline checks bytes config).Reach D p q) :
    (pipeline checks bytes config).Reach GuardedSystem.anyStep .new q :=
  h.trans (h'.mono fun _ _ _ => trivial)

/-- **A whole poll**, into a buffer of one byte. -/
theorem polls (h : (pipeline checks bytes config).Reach GuardedSystem.anyStep .new p)
    (hst : p.streams i = some st) (hready : st.phase = .resting ∨ st.phase = .waiting ∧ st.Alert)
    (hpos : st.reader.currentPos ≤ st.layout.fileSize) (hlast : st.layout.lastPiece < 2 ^ 31 - 1)
    (now : ℕ) : ∃ p' input r, Polls checks bytes config i p st now p' input r := by
  obtain ⟨st₁, hlike₁, hphase₁, hreach₁⟩ :=
    begins checks bytes config hst hready now Nat.one_pos idlePlanning
  have hpos₁ : st₁.reader.currentPos ≤ st₁.layout.fileSize := by
    rw [hlike₁.reader, hlike₁.layout]
    exact hpos
  have hfits₁ : idlePlanning.Fits checks st₁.layout := by
    rw [hlike₁.layout]
    exact idlePlanning_fits checks hlast
  obtain ⟨st₂, input, r, hlike₂, htold, hr, hphase₂, hreach₂⟩ :=
    decides checks bytes config (p := p.setStream i st₁) (setStream_self ..) hphase₁ hpos₁
      fun _ => ⟨hfits₁, nofun⟩
  have hreach := hreach₁.trans hreach₂
  rw [setStream_setStream] at hreach
  obtain ⟨p', st₃, hreach₃, hlike₃, hst₃, honward, hput⟩ :=
    following_ends checks bytes config (p := p.setStream i st₂) (setStream_self ..) hphase₂
  have hands := hands_of_following (reach_any h hreach) (setStream_self ..) hphase₂
  have hlike := hlike₁.trans hlike₂
  rw [hlike₁.reader, hlike₁.layout] at hr hput
  rw [hlike₁.key] at htold
  rw [hlike.reader, hlike.layout, htold.remaining] at hands
  rw [hlike.key] at honward hput
  rw [htold.remaining] at hst₃
  exact ⟨p', input, r, hreach.trans hreach₃,
    ⟨htold.remaining, htold.cancelled, htold.now, htold.cached, htold.lookup, htold.havePiece,
      htold.stored⟩, hr, hands, ⟨st₃, hlike.trans hlike₃, hst₃⟩,
    ⟨honward.havePiece, honward.stored, honward.cache⟩, hput⟩

/-! ### Bytes -/

/-- A stream that has been told what it is after may go on from any state on the way. -/
theorem canDeliver_trans (hreach : (pipeline checks bytes config).Reach (Own i) p q)
    (h : CanDeliver checks bytes config i pos q) : CanDeliver checks bytes config i pos p := by
  obtain ⟨q', st, x, hreach', hst, hx⟩ := h
  exact ⟨q', st, x, hreach.trans hreach', hst, hx⟩

variable (hdisk : config.diskCacheEnabled = false)

include hdisk

/-- **A poll that hands out something hands out bytes.** -/
theorem canDeliver_of_ready (h : (pipeline checks bytes config).Reach GuardedSystem.anyStep .new p)
    {st' : Stream} {reader : FileStream} {data : List UInt8} {room : ℕ} (hroom : 0 < room)
    (hst : p.streams i = some (st'.finish room reader (.ready (.ok data))))
    (hpos : st'.reader.currentPos < st'.layout.fileSize) :
    CanDeliver checks bytes config i st'.reader.currentPos p := by
  have hx := ((right_of_reach h).streams i _ hst).served
    ⟨st'.reader.currentPos, room, data⟩ List.mem_cons_self
  refine ⟨p, _, ⟨st'.reader.currentPos, room, data⟩, .refl p, hst, List.mem_cons_self, rfl, ?_⟩
  intro hnil
  have hend := hx.2.2 hdisk hnil hroom
  exact absurd hend (not_le.mpr hpos)

/-- **A reader that finds its piece** comes to its bytes. -/
theorem canDeliver_of_found (h : (pipeline checks bytes config).Reach GuardedSystem.anyStep .new p)
    (hst : p.streams i = some st) (hready : st.phase = .resting ∨ st.phase = .waiting ∧ st.Alert)
    (hpos : st.reader.currentPos < st.layout.fileSize) (hlast : st.layout.lastPiece < 2 ^ 31 - 1)
    (hfound : st.reader.cachedData st.piece ≠ none ∨ p.cache st.key ≠ none) :
    CanDeliver checks bytes config i st.reader.currentPos p := by
  obtain ⟨p', input, r, hpolls⟩ := polls h hst hready hpos.le hlast 0
  have hcached : input.cached = p.cache st.key := hpolls.told.cached
  obtain ⟨data, hdata⟩ := FileStream.pollRead_found hpolls.result hpolls.told.cancelled
    (by rw [hpolls.told.remaining]; exact Nat.one_pos) hpos (hcached ▸ hfound)
  obtain ⟨st', hlike, hst'⟩ := hpolls.stream
  rw [hdata] at hst'
  apply canDeliver_trans hpolls.reach
  rw [← hlike.reader]
  refine canDeliver_of_ready hdisk (reach_any h hpolls.reach) Nat.one_pos hst' ?_
  rw [hlike.reader, hlike.layout]
  exact hpos

/-- **A reader that does not** brings it into the cache, unless a lookup has found it. -/
theorem canDeliver_of_still (h : (pipeline checks bytes config).Reach GuardedSystem.anyStep .new p)
    (hst : p.streams i = some st) (hready : st.phase = .resting ∨ st.phase = .waiting ∧ st.Alert)
    (hpos : st.reader.currentPos < st.layout.fileSize) (hlast : st.layout.lastPiece < 2 ^ 31 - 1)
    (hhave : p.havePiece st.key = true) (hstored : p.stored st.key = true) :
    CanDeliver checks bytes config i st.reader.currentPos p := by
  by_cases hfound : st.reader.cachedData st.piece ≠ none ∨ p.cache st.key ≠ none
  · exact canDeliver_of_found hdisk h hst hready hpos hlast hfound
  · obtain ⟨hown, hcache⟩ := not_or.mp hfound
    rw [not_not] at hown hcache
    have hright := (right_of_reach h).streams i st hst
    -- late enough for a piece that has been asked for before
    obtain ⟨p', input, r, hpolls⟩ := polls h hst hready hpos.le hlast
      (((st.reader.requestedPieceViaApi st.piece).getD 0) + FileStream.rerequestDelay + 1)
    have hread : input.stored = bytes st.key := by
      rw [hpolls.told.stored, Pipeline.readPieceDirect, if_pos hstored]
    have hne : input.stored ≠ [] := by
      rw [hread, Stream.bytes_key hright.describes hpos]
      intro hnil
      have hlength := FileLayout.length_pieceBytes (L := st.layout)
        (st.layout.pieceOf st.reader.currentPos)
      have hspec := st.layout.pieceOf_spec st.reader.currentPos
      have hfits := st.layout.fits
      have hlong := st.layout.pieceLength_pos
      rw [hnil, List.length_nil] at hlength
      omega
    obtain ⟨hpending, hcases⟩ := FileStream.pollRead_awaits hpolls.result hpolls.told.cancelled
      (by rw [hpolls.told.remaining]; exact Nat.one_pos) hpos hown
      (hpolls.told.cached.trans hcache) (fun error herror => nomatch hpolls.told.lookup error herror)
      (hpolls.told.havePiece.trans hhave) hne (by
        intro requestedAt hrequested
        rw [hpolls.told.now]
        dsimp only
        rw [show st.piece = st.reader.pieceIndex st.layout from rfl, hrequested, Option.getD_some]
        omega)
    obtain ⟨st', hlike, hst'⟩ := hpolls.stream
    have hands := hpolls.hands
    unfold FileStream.Hands at hands
    rw [hpending] at hst' hands
    dsimp only at hands
    -- the reader has not moved, and waits
    have hplace : (st'.finish 1 r.1 .pending).reader.currentPos = st.reader.currentPos := hands
    have hreach := reach_any h hpolls.reach
    have halert := ((kept_of_reach hreach).attended i _ hst').waiting rfl
    apply canDeliver_trans hpolls.reach
    rw [← hplace]
    refine canDeliver_of_found hdisk hreach hst' (Or.inr ⟨rfl, halert⟩) ?_ ?_ ?_
    · rw [hplace]
      change st.reader.currentPos < st'.layout.fileSize
      rw [hlike.layout]
      exact hpos
    · change st'.layout.lastPiece < 2 ^ 31 - 1
      rw [hlike.layout]
      exact hlast
    · rw [hlike.finish_piece 1 .pending hands, hlike.finish_key 1 .pending hands]
      rcases hcases with hcases | hput
      · exact Or.inl hcases
      · exact Or.inr (hpolls.put _ hput)

/-- A poll under way returns, and the reader is still where it was, or has handed out bytes. -/
theorem canDeliver_of_following
    (h : (pipeline checks bytes config).Reach GuardedSystem.anyStep .new p)
    (hst : p.streams i = some st) {room : ℕ} {rest : List FollowUp} {reader : FileStream}
    {result : ReadPoll} (hphase : st.phase = .following room rest reader result)
    (hpos : st.reader.currentPos < st.layout.fileSize) (hlast : st.layout.lastPiece < 2 ^ 31 - 1)
    (hhave : p.havePiece st.key = true) (hstored : p.stored st.key = true) :
    CanDeliver checks bytes config i st.reader.currentPos p := by
  obtain ⟨p', st', hreach, hlike, hst', honward, -⟩ :=
    following_ends checks bytes config hst hphase
  have hany := reach_any h hreach
  have hands := hands_of_following h hst hphase
  apply canDeliver_trans hreach
  -- a reader that has not moved goes on from there
  have hagain : reader.currentPos = st.reader.currentPos →
      CanDeliver checks bytes config i st.reader.currentPos p' := by
    intro hplace
    rw [← hplace]
    refine canDeliver_of_still hdisk hany hst' ?_ ?_ ?_ ?_ ?_
    · by_cases hpending : result = .pending
      · subst hpending
        exact Or.inr ⟨rfl, ((kept_of_reach hany).attended i _ hst').waiting rfl⟩
      · exact Or.inl (if_neg hpending)
    · change reader.currentPos < st'.layout.fileSize
      rw [hplace, hlike.layout]
      exact hpos
    · change st'.layout.lastPiece < 2 ^ 31 - 1
      rw [hlike.layout]
      exact hlast
    · rw [hlike.finish_key room result hplace, honward.havePiece]
      exact hhave
    · rw [hlike.finish_key room result hplace, honward.stored]
      exact hstored
  match result, hst', hands, hagain with
  | .pending, _, hands, hagain => exact hagain hands
  | .ready (.error _), _, hands, hagain => exact hagain hands
  | .ready (.ok data), hst', ⟨_, hmoved⟩, hagain =>
    by_cases hnil : data = []
    · apply hagain
      rw [hnil] at hmoved
      exact hmoved
    · exact ⟨p', _, ⟨st'.reader.currentPos, room, data⟩, .refl p', hst', List.mem_cons_self,
        congrArg FileStream.currentPos hlike.reader, hnil⟩

/-- **A reader whose piece has been stored** comes to its bytes, in the middle of a poll or between
two. -/
theorem canDeliver (h : (pipeline checks bytes config).Reach GuardedSystem.anyStep .new p)
    (hst : p.streams i = some st) (hplans : st.Plans checks)
    (hpos : st.reader.currentPos < st.layout.fileSize)
    (hhave : p.havePiece st.key = true) (hstored : p.stored st.key = true) :
    CanDeliver checks bytes config i st.reader.currentPos p := by
  cases hphase : st.phase with
  | resting =>
    exact canDeliver_of_still hdisk h hst (Or.inl hphase) hpos hplans.last hhave hstored
  | waiting =>
    have halert := ((kept_of_reach h).attended i st hst).waiting hphase
    exact canDeliver_of_still hdisk h hst (Or.inr ⟨hphase, halert⟩) hpos hplans.last hhave hstored
  | asking next input =>
    obtain ⟨st', input', r, hlike, -, -, hphase', hreach⟩ :=
      decides checks bytes config hst hphase hpos.le fun hincomplete =>
        hplans.asking hphase hincomplete
    apply canDeliver_trans hreach
    rw [← hlike.reader]
    refine canDeliver_of_following hdisk (reach_any h hreach) (setStream_self ..) hphase' ?_ ?_ ?_ ?_
    · rw [hlike.reader, hlike.layout]
      exact hpos
    · rw [hlike.layout]
      exact hplans.last
    · rw [hlike.key]
      exact hhave
    · rw [hlike.key]
      exact hstored
  | following room rest reader result =>
    exact canDeliver_of_following hdisk h hst hphase hpos hplans.last hhave hstored

end Pipeline

end Progress

end StreamServer.Readers

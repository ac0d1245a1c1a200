import StreamServer.Readers.DiskBytes
import StreamServer.Readers.PipelineProgress

/-!
# Memory-only sessions

What holds of the readers of a session in every state it can come to, however pieces come and go and
in whatever order readers, couriers, lookups and timers go on.

* `session_sound` — **what the readers hand out, and that none of them is forgotten.**
* `session_delivers` — **a reader whose piece has been stored can go on by itself.**
-/

namespace StreamServer.Readers

variable {checks : Bool} {bytes : PieceKey → List UInt8} {config : PieceCacheConfig}

/-! ### A session of one film -/

/-- The bytes of a torrent with a film of two pieces. -/
def filmBytes (key : PieceKey) : List UInt8 := twoPieces.pieceBytes key.piece.toNat

theorem describes_film : twoPieces.Describes filmBytes "film" := fun _ => rfl

/-- The first piece of a film. -/
def filmKey : PieceKey := ⟨"film", 0⟩

/-- A reader of it that has just been opened. -/
def filmStream : Stream :=
  ⟨"film", twoPieces, .new false 0, .resting, false, .none, none, []⟩

/-- The first piece of the film has been stored, and a reader opened. -/
def filmOpened : Pipeline :=
  { Pipeline.new with
    stored := Function.update (fun _ => false) filmKey true
    havePiece := Function.update (fun _ => false) filmKey true
    streams := Function.update (fun _ => none) 0 (some filmStream)
    streamCounter := 1 }

/-- Memory only, and no disk cache. -/
def noDiskCache : PieceCacheConfig := .fromEngineConfig 0 true

theorem filmOpened_reached (config : PieceCacheConfig) :
    (pipeline true filmBytes config).Reach GuardedSystem.anyStep .new filmOpened := by
  refine ⟨[.setStored filmKey true, .setHavePiece filmKey true, .openStream "film" twoPieces false 0], ?_⟩
  apply GuardedSystem.Path.cons trivial trivial
  apply GuardedSystem.Path.cons trivial trivial
  apply GuardedSystem.Path.cons describes_film trivial
  exact .nil _

/-- It stands at the first piece, which has been stored. -/
theorem filmStream_key : filmStream.key = filmKey := by
  have hpiece : filmStream.piece = (twoPieces.pieceOf 0 : ℤ) :=
    FileStream.pieceIndex_eq (s := .new false 0) (Nat.succ_pos 7)
  rw [Stream.key, hpiece]
  rfl

theorem filmStream_plans : filmStream.Plans true := ⟨by decide, nofun⟩

theorem filmOpened_have : filmOpened.havePiece filmStream.key = true := by
  rw [filmStream_key]
  exact Function.update_self filmKey true fun _ => false

theorem filmOpened_stored : filmOpened.stored filmStream.key = true := by
  rw [filmStream_key]
  exact Function.update_self filmKey true fun _ => false

/-! ### What holds of every session -/

/-- **A memory-only session is sound.**  However pieces come and go, and in whatever order readers,
couriers, lookups and timers go on: what a stream has handed out at a position are the bytes of its
file there, and without a disk cache none are missing; a stream that waits has been woken, or its
timer is set; and wakers are kept of open streams only, so that none is left when all are closed. -/
theorem session_sound {p : Pipeline}
    (h : (pipeline checks bytes config).Reach GuardedSystem.anyStep .new p) :
    (∀ i st x, p.streams i = some st → x ∈ st.served →
      x.bytes = stretch st.layout.fileByte x.position x.bytes.length ∧ x.bytes.length ≤ x.room ∧
        (config.diskCacheEnabled = false → x.bytes = [] → 0 < x.room →
          st.layout.fileSize ≤ x.position)) ∧
    (∀ i st, p.streams i = some st → st.phase = .waiting →
      st.woken = true ∨ st.retrySleep = .armed) ∧
    (∀ key i, p.waiter.waits key i = true →
      ∃ st, p.streams i = some st ∧ st.infoHash = key.infoHash) ∧
    ((∀ i, p.streams i = none) → p.waiter.stats = (0, 0)) := by
  have hright := Pipeline.right_of_reach h
  have hkept := Pipeline.kept_of_reach h
  refine ⟨?_, ?_, ?_, ?_⟩
  · intro i st x hst hx
    exact (hright.streams i st hst).served x hx
  · intro i st hst hwaiting
    exact (hkept.attended i st hst).waiting hwaiting
  · intro key i hwaits
    exact hkept.waiters key i (of_decide_eq_true hwaits)
  · intro hclosed
    apply PieceWaiterRegistry.stats_eq_zero
    intro key i hmem
    obtain ⟨st, hst, -⟩ := hkept.waiters key i hmem
    rw [hclosed i] at hst
    cases hst

/-- The reader of the film hands out its first byte. -/
theorem film_served : ∃ p st x, (pipeline true filmBytes noDiskCache).Reach GuardedSystem.anyStep .new p ∧
    p.streams 0 = some st ∧ x ∈ st.served ∧ x.position = 0 ∧ x.bytes ≠ [] ∧
      x.bytes = stretch st.layout.fileByte 0 x.bytes.length := by
  have hcan : CanDeliver true filmBytes noDiskCache 0 filmStream.reader.currentPos filmOpened :=
    Pipeline.canDeliver rfl (filmOpened_reached noDiskCache) rfl filmStream_plans (Nat.succ_pos 7)
      filmOpened_have filmOpened_stored
  obtain ⟨p, st, x, hreach, hst, hx, hpos, hne⟩ := hcan
  have hp := Pipeline.reach_any (filmOpened_reached noDiskCache) hreach
  have hbytes := ((session_sound hp).1 0 st x hst hx).1
  rw [show x.position = 0 from hpos] at hbytes
  exact ⟨p, st, x, hp, hst, hx, hpos, hne, hbytes⟩

/-- **A reader whose piece has been stored can go on by itself.**  In every state that a session
without a disk cache can come to, in the middle of a poll or between two, whatever was evicted and
whoever was dropped: a reader that can plan and stands inside its file, at a piece that the memory
storage has, comes to hand out bytes there by its own steps, and its task polls it only when it is
awake. -/
theorem session_delivers (hdisk : config.diskCacheEnabled = false) {p : Pipeline} {i : ℕ} {st : Stream}
    (h : (pipeline checks bytes config).Reach GuardedSystem.anyStep .new p)
    (hst : p.streams i = some st) (hplans : st.Plans checks)
    (hpos : st.reader.currentPos < st.layout.fileSize)
    (hhave : p.havePiece st.key = true) (hstored : p.stored st.key = true) :
    ∃ q st' x, (pipeline checks bytes config).Reach (Own i) p q ∧ q.streams i = some st' ∧
      x ∈ st'.served ∧ x.position = st.reader.currentPos ∧ x.bytes ≠ [] :=
  Pipeline.canDeliver hdisk h hst hplans hpos hhave hstored

/-- So does the reader of the film, from the moment it is opened. -/
theorem film_delivered : ∃ q st x, (pipeline true filmBytes noDiskCache).Reach (Own 0) filmOpened q ∧
    q.streams 0 = some st ∧ x ∈ st.served ∧ x.position = 0 ∧ x.bytes ≠ [] :=
  @session_delivers true filmBytes noDiskCache rfl filmOpened 0 filmStream
    (filmOpened_reached noDiskCache) rfl filmStream_plans (Nat.succ_pos 7) filmOpened_have
    filmOpened_stored

end StreamServer.Readers

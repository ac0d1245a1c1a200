import StreamServer.Readers.PipelineBytes

/-!
# Readers that wait are woken

A poll that cannot hand out anything leaves the reader's waker with the registry, but a piece may
have been brought between the look into the cache and that moment, and a torrent that is removed
loses its wakers.  What keeps a reader from waiting for ever is its timer: whatever happens
meanwhile, a reader that waits has been woken, or its timer is set.  The registry has the wakers of
open streams only, one for each piece.

## Main definitions

* `Stream.Attended` — nobody waits without a reason to wake up.
* `Pipeline.Kept` — the invariant.

## Main results

* `FileStream.retry_or_wake_mem` — a poll that is pending sets the timer, or wakes its task.
* `Pipeline.Kept.step` — **every step preserves the invariant.**
-/

namespace StreamServer.Readers

/-! ### The registry -/

namespace PieceWaiterRegistry

variable {r : PieceWaiterRegistry} {key key' : PieceKey} {i j : ℕ} {infoHash : String}

theorem mem_register :
    (key', j) ∈ (r.register key i).waiters ↔ (key' = key ∧ j = i) ∨ (key', j) ∈ r.waiters := by
  unfold register
  split
  · next hmem =>
    constructor
    · exact Or.inr
    · rintro (⟨rfl, rfl⟩ | h)
      · exact hmem
      · exact h
  · rw [List.mem_cons, Prod.mk.injEq]

theorem nodup_register (h : r.waiters.Nodup) : (r.register key i).waiters.Nodup := by
  unfold register
  split
  · exact h
  · next hnot => exact List.nodup_cons.mpr ⟨hnot, h⟩

theorem mem_notify : (key', j) ∈ (r.notify key).waiters ↔ (key', j) ∈ r.waiters ∧ key' ≠ key := by
  simp [notify]

theorem mem_clearTorrent : (key', j) ∈ (r.clearTorrent infoHash).waiters ↔
    (key', j) ∈ r.waiters ∧ key'.infoHash ≠ infoHash := by
  simp [clearTorrent]

theorem mem_unregisterStream :
    (key', j) ∈ (r.unregisterStream i).waiters ↔ (key', j) ∈ r.waiters ∧ j ≠ i := by
  simp [unregisterStream]

/-- A registry without wakers. -/
theorem stats_eq_zero (h : ∀ key i, (key, i) ∉ r.waiters) : r.stats = (0, 0) := by
  have hnil : r.waiters = [] := List.eq_nil_iff_forall_not_mem.mpr fun x => h x.1 x.2
  simp [stats, hnil]

end PieceWaiterRegistry

/-! ### A poll that is pending -/

namespace FileStream

variable {checks : Bool} {L : FileLayout} {s : FileStream} {i : MemoryInput}

theorem retry_mem_awaitFollowUps (s : FileStream) (i : MemoryInput) (piece : ℤ) :
    .retry ∈ s.awaitFollowUps i piece := by
  unfold awaitFollowUps
  split
  · simp
  · split
    · split <;> simp
    · split
      · split <;> simp
      · simp

/-- A lookup that fails is an error, and no reason to wait. -/
theorem pollLookup_failed (piece : ℤ) {error : IoError} (hlookup : s.diskLookup ≠ none)
    (herror : i.lookup = .failed error) : (s.pollLookup i piece).2 = .ready (.error error) := by
  unfold pollLookup
  rw [if_neg hlookup, herror]

/-- A poll that is pending has looked its piece up. -/
theorem reachesLookup_of_pending {r : FileStream × ReadPoll}
    (hr : s.pollRead checks L i = some r) (hpending : r.2 = .pending) :
    s.ReachesLookup L i ∧ ∃ last, r = ({ s with lastPrioritiesPiece := last }.startLookup
      (s.pieceIndex L)).pollLookup i (s.pieceIndex L) := by
  rcases pollRead_cases hr with ⟨-, rfl⟩ | ⟨-, -, rfl⟩ | ⟨hcurrent, hpos, hroom, last, rfl⟩
  · cases hpending
  · cases hpending
  · unfold readPiece at hpending ⊢
    split at hpending
    · cases hpending
    · next hpiece =>
      rw [if_neg hpiece]
      rw [show ({ s with lastPrioritiesPiece := last } : FileStream).cachedData (s.pieceIndex L) =
        s.cachedData (s.pieceIndex L) from rfl] at hpending ⊢
      cases hown : s.cachedData (s.pieceIndex L) with
      | some data =>
        rw [hown] at hpending
        cases hpending
      | none =>
        rw [hown] at hpending
        cases hcached : i.cached with
        | some data =>
          rw [hcached] at hpending
          cases hpending
        | none =>
          exact ⟨⟨hcurrent, hpos, hroom.ne', not_lt.mp hpiece, hown, hcached⟩,
            last, rfl⟩

/-- **A poll that is pending sets the timer, or wakes its task.** -/
theorem retry_or_wake_mem {r : FileStream × ReadPoll} (hr : s.pollRead checks L i = some r)
    (hpending : r.2 = .pending) : .retry ∈ s.followUps L i ∨ .wake ∈ s.followUps L i := by
  obtain ⟨hreach, last, rfl⟩ := reachesLookup_of_pending hr hpending
  unfold followUps
  rw [if_pos hreach]
  unfold lookupFollowUps
  split
  · exact Or.inl (retry_mem_awaitFollowUps _ _ _)
  · next hlookup =>
    split
    · exact Or.inr (by simp)
    · next error herror =>
      have hfailed := pollLookup_failed (s := ({ s with lastPrioritiesPiece := last } : FileStream).startLookup
        (s.pieceIndex L)) (s.pieceIndex L) hlookup herror
      rw [hfailed] at hpending
      cases hpending
    all_goals exact Or.inl (retry_mem_awaitFollowUps _ _ _)

end FileStream

/-! ### Streams -/

section Invariant

variable {checks : Bool} {bytes : PieceKey → List UInt8} {config : PieceCacheConfig}

/-- The task of a stream will be polled again. -/
def Stream.Alert (st : Stream) : Prop := st.woken = true ∨ st.retrySleep = .armed

/-- **A stream that waits will be polled again**, and so will one that is about to. -/
structure Stream.Attended (st : Stream) : Prop where
  waiting : st.phase = .waiting → st.Alert
  following : ∀ room rest reader, st.phase = .following room rest reader .pending →
    .retry ∈ rest ∨ .wake ∈ rest ∨ st.Alert

namespace Stream

variable {st : Stream}

/-- What wakes a stream, or does not change its wakers, keeps it attended. -/
theorem Attended.of_alert (h : st.Attended) {st' : Stream} (hphase : st'.phase = st.phase)
    (halert : st.Alert → st'.Alert) : st'.Attended where
  waiting := fun hw => halert (h.waiting (hphase ▸ hw))
  following := by
    intro room rest reader hf
    rcases h.following room rest reader (hphase ▸ hf) with hrest | hrest | hnow
    · exact Or.inl hrest
    · exact Or.inr (Or.inl hrest)
    · exact Or.inr (Or.inr (halert hnow))

/-- A stream that is neither waiting nor about to. -/
theorem attended_of_phase (hw : st.phase ≠ .waiting)
    (hf : ∀ room rest reader, st.phase ≠ .following room rest reader .pending) : st.Attended where
  waiting := fun h => absurd h hw
  following := fun room rest reader h => absurd h (hf room rest reader)

theorem alert_scheduleRetry (st : Stream) : st.scheduleRetry.Alert := by
  unfold scheduleRetry
  split
  · exact Or.inr rfl
  · exact Or.inr rfl
  · exact Or.inl rfl

theorem scheduleRetry_infoHash (st : Stream) : st.scheduleRetry.infoHash = st.infoHash := by
  unfold scheduleRetry
  split <;> rfl

theorem startLookup_infoHash (st : Stream) : st.startLookup.infoHash = st.infoHash := by
  unfold Stream.startLookup
  split
  · rfl
  · split <;> rfl

/-- A stream whose timer is set, or whose task is woken, is attended whatever it does next. -/
theorem Alert.attended (h : st.Alert) : st.Attended where
  waiting := fun _ => h
  following := fun _ _ _ _ => Or.inr (Or.inr h)

/-- **A follow-up keeps the stream attended.** -/
theorem Attended.follow (h : st.Attended) {room : ℕ} {followUp : FollowUp} {rest : List FollowUp}
    {reader : FileStream} {result : ReadPoll}
    (hphase : st.phase = .following room (followUp :: rest) reader result)
    (hfollowUp : followUp ≠ .retry ∧ followUp ≠ .wake) :
    Stream.Attended { st with phase := .following room rest reader result } where
  waiting := fun hw => nomatch hw
  following := by
    intro room' rest' reader' hf
    obtain ⟨rfl, rfl, rfl, rfl⟩ := Phase.following.inj hf
    rcases h.following _ _ _ hphase with hrest | hrest | hnow
    · rcases List.mem_cons.mp hrest with heq | hrest
      · exact absurd heq.symm hfollowUp.1
      · exact Or.inl hrest
    · rcases List.mem_cons.mp hrest with heq | hrest
      · exact absurd heq.symm hfollowUp.2
      · exact Or.inr (Or.inl hrest)
    · exact Or.inr (Or.inr hnow)

/-- **A poll that returns and is pending has been attended to.** -/
theorem Attended.finish (h : st.Attended) {room : ℕ} {reader : FileStream} {result : ReadPoll}
    (hphase : st.phase = .following room [] reader result) :
    (st.finish room reader result).Attended := by
  by_cases hpending : result = .pending
  · subst hpending
    rcases h.following _ _ _ hphase with hrest | hrest | hnow
    · cases hrest
    · cases hrest
    · exact Alert.attended hnow
  · apply attended_of_phase
    · simp [Stream.finish, hpending]
    · simp [Stream.finish, hpending]

end Stream

/-! ### All of them -/

/-- Streams are attended, and the registry knows open streams only. -/
structure Pipeline.Kept (p : Pipeline) : Prop where
  attended : ∀ i st, p.streams i = some st → st.Attended
  waiters : ∀ key i, (key, i) ∈ p.waiter.waiters →
    ∃ st, p.streams i = some st ∧ st.infoHash = key.infoHash
  nodup : p.waiter.waiters.Nodup
  counted : ∀ i st, p.streams i = some st → i < p.streamCounter

namespace Pipeline

variable {p : Pipeline} {i n : ℕ} {st st' : Stream}

theorem kept_new : Pipeline.new.Kept where
  attended := fun _ _ h => nomatch h
  waiters := fun _ _ h => nomatch h
  nodup := List.nodup_nil
  counted := fun _ _ h => nomatch h

/-- A stream goes on. -/
theorem Kept.setStream (h : p.Kept) (hst : p.streams i = some st) (hattended : st'.Attended)
    (hhash : st'.infoHash = st.infoHash) : (p.setStream i st').Kept where
  attended := forall_update h.attended fun _ hst' => Option.some.inj hst' ▸ hattended
  waiters := by
    intro key j hmem
    obtain ⟨st₀, hst₀, hkey⟩ := h.waiters key j hmem
    rcases eq_or_ne j i with rfl | hne
    · obtain rfl := Option.some.inj (hst.symm.trans hst₀)
      exact ⟨st', Function.update_self .., hhash.trans hkey⟩
    · exact ⟨st₀, (Function.update_of_ne hne ..).trans hst₀, hkey⟩
  nodup := h.nodup
  counted := forall_update h.counted fun _ _ => h.counted i st hst

theorem Kept.dropStream (h : p.Kept) (i : ℕ) : (p.dropStream i).Kept where
  attended := forall_update h.attended fun _ hst' => nomatch hst'
  waiters := by
    intro key j hmem
    obtain ⟨hmem, hne⟩ := PieceWaiterRegistry.mem_unregisterStream.mp hmem
    obtain ⟨st, hst, hkey⟩ := h.waiters key j hmem
    exact ⟨st, (Function.update_of_ne hne ..).trans hst, hkey⟩
  nodup := h.nodup.filter _
  counted := forall_update h.counted fun _ hst' => nomatch hst'

theorem Kept.goOn (h : p.Kept) (hst : p.streams i = some st) {result : Option Stream}
    (hresult : ∀ st', result = some st' → st'.Attended ∧ st'.infoHash = st.infoHash) :
    (p.goOn i result).Kept := by
  cases result with
  | some st' => exact h.setStream hst (hresult st' rfl).1 (hresult st' rfl).2
  | none => exact h.dropStream i

theorem Kept.notifyPieceFinished (h : p.Kept) (key : PieceKey) :
    (p.notifyPieceFinished key).Kept where
  attended := by
    intro i st hst
    obtain ⟨st₀, hst₀, rfl⟩ := Option.map_eq_some_iff.mp hst
    split
    · exact Stream.Alert.attended (Or.inl rfl)
    · exact h.attended i st₀ hst₀
  waiters := by
    intro key' j hmem
    obtain ⟨hmem, -⟩ := PieceWaiterRegistry.mem_notify.mp hmem
    obtain ⟨st, hst, hkey⟩ := h.waiters key' j hmem
    have hst' := congrArg (Option.map fun st : Stream =>
      if p.waiter.waits key j then { st with woken := true } else st) hst
    refine ⟨_, hst', ?_⟩
    dsimp only
    split
    · exact hkey
    · exact hkey
  nodup := h.nodup.filter _
  counted := by
    intro i st hst
    obtain ⟨st₀, hst₀, -⟩ := Option.map_eq_some_iff.mp hst
    exact h.counted i st₀ hst₀

/-- What changes neither streams nor the registry. -/
theorem Kept.of_same (h : p.Kept) {q : Pipeline} (hstreams : q.streams = p.streams)
    (hwaiter : q.waiter = p.waiter) (hcounter : q.streamCounter = p.streamCounter) : q.Kept where
  attended := hstreams ▸ h.attended
  waiters := by
    rw [hstreams, hwaiter]
    exact h.waiters
  nodup := hwaiter ▸ h.nodup
  counted := by
    rw [hstreams, hcounter]
    exact h.counted

theorem Kept.putPieceNow (h : p.Kept) (key : PieceKey) (data : List UInt8) :
    (p.putPieceNow config key data).Kept := h.of_same rfl rfl rfl

theorem Kept.register (h : p.Kept) (hst : p.streams i = some st) (hhash : st.infoHash = st'.infoHash) :
    Pipeline.Kept { p with waiter := p.waiter.register st'.key i } where
  attended := h.attended
  waiters := by
    intro key j hmem
    rcases PieceWaiterRegistry.mem_register.mp hmem with ⟨rfl, rfl⟩ | hmem
    · exact ⟨st, hst, hhash⟩
    · exact h.waiters key j hmem
  nodup := PieceWaiterRegistry.nodup_register h.nodup
  counted := h.counted

theorem Kept.follow (h : p.Kept) (hst : p.streams i = some st) {room : ℕ} {followUp : FollowUp}
    {rest : List FollowUp} {reader : FileStream} {result : ReadPoll}
    (hphase : st.phase = .following room (followUp :: rest) reader result) :
    (p.follow config i { st with phase := .following room rest reader result } followUp).Kept := by
  have hattended := h.attended i st hst
  cases followUp with
  | put data =>
    exact (h.putPieceNow _ data).setStream hst (hattended.follow hphase ⟨by simp, by simp⟩) rfl
  | notify =>
    exact (h.setStream hst (hattended.follow hphase ⟨by simp, by simp⟩) rfl).notifyPieceFinished _
  | register =>
    exact (h.setStream hst (hattended.follow hphase ⟨by simp, by simp⟩) rfl).register
      (Function.update_self ..) rfl
  | retry =>
    exact h.setStream hst (Stream.alert_scheduleRetry _).attended (Stream.scheduleRetry_infoHash _)
  | wake => exact h.setStream hst (Stream.Alert.attended (Or.inl rfl)) rfl

theorem Kept.carry (h : p.Kept) (errand : Errand) : (p.carry config n errand).Kept := by
  cases errand with
  | put key data notifies => exact h.of_same rfl rfl rfl
  | notify key notifies => exact (h.notifyPieceFinished key).of_same rfl rfl rfl

theorem Kept.runLookup (h : p.Kept) (hst : p.streams i = some st) :
    (p.runLookup config i st).Kept := by
  have hset : ∀ (q : Pipeline) (lookup : Option (ℤ × Lookup)), q.Kept → q.streams i = some st →
      (q.setStream i { st with lookup := lookup }).Kept := fun q lookup hq hqst =>
    hq.setStream hqst ((h.attended i st hst).of_alert rfl id) rfl
  unfold Pipeline.runLookup
  split
  · split
    · exact hset p _ h hst
    · exact hset p _ h hst
  · split
    · split
      · exact hset (p.insert _ _) _ (h.of_same rfl rfl rfl) hst
      · exact hset p _ h hst
    · exact hset p _ h hst
  · exact h

theorem Kept.answer (h : p.Kept) (hst : p.streams i = some st) (broken : Option LookupPoll)
    (input : MemoryInput) (next : Question) : (p.answer checks bytes i st broken input next).Kept := by
  have hasking : ∀ (st' : Stream) next' input', st'.infoHash = st.infoHash →
      (p.setStream i { st' with phase := .asking next' input' }).Kept := fun st' next' input' hhash =>
    h.setStream hst (Stream.attended_of_phase (by simp) (by simp)) hhash
  cases next with
  | cached => exact hasking st _ _ rfl
  | startLookup =>
    dsimp only [Pipeline.answer]
    split
    · exact hasking st.startLookup _ _ (Stream.startLookup_infoHash st)
    · exact hasking st _ _ rfl
  | lookup => exact hasking st _ _ rfl
  | havePiece => exact hasking st _ _ rfl
  | stored =>
    apply h.goOn hst
    intro st' hst'
    obtain ⟨r, hr, rfl⟩ := Option.map_eq_some_iff.mp hst'
    refine ⟨⟨fun hw => (nomatch hw), fun room rest reader hf => ?_⟩, rfl⟩
    -- the poll knows what it comes to
    obtain ⟨-, rfl, -, hpending⟩ := Phase.following.inj hf
    rcases FileStream.retry_or_wake_mem hr hpending with hmem | hmem
    · exact Or.inl hmem
    · exact Or.inr (Or.inl hmem)

/-- **What a stream does preserves the invariant.** -/
theorem Kept.onStream (h : p.Kept) (hst : p.streams i = some st) {a : Action}
    (ha : a.stream? = some i) : (a.onStream checks bytes config p i st).Kept := by
  have hattended := h.attended i st hst
  cases a with
  | dropStream j => exact h.dropStream i
  | startSeek j position =>
    apply h.goOn hst
    intro st' hst'
    obtain ⟨reader, -, rfl⟩ := Option.map_eq_some_iff.mp hst'
    exact ⟨hattended.of_alert rfl id, rfl⟩
  | pollComplete j planning =>
    apply h.goOn hst
    intro st' hst'
    obtain ⟨r, -, rfl⟩ := Option.map_eq_some_iff.mp hst'
    exact ⟨hattended.of_alert rfl id, rfl⟩
  | elapse j => exact h.setStream hst (Stream.Alert.attended (Or.inl rfl)) rfl
  | runLookup j => exact h.runLookup hst
  | pollRead j remaining now cancelled planning replanning =>
    exact h.setStream hst (Stream.attended_of_phase (by simp) (by simp)) rfl
  | answer j broken =>
    dsimp only [Action.onStream]
    split
    · exact h.answer hst _ _ _
    · exact h
  | follow j =>
    dsimp only [Action.onStream]
    split
    · next hphase => exact h.follow hst hphase
    · exact h
  | finish j =>
    dsimp only [Action.onStream]
    split
    · next hphase => exact h.setStream hst (hattended.finish hphase) rfl
    · exact h
  | _ => cases ha

/-- A stream is opened under a number that has never been given out. -/
theorem Kept.openStream (h : p.Kept) (hattended : st.Attended) :
    Pipeline.Kept { p.setStream p.streamCounter st with streamCounter := p.streamCounter + 1 } where
  attended := forall_update h.attended fun _ hst' => Option.some.inj hst' ▸ hattended
  waiters := by
    intro key j hmem
    obtain ⟨st₀, hst₀, hkey⟩ := h.waiters key j hmem
    have hne : j ≠ p.streamCounter := (h.counted j st₀ hst₀).ne
    exact ⟨st₀, (Function.update_of_ne hne ..).trans hst₀, hkey⟩
  nodup := h.nodup
  counted := by
    apply forall_update
    · exact fun j st₀ hst₀ => Nat.lt_succ_of_lt (h.counted j st₀ hst₀)
    · exact fun _ _ => Nat.lt_succ_self _

/-- **Every step preserves the invariant.** -/
theorem Kept.step (h : p.Kept) (a : Action) : (a.effect checks bytes config p).Kept := by
  have hstream : ∀ i, a.stream? = some i →
      (p.withStream i (a.onStream checks bytes config p i)).Kept := by
    intro i hi
    unfold Pipeline.withStream
    split
    · next st hst => exact h.onStream hst hi
    · exact h
  cases a with
  | setStored key stored => exact h.of_same rfl rfl rfl
  | setHavePiece key have_piece => exact h.of_same rfl rfl rfl
  | evict key => exact h.of_same rfl rfl rfl
  | clearCache infoHash => exact h.of_same rfl rfl rfl
  -- waiters that are taken out wait no longer in the registry, the streams stay as they are
  | clearWaiters infoHash =>
    refine ⟨h.attended, fun key j hmem => ?_, h.nodup.filter _, h.counted⟩
    exact h.waiters key j (PieceWaiterRegistry.mem_clearTorrent.mp hmem).1
  | removeFile key => exact h.of_same rfl rfl rfl
  | write n size =>
    dsimp only [Action.effect]
    split
    · exact h.of_same rfl rfl rfl
    · exact h
  | writeDone n =>
    dsimp only [Action.effect]
    split
    · exact h.of_same rfl rfl rfl
    · exact h
  | writeFailed n => exact h.of_same rfl rfl rfl
  | fetch courier key => exact h.of_same rfl rfl rfl
  | carry n =>
    dsimp only [Action.effect]
    split
    · exact h.carry _
    · exact h
  | leftover key =>
    dsimp only [Action.effect]
    split
    · exact h.of_same rfl rfl rfl
    · exact h
  | openStream infoHash layout isComplete last =>
    exact h.openStream (Stream.attended_of_phase (by simp) (by simp))
  | dropStream i => exact hstream i rfl
  | startSeek i position => exact hstream i rfl
  | pollComplete i planning => exact hstream i rfl
  | elapse i => exact hstream i rfl
  | runLookup i => exact hstream i rfl
  | pollRead i remaining now cancelled planning replanning => exact hstream i rfl
  | answer i broken => exact hstream i rfl
  | follow i => exact hstream i rfl
  | finish i => exact hstream i rfl

theorem kept_of_reach {C : Pipeline → Action → Prop}
    (h : (pipeline checks bytes config).Reach C .new p) : p.Kept :=
  h.invariant kept_new fun _ a hp _ _ => hp.step a

end Pipeline

end Invariant

end StreamServer.Readers

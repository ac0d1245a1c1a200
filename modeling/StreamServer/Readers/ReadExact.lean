import StreamServer.Readers.Agreement

/-!
# Reading a buffer full

A poll of a reader may bring fewer bytes than there is room for, or none for now.  Whoever needs
a buffer full polls again until it is, and fails if the reader has come to its end before.

The reader is given by what a poll comes to; polls are numbered backwards, so that a task that
is given `n` polls meets those with the numbers `n - 1`, …, `0`.

## Main definitions

* `Progress` — what has become of an operation after the polls it was given.
* `readExact` — the operation.
* `Streams` — a reader that serves a source of bytes, or fails.

## Main results

* `Streams.readExact_spec` — **the buffer is filled with the bytes of the source**, however the
  polls split them.
* `Streams.readExact_done` — if every poll brings something, as many polls as bytes are enough.
* `FileStream.streams_pollRead` — the memory-only reader is one.

## References

`tokio::io::AsyncReadExt::read_exact`, as `enginefs/src/engine.rs` uses it.
-/

namespace StreamServer.Readers

/-- What has become of an operation. -/
inductive Progress (ε α : Type)
  | waiting
  | panicked
  | done (result : Except ε α)

/-- The error of `read_exact` at the end of the file. -/
def earlyEof : IoError := ⟨.unexpectedEof, "early eof"⟩

variable {σ : Type}

/-- `read_exact`: the state of the reader, the bytes, and the polls that are left. -/
def readExact (poll : ℕ → ℕ → σ → Option (σ × ReadPoll)) (wanted : ℕ) :
    ℕ → σ → List UInt8 → Progress IoError (σ × List UInt8 × ℕ)
  | n, s, got =>
      if wanted ≤ got.length then .done (.ok (s, got, n))
      else
        match n with
        | 0 => .waiting
        | n + 1 =>
            match poll n (wanted - got.length) s with
            | none => .panicked
            | some (s', .pending) => readExact poll wanted n s' got
            | some (_, .ready (.error e)) => .done (.error e)
            | some (s', .ready (.ok bytes)) =>
                if bytes = [] then .done (.error earlyEof)
                else readExact poll wanted n s' (got ++ bytes)

/-- What a poll at a position comes to: the bytes of the source there, or none yet, or an error
the reader may have. -/
def Brings (Stands : σ → ℕ → Prop) (source : ℕ → UInt8) (size pos room : ℕ) :
    σ × ReadPoll → Prop
  | (s', .pending) => Stands s' pos
  | (_, .ready (.error _)) => True
  | (s', .ready (.ok bytes)) =>
      bytes = stretch source pos bytes.length ∧ bytes.length ≤ room ∧
        (bytes = [] → 0 < room → size ≤ pos) ∧ Stands s' (pos + bytes.length)

/-- The reader serves a source of `size` bytes: `Stands s pos` says that it is at a position. -/
def Streams (poll : ℕ → ℕ → σ → Option (σ × ReadPoll)) (Stands : σ → ℕ → Prop)
    (source : ℕ → UInt8) (size : ℕ) : Prop :=
  ∀ n room s pos, Stands s pos → ∃ r, poll n room s = some r ∧ Brings Stands source size pos room r

/-- Polls that never come to an error. -/
def NeverFails (poll : ℕ → ℕ → σ → Option (σ × ReadPoll)) (Stands : σ → ℕ → Prop) : Prop :=
  ∀ n room s pos, Stands s pos → ∀ s' e, poll n room s ≠ some (s', .ready (.error e))

/-- Polls that never have to wait. -/
def NeverWaits (poll : ℕ → ℕ → σ → Option (σ × ReadPoll)) (Stands : σ → ℕ → Prop) : Prop :=
  ∀ n room s pos, Stands s pos → ∀ s', poll n room s ≠ some (s', .pending)

/-- What reading a buffer full should come to. -/
def Fills (Stands : σ → ℕ → Prop) (source : ℕ → UInt8) (pos wanted : ℕ) :
    Progress IoError (σ × List UInt8 × ℕ) → Prop
  | .waiting | .done (.error _) => True
  | .panicked => False
  | .done (.ok (s, bytes, _)) => bytes = stretch source pos wanted ∧ Stands s (pos + wanted)

section Streams

variable {poll : ℕ → ℕ → σ → Option (σ × ReadPoll)} {Stands : σ → ℕ → Prop} {source : ℕ → UInt8}
  {size pos wanted : ℕ}

/-- The bytes of a poll go on where the buffer ends. -/
theorem stretch_append_of_brings {got bytes : List UInt8} (hgot : got = stretch source pos got.length)
    (hbytes : bytes = stretch source (pos + got.length) bytes.length) :
    got ++ bytes = stretch source pos (got ++ bytes).length := by
  rw [List.length_append, stretch_add, ← hgot, ← hbytes]

/-- **The buffer is filled with the bytes of the source.** -/
theorem Streams.readExact_spec (h : Streams poll Stands source size) {n : ℕ} {s : σ}
    {got : List UInt8} (hs : Stands s (pos + got.length))
    (hgot : got = stretch source pos got.length) (hle : got.length ≤ wanted) :
    Fills Stands source pos wanted (readExact poll wanted n s got) := by
  induction n generalizing s got with
  | zero =>
    unfold readExact
    split
    · next hfull =>
      obtain hlen : got.length = wanted := by omega
      exact ⟨by rw [← hlen]; exact hgot, by rw [← hlen]; exact hs⟩
    · trivial
  | succ n ih =>
    unfold readExact
    split
    · next hfull =>
      obtain hlen : got.length = wanted := by omega
      exact ⟨by rw [← hlen]; exact hgot, by rw [← hlen]; exact hs⟩
    · next hroom =>
      obtain ⟨⟨s', p⟩, hpoll, hbrings⟩ := h n (wanted - got.length) s _ hs
      simp only [hpoll]
      match p, hbrings with
      | .pending, hstands => exact ih hstands hgot hle
      | .ready (.error e), _ => trivial
      | .ready (.ok bytes), ⟨hbytes, hlen, _, hstands⟩ =>
        dsimp only
        split
        · trivial
        · apply ih
          · rwa [List.length_append, ← Nat.add_assoc]
          · exact stretch_append_of_brings hgot hbytes
          · rw [List.length_append]
            omega

/-- **If every poll brings something, as many polls as bytes are enough**, and one poll at most
is used up for each byte. -/
theorem Streams.readExact_done (h : Streams poll Stands source size)
    (hfail : NeverFails poll Stands) (hwait : NeverWaits poll Stands)
    (hsize : pos + wanted ≤ size) {n : ℕ} {s : σ} {got : List UInt8}
    (hs : Stands s (pos + got.length)) (hn : wanted - got.length ≤ n) :
    ∃ s' bytes m, readExact poll wanted n s got = .done (.ok (s', bytes, m)) ∧
      n ≤ m + (wanted - got.length) := by
  induction n generalizing s got with
  | zero =>
    unfold readExact
    rw [if_pos (by omega)]
    exact ⟨_, _, _, rfl, by omega⟩
  | succ n ih =>
    unfold readExact
    split
    · exact ⟨_, _, _, rfl, by omega⟩
    · next hroom =>
      obtain ⟨⟨s', p⟩, hpoll, hbrings⟩ := h n (wanted - got.length) s _ hs
      simp only [hpoll]
      match p, hbrings, hpoll with
      | .pending, _, hpoll => exact absurd hpoll (hwait n _ s _ hs s')
      | .ready (.error e'), _, hpoll => exact absurd hpoll (hfail n _ s _ hs s' e')
      | .ready (.ok bytes), ⟨_, hlen, hend, hstands⟩, _ =>
        dsimp only
        split
        · next hnil =>
          have hpast := hend hnil (by omega)
          omega
        · next hne =>
          have hpos : 0 < bytes.length := List.length_pos_of_ne_nil hne
          have hstands' : Stands s' (pos + (got ++ bytes).length) := by
            rwa [List.length_append, ← Nat.add_assoc]
          obtain ⟨t, all, m, hdone, hm⟩ := ih hstands' (by rw [List.length_append]; omega)
          refine ⟨t, all, m, hdone, ?_⟩
          rw [List.length_append] at hm
          omega

end Streams

/-! ### The memory-only reader -/

namespace FileStream

variable {L : FileLayout} {s : FileStream}

/-- The answers a poll gets: `i n s` when the reader is in state `s`. -/
def pollsOf (checks : Bool) (L : FileLayout) (i : ℕ → FileStream → MemoryInput) (n room : ℕ)
    (s : FileStream) : Option (FileStream × ReadPoll) :=
  s.pollRead checks L { i n s with remaining := room }

/-- The reader is at a position of its file, which was complete when it was opened or was not. -/
def Stands (isComplete : Bool) (L : FileLayout) (s : FileStream) (pos : ℕ) : Prop :=
  s.Aligned L ∧ s.currentPos = pos ∧ s.isComplete = isComplete

/-- The same answers, except that nothing goes wrong. -/
def healthy (i : MemoryInput) : MemoryInput :=
  { i with
    cancelled := false
    lookup :=
      match i.lookup with
      | .failed _ => .aborted
      | other => other }

theorem healthy_succeeds (i : MemoryInput) : (healthy i).Succeeds where
  current := rfl
  lookup := by
    intro e
    simp only [healthy]
    split <;> simp_all

theorem healthy_truthful {i : MemoryInput} (h : i.Truthful L s) : (healthy i).Truthful L s where
  cached := h.cached
  lookup := by
    intro data hd
    apply h.lookup
    simp only [healthy] at hd
    split at hd
    · cases hd
    · exact hd

/-- A poll fails, or nothing has gone wrong. -/
theorem pollLookup_healthy (s : FileStream) (i : MemoryInput) (piece : ℤ) :
    s.pollLookup i piece = s.pollLookup (healthy i) piece ∨
      ∃ u e, s.pollLookup i piece = (u, .ready (.error e)) := by
  by_cases hnone : s.diskLookup = none
  · left
    unfold pollLookup
    rw [if_pos hnone, if_pos hnone]
    rfl
  · cases hl : i.lookup with
    | failed e =>
      right
      exact ⟨{ s with diskLookup := none }, e, by rw [pollLookup, if_neg hnone, hl]⟩
    | _ =>
      left
      unfold pollLookup
      rw [if_neg hnone, if_neg hnone]
      simp only [healthy, hl] <;> rfl

theorem readPiece_healthy (L : FileLayout) (s : FileStream) (i : MemoryInput) (piece : ℤ) :
    s.readPiece L i piece = s.readPiece L (healthy i) piece ∨
      ∃ u e, s.readPiece L i piece = (u, .ready (.error e)) := by
  unfold readPiece
  split
  · exact Or.inl rfl
  · split
    · exact Or.inl rfl
    · rw [show (healthy i).cached = i.cached from rfl]
      split
      · exact Or.inl rfl
      · exact pollLookup_healthy (s.startLookup piece) i piece

theorem pollRead_healthy (checks : Bool) (L : FileLayout) (s : FileStream) (i : MemoryInput) :
    s.pollRead checks L i = s.pollRead checks L (healthy i) ∨
      ∃ u e, s.pollRead checks L i = some (u, .ready (.error e)) := by
  unfold pollRead
  cases hc : i.cancelled with
  | true => exact Or.inr ⟨s, supersededRead, rfl⟩
  | false =>
    rw [if_neg Bool.false_ne_true, if_neg (show ¬ (healthy i).cancelled = true from Bool.false_ne_true),
      show (healthy i).remaining = i.remaining from rfl]
    split
    · exact Or.inl rfl
    · rw [show (healthy i).planning = i.planning from rfl]
      cases s.setPriorities checks L i.planning with
      | none => exact Or.inl rfl
      | some u =>
        rw [Option.bind_some, Option.bind_some]
        dsimp only
        rcases readPiece_healthy L u i (u.pieceIndex L) with h | ⟨v, e, h⟩
        · left
          rw [h]
          rfl
        · -- a poll that fails does not plan once more
          refine Or.inr ⟨v, e, ?_⟩
          rw [h]
          cases i.replanning <;> rfl

theorem healthy_fits {checks : Bool} (h : i.Fits checks L) : (healthy i).Fits checks L :=
  ⟨h.planning, h.replanning⟩

/-- No poll changes whether the file was complete. -/
theorem readPiece_isComplete (L : FileLayout) (s : FileStream) (i : MemoryInput) (piece : ℤ) :
    (s.readPiece L i piece).1.isComplete = s.isComplete := by
  have hawait : ∀ u : FileStream, (u.awaitPiece i piece).1.isComplete = u.isComplete := by
    intro u
    unfold awaitPiece
    (repeat' split) <;> rfl
  unfold readPiece
  split
  · rfl
  · split
    · rfl
    · split
      · rfl
      · unfold pollLookup
        split
        · exact hawait _
        · split
          · rfl
          · exact hawait _
          · rfl
          · exact hawait _
          · exact hawait _

theorem pollRead_isComplete {checks : Bool} {r : FileStream × ReadPoll}
    (h : s.pollRead checks L i = some r) : r.1.isComplete = s.isComplete := by
  rcases pollRead_cases h with ⟨-, rfl⟩ | ⟨-, -, rfl⟩ | ⟨-, -, -, last, rfl⟩
  · rfl
  · rfl
  · exact readPiece_isComplete L { s with lastPrioritiesPiece := last } i _

section Polls

variable {checks isComplete : Bool} {i : ℕ → FileStream → MemoryInput}

/-- **The memory-only reader serves its file**, or fails, as long as the caches tell the
truth and the numbers of its planning fit. -/
theorem streams_pollRead (hi : ∀ n s, (i n s).Truthful L s)
    (hfits : isComplete = false → ∀ n s, (i n s).Fits checks L) :
    Streams (pollsOf checks L i) (Stands isComplete L) L.fileByte L.fileSize := by
  rintro n room s pos ⟨halign, rfl, hcomplete⟩
  have htruth : MemoryInput.Truthful L s { i n s with remaining := room } :=
    ⟨(hi n s).cached, (hi n s).lookup⟩
  have hfit : s.isComplete = false → MemoryInput.Fits checks L { i n s with remaining := room } :=
    fun h => ⟨(hfits (hcomplete.symm.trans h) n s).planning,
      (hfits (hcomplete.symm.trans h) n s).replanning⟩
  obtain ⟨⟨u, p⟩, hpoll, hserved⟩ :=
    pollRead_spec halign (healthy_truthful htruth) (healthy_succeeds _)
      fun h => healthy_fits (hfit h)
  rcases pollRead_healthy checks L s { i n s with remaining := room } with heq | ⟨v, e, hfail⟩
  · refine ⟨(u, p), heq.trans hpoll, ?_⟩
    have hsame : u.isComplete = isComplete := (pollRead_isComplete hpoll).trans hcomplete
    obtain ⟨hu, hserves⟩ := hserved
    match p, hserves with
    | .pending, hpos => exact ⟨hu, hpos, hsame⟩
    | .ready (.ok bytes), ⟨hbytes, hpos, hle, hend⟩ => exact ⟨hbytes, hle, hend, hu, hpos, hsame⟩
  · exact ⟨(v, .ready (.error e)), hfail, trivial⟩

/-- It does not fail unless something goes wrong. -/
theorem neverFails_pollRead (hi : ∀ n s, (i n s).Truthful L s)
    (hfits : isComplete = false → ∀ n s, (i n s).Fits checks L) (hs : ∀ n s, (i n s).Succeeds) :
    NeverFails (pollsOf checks L i) (Stands isComplete L) := by
  rintro n room s pos ⟨halign, -, hcomplete⟩ s' e hpoll
  have htruth : MemoryInput.Truthful L s { i n s with remaining := room } :=
    ⟨(hi n s).cached, (hi n s).lookup⟩
  have hsucc : MemoryInput.Succeeds { i n s with remaining := room } :=
    ⟨(hs n s).current, (hs n s).lookup⟩
  have hfit : s.isComplete = false → MemoryInput.Fits checks L { i n s with remaining := room } :=
    fun h => ⟨(hfits (hcomplete.symm.trans h) n s).planning,
      (hfits (hcomplete.symm.trans h) n s).replanning⟩
  obtain ⟨r, hr, hserved⟩ := pollRead_spec halign htruth hsucc hfit
  obtain rfl : r = (s', .ready (.error e)) := Option.some.inj (hr.symm.trans hpoll)
  exact hserved.2

end Polls

/-- A seek inside the file, with the polls around it. -/
def seek (checks : Bool) (L : FileLayout) (p p' : Planning) (position : ℕ) (s : FileStream) :
    Option FileStream := do
  let (s, _) ← s.pollComplete checks L p
  let s ← s.startSeek checks L (.start position)
  let (s, _) ← s.pollComplete checks L p'
  return s

theorem stands_seek {checks isComplete : Bool} {p p' : Planning}
    (hp : isComplete = false → p.Fits checks L) (hp' : isComplete = false → p'.Fits checks L)
    {pos position : ℕ} (hs : Stands isComplete L s pos) (hle : position ≤ L.fileSize) :
    ∃ t, s.seek checks L p p' position = some t ∧ Stands isComplete L t position := by
  obtain ⟨halign, -, hcomplete⟩ := hs
  obtain ⟨last, hu⟩ := pollComplete_spec halign fun h => hp (hcomplete.symm.trans h)
  let v : FileStream := { s with
    lastPrioritiesPiece := last
    currentPos := position
    cachedPieceData := none
    diskLookup := none
    diskLookupMiss := none }
  have hvalign : v.Aligned L := ⟨hle, nofun⟩
  obtain ⟨last', ht⟩ := pollComplete_spec hvalign fun h => hp' (hcomplete.symm.trans h)
  refine ⟨{ v with lastPrioritiesPiece := last' }, ?_, ⟨hle, nofun⟩, rfl, hcomplete⟩
  rw [seek, hu]
  exact congrArg (fun r => r.bind fun x => some x.1) ht

end FileStream

end StreamServer.Readers

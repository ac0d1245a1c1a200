import Mathlib.Algebra.Order.Group.Nat
import Mathlib.Algebra.Ring.Nat
import Mathlib.Tactic.SplitIfs
import StreamServer.Lib.Checked
import StreamServer.Metadata.Ebml

/-!
# Samples and chunks

The table `stsc` of an MP4 file says how many samples there are in a chunk, for rows of chunks that are
alike.  `sampleToChunk` goes through the chunks from the first on and adds up their samples.

An entry of the table takes effect with the chunk that it names; in a table that is out of order, it does
so in the chunk behind that of the entry in front of it at the earliest.

## Main definitions

* `parseStsc`, `sampleToChunk` — the table, and the chunk that is found for a sample.
* `inEffect`, `samplesIn` — the entries with the chunks where they take effect, and the samples in a
  chunk.
* `WellFormed` — the chunks of the entries are in order, from the first on, and none is empty.
* `FindsChunk` — a chunk is found, and in a well-formed table it is that of the sample.

## Main results

* `chunkLoop_spec` — what there is to say about the loop.
* `findsChunk_iff` — **a chunk is found exactly if** no chunk that begins in front of the sample goes beyond
  `2 ^ 32`, and there are enough samples in fewer than `2 ^ 32` chunks.

## References

`enginefs/src/backend/metadata.rs`, `parse_stsc` and `sample_to_chunk`.
-/

namespace StreamServer.Metadata

open Checked

/-! ### The code -/

/-- Four bytes from there on. -/
def beU32 (data : List UInt8) (offset : ℕ) : ℕ := bigEndian 0 ((data.drop offset).take 4)

/-- The entries of the table: the first chunk, and the samples in each chunk. -/
def parseStsc (data : List UInt8) : List (ℕ × ℕ) :=
  if data.length < 16 then []
  else
    let offsets := (List.range (min (beU32 data 12) 100)).map fun i => 16 + i * 12
    (offsets.takeWhile fun offset => offset + 12 ≤ data.length).map fun offset =>
      (beU32 data offset, beU32 data (offset + 4))

/-- The loop of `sample_to_chunk`, with fuel. -/
def chunkLoop (stsc : List (ℕ × ℕ)) (sampleNumber : ℕ) : ℕ → ℕ → ℕ → ℕ → ℕ → Run ℕ
  | 0, _, _, _, _ => .error .stuck
  | fuel + 1, chunk, sample, samplesPerChunk, stscIdx =>
      if sample < sampleNumber then do
        let (samplesPerChunk, stscIdx) := match stsc[stscIdx + 1]? with
          | some entry => if entry.1 ≤ chunk then (entry.2, stscIdx + 1) else (samplesPerChunk, stscIdx)
          | none => (samplesPerChunk, stscIdx)
        let next ← add (2 ^ 32) sample samplesPerChunk
        if sampleNumber < next then .ok chunk
        else do
          let sample ← add (2 ^ 32) sample samplesPerChunk
          let chunk ← add (2 ^ 32) chunk 1
          chunkLoop stsc sampleNumber fuel chunk sample samplesPerChunk stscIdx
      else .ok chunk

/-- **The chunk for a sample.** -/
def sampleToChunk (sampleNumber : ℕ) : List (ℕ × ℕ) → Run ℕ
  | [] => .ok sampleNumber
  | entry :: stsc => chunkLoop (entry :: stsc) sampleNumber (2 ^ 32) 1 1 entry.2 0

/-! ### What the table says -/

/-- The samples in a chunk: the last entry counts that has taken effect. -/
def samplesIn (entries : List (ℕ × ℕ)) (samples chunk : ℕ) : ℕ :=
  entries.foldl (fun samples entry => if entry.1 ≤ chunk then entry.2 else samples) samples

/-- The samples in the chunks in front of a chunk. -/
def samplesBefore (entries : List (ℕ × ℕ)) (chunk : ℕ) : ℕ :=
  ((List.range (chunk - 1)).map fun i => samplesIn entries 0 (i + 1)).sum

/-- Entries take effect with their chunks, but not before this chunk, and no two at once. -/
def spread : ℕ → List (ℕ × ℕ) → List (ℕ × ℕ)
  | _, [] => []
  | chunk, entry :: entries => (max chunk entry.1, entry.2) :: spread (max chunk entry.1 + 1) entries

/-- The entries with the chunks where they take effect. -/
def inEffect : List (ℕ × ℕ) → List (ℕ × ℕ)
  | [] => []
  | entry :: entries => (1, entry.2) :: spread 1 entries

/-- The chunks of the entries are in order, from the first on, and no chunk is empty. -/
def WellFormed (stsc : List (ℕ × ℕ)) : Prop :=
  stsc.head?.map (·.1) = some 1 ∧ (stsc.map (·.1)).Pairwise (· < ·) ∧ ∀ entry ∈ stsc, 1 ≤ entry.2

/-- The sample lies in the chunk. -/
def InChunk (stsc : List (ℕ × ℕ)) (sample chunk : ℕ) : Prop :=
  1 ≤ chunk ∧ samplesBefore stsc chunk < sample ∧ sample ≤ samplesBefore stsc (chunk + 1)

/-- A chunk is found, and nothing overflows; in a well-formed table it is the one chunk of the
sample. -/
def FindsChunk (stsc : List (ℕ × ℕ)) (sample : ℕ) : Prop :=
  ∃ chunk, sampleToChunk sample stsc = .ok chunk ∧
    (WellFormed stsc → ∀ chunk', InChunk stsc sample chunk' ↔ chunk' = chunk)

/-- No chunk that begins in front of the sample has a sample beyond 32 bits. -/
def FitsChunks (stsc : List (ℕ × ℕ)) (sample : ℕ) : Prop :=
  ∀ chunk, 1 ≤ chunk → samplesBefore (inEffect stsc) chunk + 1 < sample →
    samplesBefore (inEffect stsc) (chunk + 1) + 1 < 2 ^ 32

/-- There are enough samples in the chunks that have a number. -/
def EnoughChunks (stsc : List (ℕ × ℕ)) (sample : ℕ) : Prop :=
  sample ≤ samplesBefore (inEffect stsc) (2 ^ 32 - 1) + 1 ∨
    sample < samplesBefore (inEffect stsc) (2 ^ 32) + 1

/-! ### Samples in front of a chunk -/

section Before

variable (entries : List (ℕ × ℕ))

theorem samplesBefore_one : samplesBefore entries 1 = 0 := rfl

theorem samplesBefore_succ {chunk : ℕ} (h : 1 ≤ chunk) : samplesBefore entries (chunk + 1) =
    samplesBefore entries chunk + samplesIn entries 0 chunk := by
  obtain ⟨n, rfl⟩ := Nat.exists_eq_add_of_le' h
  simp only [samplesBefore, Nat.add_sub_cancel]
  rw [List.range_succ, List.map_append, List.sum_append, List.map_singleton, List.sum_singleton]

theorem samplesBefore_mono {chunk chunk' : ℕ} (h : 1 ≤ chunk) (hle : chunk ≤ chunk') :
    samplesBefore entries chunk ≤ samplesBefore entries chunk' := by
  induction chunk', hle using Nat.le_induction with
  | base => exact Nat.le_refl _
  | succ n hn ih =>
    rw [samplesBefore_succ entries (Nat.le_trans h hn)]
    exact Nat.le_trans ih (Nat.le_add_right _ _)

end Before

/-! ### Entries take effect -/

variable {stsc : List (ℕ × ℕ)} {entries : List (ℕ × ℕ)} {samples chunk : ℕ}

/-- An entry does not count before it has taken effect. -/
theorem samplesIn_spread {start : ℕ} (h : chunk < start) :
    samplesIn (spread start entries) samples chunk = samples := by
  induction entries generalizing start with
  | nil => rfl
  | cons entry entries ih =>
    have hnot : ¬ max start entry.1 ≤ chunk := by omega
    rw [spread, samplesIn, List.foldl_cons, if_neg hnot]
    exact ih (by omega)

/-- What holds when the loop is at a chunk: the sample is the first of it, and from there on the entries
count that are left. -/
structure LoopInv (stsc : List (ℕ × ℕ)) (chunk sample samplesPerChunk stscIdx : ℕ) : Prop where
  pos : 1 ≤ chunk
  lt : chunk < 2 ^ 32
  first : sample = samplesBefore (inEffect stsc) chunk + 1
  left : ∀ c, chunk ≤ c → samplesIn (inEffect stsc) 0 c =
    samplesIn (spread chunk (stsc.drop (stscIdx + 1))) samplesPerChunk c

/-- The samples of the chunk and the entry in the loop, once it has looked at the next entry. -/
def switch (stsc : List (ℕ × ℕ)) (chunk samplesPerChunk stscIdx : ℕ) : ℕ × ℕ :=
  match stsc[stscIdx + 1]? with
  | some entry => if entry.1 ≤ chunk then (entry.2, stscIdx + 1) else (samplesPerChunk, stscIdx)
  | none => (samplesPerChunk, stscIdx)

theorem chunkLoop_succ (stsc : List (ℕ × ℕ)) (sampleNumber fuel chunk sample samplesPerChunk stscIdx : ℕ) :
    chunkLoop stsc sampleNumber (fuel + 1) chunk sample samplesPerChunk stscIdx =
      if sample < sampleNumber then do
        let next ← add (2 ^ 32) sample (switch stsc chunk samplesPerChunk stscIdx).1
        if sampleNumber < next then .ok chunk
        else do
          let sample ← add (2 ^ 32) sample (switch stsc chunk samplesPerChunk stscIdx).1
          let chunk' ← add (2 ^ 32) chunk 1
          chunkLoop stsc sampleNumber fuel chunk' sample (switch stsc chunk samplesPerChunk stscIdx).1
            (switch stsc chunk samplesPerChunk stscIdx).2
      else .ok chunk := rfl

/-- **The loop switches to the next entry in the chunk where it takes effect.** -/
theorem LoopInv.switch {sample samplesPerChunk stscIdx : ℕ}
    (h : LoopInv stsc chunk sample samplesPerChunk stscIdx) :
    samplesIn (inEffect stsc) 0 chunk = (switch stsc chunk samplesPerChunk stscIdx).1 ∧
      ∀ c, chunk + 1 ≤ c → samplesIn (inEffect stsc) 0 c =
        samplesIn (spread (chunk + 1) (stsc.drop ((switch stsc chunk samplesPerChunk stscIdx).2 + 1)))
          (switch stsc chunk samplesPerChunk stscIdx).1 c := by
  have hleft := h.left
  rw [Metadata.switch]
  cases hnext : stsc[stscIdx + 1]? with
  -- no entry is left: the last one holds for all later chunks
  | none =>
    have hnil : stsc.drop (stscIdx + 1) = [] := by
      rw [List.drop_eq_nil_iff]
      exact List.getElem?_eq_none_iff.mp hnext
    rw [hnil] at hleft
    refine ⟨hleft chunk (Nat.le_refl _), fun c hc => ?_⟩
    dsimp only
    rw [hnil]
    exact hleft c (by omega)
  | some entry =>
    have hcons : stsc.drop (stscIdx + 1) = entry :: stsc.drop (stscIdx + 2) := by
      obtain ⟨hlt, hget⟩ := List.getElem?_eq_some_iff.mp hnext
      rw [List.drop_eq_getElem_cons hlt, hget]
    dsimp only
    by_cases hle : entry.1 ≤ chunk
    · rw [if_pos hle]
      dsimp only
      rw [hcons, spread, Nat.max_eq_left hle] at hleft
      refine ⟨?_, fun c hc => ?_⟩
      · rw [hleft chunk (Nat.le_refl _), samplesIn, List.foldl_cons, if_pos (Nat.le_refl _)]
        exact samplesIn_spread (Nat.lt_succ_self chunk)
      · rw [hleft c (by omega), samplesIn, List.foldl_cons, if_pos (by omega)]
        rfl
    · -- the next entry takes effect at its own chunk, which comes later
      rw [if_neg hle]
      dsimp only
      have hsame : spread chunk (stsc.drop (stscIdx + 1)) =
          spread (chunk + 1) (stsc.drop (stscIdx + 1)) := by
        rw [hcons, spread, spread, Nat.max_eq_right (by omega), Nat.max_eq_right (by omega)]
      rw [hsame] at hleft
      refine ⟨?_, fun c hc => hleft c (by omega)⟩
      rw [hleft chunk (Nat.le_refl _)]
      exact samplesIn_spread (Nat.lt_succ_self chunk)

/-! ### The loop -/

/-- What there is to say about the outcome of the loop, from a chunk on. -/
def ChunkOutcome (stsc : List (ℕ × ℕ)) (sampleNumber chunk : ℕ) : Run ℕ → Prop
  | .ok found => chunk ≤ found ∧ found < 2 ^ 32 ∧
      (samplesBefore (inEffect stsc) chunk + 1 ≤ sampleNumber →
        samplesBefore (inEffect stsc) found + 1 ≤ sampleNumber) ∧
      (sampleNumber ≤ samplesBefore (inEffect stsc) found + 1 ∨
        sampleNumber < samplesBefore (inEffect stsc) (found + 1) + 1 ∧
          samplesBefore (inEffect stsc) (found + 1) + 1 < 2 ^ 32)
  | .error .panic => ∃ c, 1 ≤ c ∧ samplesBefore (inEffect stsc) c + 1 < sampleNumber ∧
      (2 ^ 32 ≤ samplesBefore (inEffect stsc) (c + 1) + 1 ∨
        c + 1 = 2 ^ 32 ∧ samplesBefore (inEffect stsc) (c + 1) + 1 ≤ sampleNumber)
  | .error .fail => False
  | .error .stuck => False

theorem chunkLoop_spec {sampleNumber fuel sample samplesPerChunk stscIdx : ℕ}
    (h : LoopInv stsc chunk sample samplesPerChunk stscIdx) (hfuel : 2 ^ 32 ≤ fuel + chunk) :
    ChunkOutcome stsc sampleNumber chunk
      (chunkLoop stsc sampleNumber fuel chunk sample samplesPerChunk stscIdx) := by
  induction fuel generalizing chunk sample samplesPerChunk stscIdx with
  | zero =>
    have hlt := h.lt
    omega
  | succ fuel ih =>
    obtain ⟨hin, hleft⟩ := h.switch
    have hsucc := samplesBefore_succ (inEffect stsc) h.pos
    have hfirst := h.first
    have hpos := h.pos
    have hlt := h.lt
    rw [hin] at hsucc
    rw [chunkLoop_succ]
    -- from here on only the count in effect and what is left of the table matter
    generalize (switch stsc chunk samplesPerChunk stscIdx).1 = count at hsucc hleft ⊢
    generalize (switch stsc chunk samplesPerChunk stscIdx).2 = idx at hleft ⊢
    by_cases hbefore : sample < sampleNumber
    · rw [if_pos hbefore]
      -- each of the two additions may overflow: the sample count, or the number of the chunk
      by_cases hfits : sample + count < 2 ^ 32
      · rw [add_of_lt hfits, ok_bind]
        by_cases hinside : sampleNumber < sample + count
        · rw [if_pos hinside]
          exact ⟨Nat.le_refl _, hlt, fun hle => hle, Or.inr ⟨by omega, by omega⟩⟩
        · rw [if_neg hinside, ok_bind]
          by_cases hmore : chunk + 1 < 2 ^ 32
          · rw [add_of_lt hmore, ok_bind]
            have hinv : LoopInv stsc (chunk + 1) (sample + count) count idx :=
              ⟨by omega, hmore, by omega, hleft⟩
            have hout := ih hinv (by omega)
            generalize chunkLoop stsc sampleNumber fuel (chunk + 1) (sample + count) count idx = run
              at hout ⊢
            cases run with
            | error stop =>
              cases stop with
              | panic => exact hout
              | fail => exact hout
              | stuck => exact hout
            | ok found =>
              obtain ⟨hle, hlt', hkeeps, hstop⟩ := hout
              exact ⟨by omega, hlt', fun _ => hkeeps (by omega), hstop⟩
          · rw [add_eq_panic_iff.mpr (Nat.le_of_not_lt hmore), error_bind]
            exact ⟨chunk, hpos, by omega, Or.inr ⟨by omega, by omega⟩⟩
      · rw [add_eq_panic_iff.mpr (Nat.le_of_not_lt hfits), error_bind]
        exact ⟨chunk, hpos, by omega, Or.inl (by omega)⟩
    · rw [if_neg hbefore]
      exact ⟨Nat.le_refl _, hlt, fun hle => hle, Or.inl (by omega)⟩

theorem loopInv_first (entry : ℕ × ℕ) (stsc : List (ℕ × ℕ)) :
    LoopInv (entry :: stsc) 1 1 entry.2 0 where
  pos := Nat.le_refl 1
  lt := by decide
  first := rfl
  left := by
    intro c hc
    rw [inEffect, samplesIn, List.foldl_cons, if_pos hc]
    rfl

theorem sampleToChunk_spec (entry : ℕ × ℕ) (stsc : List (ℕ × ℕ)) (sample : ℕ) :
    ChunkOutcome (entry :: stsc) sample 1 (sampleToChunk sample (entry :: stsc)) :=
  chunkLoop_spec (loopInv_first entry stsc) (by decide)

/-! ### Well-formed tables -/

theorem spread_of_sorted {start : ℕ} (h : (entries.map (·.1)).Pairwise (· < ·))
    (hstart : ∀ entry ∈ entries, start ≤ entry.1) : spread start entries = entries := by
  induction entries generalizing start with
  | nil => rfl
  | cons entry entries ih =>
    rw [List.map_cons, List.pairwise_cons] at h
    have hmax : max start entry.1 = entry.1 := Nat.max_eq_right (hstart entry List.mem_cons_self)
    rw [spread, hmax, ih h.2]
    intro entry' hentry'
    exact h.1 entry'.1 (List.mem_map_of_mem hentry')

/-- In a well-formed table the entries take effect with their chunks. -/
theorem WellFormed.inEffect_eq (h : WellFormed stsc) : inEffect stsc = stsc := by
  obtain ⟨hhead, hsorted, -⟩ := h
  cases stsc with
  | nil => rfl
  | cons entry stsc =>
    have hone : entry.1 = 1 := Option.some.inj hhead
    rw [List.map_cons, List.pairwise_cons] at hsorted
    rw [inEffect, spread_of_sorted hsorted.2, ← hone]
    intro entry' hentry'
    have hlt := hsorted.1 entry'.1 (List.mem_map_of_mem hentry')
    omega

theorem one_le_samplesIn (h : ∀ entry ∈ entries, 1 ≤ entry.2) (hsamples : 1 ≤ samples) :
    1 ≤ samplesIn entries samples chunk := by
  induction entries generalizing samples with
  | nil => exact hsamples
  | cons entry entries ih =>
    have hrest : ∀ entry' ∈ entries, 1 ≤ entry'.2 := fun entry' hentry' =>
      h entry' (List.mem_cons_of_mem _ hentry')
    rw [samplesIn, List.foldl_cons]
    split_ifs with hle
    · exact ih hrest (h entry List.mem_cons_self)
    · exact ih hrest hsamples

/-- No chunk of a well-formed table is empty. -/
theorem WellFormed.samplesBefore_lt (h : WellFormed stsc) (hchunk : 1 ≤ chunk) :
    samplesBefore stsc chunk < samplesBefore stsc (chunk + 1) := by
  obtain ⟨hhead, -, hfull⟩ := h
  rw [samplesBefore_succ stsc hchunk]
  cases stsc with
  | nil => cases hhead
  | cons entry stsc =>
    have hone : entry.1 = 1 := Option.some.inj hhead
    have hin : 1 ≤ samplesIn (entry :: stsc) 0 chunk := by
      rw [samplesIn, List.foldl_cons, if_pos (by omega)]
      exact one_le_samplesIn (fun entry' hentry' => hfull entry' (List.mem_cons_of_mem _ hentry'))
        (hfull entry List.mem_cons_self)
    omega

/-- A sample lies in one chunk. -/
theorem InChunk.unique {sample chunk' : ℕ} (h : InChunk stsc sample chunk)
    (h' : InChunk stsc sample chunk') : chunk = chunk' := by
  obtain ⟨hpos, hlow, hhigh⟩ := h
  obtain ⟨hpos', hlow', hhigh'⟩ := h'
  rcases Nat.lt_trichotomy chunk chunk' with hlt | heq | hlt
  · have hmono := samplesBefore_mono stsc (Nat.le_add_left 1 chunk) hlt
    omega
  · exact heq
  · have hmono := samplesBefore_mono stsc (Nat.le_add_left 1 chunk') hlt
    omega

/-- What the loop finds is the chunk of the sample. -/
theorem inChunk_of_outcome {sample : ℕ} (hwell : WellFormed stsc) (hsample : sample ≠ 0)
    (h : ChunkOutcome stsc sample 1 (.ok chunk)) : InChunk stsc sample chunk := by
  obtain ⟨hpos, -, hkeeps, hstop⟩ := h
  rw [hwell.inEffect_eq, samplesBefore_one] at hkeeps
  rw [hwell.inEffect_eq] at hstop
  have hlow := hkeeps (by omega)
  have hnext := hwell.samplesBefore_lt hpos
  exact ⟨hpos, by omega, by omega⟩

/-! ### When a chunk is found -/

theorem fits_of_outcome {sample : ℕ} (hsample : sample < 2 ^ 32)
    (h : ChunkOutcome stsc sample 1 (.ok chunk)) : FitsChunks stsc sample := by
  obtain ⟨hpos, -, hkeeps, hstop⟩ := h
  rw [samplesBefore_one] at hkeeps
  intro c hc hbefore
  rcases Nat.lt_trichotomy c chunk with hlt | rfl | hlt
  · -- the chunks in front of the one that was found end in front of the sample
    have hmono := samplesBefore_mono (inEffect stsc) (Nat.le_add_left 1 c) hlt
    have hlow := hkeeps (by omega)
    omega
  · rcases hstop with hstop | ⟨-, hfits⟩
    · omega
    · exact hfits
  · have hmono := samplesBefore_mono (inEffect stsc) hpos hlt.le
    have hmono' := samplesBefore_mono (inEffect stsc) (Nat.le_add_left 1 chunk) hlt
    omega

theorem enough_of_outcome {sample : ℕ} (h : ChunkOutcome stsc sample 1 (.ok chunk)) :
    EnoughChunks stsc sample := by
  obtain ⟨hpos, hlt, -, hstop⟩ := h
  rcases hstop with hstop | ⟨hstop, -⟩
  · exact Or.inl (Nat.le_trans hstop (Nat.succ_le_succ
      (samplesBefore_mono (inEffect stsc) hpos (Nat.le_pred_of_lt hlt))))
  · exact Or.inr (Nat.lt_of_lt_of_le hstop (Nat.succ_le_succ
      (samplesBefore_mono (inEffect stsc) (Nat.le_add_left 1 chunk) hlt)))

/-- **A chunk is found, and in a well-formed table the right one, exactly if** no chunk that begins in
front of the sample goes beyond 32 bits, there are enough samples in the chunks that have a number, and
the sample is not the one in front of the first. -/
theorem findsChunk_iff {data : List UInt8} {sample : ℕ} (hsample : sample < 2 ^ 32) :
    FindsChunk (parseStsc data) sample ↔ parseStsc data = [] ∨
      FitsChunks (parseStsc data) sample ∧ EnoughChunks (parseStsc data) sample ∧
        (WellFormed (parseStsc data) → sample ≠ 0) := by
  generalize parseStsc data = stsc
  cases stsc with
  | nil =>
    refine iff_of_true ⟨sample, rfl, fun hwell => ?_⟩ (Or.inl rfl)
    cases hwell.1
  | cons entry stsc =>
    have hspec := sampleToChunk_spec entry stsc sample
    constructor
    · intro h
      obtain ⟨chunk, hrun, hfound⟩ := h
      rw [hrun] at hspec
      refine Or.inr ⟨fits_of_outcome hsample hspec, enough_of_outcome hspec, fun hwell hzero => ?_⟩
      -- samples count from one, so none is in the chunk of sample zero
      have hin := (hfound hwell chunk).mpr rfl
      exact absurd hin.2.1 (by omega)
    · intro h
      rcases h with hnil | ⟨hfits, henough, hzero⟩
      · cases hnil
      · cases hrun : sampleToChunk sample (entry :: stsc) with
        | error stop =>
          rw [hrun] at hspec
          cases stop with
          | panic =>
            obtain ⟨c, hc, hbefore, hover | ⟨hlast, hover⟩⟩ := hspec
            · have hlt := hfits c hc hbefore
              omega
            · rw [hlast] at hover
              have hprev : 2 ^ 32 - 1 = c := by omega
              rw [EnoughChunks, hprev] at henough
              omega
          | fail => exact absurd hspec id
          | stuck => exact absurd hspec id
        | ok chunk =>
          rw [hrun] at hspec
          refine ⟨chunk, hrun, fun hwell chunk' => ?_⟩
          have hin := inChunk_of_outcome hwell (hzero hwell) hspec
          constructor
          · intro h
            exact h.unique hin
          · intro h
            rwa [h]

/-- A table with one entry: from the first chunk on, so many samples in each. -/
def oneEntry (b b' : UInt8) : List UInt8 :=
  [0, 0, 0, 28, 115, 116, 115, 99, 0, 0, 0, 0, 0, 0, 0, 1, 0, 0, 0, 1, b, b, b, b', 0, 0, 0, 1]

/-- With two samples in a chunk, the third sample lies in the second chunk. -/
theorem thirdSample_found : FindsChunk (parseStsc (oneEntry 0 2)) 3 ∧
    FitsChunks (parseStsc (oneEntry 0 2)) 3 ∧ EnoughChunks (parseStsc (oneEntry 0 2)) 3 := by
  have hrun : sampleToChunk 3 (parseStsc (oneEntry 0 2)) = .ok 2 := by decide
  have hin : InChunk (parseStsc (oneEntry 0 2)) 3 2 := by
    unfold InChunk
    decide
  have hfound : FindsChunk (parseStsc (oneEntry 0 2)) 3 := by
    refine ⟨2, hrun, fun _ chunk' => ⟨fun h => h.unique hin, fun h => ?_⟩⟩
    rwa [h]
  have hcondition := (findsChunk_iff (by decide)).mp hfound
  rcases hcondition with hnil | ⟨hfits, henough, -⟩
  · exact absurd hnil (by decide)
  · exact ⟨hfound, hfits, henough⟩

/-- With `2 ^ 32 - 1` samples in a chunk, the sum for the second sample does not fit. -/
theorem hugeChunk_not_found : WellFormed (parseStsc (oneEntry 255 255)) ∧
    ¬ FindsChunk (parseStsc (oneEntry 255 255)) 2 := by
  have htable : parseStsc (oneEntry 255 255) = [(1, 2 ^ 32 - 1)] := by decide
  have hrun : sampleToChunk 2 [(1, 2 ^ 32 - 1)] = .error .panic := by decide
  rw [htable]
  refine ⟨⟨rfl, by decide, by decide⟩, fun h => ?_⟩
  obtain ⟨chunk, hfound, -⟩ := h
  rw [hrun] at hfound
  cases hfound

end StreamServer.Metadata

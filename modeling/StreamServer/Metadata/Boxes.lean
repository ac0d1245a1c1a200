import StreamServer.Metadata.Buffers
import StreamServer.Metadata.Samples

/-!
# The boxes of an MP4 file

An MP4 file is a row of boxes: a size, a type of four letters, and for a size of 1 a size of 64 bits.  The
inspector goes from box to box until it comes to the one with the index, `moov`.  At a large `mdat` it
looks for these letters in the last 5 MB of the file instead.  It takes the size that stands there, cut to
50 MB, for the size of the index, wherever the file ends.

One read brings as many bytes as it brings, up to those asked for: a loop that gets less than a header ends,
and in the last 5 MB only what one read has brought is looked through.  No read fails.

## Main definitions

* `BoxReads` — what the reads bring.
* `inspectMp4Full`, `findMp4Keyframes` — the inspector, with its arithmetic checked.
* `BoxReached` — the boxes that the loop comes to.
* `IndexInside` — the index that it finds ends in the file.

## Main results

* `boxLoop_spec`, `boxLoop_reached` — what the loop finds.
* `findMp4Keyframes_ne_panic_iff` — nothing overflows exactly if the boxes start where 8 bytes more fit.
* `inspectMp4Full_inside_iff` — **the ranges lie in the file, and nothing overflows, exactly if** the
  index does.

## References

`enginefs/src/backend/metadata.rs`, `inspect_mp4_full` and what follows it.
-/

namespace StreamServer.Metadata

open Checked

/-! ### The code -/

/-- `moov`. -/
def moov : List UInt8 := [0x6D, 0x6F, 0x6F, 0x76]

/-- `mdat`. -/
def mdat : List UInt8 := [0x6D, 0x64, 0x61, 0x74]

/-- `stss`. -/
def stss : List UInt8 := [0x73, 0x74, 0x73, 0x73]

/-- `stco`. -/
def stco : List UInt8 := [0x73, 0x74, 0x63, 0x6F]

/-- `co64`. -/
def co64 : List UInt8 := [0x63, 0x6F, 0x36, 0x34]

/-- `stsc`. -/
def stsc : List UInt8 := [0x73, 0x74, 0x73, 0x63]

/-- So many bytes from there on, as a number. -/
def bytesAt (n : ℕ) (data : List UInt8) (offset : ℕ) : Run ℕ := do
  let stop ← add (2 ^ 64) offset n
  let bytes ← slice data offset stop
  .ok (bigEndian 0 bytes)

/-- How many bytes the reads at a box bring: of its header, of its size of 64 bits, and of the end of the
file. -/
structure BoxReads where
  header : ℕ
  extended : ℕ
  tail : ℕ

/-- The type and the size of the box that begins there. -/
def boxAt (file : List UInt8) (reads : BoxReads) (pos : ℕ) : Run (Option (List UInt8 × ℕ)) :=
  let buffer := (file.drop pos).take (min reads.header 8)
  let boxSize := bigEndian 0 (buffer.take 4)
  let boxType := buffer.drop 4
  if buffer.length < 8 then .ok none
  else if boxSize = 1 then
    let extended := (file.drop (pos + 8)).take (min reads.extended 8)
    if extended.length < 8 then .ok none else .ok (some (boxType, bigEndian 0 extended))
  else if boxSize = 0 then do
    let left ← sub file.length pos
    .ok (some (boxType, left))
  else .ok (some (boxType, boxSize))

/-- The letters stand four bytes behind an index. -/
def atomAt (data atomType : List UInt8) (i : ℕ) : Run Bool := do
  let start ← add (2 ^ 64) i 4
  let stop ← add (2 ^ 64) i 8
  let name ← slice data start stop
  .ok (name == atomType)

/-- `check_mp4_end`, where the read brings `bytesRead` bytes. -/
def checkMp4End (file : List UInt8) (bytesRead : ℕ) : Run (List (ℕ × ℕ)) := do
  let checkSize := min 5000000 file.length
  let startPos ← sub file.length checkSize
  let buffer := ((file.drop startPos).take checkSize).take bytesRead
  let found ← firstOf (fun i => do
    if ← atomAt buffer moov i then do
      let boxSize ← bytesAt 4 buffer i
      let globalPos ← add (2 ^ 64) startPos i
      .ok (some (globalPos, min boxSize 50000000))
    else .ok none) (List.range (buffer.length - 8))
  .ok found.toList

/-- The loop over the boxes, of which so many may still be looked at: the ranges of the index, if it is
found.  A box is come to once, so `reads` says for each place what the reads there bring. -/
def boxLoop (file : List UInt8) (reads : ℕ → BoxReads) : ℕ → ℕ → Run (Option (List (ℕ × ℕ)))
  | 0, pos => do
      let _ ← add (2 ^ 64) pos 8
      .ok none
  | n + 1, pos => do
      let stop ← add (2 ^ 64) pos 8
      if file.length < stop then .ok none
      else do
        match ← boxAt file (reads pos) pos with
        | none => .ok none
        | some (boxType, actualSize) =>
            if boxType = moov then .ok (some [(pos, min actualSize 50000000)])
            else do
              let endRanges ← if boxType = mdat ∧ 10000000 < actualSize then
                checkMp4End file (reads pos).tail else .ok []
              if endRanges ≠ [] then .ok (some endRanges)
              else if actualSize < 8 then .ok none
              else do
                let left ← sub file.length pos
                if left < actualSize then .ok none
                else do
                  let next ← add (2 ^ 64) pos actualSize
                  boxLoop file reads n next

/-- `inspect_mp4_full`. -/
def inspectMp4Full (file : List UInt8) (reads : ℕ → BoxReads) : Run (List (ℕ × ℕ)) := do
  match ← boxLoop file reads 100 0 with
  | some ranges => .ok ranges
  | none =>
      if 2000000 < file.length then do
        let start ← sub file.length 2000000
        .ok [(start, 2000000)]
      else .ok []

/-! ### The tables of the index -/

/-- `find_atom`. -/
def findAtom (data atomType : List UInt8) : Run (Option ℕ) :=
  firstOf (fun i => do
    if ← atomAt data atomType i then .ok (some i) else .ok none) (List.range (data.length - 8))

/-- The entries of a table, as far as they are there. -/
def tableLoop {β : Type} (data : List UInt8) (entrySize : ℕ) (entry : ℕ → Run β) :
    List ℕ → Run (List β)
  | [] => .ok []
  | i :: is => do
      let skip ← mul (2 ^ 64) i entrySize
      let offset ← add (2 ^ 64) 16 skip
      let stop ← add (2 ^ 64) offset entrySize
      if data.length < stop then .ok []
      else do
        let first ← entry offset
        let rest ← tableLoop data entrySize entry is
        .ok (first :: rest)

/-- A table: a header of 16 bytes that ends with the number of entries, and entries of one size, of which
so many are read. -/
def parseTable {β : Type} (entrySize limit : ℕ) (entry : ℕ → Run β) (data : List UInt8) :
    Run (List β) :=
  if data.length < 16 then .ok []
  else do
    let entryCount ← bytesAt 4 data 12
    tableLoop data entrySize entry (List.range (min entryCount limit))

/-- `parse_stss`: the numbers of the sync samples. -/
def parseStss (data : List UInt8) : Run (List ℕ) := parseTable 4 100 (bytesAt 4 data) data

/-- `parse_stco`: the offsets of the chunks, in 32 or 64 bits. -/
def parseStco (data : List UInt8) (is64bit : Bool) : Run (List ℕ) :=
  let entrySize := if is64bit then 8 else 4
  parseTable entrySize 1000 (bytesAt entrySize data) data

/-- `parse_stsc`: the first chunk and the samples of each chunk. -/
def parseStscChecked (data : List UInt8) : Run (List (ℕ × ℕ)) :=
  parseTable 12 100 (fun offset => do
    let firstChunk ← bytesAt 4 data offset
    let second ← add (2 ^ 64) offset 4
    let samplesPerChunk ← bytesAt 4 data second
    .ok (firstChunk, samplesPerChunk)) data

/-- A table that is looked for, from where its letters are found. -/
def tableAt {β : Type} (moovData atomType : List UInt8) (parse : List UInt8 → Run (List β)) :
    Run (Option (List β)) := do
  match ← findAtom moovData atomType with
  | none => .ok none
  | some pos => do
      let data ← slice moovData pos moovData.length
      let table ← parse data
      .ok (some table)

/-- The index of the chunk of a keyframe.  The sums of 32 bits in `sample_to_chunk` are told from those of
64 bits: one that does not fit is a failure here. -/
def chunkIndex (kfIdx : ℕ) (samplesPerChunk : List (ℕ × ℕ)) : Run ℕ :=
  if samplesPerChunk = [] then .ok (kfIdx - 1)
  else
    match sampleToChunk kfIdx samplesPerChunk with
    | .ok chunk => .ok (chunk - 1)
    | .error _ => .error .fail

/-- The offset of a chunk, if there is one with this index. -/
def chunkOffset (chunkOffsets : List ℕ) (chunkIdx : ℕ) : Run (List ℕ) :=
  if chunkIdx < chunkOffsets.length then do
    let offset ← elem chunkOffsets chunkIdx
    .ok [offset]
  else .ok []

/-- The offsets of the chunks of keyframes. -/
def keyframeOffsets (samplesPerChunk : List (ℕ × ℕ)) (chunkOffsets : List ℕ) :
    List ℕ → Run (List ℕ)
  | [] => .ok []
  | kfIdx :: indices => do
      let chunkIdx ← chunkIndex kfIdx samplesPerChunk
      let first ← chunkOffset chunkOffsets chunkIdx
      let rest ← keyframeOffsets samplesPerChunk chunkOffsets indices
      .ok (first ++ rest)

/-- The offsets of the chunks, of 32 or of 64 bits. -/
def chunkOffsetTable (moovData : List UInt8) : Run (List ℕ) := do
  match ← tableAt moovData stco fun data => parseStco data false with
  | some offsets => .ok offsets
  | none => do
      let wide ← tableAt moovData co64 fun data => parseStco data true
      .ok (wide.getD [])

/-- `parse_moov_for_keyframes`. -/
def parseMoovForKeyframes (moovData : List UInt8) : Run (List ℕ) := do
  let keyframeIndices ← tableAt moovData stss parseStss
  let chunkOffsets ← chunkOffsetTable moovData
  let samplesPerChunk ← tableAt moovData stsc parseStscChecked
  if keyframeIndices.getD [] ≠ [] ∧ chunkOffsets ≠ [] then
    keyframeOffsets (samplesPerChunk.getD []) chunkOffsets ((keyframeIndices.getD []).take 20)
  else .ok (chunkOffsets.take 10)

/-- `find_mp4_keyframes`, where the read of the index brings `bytesRead` bytes. -/
def findMp4Keyframes (file : List UInt8) (reads : ℕ → BoxReads) (bytesRead : ℕ) :
    Run (List ℕ) := do
  match ← inspectMp4Full file reads with
  | [] => .ok []
  | (moovOffset, moovSize) :: _ =>
      parseMoovForKeyframes (((file.drop moovOffset).take (min moovSize 20000000)).take bytesRead)

/-! ### What the inspector comes across -/

/-- The type and the size of the box that begins there, if the reads bring them. -/
def boxHeader (file : List UInt8) (reads : BoxReads) (pos : ℕ) : Option (List UInt8 × ℕ) :=
  let buffer := (file.drop pos).take (min reads.header 8)
  let boxSize := bigEndian 0 (buffer.take 4)
  let boxType := buffer.drop 4
  if buffer.length < 8 then none
  else if boxSize = 1 then
    let extended := (file.drop (pos + 8)).take (min reads.extended 8)
    if extended.length < 8 then none else some (boxType, bigEndian 0 extended)
  else if boxSize = 0 then some (boxType, file.length - pos)
  else some (boxType, boxSize)

/-- The first place in what a read brings of the last 5 MB that looks like the index, and the size that it
has there. -/
def endMoov (file : List UInt8) (bytesRead : ℕ) : Option (ℕ × ℕ) :=
  let start := file.length - min 5000000 file.length
  let buffer := (file.drop start).take bytesRead
  (List.range (buffer.length - 8)).findSome? fun i =>
    if (buffer.drop (i + 4)).take 4 = moov then some (start + i, min (beU32 buffer i) 50000000)
    else none

/-- The loop comes to a box, past so many others. -/
inductive BoxReached (file : List UInt8) (reads : ℕ → BoxReads) : ℕ → ℕ → Prop
  | first : BoxReached file reads 0 0
  | next {n pos size : ℕ} {boxType : List UInt8} (reached : BoxReached file reads n pos)
      (inside : pos + 8 ≤ file.length)
      (header : boxHeader file (reads pos) pos = some (boxType, size)) (other : boxType ≠ moov)
      (small : ¬ (boxType = mdat ∧ 10000000 < size ∧ (endMoov file (reads pos).tail).isSome = true))
      (least : 8 ≤ size) (fits : pos + size ≤ file.length) :
      BoxReached file reads (n + 1) (pos + size)

/-- The file is not so large that 8 bytes behind the start of a box that is reached is beyond 64 bits. -/
def StartsFit (file : List UInt8) (reads : ℕ → BoxReads) : Prop :=
  ∀ n pos, n ≤ 100 → BoxReached file reads n pos → pos + 8 < 2 ^ 64

/-- **The index that is found ends in the file**: the box of that type, or what looks like it in what one
read brings of the last 5 MB if a large `mdat` comes first. -/
structure IndexInside (file : List UInt8) (reads : ℕ → BoxReads) : Prop where
  fits : StartsFit file reads
  box : ∀ n pos size, n < 100 → BoxReached file reads n pos → pos + 8 ≤ file.length →
    boxHeader file (reads pos) pos = some (moov, size) → pos + min size 50000000 ≤ file.length
  tail : ∀ n pos size, n < 100 → BoxReached file reads n pos → pos + 8 ≤ file.length →
    boxHeader file (reads pos) pos = some (mdat, size) → 10000000 < size →
    ∀ range, endMoov file (reads pos).tail = some range → range.1 + range.2 ≤ file.length

/-! ### Each part does what it says -/

variable {file data : List UInt8} {reads : ℕ → BoxReads} {pos n : ℕ}

theorem bytesAt_eq {offset : ℕ} (h : offset + n ≤ data.length) (hlength : data.length < 2 ^ 64) :
    bytesAt n data offset = .ok (bigEndian 0 ((data.drop offset).take n)) := by
  rw [bytesAt, add_of_lt (by omega), ok_bind, slice_of_le (by omega) h, ok_bind, List.drop_take,
    Nat.add_sub_cancel_left]

theorem boxAt_eq {got : BoxReads} (h : pos ≤ file.length) :
    boxAt file got pos = .ok (boxHeader file got pos) := by
  rw [boxAt, boxHeader]
  dsimp only
  split
  · rfl
  · split
    · split <;> rfl
    · split
      · rw [sub_of_le h, ok_bind]
      · rfl

theorem atomAt_eq {atomType : List UInt8} {i : ℕ} (h : i + 8 ≤ data.length)
    (hlength : data.length < 2 ^ 64) :
    atomAt data atomType i = .ok ((data.drop (i + 4)).take 4 == atomType) := by
  rw [atomAt, add_of_lt (by omega), ok_bind, add_of_lt (by omega), ok_bind,
    slice_of_le (by omega) h, ok_bind, List.drop_take]
  congr 4
  omega

theorem checkMp4End_eq (hlength : file.length < 2 ^ 64) (bytesRead : ℕ) :
    checkMp4End file bytesRead = .ok (endMoov file bytesRead).toList := by
  have hbuffer : ((file.drop (file.length - min 5000000 file.length)).take
      (min 5000000 file.length)) = file.drop (file.length - min 5000000 file.length) := by
    refine List.take_of_length_le ?_
    rw [List.length_drop]
    omega
  have hlengthBuffer : ((file.drop (file.length - min 5000000 file.length)).take bytesRead).length ≤
      min 5000000 file.length := by
    rw [List.length_take, List.length_drop]
    omega
  rw [checkMp4End, endMoov]
  dsimp only
  rw [sub_of_le (Nat.min_le_right _ _), ok_bind, hbuffer]
  generalize hstart : file.length - min 5000000 file.length = start at *
  generalize (file.drop start).take bytesRead = buffer at *
  rw [firstOf_eq]
  · rfl
  · intro i hi
    rw [List.mem_range] at hi
    rw [atomAt_eq (by omega) (by omega), ok_bind]
    by_cases hmoov : (buffer.drop (i + 4)).take 4 = moov
    · rw [if_pos (beq_iff_eq.mpr hmoov), if_pos hmoov, bytesAt_eq (by omega) (by omega), ok_bind,
        add_of_lt (by omega), ok_bind, beU32]
    · rw [if_neg (fun h => hmoov (beq_iff_eq.mp h)), if_neg hmoov]

/-! ### The loop over the boxes -/

theorem BoxReached.le (h : BoxReached file reads n pos) : pos ≤ file.length := by
  cases h with
  | first => exact Nat.zero_le _
  | next _ _ _ _ _ _ fits => exact fits

/-- What the loop does with a box. -/
theorem boxLoop_succ (hlength : file.length < 2 ^ 64) (h : pos + 8 ≤ file.length) :
    boxLoop file reads (n + 1) pos =
      match boxHeader file (reads pos) pos with
      | none => .ok none
      | some (boxType, size) =>
          if boxType = moov then .ok (some [(pos, min size 50000000)])
          else if boxType = mdat ∧ 10000000 < size ∧ (endMoov file (reads pos).tail).isSome = true then
            .ok (some (endMoov file (reads pos).tail).toList)
          else if size < 8 ∨ file.length < pos + size then .ok none
          else boxLoop file reads n (pos + size) := by
  rw [boxLoop, add_of_lt (by omega), ok_bind, if_neg (by omega), boxAt_eq (by omega), ok_bind]
  cases boxHeader file (reads pos) pos with
  | none => rfl
  | some header =>
    obtain ⟨boxType, size⟩ := header
    dsimp only
    by_cases hmoov : boxType = moov
    · rw [if_pos hmoov, if_pos hmoov]
    · rw [if_neg hmoov, if_neg hmoov]
      -- behind what comes from the end of the file, the loop goes on with the size of the box
      have hgo : (if size < 8 then .ok none
          else do
            let left ← sub file.length pos
            if left < size then .ok none
            else do
              let next ← add (2 ^ 64) pos size
              boxLoop file reads n next) =
          if size < 8 ∨ file.length < pos + size then .ok none else boxLoop file reads n (pos + size) := by
        by_cases hsmall : size < 8
        · rw [if_pos hsmall, if_pos (Or.inl hsmall)]
        · rw [if_neg hsmall, sub_of_le (by omega), ok_bind]
          by_cases hlarge : file.length < pos + size
          · rw [if_pos (by omega), if_pos (Or.inr hlarge)]
          · rw [if_neg (by omega), if_neg (by omega), add_of_lt (by omega), ok_bind]
      by_cases hmdat : boxType = mdat ∧ 10000000 < size
      · rw [if_pos hmdat, checkMp4End_eq hlength, ok_bind]
        cases endMoov file (reads pos).tail with
        | none =>
          have hnone : ¬ (boxType = mdat ∧ 10000000 < size ∧
              (none : Option (ℕ × ℕ)).isSome = true) := by simp
          rw [if_neg (by simp), if_neg hnone]
          exact hgo
        | some range =>
          rw [if_pos (by simp), if_pos ⟨hmdat.1, hmdat.2, rfl⟩]
      · have hnot : ¬ (boxType = mdat ∧ 10000000 < size ∧ (endMoov file (reads pos).tail).isSome = true) :=
          fun h => hmdat ⟨h.1, h.2.1⟩
        rw [if_neg hmdat, ok_bind, if_neg (by simp), if_neg hnot]
        exact hgo

/-- **The loop goes through the boxes that are reached.** -/
theorem boxLoop_reached (hlength : file.length < 2 ^ 64) (h : BoxReached file reads n pos) (hn : n ≤ 100) :
    boxLoop file reads 100 0 = boxLoop file reads (100 - n) pos := by
  induction h with
  | first => rfl
  | @next n pos size boxType reached inside header other small least fits ih =>
    have hcount : 100 - n = (100 - (n + 1)) + 1 := by omega
    rw [ih (by omega), hcount, boxLoop_succ hlength inside, header]
    dsimp only
    rw [if_neg other, if_neg small, if_neg (by omega)]

/-- Every range lies in the file. -/
def RangesInside (file : List UInt8) (ranges : List (ℕ × ℕ)) : Prop :=
  ∀ range ∈ ranges, range.1 + range.2 ≤ file.length

theorem rangesInside_nil (file : List UInt8) : RangesInside file [] :=
  fun _ hrange => absurd hrange List.not_mem_nil

theorem rangesInside_cons {range : ℕ × ℕ} {ranges : List (ℕ × ℕ)} :
    RangesInside file (range :: ranges) ↔
      range.1 + range.2 ≤ file.length ∧ RangesInside file ranges := List.forall_mem_cons

theorem boxLoop_spec (hlength : file.length < 2 ^ 64) (hfits : StartsFit file reads) {k : ℕ}
    (h : BoxReached file reads k pos) (hk : k + n = 100) :
    ∃ found, boxLoop file reads n pos = .ok found ∧
      (IndexInside file reads → ∀ ranges ∈ found, RangesInside file ranges) := by
  induction n generalizing k pos with
  | zero =>
    refine ⟨none, ?_, by simp⟩
    rw [boxLoop, add_of_lt (hfits k pos (by omega) h), ok_bind]
  | succ n ih =>
    have hstart := hfits k pos (by omega) h
    by_cases hend : file.length < pos + 8
    · refine ⟨none, ?_, by simp⟩
      rw [boxLoop, add_of_lt hstart, ok_bind, if_pos hend]
    · have hin : pos + 8 ≤ file.length := by omega
      rw [boxLoop_succ hlength hin]
      cases hheader : boxHeader file (reads pos) pos with
      | none => exact ⟨none, rfl, by simp⟩
      | some header =>
        obtain ⟨boxType, size⟩ := header
        dsimp only
        by_cases hmoov : boxType = moov
        · rw [if_pos hmoov]
          rw [hmoov] at hheader
          refine ⟨_, rfl, fun hinside => ?_⟩
          simpa [RangesInside] using hinside.box k pos size (by omega) h hin hheader
        · rw [if_neg hmoov]
          by_cases hmdat : boxType = mdat ∧ 10000000 < size ∧
              (endMoov file (reads pos).tail).isSome = true
          · rw [if_pos hmdat]
            rw [hmdat.1] at hheader
            refine ⟨_, rfl, fun hinside => ?_⟩
            have htail := hinside.tail k pos size (by omega) h hin hheader hmdat.2.1
            simpa [RangesInside] using htail
          · rw [if_neg hmdat]
            by_cases hsize : size < 8 ∨ file.length < pos + size
            · rw [if_pos hsize]
              exact ⟨none, rfl, by simp⟩
            · rw [if_neg hsize]
              exact ih (.next h hin hheader hmoov hmdat (by omega) (by omega)) (by omega)

/-- A loop without an overflow has come to no start that is too large. -/
theorem startsFit_of_boxLoop (hlength : file.length < 2 ^ 64)
    (hrun : boxLoop file reads 100 0 ≠ .error .panic) : StartsFit file reads := by
  intro n pos hn h
  rw [boxLoop_reached hlength h hn] at hrun
  by_contra hover
  have hpanic : add (2 ^ 64) pos 8 = .error .panic := add_eq_panic_iff.mpr (by omega)
  cases hcount : 100 - n with
  | zero =>
    rw [hcount, boxLoop, hpanic] at hrun
    exact hrun rfl
  | succ m =>
    rw [hcount, boxLoop, hpanic] at hrun
    exact hrun rfl

/-- What there is to know about the file if the loop ends well. -/
theorem indexInside_of_boxLoop (hlength : file.length < 2 ^ 64) {found : Option (List (ℕ × ℕ))}
    (hrun : boxLoop file reads 100 0 = .ok found) (hfound : ∀ ranges ∈ found, RangesInside file ranges) :
    IndexInside file reads where
  fits := startsFit_of_boxLoop hlength (by rw [hrun]; simp)
  box := by
    intro n pos size hn h hin hheader
    have hcount : 100 - n = (100 - n - 1) + 1 := by omega
    rw [boxLoop_reached hlength h hn.le, hcount, boxLoop_succ hlength hin, hheader] at hrun
    dsimp only at hrun
    rw [if_pos rfl] at hrun
    cases hrun
    simpa [RangesInside] using hfound
  tail := by
    intro n pos size hn h hin hheader hsize range hrange
    have hcount : 100 - n = (100 - n - 1) + 1 := by omega
    have hother : mdat ≠ moov := by decide
    rw [boxLoop_reached hlength h hn.le, hcount, boxLoop_succ hlength hin, hheader] at hrun
    dsimp only at hrun
    rw [if_neg hother, if_pos ⟨rfl, hsize, by rw [hrange]; rfl⟩, hrange] at hrun
    cases hrun
    exact hfound _ rfl range (List.mem_singleton_self range)

/-- **The ranges lie in the file, and nothing overflows, exactly if** the index does. -/
theorem inspectMp4Full_inside_iff (hlength : file.length < 2 ^ 64) :
    (∃ ranges, inspectMp4Full file reads = .ok ranges ∧ RangesInside file ranges) ↔ IndexInside file reads := by
  constructor
  · intro h
    obtain ⟨ranges, hrun, hranges⟩ := h
    obtain ⟨found, hloop, hrest⟩ := bind_ok_iff.mp hrun
    refine indexInside_of_boxLoop hlength hloop fun ranges' hfound => ?_
    rw [Option.mem_def.mp hfound] at hrest
    cases hrest
    exact hranges
  · intro h
    obtain ⟨found, hloop, hfound⟩ := boxLoop_spec hlength h.fits .first (Nat.zero_add 100)
    rw [inspectMp4Full, hloop, ok_bind]
    cases found with
    | some ranges => exact ⟨ranges, rfl, hfound h ranges rfl⟩
    | none =>
      dsimp only
      by_cases hlarge : 2000000 < file.length
      · rw [if_pos hlarge, sub_of_le hlarge.le, ok_bind]
        exact ⟨_, rfl, rangesInside_cons.mpr ⟨by omega, rangesInside_nil file⟩⟩
      · rw [if_neg hlarge]
        exact ⟨[], rfl, rangesInside_nil file⟩

/-- **Nothing overflows exactly if** the boxes that are reached start where 8 bytes more fit. -/
theorem inspectMp4Full_ne_panic_iff (hlength : file.length < 2 ^ 64) :
    inspectMp4Full file reads ≠ .error .panic ↔ StartsFit file reads := by
  constructor
  · intro h
    refine startsFit_of_boxLoop hlength fun hpanic => h ?_
    rw [inspectMp4Full, hpanic, error_bind]
  · intro hfits
    obtain ⟨found, hloop, -⟩ := boxLoop_spec hlength hfits .first (Nat.zero_add 100)
    rw [inspectMp4Full, hloop, ok_bind]
    cases found with
    | some ranges => simp
    | none =>
      dsimp only
      split
      · next hlarge =>
        rw [sub_of_le hlarge.le, ok_bind]
        simp
      · simp

/-! ### The tables -/

/-- The atom that is found begins in the data. -/
theorem findAtom_ok (atomType : List UInt8) (hlength : data.length < 2 ^ 64) :
    ∃ found, findAtom data atomType = .ok found ∧ ∀ i ∈ found, i ≤ data.length := by
  refine ⟨(List.range (data.length - 8)).findSome? fun i =>
    if (data.drop (i + 4)).take 4 = atomType then some i else none, firstOf_eq fun i hi => ?_,
    fun i hi => ?_⟩
  · rw [List.mem_range] at hi
    rw [atomAt_eq (by omega) hlength, ok_bind]
    by_cases hatom : (data.drop (i + 4)).take 4 = atomType
    · rw [if_pos (beq_iff_eq.mpr hatom), if_pos hatom]
    · rw [if_neg (fun h => hatom (beq_iff_eq.mp h)), if_neg hatom]
  · obtain ⟨j, hj, hfound⟩ := List.exists_of_findSome?_eq_some hi
    rw [List.mem_range] at hj
    split at hfound
    · cases hfound
      omega
    · cases hfound

/-- The entries that are there, of as many as the table says and the limit allows. -/
def tableOf {β : Type} (entrySize limit : ℕ) (entry : ℕ → β) (data : List UInt8) : List β :=
  if data.length < 16 then []
  else
    let offsets := (List.range (min (beU32 data 12) limit)).map fun i => 16 + i * entrySize
    (offsets.takeWhile fun offset => offset + entrySize ≤ data.length).map entry

theorem tableLoop_eq {β : Type} {entrySize : ℕ} {entry : ℕ → Run β} {entry' : ℕ → β} {is : List ℕ}
    (hsize : entrySize ≤ 12) (his : ∀ i ∈ is, i < 1000)
    (hentry : ∀ offset, offset + entrySize ≤ data.length → entry offset = .ok (entry' offset)) :
    tableLoop data entrySize entry is =
      .ok (((is.map fun i => 16 + i * entrySize).takeWhile fun offset =>
        offset + entrySize ≤ data.length).map entry') := by
  induction is with
  | nil => rfl
  | cons i is ih =>
    have hi := his i List.mem_cons_self
    have hprod : i * entrySize ≤ 1000 * 12 := Nat.mul_le_mul hi.le hsize
    rw [tableLoop, mul_of_lt (by omega), ok_bind, add_of_lt (by omega), ok_bind,
      add_of_lt (by omega), ok_bind, List.map_cons, List.takeWhile_cons]
    by_cases hshort : data.length < 16 + i * entrySize + entrySize
    · rw [if_pos hshort, if_neg (by rw [decide_eq_true_iff]; omega)]
      rfl
    · rw [if_neg hshort, if_pos (decide_eq_true (by omega)), hentry _ (by omega), ok_bind,
        ih fun i' hi' => his i' (List.mem_cons_of_mem i hi'), ok_bind]
      rfl

theorem parseTable_eq {β : Type} {entrySize limit : ℕ} {entry : ℕ → Run β} {entry' : ℕ → β}
    (hlength : data.length < 2 ^ 63) (hsize : entrySize ≤ 12) (hlimit : limit ≤ 1000)
    (hentry : ∀ offset, offset + entrySize ≤ data.length → entry offset = .ok (entry' offset)) :
    parseTable entrySize limit entry data = .ok (tableOf entrySize limit entry' data) := by
  rw [parseTable, tableOf]
  by_cases hshort : data.length < 16
  · rw [if_pos hshort, if_pos hshort]
  · rw [if_neg hshort, if_neg hshort, bytesAt_eq (by omega) (by omega), ok_bind,
      tableLoop_eq hsize _ hentry]
    · rfl
    · intro i hi
      rw [List.mem_range] at hi
      omega

theorem parseStss_eq (hlength : data.length < 2 ^ 63) :
    parseStss data = .ok (tableOf 4 100 (beU32 data) data) :=
  parseTable_eq hlength (by decide) (by decide) fun _ h => bytesAt_eq h (hlength.trans (by decide))

theorem parseStco_eq (hlength : data.length < 2 ^ 63) (is64bit : Bool) :
    parseStco data is64bit = .ok (tableOf (if is64bit then 8 else 4) 1000
      (fun offset => bigEndian 0 ((data.drop offset).take (if is64bit then 8 else 4))) data) := by
  have hsize : (if is64bit then 8 else 4) ≤ 12 := by cases is64bit <;> decide
  exact parseTable_eq hlength hsize (by decide) fun _ h => bytesAt_eq h (by omega)

/-- The checked table of chunks is the one that `sampleToChunk` is given. -/
theorem parseStscChecked_eq (hlength : data.length < 2 ^ 63) :
    parseStscChecked data = .ok (parseStsc data) := by
  refine parseTable_eq hlength (by decide) (by decide) fun offset h => ?_
  rw [bytesAt_eq (by omega) (by omega), ok_bind, add_of_lt (by omega), ok_bind,
    bytesAt_eq (by omega) (by omega), ok_bind]
  rfl

theorem tableAt_ok {β : Type} (atomType : List UInt8) (parse : List UInt8 → Run (List β))
    (hlength : data.length < 2 ^ 63)
    (hparse : ∀ data' : List UInt8, data'.length < 2 ^ 63 → ∃ table, parse data' = .ok table) :
    ∃ table, tableAt data atomType parse = .ok table := by
  obtain ⟨found, hfound, hle⟩ := @findAtom_ok data atomType (by omega)
  rw [tableAt, hfound, ok_bind]
  cases found with
  | none => exact ⟨none, rfl⟩
  | some pos =>
    obtain ⟨table, htable⟩ := hparse (data.drop pos) (by rw [List.length_drop]; omega)
    dsimp only
    rw [slice_end (hle pos rfl), ok_bind, htable]
    exact ⟨some table, rfl⟩

/-! ### Keyframes -/

theorem chunkIndex_ne_panic (kfIdx : ℕ) (samplesPerChunk : List (ℕ × ℕ)) :
    chunkIndex kfIdx samplesPerChunk ≠ .error .panic := by
  rw [chunkIndex]
  split
  · simp
  · split
    · simp
    · simp

theorem chunkOffset_ok (chunkOffsets : List ℕ) (chunkIdx : ℕ) :
    ∃ offsets, chunkOffset chunkOffsets chunkIdx = .ok offsets := by
  rw [chunkOffset]
  split
  · next hlt =>
    rw [elem_of_lt hlt]
    exact ⟨_, rfl⟩
  · exact ⟨_, rfl⟩

theorem keyframeOffsets_ne_panic (samplesPerChunk : List (ℕ × ℕ)) (chunkOffsets indices : List ℕ) :
    keyframeOffsets samplesPerChunk chunkOffsets indices ≠ .error .panic := by
  induction indices with
  | nil => simp [keyframeOffsets]
  | cons kfIdx indices ih =>
    intro h
    rw [keyframeOffsets] at h
    rcases bind_error_iff.mp h with hindex | ⟨chunkIdx, -, h⟩
    · exact chunkIndex_ne_panic kfIdx samplesPerChunk hindex
    · obtain ⟨first, hfirst⟩ := chunkOffset_ok chunkOffsets chunkIdx
      rw [hfirst, ok_bind] at h
      rcases bind_error_iff.mp h with hrest | ⟨rest, -, h⟩
      · exact ih hrest
      · cases h

theorem chunkOffsetTable_ok (hlength : data.length < 2 ^ 63) :
    ∃ offsets, chunkOffsetTable data = .ok offsets := by
  obtain ⟨narrow, hnarrow⟩ := tableAt_ok stco (fun data' => parseStco data' false) hlength
    fun data' h => ⟨_, parseStco_eq h false⟩
  obtain ⟨wide, hwide⟩ := tableAt_ok co64 (fun data' => parseStco data' true) hlength
    fun data' h => ⟨_, parseStco_eq h true⟩
  rw [chunkOffsetTable, hnarrow, ok_bind]
  cases narrow with
  | some offsets => exact ⟨offsets, rfl⟩
  | none =>
    dsimp only
    rw [hwide]
    exact ⟨_, rfl⟩

/-- **Nothing in the tables of the index overflows in 64 bits.** -/
theorem parseMoovForKeyframes_ne_panic (hlength : data.length < 2 ^ 63) :
    parseMoovForKeyframes data ≠ .error .panic := by
  obtain ⟨indices, hindices⟩ := tableAt_ok stss parseStss hlength fun data' h => ⟨_, parseStss_eq h⟩
  obtain ⟨offsets, hoffsets⟩ := chunkOffsetTable_ok hlength
  obtain ⟨samples, hsamples⟩ := tableAt_ok stsc parseStscChecked hlength fun data' h => ⟨_, parseStscChecked_eq h⟩
  rw [parseMoovForKeyframes, hindices, ok_bind, hoffsets, ok_bind, hsamples, ok_bind]
  split
  · exact keyframeOffsets_ne_panic _ _ _
  · simp

/-- **Nothing overflows in 64 bits on the way to the keyframes exactly if** nothing does on the way to the
index. -/
theorem findMp4Keyframes_ne_panic_iff (hlength : file.length < 2 ^ 64) (bytesRead : ℕ) :
    findMp4Keyframes file reads bytesRead ≠ .error .panic ↔ StartsFit file reads := by
  rw [← inspectMp4Full_ne_panic_iff hlength, findMp4Keyframes]
  cases hinspect : inspectMp4Full file reads with
  | error stop => rw [error_bind, ne_eq, ne_eq, Except.error.injEq, Except.error.injEq]
  | ok ranges =>
    rw [ok_bind]
    refine iff_of_true ?_ (by simp)
    cases ranges with
    | nil => simp
    | cons range ranges =>
      refine parseMoovForKeyframes_ne_panic ?_
      rw [List.length_take, List.length_take]
      omega

end StreamServer.Metadata

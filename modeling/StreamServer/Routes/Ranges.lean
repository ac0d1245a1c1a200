import Mathlib.Order.Interval.Finset.Nat
import StreamServer.Readers.FileStream

/-!
# Range requests

Three handlers answer a request for a file or a part of it: `stream_video`, its sibling
`head_stream_video` and the handler of files in archives.  Each computes the range, the
length and the status on its own.  The first treats an empty file apart; the second gives
it a length of one byte, and the third subtracts one from its size.

## Main definitions

* `parseU64` — how a number is parsed.
* `parseRange`, `parseArchiveRange` — the two functions `parse_range`.
* `headStreamVideo`, `streamVideo`, `streamFile` — what the handlers answer.
* `Response.Truthful` — an answer fits the file.
* `Consistent` — HEAD and GET agree, and what is answered fits.

## Main results

* `parseRange_spec` — a range that is accepted lies in the file.
* `parseArchiveRange_eq` — on a file that is not empty the two parsers agree.
* `consistent_iff` — **the answers are consistent exactly on files that are not empty**, or
  if the archive handler panics.

## References

`server/src/routes/stream.rs`; `server/src/routes/archive.rs`, `stream_file`.
-/

namespace StreamServer.Routes

open Readers

/-! ### Parsing a range -/

/-- `a - b` for `u64`. -/
def subU64 (checks : Bool) (a b : ℕ) : Option ℕ :=
  if b ≤ a then some (a - b)
  else if checks then none
  else some ((2 ^ 64 + a - b) % 2 ^ 64)

/-- `str::parse::<u64>`: digits, with a plus sign in front if need be. -/
def parseU64 (s : List Char) : Option ℕ :=
  let digits := if s.head? = some '+' then s.tail else s
  if digits = [] ∨ digits.any (fun c => !c.isDigit) then none
  else
    let value := digits.foldl (fun value c => value * 10 + (c.toNat - '0'.toNat)) 0
    if value ≤ maxU64 then some value else none

/-- The two parts of the range behind `bytes=`. -/
def rangeParts (header : List Char) : Option (List Char × List Char) :=
  if "bytes=".toList.isPrefixOf header then
    match (header.drop "bytes=".length).splitOn '-' with
    | [startStr, endStr] => some (startStr, endStr)
    | _ => none
  else none

/-- `parse_range` of `stream.rs`. -/
def parseRange (header : List Char) (size : ℕ) : Option (ℕ × ℕ) :=
  if size = 0 then none
  else
    match rangeParts header with
    | none => none
    | some (startStr, endStr) =>
        if startStr = [] then
          match parseU64 endStr with
          | none => none
          | some suffix => if suffix = 0 then none else some (size - suffix, size - 1)
        else
          match parseU64 startStr with
          | none => none
          | some start =>
              match if endStr = [] then some (size - 1) else parseU64 endStr with
              | none => none
              | some last =>
                  if last < start ∨ size ≤ start then none else some (start, min last (size - 1))

/-- `parse_range` of `archive.rs`; the outer `none` is a panic. -/
def parseArchiveRange (checks : Bool) (header : List Char) (size : ℕ) :
    Option (Option (ℕ × ℕ)) :=
  match rangeParts header with
  | none => some none
  | some (startStr, endStr) =>
      if startStr = [] then
        match parseU64 endStr with
        | none => some none
        | some suffix =>
            if suffix = 0 then some none
            else (subU64 checks size 1).map fun last => some (size - suffix, last)
      else
        match parseU64 startStr with
        | none => some none
        | some start =>
            match if endStr = [] then (subU64 checks size 1).map some else some (parseU64 endStr)
            with
            | none => none
            | some none => some none
            | some (some last) =>
                if last < start ∨ size ≤ start then some none
                else (subU64 checks size 1).map fun final => some (start, min last final)

/-! ### The handlers -/

/-- The status of the answer. -/
inductive Status
  | ok
  | partialContent
  | rangeNotSatisfiable
  deriving DecidableEq, Repr

/-- The values of `Content-Range: bytes start-last/size`. -/
structure ContentRange where
  start : ℕ
  last : ℕ
  size : ℕ
  deriving DecidableEq, Repr

/-- An answer.  One that has a text for its body sets no length of its own. -/
structure Response where
  status : Status
  contentLength : Option ℕ
  contentRange : Option ContentRange
  deriving DecidableEq, Repr

/-- The answer to a range outside the file. -/
def Response.rangeNotSatisfiable : Response := ⟨.rangeNotSatisfiable, none, none⟩

/-- The range a request asks for, and whether it is a part. -/
def requestedRange (range : Option (List Char)) (size : ℕ) : Option (ℕ × ℕ × Bool) :=
  match range with
  | some range => (parseRange range size).map fun r => (r.1, r.2, true)
  | none => some (0, size - 1, false)

/-- An answer with so many bytes. -/
def Response.bytes (start last size : ℕ) (isPartial : Bool) (contentLength : ℕ) : Response where
  status := if isPartial then .partialContent else .ok
  contentLength := some contentLength
  contentRange := if isPartial then some ⟨start, last, size⟩ else none

/-- `head_stream_video`, once the file has been found. -/
def headStreamVideo (range : Option (List Char)) (size : ℕ) : Response :=
  match requestedRange range size with
  | none => .rangeNotSatisfiable
  | some (start, last, isPartial) => .bytes start last size isPartial (last - start + 1)

/-- `stream_video`: the range is looked at again if the request has to fall back to the
memory-only engine, and the file is opened, whose size may be another one. -/
def streamVideo (range : Option (List Char)) (size : ℕ) (fallback : Option ℕ) (fileSize : ℕ) :
    Response :=
  match requestedRange range size with
  | none => .rangeNotSatisfiable
  | some _ =>
      match requestedRange range (fallback.getD size) with
      | none => .rangeNotSatisfiable
      | some (start, last, isPartial) =>
          let requestedContentLength := if fallback.getD size = 0 then 0 else last - start + 1
          if fileSize ≤ start then .rangeNotSatisfiable
          else .bytes start last fileSize isPartial requestedContentLength

/-- `stream_file`, once the entry has been opened; `none` is a panic.  A range that can not be
parsed is ignored. -/
def streamFile (checks : Bool) (range : Option (List Char)) (fileSize : ℕ) : Option Response :=
  match (match range with
    | some range => parseArchiveRange checks range fileSize
    | none => some none) with
  | none => none
  | some parsed =>
      let (start, last) := parsed.getD (0, fileSize - 1)
      match subU64 checks last start with
      | none => none
      | some distance =>
          (addU64 checks distance 1).map fun len =>
            .bytes start last fileSize parsed.isSome len

/-! ### What should hold -/

/-- The number of bytes of a file that lie in a range. -/
def bytesBetween (size start last : ℕ) : ℕ :=
  ((Finset.range size).filter fun p => start ≤ p ∧ p ≤ last).card

/-- An answer fits a file of this size. -/
def Response.Truthful (size : ℕ) (r : Response) : Prop :=
  match r.status with
  | .ok => r.contentRange = none ∧ r.contentLength = some size
  | .partialContent =>
      ∃ cr, r.contentRange = some cr ∧ cr.start ≤ cr.last ∧ cr.last < size ∧ cr.size = size ∧
        r.contentLength = some (bytesBetween size cr.start cr.last)
  | .rangeNotSatisfiable => r.contentRange = none

/-- HEAD and GET agree, and what is answered fits the file. -/
def Consistent (checks : Bool) (size : ℕ) (range : Option (List Char)) : Prop :=
  (∀ fallback, fallback = none ∨ fallback = some size →
    headStreamVideo range size = streamVideo range size fallback size ∧
      (streamVideo range size fallback size).Truthful size) ∧
    ∀ r, streamFile checks range size = some r → r.Truthful size

/-- A header that asks for everything up to the end of the file. -/
def ReachesEnd (header : List Char) : Prop :=
  ∃ startStr endStr, rangeParts header = some (startStr, endStr) ∧
    if startStr = [] then ∃ suffix, parseU64 endStr = some suffix ∧ suffix ≠ 0
    else (parseU64 startStr).isSome ∧ endStr = []

/-! ### The parsers -/

theorem subU64_of_le {checks : Bool} {a b : ℕ} (h : b ≤ a) : subU64 checks a b = some (a - b) :=
  if_pos h

/-- **A range that is accepted lies in the file.** -/
theorem parseRange_spec {header : List Char} {size start last : ℕ}
    (h : parseRange header size = some (start, last)) : start ≤ last ∧ last < size := by
  unfold parseRange at h
  split at h
  · cases h
  · split at h
    · cases h
    · split at h
      · split at h
        · cases h
        · split at h
          · cases h
          · simp only [Option.some.injEq, Prod.mk.injEq] at h
            omega
      · split at h
        · cases h
        · split at h
          · cases h
          · split at h
            · cases h
            · simp only [Option.some.injEq, Prod.mk.injEq] at h
              omega

/-- On a file that is not empty the two parsers agree. -/
theorem parseArchiveRange_eq (checks : Bool) (header : List Char) {size : ℕ} (h : 0 < size) :
    parseArchiveRange checks header size = some (parseRange header size) := by
  have hlast : subU64 checks size 1 = some (size - 1) := subU64_of_le h
  unfold parseArchiveRange parseRange
  rw [if_neg h.ne', hlast]
  cases rangeParts header with
  | none => rfl
  | some parts =>
    obtain ⟨startStr, endStr⟩ := parts
    by_cases hsuffix : startStr = []
    · simp only [hsuffix, if_true]
      cases parseU64 endStr with
      | none => rfl
      | some suffix => by_cases hzero : suffix = 0 <;> simp [hzero]
    · simp only [hsuffix, if_false]
      cases parseU64 startStr with
      | none => rfl
      | some start =>
        have hend : (if endStr = [] then some (some (size - 1)) else some (parseU64 endStr)) =
            some (if endStr = [] then some (size - 1) else parseU64 endStr) := by
          split <;> rfl
        dsimp only [Option.map_some]
        rw [hend]
        cases if endStr = [] then some (size - 1) else parseU64 endStr with
        | none => rfl
        | some last => by_cases hout : last < start ∨ size ≤ start <;> simp [hout]

/-- What the archive handler does with a range of an empty file. -/
theorem parseArchiveRange_zero (checks : Bool) (header : List Char) :
    (parseArchiveRange checks header 0 = none ∧ checks = true ∧ ReachesEnd header) ∨
      (¬ (checks = true ∧ ReachesEnd header) ∧
        (parseArchiveRange checks header 0 = some none ∨
          checks = false ∧ parseArchiveRange checks header 0 = some (some (0, 2 ^ 64 - 1)))) := by
  unfold parseArchiveRange ReachesEnd
  cases hparts : rangeParts header with
  | none => exact Or.inr ⟨by simp, Or.inl rfl⟩
  | some parts =>
    obtain ⟨startStr, endStr⟩ := parts
    simp only [Option.some.injEq, Prod.mk.injEq]
    by_cases hsuffix : startStr = []
    · simp only [hsuffix, if_true]
      cases hend : parseU64 endStr with
      | none => exact Or.inr ⟨by simp [hend], Or.inl rfl⟩
      | some suffix =>
        by_cases hzero : suffix = 0
        · exact Or.inr ⟨by simp [hend, hzero], Or.inl (by simp [hzero])⟩
        · cases checks with
          | true => exact Or.inl ⟨by simp [hzero, subU64], by simp [hend, hzero]⟩
          | false => exact Or.inr ⟨by simp, Or.inr ⟨rfl, by simp [hzero, subU64]⟩⟩
    · simp only [hsuffix, if_false]
      cases hstart : parseU64 startStr with
      | none => exact Or.inr ⟨by simp [hsuffix, hstart], Or.inl rfl⟩
      | some start =>
        by_cases hopen : endStr = []
        · cases checks with
          | true => exact Or.inl ⟨by simp [hopen, subU64], by simp [hsuffix, hstart, hopen]⟩
          | false => exact Or.inr ⟨by simp, Or.inl (by simp [hopen, subU64])⟩
        · refine Or.inr ⟨by simp [hsuffix, hopen], Or.inl ?_⟩
          cases parseU64 endStr <;> simp [hopen]

/-! ### The answers -/

theorem bytesBetween_eq {size start last : ℕ} (hstart : start ≤ last) (hlast : last < size) :
    bytesBetween size start last = last - start + 1 := by
  have hfilter : (Finset.range size).filter (fun p => start ≤ p ∧ p ≤ last) =
      Finset.Icc start last := by
    ext p
    simp only [Finset.mem_filter, Finset.mem_range, Finset.mem_Icc]
    omega
  rw [bytesBetween, hfilter, Nat.card_Icc]
  omega

/-- The range a request comes to on a file that is not empty. -/
theorem requestedRange_spec {range : Option (List Char)} {size start last : ℕ}
    {isPartial : Bool} (hsize : 0 < size)
    (h : requestedRange range size = some (start, last, isPartial)) :
    start ≤ last ∧ last < size ∧ (isPartial = false → start = 0 ∧ last = size - 1) := by
  cases range with
  | none =>
    simp only [requestedRange, Option.some.injEq, Prod.mk.injEq] at h
    omega
  | some header =>
    simp only [requestedRange, Option.map_eq_some_iff, Prod.mk.injEq] at h
    obtain ⟨⟨start', last'⟩, hparse, rfl, rfl, rfl⟩ := h
    obtain ⟨hle, hlt⟩ := parseRange_spec hparse
    exact ⟨hle, hlt, by simp⟩

/-- An answer with the bytes of a range of the file fits the file. -/
theorem truthful_bytes {size start last : ℕ} {isPartial : Bool} (hstart : start ≤ last)
    (hlast : last < size) (hwhole : isPartial = false → start = 0 ∧ last = size - 1) :
    (Response.bytes start last size isPartial (last - start + 1)).Truthful size := by
  cases isPartial with
  | true =>
    refine ⟨⟨start, last, size⟩, rfl, hstart, hlast, rfl, ?_⟩
    rw [bytesBetween_eq hstart hlast]
    rfl
  | false =>
    obtain ⟨rfl, rfl⟩ := hwhole rfl
    refine ⟨rfl, ?_⟩
    simp only [Response.bytes, Option.some.injEq]
    omega

/-- On a file that is not empty GET answers what HEAD does, and that fits. -/
theorem streamVideo_eq {range : Option (List Char)} {size : ℕ} (hsize : 0 < size)
    {fallback : Option ℕ} (hfallback : fallback.getD size = size) :
    headStreamVideo range size = streamVideo range size fallback size ∧
      (streamVideo range size fallback size).Truthful size := by
  unfold headStreamVideo streamVideo
  rw [hfallback]
  cases hrange : requestedRange range size with
  | none => exact ⟨rfl, rfl⟩
  | some r =>
    obtain ⟨start, last, isPartial⟩ := r
    obtain ⟨hstart, hlast, hwhole⟩ := requestedRange_spec hsize hrange
    dsimp only
    rw [if_neg hsize.ne', if_neg (by omega)]
    exact ⟨rfl, truthful_bytes hstart hlast hwhole⟩

/-- On a file that is not empty the archive handler's answer fits. -/
theorem streamFile_truthful {checks : Bool} {range : Option (List Char)} {size : ℕ}
    (hsize : 0 < size) (hmax : size ≤ maxU64) {r : Response}
    (h : streamFile checks range size = some r) : r.Truthful size := by
  have hanswer : ∀ start last isPartial, start ≤ last → last < size →
      (isPartial = false → start = 0 ∧ last = size - 1) →
      (match subU64 checks last start with
        | none => none
        | some distance => (addU64 checks distance 1).map fun len =>
            Response.bytes start last size isPartial len) = some r → r.Truthful size := by
    intro start last isPartial hstart hlast hwhole h
    have hadd : addU64 checks (last - start) 1 = some (last - start + 1) := if_pos (by omega)
    rw [subU64_of_le hstart] at h
    dsimp only at h
    rw [hadd, Option.map_some, Option.some.injEq] at h
    rw [← h]
    exact truthful_bytes hstart hlast hwhole
  unfold streamFile at h
  cases range with
  | none => exact hanswer 0 (size - 1) false (by omega) (by omega) (by omega) h
  | some header =>
    dsimp only at h
    rw [parseArchiveRange_eq checks header hsize] at h
    dsimp only at h
    cases hparse : parseRange header size with
    | none =>
      rw [hparse] at h
      exact hanswer 0 (size - 1) false (by omega) (by omega) (by omega) h
    | some r =>
      obtain ⟨start, last⟩ := r
      rw [hparse] at h
      obtain ⟨hstart, hlast⟩ := parseRange_spec hparse
      exact hanswer start last true hstart hlast (by simp) h

/-! ### The empty file -/

/-- No answer of the archive handler fits an empty file. -/
theorem streamFile_zero {checks : Bool} {range : Option (List Char)} {r : Response}
    (h : streamFile checks range 0 = some r) : ¬ r.Truthful 0 := by
  have hwhole : streamFile checks range 0 = some (.bytes 0 0 0 false 1) → ¬ r.Truthful 0 := by
    intro heq
    rw [heq, Option.some.injEq] at h
    rw [← h]
    simp [Response.Truthful, Response.bytes]
  cases range with
  | none => exact hwhole (by simp [streamFile, subU64, addU64, maxU64])
  | some header =>
    rcases parseArchiveRange_zero checks header with ⟨hnone, -⟩ | ⟨-, hsome | ⟨-, hsome⟩⟩
    · simp [streamFile, hnone] at h
    · exact hwhole (by simp [streamFile, hsome, subU64, addU64, maxU64])
    · simp only [streamFile, hsome, Option.getD_some, subU64, Nat.zero_le, if_true,
        Option.isSome_some, Option.map_eq_some_iff] at h
      obtain ⟨len, -, rfl⟩ := h
      simp [Response.Truthful, Response.bytes]

/-- The archive handler gives no answer only if it asks for the last byte of an empty file. -/
theorem streamFile_zero_eq_none {checks : Bool} {header : List Char}
    (hchecks : checks = true) (h : ReachesEnd header) :
    streamFile checks (some header) 0 = none := by
  rcases parseArchiveRange_zero checks header with ⟨hnone, -⟩ | ⟨hnot, -⟩
  · simp [streamFile, hnone]
  · exact absurd ⟨hchecks, h⟩ hnot

/-- **The answers are consistent exactly on files that are not empty**, or if a range that
reaches to the end makes the archive handler panic. -/
theorem consistent_iff (checks : Bool) {size : ℕ} (range : Option (List Char))
    (hmax : size ≤ maxU64) :
    Consistent checks size range ↔
      0 < size ∨ checks = true ∧ ∃ header, range = some header ∧ ReachesEnd header := by
  rcases Nat.eq_zero_or_pos size with rfl | hsize
  · constructor
    · intro ⟨hagree, harchive⟩
      right
      cases range with
      | none =>
        -- HEAD says that there is a byte, GET that there is none
        have hhead := (hagree none (Or.inl rfl)).1
        simp [headStreamVideo, streamVideo, requestedRange, Response.bytes,
          Response.rangeNotSatisfiable] at hhead
      | some header =>
        rcases parseArchiveRange_zero checks header with ⟨-, hchecks, hend⟩ | ⟨-, hsome⟩
        · exact ⟨hchecks, header, rfl, hend⟩
        · cases hanswer : streamFile checks (some header) 0 with
          | none =>
            rcases hsome with hsome | ⟨rfl, hsome⟩
            · simp [streamFile, hsome, subU64, addU64, maxU64] at hanswer
            · simp [streamFile, hsome, subU64, addU64, maxU64] at hanswer
          | some r => exact absurd (harchive r hanswer) (streamFile_zero hanswer)
    · intro h
      rcases h with hsize | ⟨hchecks, header, rfl, hend⟩
      · omega
      · have hrange : requestedRange (some header) 0 = none := by
          simp [requestedRange, parseRange]
        refine ⟨fun fallback hfallback => ?_, fun r hr => ?_⟩
        · simp [headStreamVideo, streamVideo, hrange, Response.Truthful,
            Response.rangeNotSatisfiable]
        · rw [streamFile_zero_eq_none hchecks hend] at hr
          cases hr
  · refine iff_of_true ⟨fun fallback hfallback => ?_, fun r hr => ?_⟩ (Or.inl hsize)
    · refine streamVideo_eq hsize ?_
      rcases hfallback with rfl | rfl <;> rfl
    · exact streamFile_truthful hsize hmax hr

/-- The last five of ten bytes. -/
theorem consistent_tail : Consistent true 10 (some "bytes=5-".toList) :=
  (consistent_iff true (some "bytes=5-".toList) (by decide)).mpr (Or.inl (by decide))

/-- Without a range, HEAD gives an empty file a length of one byte, and so does the archive
handler; GET calls the range of an empty file not satisfiable. -/
theorem emptyFile_inconsistent :
    headStreamVideo none 0 = ⟨.ok, some 1, none⟩ ∧
      streamVideo none 0 none 0 = .rangeNotSatisfiable ∧
      streamFile true none 0 = some ⟨.ok, some 1, none⟩ ∧ ¬ Consistent true 0 none := by
  have hhead : headStreamVideo none 0 = ⟨.ok, some 1, none⟩ := by decide
  have hget : streamVideo none 0 none 0 = .rangeNotSatisfiable := by decide
  refine ⟨hhead, hget, by decide, fun h => ?_⟩
  have hagree := (h.1 none (Or.inl rfl)).1
  rw [hhead, hget] at hagree
  exact absurd hagree (by decide)

end StreamServer.Routes

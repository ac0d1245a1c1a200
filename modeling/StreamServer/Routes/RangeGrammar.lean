import StreamServer.Lib.ByteRange
import StreamServer.Routes.Ranges

/-!
# The grammar of ranges

The two functions `parse_range` read numbers as they are parsed into 64 bits: with a plus sign in front
of them if there is one, and only if they fit.  The grammar of ranges knows no signs and no bounds.

## Main definitions

* `Requests` — what a header asks for by the grammar.
* `ParsesRanges` — both functions find what the grammar says.
* `readLeniently` — what a header asks for if numbers may have a sign.

## Main results

* `parseRange_eq` — the first function reads a range and selects its bytes.
* `parsesRanges_iff` — **when both functions find what the grammar says**: if a range that can be
  satisfied has a number with a sign exactly if it has one that does not fit, and the file is not empty
  or its end is not asked for.

## References

`server/src/routes/stream.rs`, `parse_range`; `server/src/routes/archive.rs`, `parse_range`.
-/

namespace StreamServer.Routes

open Readers ByteRange

/-! ### What should be found -/

/-- The header asks for this range. -/
def Requests (header : List Char) (range : ByteRange) : Prop :=
  ∃ text, header = "bytes=".toList ++ text ∧ range.Written text

/-- Both functions find what the grammar says, and nothing underflows. -/
structure ParsesRanges (header : List Char) (size : ℕ) : Prop where
  parsed : ∀ start last, parseRange header size = some (start, last) ↔
    ∃ range, Requests header range ∧ range.select size = some (start, last)
  archive : parseArchiveRange true header size = some (parseRange header size)

/-! ### Numbers -/

/-- A number with a plus sign in front of it, if need be. -/
def signedNumeral (text : List Char) : Option ℕ :=
  numeral (if text.head? = some '+' then text.tail else text)

/-- The text has no plus sign in front. -/
def isUnsigned (text : List Char) : Bool := text.head? != some '+'

/-- Whether a number fits into 64 bits. -/
def fits (text : List Char) : Bool := (signedNumeral text).all fun n => n ≤ maxU64

/-- What a header asks for if numbers are read like this. -/
def readHeader (number : List Char → Option ℕ) (header : List Char) : Option ByteRange :=
  if "bytes=".toList.isPrefixOf header then read number (header.drop "bytes=".length) else none

/-- What a header asks for if numbers may have a sign. -/
def readLeniently (header : List Char) : Option ByteRange := readHeader signedNumeral header

/-- Whether each number of a header is accepted. -/
def EachNumber (accept : List Char → Bool) (header : List Char) : Prop :=
  AllAccepted accept (header.drop "bytes=".length)

theorem foldl_digits (digits : List Char) (n : ℕ) :
    digits.foldl (fun value c => value * 10 + (c.toNat - '0'.toNat)) n =
      Nat.ofDigitChars 10 digits n := by
  induction digits generalizing n with
  | nil => rfl
  | cons c digits ih => rw [List.foldl_cons, Nat.ofDigitChars_cons, ih, Nat.mul_comm]

theorem numeral_eq_none_iff {text : List Char} :
    numeral text = none ↔ text = [] ∨ text.any (fun c => !c.isDigit) = true := by
  rw [numeral]
  split
  · next h =>
    simp only [reduceCtorEq, false_iff]
    intro hnot
    rcases hnot with hnil | hany
    · exact h.1 hnil
    · rw [List.any_eq_not_all_not] at hany
      simp [h.2] at hany
  · next h =>
    simp only [true_iff]
    by_cases hnil : text = []
    · exact Or.inl hnil
    · right
      rw [List.any_eq_not_all_not]
      simpa [hnil] using h

/-- A number is parsed as one with a sign that fits. -/
theorem parseU64_eq : parseU64 = accepted fits signedNumeral := by
  funext text
  rw [parseU64, accepted, fits, signedNumeral]
  generalize (if text.head? = some '+' then text.tail else text) = digits
  dsimp only
  cases hnumeral : numeral digits with
  | none =>
    rw [if_pos (numeral_eq_none_iff.mp hnumeral), ite_self]
  | some n =>
    have hsome := mt numeral_eq_none_iff.mpr (by rw [hnumeral]; simp)
    rw [if_neg hsome, foldl_digits, (numeral_eq_some_iff.mp hnumeral).value]
    simp

theorem numeral_eq : numeral = accepted isUnsigned signedNumeral := by
  funext text
  rw [accepted, isUnsigned, signedNumeral]
  by_cases hsign : text.head? = some '+'
  · obtain ⟨rest, rfl⟩ := List.head?_eq_some_iff.mp hsign
    rw [numeral_eq_none_iff.mpr (Or.inr (by simp))]
    simp
  · simp [hsign]

/-! ### Reading a header -/

variable {header : List Char} {size : ℕ}

theorem drop_bytes (text : List Char) :
    ("bytes=".toList ++ text).drop "bytes=".length = text := by
  rw [← String.length_toList, List.drop_left]

theorem readHeader_eq (number : List Char → Option ℕ) (header : List Char) :
    readHeader number header = (rangeParts header).bind fun parts =>
      ofParts number parts.1 parts.2 := by
  rw [readHeader, rangeParts]
  split
  · rw [ByteRange.read]
    cases (header.drop "bytes=".length).splitOn '-' with
    | nil => rfl
    | cons first rest =>
      rcases rest with _ | ⟨last, _ | _⟩
      · rfl
      · rfl
      · rfl
  · rfl

/-- **The first function** reads a range and selects its bytes. -/
theorem parseRange_eq (header : List Char) (size : ℕ) :
    parseRange header size = (readHeader parseU64 header).bind (select size) := by
  rcases Nat.eq_zero_or_pos size with rfl | hsize
  · have hempty : ∀ range, select 0 range = none := by
      intro range
      cases range <;> simp [select]
    rw [parseRange, if_pos rfl, eq_comm, Option.bind_eq_none_iff]
    exact fun range _ => hempty range
  · rw [parseRange, if_neg hsize.ne', readHeader_eq]
    cases rangeParts header with
    | none => rfl
    | some parts =>
      obtain ⟨startStr, endStr⟩ := parts
      dsimp only [Option.bind_some]
      rw [ofParts]
      by_cases hsuffix : startStr = []
      · rw [if_pos hsuffix, if_pos hsuffix]
        cases parseU64 endStr with
        | none => rfl
        | some count =>
          simp only [Option.map_some, Option.bind_some, select, hsize, and_true]
          split_ifs with hzero hpos hpos
          · omega
          · rfl
          · rw [Nat.min_comm, ← Nat.sub_eq_sub_min]
          · omega
      · rw [if_neg hsuffix, if_neg hsuffix]
        cases parseU64 startStr with
        | none => rw [Option.map_none, Option.bind_none, ite_self, Option.bind_none]
        | some first =>
          by_cases hopen : endStr = []
          · rw [if_pos hopen, if_pos hopen]
            simp only [Option.map_some, Option.bind_some, select, min_self]
            split_ifs <;> first | rfl | omega
          · rw [if_neg hopen, if_neg hopen]
            cases parseU64 endStr with
            | none => rfl
            | some last =>
              simp only [Option.map_some, Option.bind_some, select]
              split_ifs <;> first | rfl | omega

/-- The grammar reads numbers without signs. -/
theorem requests_iff {range : ByteRange} :
    Requests header range ↔ readHeader numeral header = some range := by
  rw [readHeader]
  constructor
  · intro h
    obtain ⟨text, rfl, hwritten⟩ := h
    have hprefix : "bytes=".toList.isPrefixOf ("bytes=".toList ++ text) = true := by
      rw [List.isPrefixOf_iff_prefix]
      exact List.prefix_append _ _
    rw [if_pos hprefix, drop_bytes, read_numeral_iff.mpr hwritten]
  · intro h
    split at h
    · next hprefix =>
      obtain ⟨text, rfl⟩ := List.isPrefixOf_iff_prefix.mp hprefix
      rw [drop_bytes] at h
      exact ⟨text, rfl, read_numeral_iff.mp h⟩
    · cases h

open Classical in
theorem readHeader_accepted (accept : List Char → Bool) (header : List Char) :
    readHeader (accepted accept signedNumeral) header =
      if EachNumber accept header then readLeniently header else none := by
  rw [readLeniently, readHeader, readHeader, EachNumber, read_accepted rfl]
  split
  · rfl
  · rw [ite_self]

/-- **What the first function finds is what the grammar says**, if a range that can be satisfied has a
number with a sign exactly if it has one that does not fit. -/
theorem parsed_iff : (∀ start last, parseRange header size = some (start, last) ↔
    ∃ range, Requests header range ∧ range.select size = some (start, last)) ↔
    ∀ range, readLeniently header = some range → (range.select size).isSome →
      (EachNumber isUnsigned header ↔ EachNumber fits header) := by
  classical
  -- both readings are the lenient one, each with its own idea of a number
  have hparse : parseRange header size = if EachNumber fits header
      then (readLeniently header).bind (select size) else none := by
    rw [parseRange_eq, parseU64_eq, readHeader_accepted]
    split <;> rfl
  have hgrammar : ∀ start last, (∃ range, Requests header range ∧
      range.select size = some (start, last)) ↔ (if EachNumber isUnsigned header
        then (readLeniently header).bind (select size) else none) = some (start, last) := by
    intro start last
    have hread : readHeader numeral header =
        if EachNumber isUnsigned header then readLeniently header else none := by
      rw [numeral_eq, readHeader_accepted]
    simp only [requests_iff]
    rw [← Option.bind_eq_some_iff, hread]
    split <;> rfl
  simp only [hgrammar, hparse]
  -- without bytes to send neither answers, whatever the numbers are
  cases hfound : (readLeniently header).bind (select size) with
  | none =>
    have hunsatisfiable : ∀ range, readLeniently header = some range →
        range.select size = none := by
      intro range hrange
      rwa [hrange] at hfound
    simp only [ite_self, reduceCtorEq, implies_true, true_iff]
    intro range hrange hsome
    rw [hunsatisfiable range hrange] at hsome
    cases hsome
  | some bytes =>
    obtain ⟨range, hrange, hselect⟩ := Option.bind_eq_some_iff.mp hfound
    have hall : (∀ start last, (if EachNumber fits header then some bytes else none) =
        some (start, last) ↔ (if EachNumber isUnsigned header then some bytes else none) =
          some (start, last)) ↔ (EachNumber isUnsigned header ↔ EachNumber fits header) := by
      obtain ⟨start, last⟩ := bytes
      constructor
      · intro h
        have hbytes := h start last
        by_cases hu : EachNumber isUnsigned header <;> by_cases hf : EachNumber fits header <;>
          simp_all
      · intro h start' last'
        simp only [h]
    rw [hall]
    constructor
    · intro h _ _ _
      exact h
    · intro h
      exact h range hrange (by rw [hselect]; rfl)

/-- **Both functions find what the grammar says**, exactly if a range that can be satisfied has a
number with a sign only together with one that does not fit, and the end of an empty file is not asked
for. -/
theorem parsesRanges_iff : ParsesRanges header size ↔
    (∀ range, readLeniently header = some range → (range.select size).isSome →
      (EachNumber isUnsigned header ↔ EachNumber fits header)) ∧
    ¬ (size = 0 ∧ ReachesEnd header) := by
  have harchive : parseArchiveRange true header size = some (parseRange header size) ↔
      ¬ (size = 0 ∧ ReachesEnd header) := by
    rcases Nat.eq_zero_or_pos size with rfl | hsize
    · have hnone : parseRange header 0 = none := if_pos rfl
      rw [hnone]
      rcases parseArchiveRange_zero true header with ⟨hpanic, -, hend⟩ | ⟨hnot, hsome | ⟨hno, -⟩⟩
      · rw [hpanic]
        simpa using hend
      · rw [hsome]
        simpa using hnot
      · cases hno
    · rw [parseArchiveRange_eq true header hsize]
      simp [hsize.ne']
  constructor
  · intro h
    exact ⟨parsed_iff.mp h.parsed, harchive.mp h.archive⟩
  · intro h
    exact ⟨parsed_iff.mpr h.1, harchive.mpr h.2⟩

/-- A sign in front of a number, which the grammar does not know. -/
theorem signed_not_parsed : ¬ ParsesRanges "bytes=+1-2".toList 10 := by
  intro h
  have hcode : parseRange "bytes=+1-2".toList 10 = some (1, 2) := by decide
  obtain ⟨range, hrange, -⟩ := (h.parsed 1 2).mp hcode
  have hgrammar : readHeader numeral "bytes=+1-2".toList = none := by decide
  rw [requests_iff, hgrammar] at hrange
  cases hrange

end StreamServer.Routes

import Mathlib.Data.List.Basic
import Mathlib.Data.Nat.Notation
import Mathlib.Tactic.SplitIfs
import StreamServer.Lib.Decimal

/-!
# Byte ranges

A byte range names a part of a file: all from a byte on, what lies between two bytes, or so many bytes
at the end.

* `ByteRange.Written` — how a range is written, with numbers of any length.
* `ByteRange.select` — the first and the last byte that a range selects of a file.
* `ByteRange.read` — reads a range, with a reader for its numbers.
* `read_numeral_iff` — a range is read from what is written for it.
* `read_accepted` — a reader that refuses some numbers.
-/

/-- A part of a file. -/
inductive ByteRange
  | upward (first : ℕ)
  | between (first last : ℕ)
  | suffix (count : ℕ)
  deriving DecidableEq

namespace ByteRange

/-- A row of digits. -/
structure IsNumeral (text : List Char) (n : ℕ) : Prop where
  ne_nil : text ≠ []
  digits : ∀ c ∈ text, c.isDigit = true
  value : Nat.ofDigitChars 10 text 0 = n

/-- The texts of a byte range: numerals around a hyphen. -/
inductive Written : ByteRange → List Char → Prop
  | upward {text : List Char} {first : ℕ} (h : IsNumeral text first) :
      Written (upward first) (text ++ ['-'])
  | between {text text' : List Char} {first last : ℕ} (h : IsNumeral text first)
      (h' : IsNumeral text' last) : Written (between first last) (text ++ '-' :: text')
  | suffix {text : List Char} {count : ℕ} (h : IsNumeral text count) :
      Written (suffix count) ('-' :: text)

/-- The first and the last byte of a range, if it can be satisfied. -/
def select (size : ℕ) : ByteRange → Option (ℕ × ℕ)
  | upward first => if first < size then some (first, size - 1) else none
  | between first last =>
      if first ≤ last ∧ first < size then some (first, min last (size - 1)) else none
  | suffix count =>
      if 0 < count ∧ 0 < size then some (size - min count size, size - 1) else none

/-- The number that a text of digits writes. -/
def numeral (text : List Char) : Option ℕ :=
  if text ≠ [] ∧ text.all Char.isDigit then some (Nat.ofDigitChars 10 text 0) else none

/-- Reads a range from what stands in front of the dash and behind it. -/
def ofParts (number : List Char → Option ℕ) (first last : List Char) : Option ByteRange :=
  if first = [] then (number last).map suffix
  else if last = [] then (number first).map upward
  else (number first).bind fun first => (number last).map (between first)

/-- Reads a range whose numbers are read like this. -/
def read (number : List Char → Option ℕ) (text : List Char) : Option ByteRange :=
  match text.splitOn '-' with
  | [first, last] => ofParts number first last
  | _ => none

variable {text : List Char} {range : ByteRange}

theorem numeral_eq_some_iff {n : ℕ} : numeral text = some n ↔ IsNumeral text n := by
  rw [numeral]
  constructor
  · intro h
    split at h
    · next hnumeral =>
      cases h
      exact ⟨hnumeral.1, List.all_eq_true.mp hnumeral.2, rfl⟩
    · cases h
  · intro h
    rw [if_pos ⟨h.ne_nil, List.all_eq_true.mpr h.digits⟩, h.value]

/-- There is no dash in a number. -/
theorem IsNumeral.dash_notMem {n : ℕ} (h : IsNumeral text n) : '-' ∉ text := by
  intro hmem
  exact absurd (h.digits '-' hmem) (by decide)

theorem splitOn_dash {first last : List Char} (h : '-' ∉ first) (h' : '-' ∉ last) :
    (first ++ '-' :: last).splitOn '-' = [first, last] := by
  have hnot : ∀ piece ∈ [first, last], '-' ∉ piece := by
    intro piece hpiece
    rcases List.mem_pair.mp hpiece with rfl | rfl
    · exact h
    · exact h'
  have hjoin : ['-'].intercalate [first, last] = first ++ '-' :: last := by simp
  rw [← hjoin, List.splitOn_intercalate '-' hnot (by simp)]

theorem read_dash (number : List Char → Option ℕ) {first last : List Char} (h : '-' ∉ first)
    (h' : '-' ∉ last) : read number (first ++ '-' :: last) = ofParts number first last := by
  rw [read, splitOn_dash h h']

/-- Only what has one dash is read. -/
theorem read_eq_some_iff {number : List Char → Option ℕ} : read number text = some range ↔
    ∃ first last, text.splitOn '-' = [first, last] ∧ ofParts number first last = some range := by
  rw [read]
  constructor
  · intro h
    split at h
    · next first last hsplit => exact ⟨first, last, hsplit, h⟩
    · cases h
  · intro h
    obtain ⟨first, last, hsplit, h⟩ := h
    rw [hsplit]
    exact h

/-- **A range is read from what is written for it**, and from nothing else. -/
theorem read_numeral_iff : read numeral text = some range ↔ range.Written text := by
  constructor
  · intro h
    obtain ⟨first, last, hsplit, h⟩ := read_eq_some_iff.mp h
    have htext : text = first ++ '-' :: last := by
      have hjoin : ['-'].intercalate (text.splitOn '-') = text := List.intercalate_splitOn '-'
      rw [← hjoin, hsplit]
      simp
    rw [ofParts] at h
    split_ifs at h with hfirst hlast
    · obtain ⟨n, hn, rfl⟩ := Option.map_eq_some_iff.mp h
      rw [htext, hfirst]
      exact Written.suffix (numeral_eq_some_iff.mp hn)
    · obtain ⟨n, hn, rfl⟩ := Option.map_eq_some_iff.mp h
      rw [htext, hlast]
      exact Written.upward (numeral_eq_some_iff.mp hn)
    · obtain ⟨n, hn, h⟩ := Option.bind_eq_some_iff.mp h
      obtain ⟨m, hm, rfl⟩ := Option.map_eq_some_iff.mp h
      rw [htext]
      exact Written.between (numeral_eq_some_iff.mp hn) (numeral_eq_some_iff.mp hm)
  · intro h
    cases h with
    | upward h =>
      rw [read_dash numeral h.dash_notMem List.not_mem_nil, ofParts, if_neg h.ne_nil, if_pos rfl,
        numeral_eq_some_iff.mpr h, Option.map_some]
    | between h h' =>
      rw [read_dash numeral h.dash_notMem h'.dash_notMem, ofParts, if_neg h.ne_nil,
        if_neg h'.ne_nil, numeral_eq_some_iff.mpr h, numeral_eq_some_iff.mpr h', Option.bind_some,
        Option.map_some]
    | suffix h =>
      rw [← List.nil_append (_ :: _), read_dash numeral List.not_mem_nil h.dash_notMem, ofParts,
        if_pos rfl, numeral_eq_some_iff.mpr h, Option.map_some]

section Refusal

variable {number : List Char → Option ℕ} {accept : List Char → Bool}

/-- A reader that accepts only some numbers. -/
def accepted (accept : List Char → Bool) (number : List Char → Option ℕ) (text : List Char) :
    Option ℕ :=
  if accept text then number text else none

/-- Whether each number in a range is accepted. -/
def AllAccepted (accept : List Char → Bool) (text : List Char) : Prop :=
  ∀ piece ∈ text.splitOn '-', piece ≠ [] → accept piece = true

theorem ofParts_accepted (hnil : number [] = none) {first last : List Char}
    (h : ∀ piece ∈ [first, last], piece ≠ [] → accept piece = true) :
    ofParts (accepted accept number) first last = ofParts number first last := by
  have heq : ∀ piece ∈ [first, last], accepted accept number piece = number piece := by
    intro piece hpiece
    by_cases hempty : piece = []
    · rw [accepted, hempty, hnil, ite_self]
    · rw [accepted, if_pos (h piece hpiece hempty)]
  rw [ofParts, heq first (by simp), heq last (by simp), ofParts]

theorem ofParts_refused {first last : List Char}
    (h : ¬ ∀ piece ∈ [first, last], piece ≠ [] → accept piece = true) :
    ofParts (accepted accept number) first last = none := by
  push Not at h
  obtain ⟨piece, hpiece, hne, hrefused⟩ := h
  have hnone : accepted accept number piece = none := by
    rw [accepted, if_neg hrefused]
  rw [ofParts]
  rcases List.mem_pair.mp hpiece with rfl | rfl
  · rw [if_neg hne, hnone]
    simp
  · rw [hnone, if_neg hne]
    simp

open Classical in
/-- **A reader that refuses some numbers** reads the ranges that have none of them. -/
theorem read_accepted (hnil : number [] = none) : read (accepted accept number) text =
    if AllAccepted accept text then read number text else none := by
  rw [read, read, AllAccepted]
  split
  · next first last hsplit =>
    rw [hsplit]
    by_cases h : ∀ piece ∈ [first, last], piece ≠ [] → accept piece = true
    · rw [if_pos h, ofParts_accepted hnil h]
    · rw [if_neg h, ofParts_refused h]
  · rw [ite_self]

end Refusal

end ByteRange

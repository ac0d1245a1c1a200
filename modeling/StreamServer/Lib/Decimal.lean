import Mathlib.Data.Nat.Notation
import Mathlib.Data.List.Basic

/-!
# Numbers in decimal

* `Decimal.parse` — reads a number below a bound, with or without a `+` in front of it.
* `Decimal.padded` — writes a number with zeros in front of it, up to a width.
* `parse_digits` — the digits of a number are read as the number.
-/

namespace Decimal

variable {bound n : ℕ}

/-- The value of a row of digits. -/
def value (bound : ℕ) (digits : List Char) : Option ℕ :=
  if digits ≠ [] ∧ digits.all Char.isDigit then
    (some (Nat.ofDigitChars 10 digits 0)).filter (· < bound)
  else none

/-- Reads an unsigned number. -/
def parse (bound : ℕ) : List Char → Option ℕ
  | '+' :: digits => value bound digits
  | digits => value bound digits

/-- Writes a number in at least so many digits. -/
def padded (width n : ℕ) : List Char :=
  let digits := Nat.toDigits 10 n
  List.replicate (width - digits.length) '0' ++ digits

theorem isDigit_of_mem {c : Char} (hc : c ∈ Nat.toDigits 10 n) : c.isDigit = true :=
  Nat.isDigit_of_mem_toDigits (by decide) (by decide) hc

theorem isDigit_of_mem_padded {width : ℕ} {c : Char} (hc : c ∈ padded width n) :
    c.isDigit = true := by
  rw [padded, List.mem_append] at hc
  rcases hc with hc | hc
  · rw [(List.mem_replicate.mp hc).2]
    rfl
  · exact isDigit_of_mem hc

/-- A character that is no digit does not stand in a number. -/
theorem notMem_digits {c : Char} (hc : c.isDigit = false) : c ∉ Nat.toDigits 10 n := by
  intro hmem
  rw [isDigit_of_mem hmem] at hc
  cases hc

theorem parse_of_digits {digits : List Char} (hne : digits ≠ [])
    (h : ∀ c ∈ digits, c.isDigit = true) :
    parse bound digits = (some (Nat.ofDigitChars 10 digits 0)).filter (· < bound) := by
  have hall : digits.all Char.isDigit = true := List.all_eq_true.mpr h
  unfold parse
  split
  · -- a `+` is no digit
    exact absurd (h '+' List.mem_cons_self) (by decide)
  · exact if_pos ⟨hne, hall⟩

theorem lt_of_parse {text : List Char} (h : parse bound text = some n) : n < bound := by
  have hvalue : ∀ digits, value bound digits = some n → n < bound := by
    intro digits hdigits
    rw [value] at hdigits
    split at hdigits
    · exact of_decide_eq_true (Option.filter_eq_some_iff.mp hdigits).2
    · cases hdigits
  unfold parse at h
  split at h
  · exact hvalue _ h
  · exact hvalue _ h

/-- **The digits of a number are read as the number.** -/
theorem parse_digits (h : n < bound) : parse bound (Nat.toDigits 10 n) = some n := by
  rw [parse_of_digits Nat.toDigits_ne_nil fun c hc => isDigit_of_mem hc,
    Nat.ofDigitChars_ten_toDigits, Option.filter_some, decide_eq_true h, if_pos rfl]

/-- Zeros in front of a number do not change it. -/
theorem parse_padded (width : ℕ) (h : n < bound) : parse bound (padded width n) = some n := by
  have hne : padded width n ≠ [] := by
    rw [padded]
    exact List.append_ne_nil_of_right_ne_nil _ Nat.toDigits_ne_nil
  rw [parse_of_digits hne fun c hc => isDigit_of_mem_padded hc, padded, Nat.ofDigitChars_append,
    Nat.ofDigitChars_replicate_zero, Nat.mul_zero, Nat.ofDigitChars_ten_toDigits,
    Option.filter_some, decide_eq_true h, if_pos rfl]

/-- A number with few digits is as long as the width says. -/
theorem length_padded {width : ℕ} (h : (Nat.toDigits 10 n).length ≤ width) :
    (padded width n).length = width := by
  rw [padded, List.length_append, List.length_replicate, Nat.sub_add_cancel h]

end Decimal

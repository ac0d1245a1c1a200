import Mathlib.Algebra.Ring.Int.Defs
import StreamServer.Lib.Decimal

/-!
# Signed numbers in decimal

* `Decimal.signed` — writes an integer, with a `-` in front of it if it is negative.
* `Decimal.parseSigned` — reads an integer from `-bound` on and below `bound`.
* `parseSigned_signed` — what has been written is read again.
-/

namespace Decimal

variable {bound : ℕ} {n : ℤ}

/-- Reads a signed number. -/
def parseSigned (bound : ℕ) : List Char → Option ℤ
  | '-' :: digits => (value (bound + 1) digits).map fun n : ℕ => -(n : ℤ)
  | digits => (parse bound digits).map fun n : ℕ => (n : ℤ)

/-- Writes a signed number. -/
def signed (n : ℤ) : List Char :=
  if n < 0 then '-' :: Nat.toDigits 10 n.natAbs else Nat.toDigits 10 n.natAbs

theorem value_digits {n : ℕ} (h : n < bound) : value bound (Nat.toDigits 10 n) = some n := by
  have hall : (Nat.toDigits 10 n).all Char.isDigit = true :=
    List.all_eq_true.mpr fun c hc => isDigit_of_mem hc
  rw [value, if_pos ⟨Nat.toDigits_ne_nil, hall⟩, Nat.ofDigitChars_ten_toDigits, Option.filter_some,
    decide_eq_true h, if_pos rfl]

/-- A character that is no digit and no sign does not stand in a number. -/
theorem notMem_signed {c : Char} (hdigit : c.isDigit = false) (hsign : c ≠ '-') : c ∉ signed n := by
  rw [signed]
  split
  · intro hmem
    rcases List.mem_cons.mp hmem with heq | hmem
    · exact hsign heq
    · exact notMem_digits hdigit hmem
  · exact notMem_digits hdigit

/-- **A signed number is read as what has been written.** -/
theorem parseSigned_signed (hlow : -(bound : ℤ) ≤ n) (hhigh : n < bound) :
    parseSigned bound (signed n) = some n := by
  by_cases hneg : n < 0
  · have habs : n.natAbs < bound + 1 := by omega
    rw [signed, if_pos hneg, parseSigned, value_digits habs, Option.map_some, Option.some.injEq]
    omega
  · have habs : n.natAbs < bound := by omega
    rw [signed, if_neg hneg]
    unfold parseSigned
    split
    · next digits heq =>
      -- a `-` is no digit
      have hmem : '-' ∈ Nat.toDigits 10 n.natAbs := heq ▸ List.mem_cons_self
      exact absurd hmem (notMem_digits (by decide))
    · rw [parse_digits habs, Option.map_some, Option.some.injEq]
      omega

end Decimal

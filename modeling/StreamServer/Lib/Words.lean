import Mathlib.Algebra.Order.Group.Int
import StreamServer.Lib.Checked

/-!
# Numbers of 32 and 64 bits

Signed numbers of 32 bits as integers that have to fit, and what becomes of numbers that do not.

* `Checked.i32` — an integer that has to fit into 32 bits.
* `Checked.asI32` — a number that is cut off to 32 bits.
* `Checked.saturatingI32`, `Checked.saturatingU64` — numbers that go no further than their bounds.
* `Checked.capacity` — a length that has to be one.
-/

namespace Checked

/-- An integer that has to fit into 32 bits. -/
def i32 (n : ℤ) : Run ℤ := if -2 ^ 31 ≤ n ∧ n < 2 ^ 31 then .ok n else .error .panic

/-- What the cast `as i32` leaves of a number. -/
def asI32 (n : ℕ) : ℤ := if n % 2 ^ 32 < 2 ^ 31 then n % 2 ^ 32 else (n % 2 ^ 32 : ℤ) - 2 ^ 32

/-- `n as i32` of a number that saturates. -/
def saturatingI32 (n : ℤ) : ℤ := max (-2 ^ 31) (min n (2 ^ 31 - 1))

/-- `n as u64` of a number that saturates. -/
def saturatingU64 (n : ℕ) : ℕ := min n (2 ^ 64 - 1)

/-- A length that room is made for.  A negative one is a length beyond all bounds when its bits are taken
for those of a number without a sign. -/
def capacity (n : ℤ) : Run ℕ := if 0 ≤ n then .ok n.toNat else .error .panic

theorem i32_of_fits {n : ℤ} (h : -2 ^ 31 ≤ n) (h' : n < 2 ^ 31) : i32 n = .ok n := if_pos ⟨h, h'⟩

theorem i32_eq_ok_iff {n m : ℤ} : i32 n = .ok m ↔ (-2 ^ 31 ≤ n ∧ n < 2 ^ 31) ∧ n = m := by
  rw [i32]
  split
  · next h => rw [Except.ok.injEq, and_iff_right h]
  · next h => exact iff_of_false (fun heq => nomatch heq) (fun hfits => h hfits.1)

theorem capacity_eq_ok_iff {n : ℤ} {m : ℕ} : capacity n = .ok m ↔ 0 ≤ n ∧ n.toNat = m := by
  rw [capacity]
  split
  · next h => simp [h]
  · next h => simp [h]

theorem le_asI32_iff {bound n : ℕ} :
    (bound : ℤ) ≤ asI32 n ↔ bound ≤ n % 2 ^ 32 ∧ n % 2 ^ 32 < 2 ^ 31 := by
  rw [asI32]
  split
  · next h => omega
  · next h => omega

/-- Nothing is cut off from a number that fits. -/
theorem asI32_of_lt {n : ℕ} (h : n < 2 ^ 31) : asI32 n = n := by
  rw [asI32]
  split
  · omega
  · omega

theorem asI32_lt (n : ℕ) : asI32 n < 2 ^ 31 := by
  rw [asI32]
  split
  · omega
  · omega

theorem asI32_le (n : ℕ) : asI32 n ≤ n := by
  rw [asI32]
  split
  · omega
  · omega

end Checked

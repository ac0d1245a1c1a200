import Mathlib.Algebra.Ring.Nat
import StreamServer.Subtitles.Clock

/-!
# Times in a file

A time has two digits for the minutes and the seconds and three for the milliseconds.  There may be hours in
front of it, in two digits or more.

* `Stamp` — a time, with its `text` and its value `ms`.
* `Stamp.ofMs` — the time that the writer writes.

## References

`enginefs/src/subtitles.rs`, `format_vtt_time`.
-/

namespace StreamServer.Subtitles

/-- A time. -/
structure Stamp where
  hours : Option (List Char)
  minutes : ℕ
  seconds : ℕ
  millis : ℕ
  hours_spec : ∀ digits ∈ hours, 2 ≤ digits.length ∧ ∀ c ∈ digits, c.isDigit = true
  minutes_lt : minutes < 60
  seconds_lt : seconds < 60
  millis_lt : millis < 1000

namespace Stamp

variable (stamp : Stamp) (mark : Char)

/-- The time without its hours. -/
def clock : List Char :=
  Decimal.padded 2 stamp.minutes ++ ':' :: (Decimal.padded 2 stamp.seconds ++
    mark :: Decimal.padded 3 stamp.millis)

/-- The time as it is written, with this mark in front of the milliseconds. -/
def text : List Char :=
  match stamp.hours with
  | some digits => digits ++ ':' :: stamp.clock mark
  | none => stamp.clock mark

/-- The time in milliseconds. -/
def ms : ℕ :=
  (stamp.hours.map fun digits => Nat.ofDigitChars 10 digits 0).getD 0 * 3600000 + stamp.minutes * 60000 +
    stamp.seconds * 1000 + stamp.millis

end Stamp

theorem two_le_length_padded (n : ℕ) : 2 ≤ (Decimal.padded 2 n).length := by
  rw [Decimal.padded, List.length_append, List.length_replicate]
  omega

theorem ofDigitChars_padded (width n : ℕ) : Nat.ofDigitChars 10 (Decimal.padded width n) 0 = n := by
  rw [Decimal.padded, Nat.ofDigitChars_append, Nat.ofDigitChars_replicate_zero, Nat.mul_zero,
    Nat.ofDigitChars_ten_toDigits]

theorem padded_of_lt_hundred {n : ℕ} (h : n < 100) :
    Decimal.padded 2 n = [(n / 10).digitChar, (n % 10).digitChar] := by
  by_cases hten : n < 10
  · rw [Decimal.padded, Nat.toDigits_of_lt_base hten, Nat.div_eq_of_lt hten, Nat.mod_eq_of_lt hten]
    rfl
  · rw [Decimal.padded, Nat.toDigits_of_base_le (by decide) (by omega), Nat.toDigits_of_lt_base (by omega)]
    rfl

/-- The time that the writer writes. -/
def Stamp.ofMs (ms : ℕ) : Stamp where
  hours := some (Decimal.padded 2 (ms / 3600000))
  minutes := ms % 3600000 / 60000
  seconds := ms % 60000 / 1000
  millis := ms % 1000
  hours_spec digits h := by
    rw [Option.mem_some_iff] at h
    rw [← h]
    exact ⟨two_le_length_padded _, fun c hc => Decimal.isDigit_of_mem_padded hc⟩
  minutes_lt := by omega
  seconds_lt := by omega
  millis_lt := by omega

theorem text_ofMs (mark : Char) (ms : ℕ) : (Stamp.ofMs ms).text mark = formatTime mark ms := rfl

/-- **The value of the time that the writer writes.** -/
theorem ms_ofMs (ms : ℕ) : (Stamp.ofMs ms).ms = ms := by
  have hhours : ((Stamp.ofMs ms).hours.map fun digits => Nat.ofDigitChars 10 digits 0).getD 0 = ms / 3600000 :=
    ofDigitChars_padded 2 _
  have hsum : (Stamp.ofMs ms).ms = ms / 3600000 * 3600000 + ms % 3600000 / 60000 * 60000 +
      ms % 60000 / 1000 * 1000 + ms % 1000 := by
    rw [Stamp.ms, hhours]
    rfl
  omega

end StreamServer.Subtitles

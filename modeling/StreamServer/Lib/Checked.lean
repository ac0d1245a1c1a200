import Mathlib.Algebra.Ring.Nat
import Mathlib.Data.List.TakeDrop

/-!
# Computations that check what they do

A computation on machine words and slices ends in one of four ways: with a value, with a failure that it
reports, with a panic because a number does not fit or a slice does not lie in what it is taken from,
or without fuel.

* `Checked.Run` — the computations.
* `Checked.add`, `Checked.mul`, `Checked.sub` — sums, products and differences that have to fit.
* `Checked.slice` — a part that has to lie inside.
* `bind_ok_iff`, `bind_error_iff` — what the parts of a computation that ends like this did.
-/

namespace Checked

/-- How a computation ends without a value. -/
inductive Stop
  | panic
  | fail
  /-- There was not enough fuel. -/
  | stuck
  deriving DecidableEq, Repr

/-- A computation that may stop with an error or a panic. -/
abbrev Run := Except Stop

variable {α β : Type}

/-- The operator `?` on a value that may be missing. -/
@[grind =] def okOr : Option α → Run α
  | some a => .ok a
  | none => .error .fail

/-- A sum, below the bound. -/
@[grind =] def add (bound a b : ℕ) : Run ℕ := if a + b < bound then .ok (a + b) else .error .panic

/-- A product, below the bound. -/
@[grind =] def mul (bound a b : ℕ) : Run ℕ := if a * b < bound then .ok (a * b) else .error .panic

/-- A difference that is not negative. -/
@[grind =] def sub (a b : ℕ) : Run ℕ := if b ≤ a then .ok (a - b) else .error .panic

/-- `list[start..stop]`, with the panic of bounds that do not fit. -/
@[grind =] def slice (list : List α) (start stop : ℕ) : Run (List α) :=
  if start ≤ stop ∧ stop ≤ list.length then .ok ((list.take stop).drop start) else .error .panic

@[simp] theorem okOr_some (a : α) : okOr (some a) = .ok a := rfl

@[simp] theorem okOr_none : okOr (none : Option α) = .error .fail := rfl

theorem okOr_eq_ok_iff {o : Option α} {a : α} : okOr o = .ok a ↔ o = some a := by
  cases o with
  | none => simp
  | some b => simp

theorem okOr_ne_panic (o : Option α) : okOr o ≠ .error .panic := by
  cases o with
  | none => simp
  | some a => simp

theorem add_of_lt {bound a b : ℕ} (h : a + b < bound) : add bound a b = .ok (a + b) := if_pos h

theorem add_eq_ok_iff {bound a b c : ℕ} : add bound a b = .ok c ↔ a + b < bound ∧ a + b = c := by
  rw [add]
  split
  · next h => simp [h]
  · next h => simp [h]

theorem add_eq_panic_iff {bound a b : ℕ} : add bound a b = .error .panic ↔ bound ≤ a + b := by
  rw [add]
  split
  · next h => simpa using h
  · next h => simpa using h

theorem mul_of_lt {bound a b : ℕ} (h : a * b < bound) : mul bound a b = .ok (a * b) := if_pos h

theorem mul_eq_ok_iff {bound a b c : ℕ} : mul bound a b = .ok c ↔ a * b < bound ∧ a * b = c := by
  rw [mul]
  split
  · next h => simp [h]
  · next h => simp [h]

theorem sub_of_le {a b : ℕ} (h : b ≤ a) : sub a b = .ok (a - b) := if_pos h

theorem slice_of_le {list : List α} {start stop : ℕ} (h : start ≤ stop) (h' : stop ≤ list.length) :
    slice list start stop = .ok ((list.take stop).drop start) := if_pos ⟨h, h'⟩

/-- A slice up to the end. -/
theorem slice_end {list : List α} {start : ℕ} (h : start ≤ list.length) :
    slice list start list.length = .ok (list.drop start) := by
  rw [slice_of_le h (Nat.le_refl _), List.take_length]

/-- **A computation with a value** had one in each part. -/
theorem bind_ok_iff {x : Run α} {f : α → Run β} {b : β} :
    x >>= f = .ok b ↔ ∃ a, x = .ok a ∧ f a = .ok b := by
  cases x with
  | error stop => simp [bind, Except.bind]
  | ok a => simp [bind, Except.bind]

/-- **A computation panics** in its first part, or behind a value. -/
theorem bind_error_iff {x : Run α} {f : α → Run β} {stop : Stop} :
    x >>= f = .error stop ↔ x = .error stop ∨ ∃ a, x = .ok a ∧ f a = .error stop := by
  cases x with
  | error stop' => simp [bind, Except.bind]
  | ok a => simp [bind, Except.bind]

@[simp] theorem ok_bind (a : α) (f : α → Run β) : (Except.ok a : Run α) >>= f = f a := rfl

@[simp] theorem error_bind (stop : Stop) (f : α → Run β) :
    (Except.error stop : Run α) >>= f = .error stop := rfl

end Checked

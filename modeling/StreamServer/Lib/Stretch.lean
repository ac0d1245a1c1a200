import Mathlib.Data.List.Range

/-!
# Stretches of a byte source

A file, a piece or a buffer is a run of consecutive values of a function on
positions.  `stretch f start len` is the list of those values; reading on from
where a stretch ends, or handing out only the first part of one, are the lemmas
below.

* `stretch` — the values of `f` at `start`, …, `start + len - 1`.
* `stretch_add` — a stretch is one stretch followed by the next.
* `take_stretch`, `drop_stretch` — parts of a stretch are stretches.
* `stretch_congr` — sources that agree on a stretch have the same stretch there.
-/

section Stretch

variable {α : Type*}

/-- The values of `f` at the positions `start`, …, `start + len - 1`. -/
def stretch (f : ℕ → α) (start len : ℕ) : List α := (List.range' start len).map f

variable {f g : ℕ → α} {start len m n : ℕ}

@[simp] theorem length_stretch : (stretch f start len).length = len := by simp [stretch]

@[simp] theorem stretch_zero : stretch f start 0 = [] := rfl

theorem stretch_add : stretch f start (m + n) = stretch f start m ++ stretch f (start + m) n := by
  rw [stretch, ← List.range'_append_1, List.map_append]
  rfl

theorem stretch_eq_nil : stretch f start len = [] ↔ len = 0 := by
  rw [← List.length_eq_zero_iff, length_stretch]

theorem getElem_stretch {i : ℕ} (h : i < (stretch f start len).length) :
    (stretch f start len)[i] = f (start + i) := by
  simp [stretch]

theorem stretch_congr (h : ∀ i < len, f (start + i) = g (start + i)) :
    stretch f start len = stretch g start len := by
  unfold stretch
  refine List.map_congr_left fun p hp => ?_
  obtain ⟨hle, hlt⟩ := List.mem_range'_1.mp hp
  have hp := h (p - start) (by omega)
  rwa [show start + (p - start) = p by omega] at hp

/-- Handing out the first part of a stretch. -/
theorem take_stretch (m : ℕ) : (stretch f start len).take m = stretch f start (min m len) := by
  rcases Nat.le_total m len with h | h
  · obtain ⟨k, rfl⟩ := Nat.exists_eq_add_of_le h
    rw [stretch_add, List.take_left' length_stretch, min_eq_left h]
  · rw [min_eq_right h, List.take_of_length_le (by simpa using h)]

/-- What is left of a stretch after its first part. -/
theorem drop_stretch (m : ℕ) :
    (stretch f start len).drop m = stretch f (start + min m len) (len - m) := by
  rcases Nat.le_total m len with h | h
  · obtain ⟨k, rfl⟩ := Nat.exists_eq_add_of_le h
    rw [stretch_add, List.drop_left' length_stretch, min_eq_left h, Nat.add_sub_cancel_left]
  · rw [List.drop_of_length_le (by simpa using h), Nat.sub_eq_zero_of_le h, stretch_zero]

/-- Shifting the source is starting elsewhere. -/
theorem stretch_shift (k : ℕ) :
    stretch (fun p => f (k + p)) start len = stretch f (k + start) len := by
  refine List.ext_getElem (by simp) fun i h₁ h₂ => ?_
  rw [getElem_stretch, getElem_stretch, Nat.add_assoc]

end Stretch

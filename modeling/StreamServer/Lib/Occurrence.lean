import Mathlib.Data.List.Basic
import Mathlib.Data.List.Infix

/-!
# Looking for a part of a list

A search goes through the list from the left and stops where the pattern lies.

* `List.occurrence?` — where a pattern first occurs.
* `occurrence?_eq_some_iff` — it occurs there, and not before.
* `occurrence?_of_begins` — a list that begins with it.
* `occurrence?_isSome_iff` — a list that it is a part of.
* `occurrence?_take_append` — what stands behind a pattern does not matter.
* `idxOf?_append_cons` — an element behind a list that does not have it.
-/

namespace List

variable {α : Type*} [DecidableEq α]

/-- Where the pattern first occurs. -/
@[grind =] def occurrence? : List α → List α → Option ℕ
  | [], pattern => if pattern = [] then some 0 else none
  | a :: text, pattern =>
      if pattern.isPrefixOf (a :: text) then some 0 else (occurrence? text pattern).map (· + 1)

variable {pattern text : List α}

/-- A list that begins with the pattern. -/
theorem occurrence?_of_begins (h : pattern <+: text) : occurrence? text pattern = some 0 := by
  cases text with
  | nil => rw [occurrence?, if_pos (prefix_nil.mp h)]
  | cons a text =>
    rw [occurrence?, if_pos]
    exact isPrefixOf_iff_prefix.mpr h

/-- **It occurs there, and not before.** -/
theorem occurrence?_eq_some_iff {n : ℕ} : occurrence? text pattern = some n ↔
    n ≤ text.length ∧ pattern <+: text.drop n ∧ ∀ m < n, ¬ pattern <+: text.drop m := by
  induction text generalizing n with
  | nil =>
    by_cases hnil : pattern = []
    · rw [occurrence?, if_pos hnil, hnil]
      constructor
      · intro h
        cases h
        simp
      · intro h
        rw [Nat.le_zero.mp h.1]
    · rw [occurrence?, if_neg hnil]
      constructor
      · intro h
        cases h
      · intro h
        exact absurd (prefix_nil.mp (by simpa using h.2.1)) hnil
  | cons a text ih =>
    -- either the pattern begins here, or its first place is one further on in the rest
    by_cases hpre : pattern <+: a :: text
    · rw [occurrence?_of_begins hpre]
      constructor
      · intro h
        cases h
        exact ⟨Nat.zero_le _, hpre, fun m hm => absurd hm (Nat.not_lt_zero m)⟩
      · intro h
        rcases Nat.eq_zero_or_pos n with rfl | hpos
        · rfl
        · exact absurd hpre (h.2.2 0 hpos)
    · have hnot : pattern.isPrefixOf (a :: text) ≠ true := mt isPrefixOf_iff_prefix.mp hpre
      rw [occurrence?, if_neg hnot, Option.map_eq_some_iff]
      constructor
      · intro h
        obtain ⟨k, hk, rfl⟩ := h
        obtain ⟨hle, hocc, hnone⟩ := ih.mp hk
        refine ⟨Nat.succ_le_succ hle, hocc, fun m hm => ?_⟩
        cases m with
        | zero => exact hpre
        | succ m => exact hnone m (Nat.lt_of_succ_lt_succ hm)
      · intro h
        obtain ⟨hle, hocc, hnone⟩ := h
        cases n with
        | zero => exact absurd hocc hpre
        | succ n =>
          refine ⟨n, ih.mpr ⟨Nat.le_of_succ_le_succ hle, hocc, fun m hm => ?_⟩, rfl⟩
          exact hnone (m + 1) (Nat.succ_lt_succ hm)

/-- A pattern that occurs is a part of the list. -/
theorem occurrence?_isSome_iff : (occurrence? text pattern).isSome = true ↔ pattern <:+: text := by
  induction text with
  | nil =>
    rw [occurrence?, infix_nil]
    split
    · simp_all
    · simp_all
  | cons a text ih =>
    rw [infix_cons_iff, ← ih]
    by_cases hpre : pattern <+: a :: text
    · simp [occurrence?_of_begins hpre, hpre]
    · have hnot : pattern.isPrefixOf (a :: text) ≠ true := mt isPrefixOf_iff_prefix.mp hpre
      rw [occurrence?, if_neg hnot, Option.isSome_map]
      exact (or_iff_right hpre).symm

/-- **What stands behind a pattern** does not matter. -/
theorem occurrence?_take_append {n : ℕ} (h : occurrence? text pattern = some n) (rest : List α) :
    occurrence? (text.take (n + pattern.length) ++ rest) pattern = some n := by
  obtain ⟨hle, ⟨behind, hbehind⟩, hnone⟩ := occurrence?_eq_some_iff.mp h
  have hlength : n + pattern.length ≤ text.length := by
    have hdrop := congrArg length hbehind
    rw [length_append, length_drop] at hdrop
    omega
  have htake : text.take (n + pattern.length) = text.take n ++ pattern := by
    rw [take_add, ← hbehind, take_left]
  rw [occurrence?_eq_some_iff]
  refine ⟨?_, ?_, fun m hm hpre => hnone m hm ?_⟩
  · rw [length_append, length_take, Nat.min_eq_left hlength]
    omega
  · rw [htake, append_assoc, drop_append_of_le_length (by rw [length_take]; omega),
      drop_eq_nil_of_le (by rw [length_take]; omega), nil_append]
    exact prefix_append _ _
  · -- an earlier one would lie in the part that is the same
    rw [drop_append_of_le_length (by rw [length_take]; omega)] at hpre
    have hinside : pattern <+: (text.take (n + pattern.length)).drop m := by
      refine prefix_of_prefix_length_le hpre (prefix_append _ _) ?_
      rw [length_drop, length_take]
      omega
    rw [drop_take] at hinside
    exact hinside.trans <| take_prefix _ _

/-- An element is found behind a list that does not have it. -/
theorem idxOf?_append_cons {a : α} (h : a ∉ text) (rest : List α) :
    (text ++ a :: rest).idxOf? a = some text.length := by
  induction text with
  | nil => simp [idxOf?_cons]
  | cons b text ih =>
    obtain ⟨hne, hnot⟩ := not_or.mp (mt mem_cons.mpr h)
    rw [cons_append, idxOf?_cons, ih hnot, if_neg (by simpa using Ne.symm hne)]
    rfl

end List

import Mathlib.Data.List.Basic
import Mathlib.Data.List.TakeDrop
import Mathlib.Data.List.TakeWhile

/-!
# Cutting a list into lines

A line ends with a terminator, which is part of it; the last line may lack it.  A stream that
is read line by line hands out these pieces, whatever pieces it came in.

* `List.lines` — the lines of a list.
* `lines_append`, `lines_flatten` — lines that are put together are found again.
* `flatten_lines` — nothing is lost.
* `lines_cases` — what a list begins with.
* `span_line`, `span_rest` — a line is what stands before the first terminator.
* `lines_prefix` — what is cut off is cut off in one line, or between two.
-/

namespace List

/-- What holds of all characters of a text is decided along the text, not by trying all characters. -/
instance (priority := 2000) decidableForallMem (p : Char → Prop) [DecidablePred p] (l : List Char) :
    Decidable (∀ c ∈ l, p c) := decidableBAll p l

variable {α : Type*} [DecidableEq α]

/-- The lines of a list. -/
@[grind =] def lines (sep : α) : List α → List (List α)
  | [] => []
  | a :: rest =>
      if a = sep then [a] :: lines sep rest
      else
        match lines sep rest with
        | [] => [[a]]
        | line :: later => (a :: line) :: later

variable {sep : α} {line rest : List α}

@[simp] theorem lines_nil : lines sep [] = [] := rfl

theorem lines_cons_sep (rest : List α) : lines sep (sep :: rest) = [sep] :: lines sep rest :=
  if_pos rfl

/-- **Nothing is lost.** -/
theorem flatten_lines (l : List α) : (lines sep l).flatten = l := by
  induction l with
  | nil => rfl
  | cons a l ih =>
    rw [lines]
    split
    · simp [ih]
    · cases hlines : lines sep l with
      | nil =>
        rw [hlines] at ih
        simp [← ih]
      | cons line later =>
        rw [hlines] at ih
        simpa using ih

theorem lines_eq_nil {l : List α} : lines sep l = [] ↔ l = [] := by
  constructor
  · intro h
    have hall : (lines sep l).flatten = l := flatten_lines l
    rw [← hall, h, flatten_nil]
  · intro h
    rw [h, lines_nil]

/-- A list without a terminator is one line. -/
theorem lines_of_notMem (hne : line ≠ []) (h : sep ∉ line) : lines sep line = [line] := by
  induction line with
  | nil => exact absurd rfl hne
  | cons a line ih =>
    have ha : a ≠ sep := fun heq => h (by simp [heq])
    rw [lines, if_neg ha]
    cases line with
    | nil => rfl
    | cons b line => rw [ih (by simp) (fun hmem => h (mem_cons_of_mem a hmem))]

/-- A line is found again. -/
theorem lines_append (h : sep ∉ line) (rest : List α) :
    lines sep (line ++ sep :: rest) = (line ++ [sep]) :: lines sep rest := by
  induction line with
  | nil => exact lines_cons_sep rest
  | cons a line ih =>
    have ha : a ≠ sep := fun heq => h (by simp [heq])
    rw [cons_append, lines, if_neg ha, ih fun hmem => h (mem_cons_of_mem a hmem)]
    rfl

/-- What stands before the first terminator. -/
theorem span_line (h : sep ∉ line) (rest : List α) :
    (line ++ sep :: rest).span (· ≠ sep) = (line, sep :: rest) := by
  have hne : ∀ a ∈ line, decide (a ≠ sep) = true := by
    intro a ha
    rw [decide_eq_true_iff]
    intro heq
    exact h (heq ▸ ha)
  rw [span_eq_takeWhile_dropWhile, takeWhile_append_of_pos hne, dropWhile_append_of_pos hne]
  simp

theorem span_rest (h : sep ∉ line) : line.span (· ≠ sep) = (line, []) := by
  have hne : ∀ a ∈ line, decide (a ≠ sep) = true := by
    intro a ha
    rw [decide_eq_true_iff]
    intro heq
    exact h (heq ▸ ha)
  rw [span_eq_takeWhile_dropWhile, takeWhile_eq_self_iff.mpr hne, dropWhile_eq_nil_iff.mpr hne]

/-- Two ways of cutting at the first terminator are the same. -/
theorem line_unique {line' rest' : List α} (h : sep ∉ line) (h' : sep ∉ line')
    (heq : line ++ sep :: rest = line' ++ sep :: rest') : line = line' ∧ rest = rest' := by
  have hlines := congrArg (lines sep) heq
  rw [lines_append h, lines_append h', cons.injEq, append_cancel_right_eq] at hlines
  obtain ⟨rfl, -⟩ := hlines
  simpa using heq

/-- **What a list begins with**: nothing, all of it, or a line. -/
theorem lines_cases (sep : α) (l : List α) :
    l = [] ∨ (l ≠ [] ∧ sep ∉ l ∧ lines sep l = [l]) ∨
      ∃ line rest, sep ∉ line ∧ l = line ++ sep :: rest ∧
        lines sep l = (line ++ [sep]) :: lines sep rest := by
  by_cases hnil : l = []
  · exact Or.inl hnil
  · by_cases hmem : sep ∈ l
    · obtain ⟨line, rest, rfl, hline⟩ := eq_append_cons_of_mem hmem
      exact Or.inr (Or.inr ⟨line, rest, hline, rfl, lines_append hline rest⟩)
    · exact Or.inr (Or.inl ⟨hnil, hmem, lines_of_notMem hnil hmem⟩)

/-- Lines that are put together are found again. -/
theorem lines_flatten (pieces : List (List α)) (h : ∀ piece ∈ pieces, sep ∉ piece)
    (rest : List α) :
    lines sep (pieces.flatMap (fun piece => piece ++ [sep]) ++ rest) =
      pieces.map (fun piece => piece ++ [sep]) ++ lines sep rest := by
  induction pieces with
  | nil => simp
  | cons piece pieces ih =>
    have hpieces := ih fun p hp => h p (mem_cons_of_mem _ hp)
    rw [flatMap_cons, append_assoc, append_assoc, singleton_append,
      lines_append (h piece mem_cons_self), hpieces, map_cons, cons_append]

/-- **A list that is cut off.**  Its lines are whole lines, except that the last may be the
beginning of one. -/
theorem lines_prefix {pieces : List (List α)} (h : ∀ piece ∈ pieces, sep ∉ piece) {l : List α}
    (hl : l <+: pieces.flatMap fun piece => piece ++ [sep]) :
    ∃ whole : List (List α), whole <+: pieces ∧
      (lines sep l = whole.map (fun piece => piece ++ [sep]) ∨
        ∃ last, sep ∉ last ∧
          lines sep l = whole.map (fun piece => piece ++ [sep]) ++ [last]) ∧
      (whole = pieces → l = pieces.flatMap fun piece => piece ++ [sep]) := by
  induction pieces generalizing l with
  | nil =>
    obtain rfl : l = [] := by simpa using hl
    exact ⟨[], prefix_rfl, Or.inl rfl, fun _ => rfl⟩
  | cons piece pieces ih =>
    have hpiece := h piece mem_cons_self
    rw [flatMap_cons] at hl
    rcases Nat.lt_or_ge piece.length l.length with hlong | hshort
    · -- the first line is whole
      have hfirst : piece ++ [sep] <+: l :=
        prefix_of_prefix_length_le (prefix_append _ _) hl (by simp; omega)
      obtain ⟨l', rfl⟩ := hfirst
      rw [prefix_append_right_inj] at hl
      obtain ⟨whole, hwhole, hlines, hall⟩ := ih (fun p hp => h p (mem_cons_of_mem _ hp)) hl
      have hcons : lines sep (piece ++ [sep] ++ l') = (piece ++ [sep]) :: lines sep l' := by
        rw [append_assoc, singleton_append, lines_append hpiece]
      refine ⟨piece :: whole, ?_, ?_, fun heq => ?_⟩
      · rw [cons_prefix_cons]
        exact ⟨rfl, hwhole⟩
      · rw [hcons]
        rcases hlines with hlines | ⟨last, hlast, hlines⟩
        · exact Or.inl (by rw [hlines, map_cons])
        · exact Or.inr ⟨last, hlast, by rw [hlines, map_cons, cons_append]⟩
      · rw [flatMap_cons, hall (cons.inj heq).2]
    · -- what there is lies in the first line
      have hinside : l <+: piece := by
        rw [append_assoc] at hl
        exact prefix_of_prefix_length_le hl (prefix_append _ _) hshort
      have hnot : sep ∉ l := fun hmem => hpiece (hinside.subset hmem)
      refine ⟨[], nil_prefix, ?_, by simp⟩
      cases l with
      | nil => exact Or.inl rfl
      | cons a l => exact Or.inr ⟨a :: l, hnot, lines_of_notMem (by simp) hnot⟩

end List

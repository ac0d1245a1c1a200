import StreamServer.Lib.Paragraphs

/-!
# Lines with their ends

A line ends with a line feed, a carriage return, or both, and each line of a text may end in another way.  A carriage
return and the line feed of a blank line behind it would be one line end.

* `LineEnd`, `List.writeLines` — the line ends, and lines that are written with them.
* `List.EndsApart` — no two line ends of the text are one.
* `unixLines_writeLines` — **with line feeds for all line ends**, the lines are the same.
-/

/-- What a line ends with. -/
inductive LineEnd
  | lf
  | cr
  | crlf
  deriving DecidableEq, Repr

/-- The characters of a line end. -/
def LineEnd.text : LineEnd → List Char
  | lf => ['\n']
  | cr => ['\r']
  | crlf => ['\r', '\n']

namespace List

/-- Lines with their ends; the last one may have none. -/
@[grind =] def writeLines (closed : Bool) : (ℕ → LineEnd) → List (List Char) → List Char
  | _, [] => []
  | ends, [line] => line ++ if closed then (ends 0).text else []
  | ends, line :: lines => line ++ ((ends 0).text ++ writeLines closed (fun i => ends (i + 1)) lines)

/-- No line ends with a carriage return in front of a blank line that ends with a line feed. -/
def EndsApart (ends : ℕ → LineEnd) (lines : List (List Char)) : Prop :=
  ∀ i, ends i = .cr → ends (i + 1) = .lf → lines[i + 1]? ≠ some []

variable {ends : ℕ → LineEnd} {closed : Bool} {line line' : List Char} {lines : List (List Char)}

theorem writeLines_cons : writeLines closed ends (line :: line' :: lines) =
    line ++ ((ends 0).text ++ writeLines closed (fun i => ends (i + 1)) (line' :: lines)) := rfl

theorem EndsApart.tail (h : EndsApart ends (line :: lines)) : EndsApart (fun i => ends (i + 1)) lines :=
  fun i hcr hlf => h (i + 1) hcr hlf

/-- A text does not begin with a line feed if its first line is not blank, or ends in another way. -/
theorem head?_writeLines (hline : '\n' ∉ line) (h : ends 0 = .lf → line ≠ []) :
    (writeLines closed ends (line :: lines)).head? ≠ some '\n' := by
  cases line with
  | cons c tail =>
    rw [mem_cons, not_or] at hline
    cases lines with
    | nil => simpa [writeLines] using Ne.symm hline.1
    | cons line' lines => simpa [writeLines] using Ne.symm hline.1
  | nil =>
    have hend : (ends 0).text.head? ≠ some '\n' ∧ (ends 0).text ≠ [] := by
      cases hends : ends 0 with
      | lf => exact absurd rfl (h hends)
      | cr => decide
      | crlf => decide
    cases lines with
    | nil =>
      rw [writeLines, nil_append]
      split
      · exact hend.1
      · simp
    | cons line' lines => rw [writeLines_cons, nil_append, head?_append_of_ne_nil _ hend.2]; exact hend.1

/-- **With line feeds for all line ends**, the lines are the same. -/
theorem unixLines_writeLines (hlines : ∀ l ∈ line :: lines, '\n' ∉ l ∧ '\r' ∉ l) (h : EndsApart ends (line :: lines)) :
    (writeLines closed ends (line :: lines)).unixLines =
      unlines (line :: lines) ++ if closed then ['\n'] else [] := by
  induction lines generalizing ends line with
  | nil =>
    rw [writeLines, unixLines_of_notMem (hlines line mem_cons_self).2, unlines]
    cases closed with
    | false => rfl
    | true =>
      cases hends : ends 0 with
      | lf => rfl
      | cr => rfl
      | crlf => rfl
  | cons line' lines ih =>
    have hrest := ih (fun l hl => hlines l (mem_cons_of_mem line hl)) h.tail
    have hline' := (hlines line' (mem_cons_of_mem line mem_cons_self)).1
    rw [writeLines_cons, unixLines_of_notMem (hlines line mem_cons_self).2, unlines_cons (cons_ne_nil _ _)]
    cases hends : ends 0 with
    | lf => rw [LineEnd.text, singleton_append, unixLines_cons (by decide), hrest]; simp
    | crlf => rw [LineEnd.text, cons_append, singleton_append, unixLines_crlf, hrest]; simp
    | cr =>
      have hhead := @head?_writeLines (fun i => ends (i + 1)) closed line' lines hline'
        fun hlf hnil => h 0 hends hlf (by rw [hnil]; rfl)
      rw [LineEnd.text, singleton_append, unixLines_cr hhead, hrest]
      simp

end List

import Mathlib.Data.List.Infix
import StreamServer.Lib.Text

/-!
# Paragraphs

A text is cut into paragraphs at its blank lines, two line feeds one behind the other.  Where there are
three, one is left over for the next paragraph.

* `List.replaceText`, `List.splitText` — a text with a pattern replaced, and cut where it stands.
* `List.unixLines` — a text with line feeds for all line ends.
* `List.paragraphs` — a text cut at the blank lines.
* `unixLines_append`, `unixLines_of_notMem` — line ends of texts that are put together.
* `paragraphs_append` — **a text with a blank line behind it is cut there**, and nothing is lost.
* `unlines` — lines with line feeds between them; `textLines_unlines` finds them again.
-/

namespace List

section Patterns

variable {α : Type*} [DecidableEq α]

/-- A text with the pattern replaced, when so many elements are passed over. -/
@[grind =] def replaceText (old new : List α) : ℕ → List α → List α
  | _, [] => []
  | skip + 1, _ :: rest => replaceText old new skip rest
  | 0, a :: rest =>
      if old <+: a :: rest then new ++ replaceText old new (old.length - 1) rest
      else a :: replaceText old new 0 rest

/-- Puts something in front of the first piece. -/
@[grind =] def prependHead (front : List α) : List (List α) → List (List α)
  | [] => [front]
  | piece :: pieces => (front ++ piece) :: pieces

/-- A text cut where the pattern stands, when so many elements are passed over. -/
@[grind =] def splitText (pattern : List α) : ℕ → List α → List (List α)
  | _, [] => [[]]
  | skip + 1, _ :: rest => splitText pattern skip rest
  | 0, a :: rest =>
      if pattern <+: a :: rest then [] :: splitText pattern (pattern.length - 1) rest
      else prependHead [a] (splitText pattern 0 rest)

end Patterns

theorem prependHead_prependHead {α : Type*} (front front' : List α) (pieces : List (List α)) :
    prependHead front (prependHead front' pieces) = prependHead (front ++ front') pieces := by
  cases pieces with
  | nil => rfl
  | cons piece pieces => simp only [prependHead, append_assoc]

/-! ### Line ends -/

/-- A text with line feeds for all line ends. -/
def unixLines (text : List Char) : List Char :=
  replaceText ['\r'] ['\n'] 0 (replaceText ['\r', '\n'] ['\n'] 0 text)

section UnixLines

variable {text rest : List Char}

@[simp] theorem unixLines_nil : unixLines [] = [] := rfl

theorem unixLines_crlf (rest : List Char) :
    unixLines ('\r' :: '\n' :: rest) = '\n' :: unixLines rest := by
  have hpre : ['\r', '\n'] <+: '\r' :: '\n' :: rest := ⟨rest, rfl⟩
  have hno : ¬ ['\r'] <+: '\n' :: replaceText ['\r', '\n'] ['\n'] 0 rest := by simp
  rw [unixLines, replaceText, if_pos hpre]
  change replaceText ['\r'] ['\n'] 0 ('\n' :: replaceText ['\r', '\n'] ['\n'] 0 rest) = _
  rw [replaceText, if_neg hno, unixLines]

theorem unixLines_cr (h : rest.head? ≠ some '\n') :
    unixLines ('\r' :: rest) = '\n' :: unixLines rest := by
  have hno : ¬ ['\r', '\n'] <+: '\r' :: rest := by
    intro hpre
    rw [cons_prefix_cons] at hpre
    obtain ⟨tail, rfl⟩ := hpre.2
    exact h rfl
  have hpre : ['\r'] <+: '\r' :: replaceText ['\r', '\n'] ['\n'] 0 rest := ⟨_, rfl⟩
  rw [unixLines, replaceText, if_neg hno, replaceText, if_pos hpre]
  rfl

theorem unixLines_cons {c : Char} (h : c ≠ '\r') (rest : List Char) :
    unixLines (c :: rest) = c :: unixLines rest := by
  have hno : ¬ ['\r', '\n'] <+: c :: rest := by
    intro hpre
    rw [cons_prefix_cons] at hpre
    exact h hpre.1.symm
  have hno' : ¬ ['\r'] <+: c :: replaceText ['\r', '\n'] ['\n'] 0 rest := by
    intro hpre
    rw [cons_prefix_cons] at hpre
    exact h hpre.1.symm
  rw [unixLines, replaceText, if_neg hno, replaceText, if_neg hno', unixLines]

/-- Induction along the line ends of a text. -/
theorem unixLines_induction {motive : List Char → Prop} (nil : motive [])
    (crlf : ∀ rest, motive rest → motive ('\r' :: '\n' :: rest))
    (cr : ∀ rest, rest.head? ≠ some '\n' → motive rest → motive ('\r' :: rest))
    (cons : ∀ c rest, c ≠ '\r' → motive rest → motive (c :: rest)) (text : List Char) :
    motive text := by
  induction hn : text.length using Nat.strong_induction_on generalizing text with
  | _ n ih =>
    cases text with
    | nil => exact nil
    | cons c tail =>
      rw [length_cons] at hn
      by_cases hc : c = '\r'
      · rw [hc]
        by_cases hhead : tail.head? = some '\n'
        · obtain ⟨rest, rfl⟩ := head?_eq_some_iff.mp hhead
          rw [length_cons] at hn
          exact crlf rest (ih rest.length (by omega) rest rfl)
        · exact cr tail hhead (ih tail.length (by omega) tail rfl)
      · exact cons c tail hc (ih tail.length (by omega) tail rfl)

/-- What has no carriage return stays as it is. -/
theorem unixLines_of_notMem (h : '\r' ∉ text) (rest : List Char) :
    unixLines (text ++ rest) = text ++ unixLines rest := by
  induction text with
  | nil => rfl
  | cons c text ih =>
    rw [mem_cons, not_or] at h
    rw [cons_append, unixLines_cons (Ne.symm h.1), ih h.2]
    rfl

/-- **The line ends of two texts**, if none lies between them. -/
theorem unixLines_append (h : text.getLast? ≠ some '\r' ∨ rest.head? ≠ some '\n') :
    unixLines (text ++ rest) = unixLines text ++ unixLines rest := by
  induction text using unixLines_induction with
  | nil => rfl
  | crlf tail ih =>
    have htail : tail.getLast? ≠ some '\r' ∨ rest.head? ≠ some '\n' := by
      cases tail with
      | nil => exact Or.inl (by simp)
      | cons d tail => simpa [getLast?_cons_cons] using h
    rw [unixLines_crlf, cons_append, cons_append, unixLines_crlf, ih htail, cons_append]
  | cr tail hhead ih =>
    cases tail with
    | nil =>
      have hrest : rest.head? ≠ some '\n' := by simpa using h
      exact unixLines_cr hrest
    | cons d tail =>
      have htail : (d :: tail).getLast? ≠ some '\r' ∨ rest.head? ≠ some '\n' := by
        simpa [getLast?_cons_cons] using h
      have hhead' : (d :: tail ++ rest).head? ≠ some '\n' := by simpa using hhead
      rw [unixLines_cr hhead, cons_append, unixLines_cr hhead', ih htail, cons_append]
  | cons c tail hc ih =>
    have htail : tail.getLast? ≠ some '\r' ∨ rest.head? ≠ some '\n' := by
      cases tail with
      | nil => exact Or.inl (by simp)
      | cons d tail => simpa [getLast?_cons_cons] using h
    rw [unixLines_cons hc, cons_append, unixLines_cons hc, ih htail, cons_append]

/-- **A text with a line feed behind it**: a carriage return at its end belongs to the line feed. -/
theorem unixLines_append_feed (text rest : List Char) : ∃ body,
    unixLines (text ++ '\n' :: rest) = body ++ '\n' :: unixLines rest ∧
      (unixLines text = body ∨ unixLines text = body ++ ['\n']) := by
  by_cases hlast : text.getLast? = some '\r'
  · obtain ⟨body, rfl⟩ := getLast?_eq_some_iff.mp hlast
    refine ⟨unixLines body, ?_, Or.inr ?_⟩
    · rw [append_assoc, singleton_append, unixLines_append (Or.inr (by simp)), unixLines_crlf]
    · rw [unixLines_append (Or.inr (by simp)), unixLines_cr (by simp), unixLines_nil]
  · refine ⟨unixLines text, ?_, Or.inl rfl⟩
    rw [unixLines_append (Or.inl hlast), unixLines_cons (by decide)]

theorem notMem_unixLines (text : List Char) : '\r' ∉ unixLines text := by
  induction text using unixLines_induction with
  | nil => simp
  | crlf rest ih => simpa [unixLines_crlf] using ih
  | cr rest hhead ih => simpa [unixLines_cr hhead] using ih
  | cons c rest hc ih => simpa [unixLines_cons hc] using ⟨Ne.symm hc, ih⟩

end UnixLines

/-! ### Blank lines -/

/-- A text cut at its blank lines. -/
def paragraphs (text : List Char) : List (List Char) := splitText ['\n', '\n'] 0 text

section Paragraphs

variable {c : Char} {text rest line : List Char}

@[simp] theorem paragraphs_nil : paragraphs [] = [[]] := rfl

@[simp] theorem paragraphs_blank (rest : List Char) :
    paragraphs ('\n' :: '\n' :: rest) = [] :: paragraphs rest := by
  have hpre : ['\n', '\n'] <+: '\n' :: '\n' :: rest := ⟨rest, rfl⟩
  rw [paragraphs, splitText, if_pos hpre]
  rfl

theorem paragraphs_cons (h : c ≠ '\n' ∨ rest.head? ≠ some '\n') :
    paragraphs (c :: rest) = prependHead [c] (paragraphs rest) := by
  have hno : ¬ ['\n', '\n'] <+: c :: rest := by
    intro hpre
    rw [cons_prefix_cons] at hpre
    obtain ⟨rfl, tail, rfl⟩ := hpre
    rcases h with hc | hhead
    · exact hc rfl
    · exact hhead rfl
  rw [paragraphs, splitText, if_neg hno, paragraphs]

/-- Line feeds are blank paragraphs in pairs. -/
theorem paragraphs_feeds (n : ℕ) (rest : List Char) : paragraphs (replicate n '\n' ++ rest) =
    replicate (n / 2) [] ++ paragraphs (replicate (n % 2) '\n' ++ rest) := by
  induction n using Nat.twoStepInduction with
  | zero => rfl
  | one => rfl
  | more n ih _ =>
    have hhalf : (n + 2) / 2 = n / 2 + 1 := by omega
    have hfeeds : replicate (n + 2) '\n' ++ rest = '\n' :: '\n' :: (replicate n '\n' ++ rest) := rfl
    rw [hfeeds, paragraphs_blank, ih, Nat.add_mod_right, hhalf]
    rfl

theorem paragraphs_ne_nil (text : List Char) : paragraphs text ≠ [] := by
  cases text with
  | nil => simp
  | cons c rest =>
    rw [paragraphs, splitText]
    split
    · simp
    · cases splitText ['\n', '\n'] 0 rest with
      | nil => simp [prependHead]
      | cons piece pieces => simp [prependHead]

/-- **The first paragraph** ends before every blank line. -/
theorem length_le_of_paragraphs {first front back : List Char} {later : List (List Char)}
    (h : paragraphs text = first :: later) (htext : text = front ++ '\n' :: '\n' :: back) :
    first.length ≤ front.length := by
  induction front generalizing text first later with
  | nil =>
    rw [htext, nil_append, paragraphs_blank, cons.injEq] at h
    rw [← h.1]
  | cons c front ih =>
    by_cases hblank : c = '\n' ∧ (front ++ '\n' :: '\n' :: back).head? = some '\n'
    · obtain ⟨rest, hrest⟩ : ∃ rest, text = '\n' :: '\n' :: rest := by
        obtain ⟨rest, hrest⟩ := head?_eq_some_iff.mp hblank.2
        exact ⟨rest, by rw [htext, cons_append, hrest, hblank.1]⟩
      rw [hrest, paragraphs_blank, cons.injEq] at h
      rw [← h.1]
      exact Nat.zero_le _
    · cases hbehind : paragraphs (front ++ '\n' :: '\n' :: back) with
      | nil => exact absurd hbehind (paragraphs_ne_nil _)
      | cons first' later' =>
        rw [htext, cons_append, paragraphs_cons (not_and_or.mp hblank), hbehind, prependHead,
          cons.injEq] at h
        rw [← h.1, singleton_append, length_cons, length_cons]
        exact Nat.succ_le_succ (ih hbehind rfl)

/-- A line is the beginning of the first paragraph. -/
theorem paragraphs_line (h : '\n' ∉ line) (rest : List Char) :
    paragraphs (line ++ rest) = prependHead line (paragraphs rest) := by
  induction line with
  | nil =>
    cases hrest : paragraphs rest with
    | nil => exact absurd hrest (paragraphs_ne_nil rest)
    | cons piece pieces => simpa [prependHead] using hrest
  | cons c line ih =>
    rw [mem_cons, not_or] at h
    rw [cons_append, paragraphs_cons (Or.inl (Ne.symm h.1)), ih h.2, prependHead_prependHead]
    rfl

/-- So is its line feed, if no blank line is behind it. -/
theorem paragraphs_line_feed (h : '\n' ∉ line) (hrest : rest.head? ≠ some '\n') :
    paragraphs (line ++ '\n' :: rest) = prependHead (line ++ ['\n']) (paragraphs rest) := by
  rw [paragraphs_line h, paragraphs_cons (Or.inr hrest), prependHead_prependHead]

/-- **A text with a blank line behind it** is cut there or one line feed before, and nothing is lost. -/
theorem paragraphs_append (text rest : List Char) : ∃ first others extra,
    paragraphs (text ++ '\n' :: '\n' :: rest) = first :: others ++ paragraphs (extra ++ rest) ∧
      (extra = [] ∨ extra = ['\n']) ∧
      text ++ ['\n', '\n'] =
        first ++ '\n' :: '\n' :: (others.flatMap (· ++ ['\n', '\n']) ++ extra) := by
  induction hn : text.length using Nat.strong_induction_on generalizing text with
  | _ n ih =>
    cases text with
    | nil => exact ⟨[], [], [], by simp, Or.inl rfl, by simp⟩
    | cons c tail =>
      rw [length_cons] at hn
      by_cases hblank : c = '\n' ∧ (tail ++ '\n' :: '\n' :: rest).head? = some '\n'
      · obtain ⟨rfl, hhead⟩ := hblank
        cases tail with
        | nil => exact ⟨[], [], ['\n'], by simp, Or.inr rfl, by simp⟩
        | cons d tail =>
          rw [length_cons] at hn
          obtain rfl : d = '\n' := by simpa using hhead
          obtain ⟨first, others, extra, hsplit, hextra, hall⟩ := ih tail.length (by omega) tail rfl
          refine ⟨[], first :: others, extra, ?_, hextra, ?_⟩
          · rw [cons_append, cons_append, paragraphs_blank, hsplit]
            rfl
          · rw [cons_append, cons_append, hall]
            simp
      · -- this character belongs to the first paragraph
        obtain ⟨first, others, extra, hsplit, hextra, hall⟩ := ih tail.length (by omega) tail rfl
        refine ⟨c :: first, others, extra, ?_, hextra, ?_⟩
        · rw [cons_append, paragraphs_cons (not_and_or.mp hblank), hsplit]
          rfl
        · rw [cons_append, hall]
          rfl

end Paragraphs

/-! ### Lines that are put together -/

/-- Lines with line feeds between them. -/
@[grind =] def unlines : List (List Char) → List Char
  | [] => []
  | [line] => line
  | line :: rest => line ++ '\n' :: unlines rest

section Unlines

variable {text line : List Char} {rest : List (List Char)}

theorem unlines_cons (h : rest ≠ []) : unlines (line :: rest) = line ++ '\n' :: unlines rest := by
  cases rest with
  | nil => exact absurd rfl h
  | cons line' rest => rfl

theorem textLines_cons (h : '\n' ∉ line) (hlast : line.getLast? ≠ some '\r') (after : List Char) :
    textLines (line ++ '\n' :: after) = line :: textLines after := by
  rw [textLines, lines_append h, map_cons, chomp_line hlast]
  rfl

/-- **Lines that are put together are found again.** -/
theorem textLines_unlines {pieces : List (List Char)}
    (h : ∀ piece ∈ pieces, piece ≠ [] ∧ '\n' ∉ piece ∧ '\r' ∉ piece) :
    textLines (unlines pieces) = pieces := by
  induction pieces with
  | nil => rfl
  | cons piece pieces ih =>
    obtain ⟨hne, hline, hcr⟩ := h piece mem_cons_self
    cases pieces with
    | nil =>
      rw [unlines, textLines, lines_of_notMem hne hline, map_singleton, chomp_of_notMem hline]
    | cons piece' pieces =>
      rw [unlines_cons (cons_ne_nil _ _), textLines_cons hline fun hlast => hcr (mem_of_getLast? hlast),
        ih fun piece'' hmem => h piece'' (mem_cons_of_mem piece hmem)]

/-- A line feed behind the last line makes no difference. -/
theorem textLines_unlines_feed {pieces : List (List Char)} (hne : pieces ≠ [])
    (h : ∀ piece ∈ pieces, '\n' ∉ piece ∧ '\r' ∉ piece) :
    textLines (unlines pieces ++ ['\n']) = pieces := by
  induction pieces with
  | nil => exact absurd rfl hne
  | cons piece pieces ih =>
    obtain ⟨hline, hcr⟩ := h piece mem_cons_self
    have hlast : piece.getLast? ≠ some '\r' := fun hlast => hcr (mem_of_getLast? hlast)
    cases pieces with
    | nil => exact textLines_cons hline hlast []
    | cons piece' pieces =>
      rw [unlines_cons (cons_ne_nil _ _), append_assoc, cons_append, textLines_cons hline hlast,
        ih (cons_ne_nil _ _) fun piece'' hmem => h piece'' (mem_cons_of_mem piece hmem)]

/-- The lines of a text are the text, less a line feed at its end. -/
theorem unlines_textLines (h : '\r' ∉ text) :
    text = unlines (textLines text) ∨ text = unlines (textLines text) ++ ['\n'] := by
  induction hn : text.length using Nat.strong_induction_on generalizing text with
  | _ n ih =>
    rcases lines_cases '\n' text with rfl | ⟨hne, hmem, hlines⟩ | ⟨line, rest, hline, rfl, hlines⟩
    · exact Or.inl rfl
    · left
      rw [textLines, hlines, map_singleton, chomp_of_notMem hmem, unlines]
    · have hcr : '\r' ∉ line := fun hmem => h (mem_append_left _ hmem)
      have hrest : '\r' ∉ rest := fun hmem => h (mem_append_right _ (mem_cons_of_mem _ hmem))
      rw [textLines_cons hline fun hlast => hcr (mem_of_getLast? hlast)]
      by_cases hnil : rest = []
      · right
        rw [hnil]
        rfl
      · have hlength : rest.length < n := by
          rw [← hn, length_append, length_cons]
          omega
        have hsome : textLines rest ≠ [] := by
          rw [textLines, Ne, map_eq_nil_iff, lines_eq_nil]
          exact hnil
        rw [unlines_cons hsome]
        rcases ih rest.length hlength hrest rfl with heq | heq
        · left
          rw [← heq]
        · right
          rw [append_assoc, cons_append, ← heq]

theorem head?_unlines {line : List Char} (h : line ≠ [] ∧ '\n' ∉ line) (lines : List (List Char))
    (rest : List Char) : (unlines (line :: lines) ++ rest).head? ≠ some '\n' := by
  obtain ⟨c, tail, rfl⟩ := exists_cons_of_ne_nil h.1
  intro hhead
  have hc : c = '\n' := by
    cases lines with
    | nil => simpa [unlines] using hhead
    | cons line lines => simpa [unlines] using hhead
  exact h.2 (hc ▸ mem_cons_self)

/-- Lines that are not blank lie in one paragraph. -/
theorem paragraphs_unlines {lines : List (List Char)} (hlines : ∀ line ∈ lines, line ≠ [] ∧ '\n' ∉ line)
    (rest : List Char) : (unlines lines ++ rest).paragraphs =
      prependHead (unlines lines) rest.paragraphs := by
  induction lines with
  | nil => exact paragraphs_line (not_mem_nil) rest
  | cons line lines ih =>
    have hline := (hlines line mem_cons_self).2
    cases lines with
    | nil => exact paragraphs_line hline rest
    | cons line' lines =>
      have hhead := head?_unlines (hlines line' (mem_cons_of_mem _ mem_cons_self)) lines rest
      rw [unlines_cons (cons_ne_nil _ _), append_assoc, cons_append,
        paragraphs_line_feed hline hhead,
        ih fun line'' hmem => hlines line'' (mem_cons_of_mem line hmem),
        prependHead_prependHead, append_assoc]
      rfl

end Unlines

end List

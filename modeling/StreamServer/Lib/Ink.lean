import Mathlib.Algebra.Ring.Nat
import StreamServer.Lib.Occurrence
import StreamServer.Lib.Paragraphs

/-!
# Ink

The ink of a text is the number of its characters that are not white space.  Cutting a text into lines,
putting lines together, trimming, and another kind of line ends do not change it.

* `List.ink` — the ink of a text.
* `ink_eq_zero` — a text without ink is white space.
* `ink_trim`, `ink_unixLines`, `sum_ink_textLines`, `ink_unlines` — the operations that keep it.
* `trim_unixLines` — the text between its white space keeps its line ends if there are no others in it.
-/

namespace List

/-- The number of characters that are not white space. -/
def ink (text : List Char) : ℕ := text.countP fun c => !c.isWhiteSpace

variable {text : List Char}

@[simp] theorem ink_nil : ink [] = 0 := rfl

@[simp] theorem ink_append (text rest : List Char) : ink (text ++ rest) = ink text + ink rest :=
  countP_append

theorem ink_cons_white {c : Char} (h : c.isWhiteSpace = true) (rest : List Char) :
    ink (c :: rest) = ink rest := countP_cons_of_neg (by simp [h])

@[simp] theorem ink_feed (rest : List Char) : ink ('\n' :: rest) = ink rest :=
  ink_cons_white (by decide) rest

/-- **A text without ink** is white space. -/
theorem ink_eq_zero : ink text = 0 ↔ ∀ c ∈ text, c.isWhiteSpace = true := by
  simp [ink, countP_eq_zero]

theorem ink_le_of_infix {part : List Char} (h : part <:+: text) : ink part ≤ ink text :=
  h.sublist.countP_le

theorem ink_trim (text : List Char) : ink text.trim = ink text := by
  obtain ⟨front, back, hall, hfront, hback⟩ := trim_spec text
  conv_rhs => rw [hall, ink_append, ink_append, ink_eq_zero.mpr hfront, ink_eq_zero.mpr hback]
  omega

theorem ink_unixLines (text : List Char) : ink text.unixLines = ink text := by
  induction text using unixLines_induction with
  | nil => rfl
  | crlf rest ih => rw [unixLines_crlf, ink_feed, ih, ink_cons_white (by decide), ink_feed]
  | cr rest hhead ih => rw [unixLines_cr hhead, ink_feed, ih, ink_cons_white (by decide)]
  | cons c rest hc ih =>
    rw [unixLines_cons hc, ← singleton_append, ink_append, ih, ← ink_append, singleton_append]

/-! ### Lines -/

theorem ink_chomp (line : List Char) : ink (chomp line) = ink line := by
  have hrev : ∀ line : List Char, ink line.reverse = ink line := fun _ => countP_reverse
  rw [← hrev line, chomp]
  split
  · next rest heq => rw [heq, hrev, ink_feed, ink_cons_white (by decide)]
  · next rest _ heq => rw [heq, hrev, ink_feed]
  · rw [hrev]

theorem sum_ink_textLines (text : List Char) : (text.textLines.map ink).sum = ink text := by
  have hchomp : ink ∘ chomp = ink := funext ink_chomp
  have hall : text = (lines '\n' text).flatten := (flatten_lines text).symm
  conv_rhs => rw [hall, ink, countP_flatten]
  rw [textLines, map_map, hchomp]
  rfl

theorem ink_unlines (lines : List (List Char)) : ink (unlines lines) = (lines.map ink).sum := by
  induction lines with
  | nil => rfl
  | cons line lines ih =>
    by_cases hnil : lines = []
    · simp [hnil, unlines]
    · rw [unlines_cons hnil, ink_append, ink_feed, ih, map_cons, sum_cons]

/-! ### Line ends in a text -/

/-- The white space of a text stays white space. -/
theorem white_unixLines (h : ∀ c ∈ text, c.isWhiteSpace = true) :
    ∀ c ∈ text.unixLines, c.isWhiteSpace = true := by
  rw [← ink_eq_zero] at h ⊢
  rw [ink_unixLines, h]

/-- **The text between its white space** keeps its line ends, if there are no others in it. -/
theorem trim_unixLines (text : List Char) :
    text.unixLines.trim = text.trim ↔ '\r' ∉ text.trim := by
  constructor
  · intro h hmem
    rw [← h] at hmem
    exact notMem_unixLines text (mem_of_mem_trim hmem)
  · intro h
    by_cases hnil : text.trim = []
    · have hwhite : ∀ c ∈ text, c.isWhiteSpace = true := by
        rw [← ink_eq_zero, ← ink_trim, hnil, ink_nil]
      rw [trim_white hwhite, trim_white (white_unixLines hwhite)]
    · -- what is trimmed away does not share a line end with what stays
      obtain ⟨front, back, hall, hfront, hback⟩ := trim_spec text
      have hhead : (text.trim ++ back).head? ≠ some '\n' := by
        rw [head?_append_of_ne_nil _ hnil]
        exact fun hhead => absurd (head?_trim hhead) (by decide)
      have hlines : text.unixLines = front.unixLines ++ (text.trim ++ back.unixLines) := by
        conv_lhs => rw [hall]
        rw [unixLines_append (Or.inr hhead), unixLines_of_notMem h]
      rw [hlines, trim_append (white_unixLines hfront) (white_unixLines hback), trim_trim]

/-! ### A text on lines of its own -/

/-- Nothing but white space stands behind a blank line of the text, or behind a line feed it begins with. -/
def OneParagraph (text : List Char) : Prop :=
  ∀ front back, '\n' :: text.unixLines = front ++ '\n' :: '\n' :: back → ∀ c ∈ back, c.isWhiteSpace = true

/-- How a text on lines of its own, with a blank line behind it, is cut: `first` is the end of the paragraph
it begins in, the `others` lie in it, and `extra` is left for the paragraph behind it. -/
structure CutsInto (text first : List Char) (others : List (List Char)) (extra : List Char) : Prop where
  over_spec : extra = [] ∨ extra = ['\n']
  first_spec : first = [] ∨ ∃ tail, first = '\n' :: tail
  notMem_first : '\r' ∉ first
  ink_eq : ink text = ink first + ink others.flatten
  oneParagraph : OneParagraph text ↔ ink others.flatten = 0
  trim_first : OneParagraph text → first.tail.trim = text.unixLines.trim

theorem ink_flatMap_blank (others : List (List Char)) :
    ink (others.flatMap (· ++ ['\n', '\n'])) = ink others.flatten := by
  induction others with
  | nil => rfl
  | cons other others ih => simp [ih]

/-- The line ends of a text with a blank line behind it. -/
theorem unixLines_append_blank (text rest : List Char) : ∃ feeds body,
    unixLines (text ++ '\n' :: '\n' :: rest) = unixLines text ++ (feeds ++ unixLines rest) ∧
      unixLines text ++ feeds = body ++ ['\n', '\n'] ∧ ink feeds = 0 ∧ '\r' ∉ feeds := by
  obtain ⟨body, hall, hsame⟩ := unixLines_append_feed text ('\n' :: rest)
  rw [unixLines_cons (by decide)] at hall
  rcases hsame with hsame | hsame
  · exact ⟨['\n', '\n'], body, by rw [hall, hsame]; rfl, by rw [hsame], rfl, by decide⟩
  · exact ⟨['\n'], body, by rw [hall, hsame]; simp, by rw [hsame]; simp, rfl, by decide⟩

/-- What stands behind the first blank line of a text is white space, or what stands behind any of them has
ink. -/
theorem oneParagraph_iff {feeds first behind rest : List Char} {later : List (List Char)}
    (hfeeds : ink feeds = 0)
    (hall : '\n' :: text.unixLines ++ feeds = first ++ '\n' :: '\n' :: behind)
    (hfirst : paragraphs ('\n' :: text.unixLines ++ (feeds ++ rest)) = first :: later) :
    OneParagraph text ↔ ink behind = 0 := by
  have hall' : '\n' :: text.unixLines ++ feeds = (first ++ ['\n', '\n']) ++ behind := by
    rw [hall]
    simp
  constructor
  · intro h
    rcases append_eq_append_iff.mp hall' with ⟨front, -, hsuffix⟩ | ⟨back, hback, hbehind⟩
    · -- the first blank line ends with the text
      rw [hsuffix, ink_append] at hfeeds
      omega
    · have hwhite := h first back (by rw [hback]; simp)
      rw [hbehind, ink_append, ink_eq_zero.mpr hwhite, hfeeds]
  · intro h front back hblank
    have hbehind : '\n' :: text.unixLines ++ (feeds ++ rest) =
        front ++ '\n' :: '\n' :: (back ++ (feeds ++ rest)) := by
      rw [hblank]
      simp
    have hlength := length_le_of_paragraphs hfirst hbehind
    have hblank' : '\n' :: text.unixLines ++ feeds = (front ++ ['\n', '\n']) ++ (back ++ feeds) := by
      rw [hblank]
      simp
    -- this blank line lies at the first one, or behind it
    have hsuffix : back ++ feeds <:+ behind := by
      refine suffix_of_suffix_length_le ⟨front ++ ['\n', '\n'], hblank'.symm⟩
        ⟨first ++ ['\n', '\n'], hall'.symm⟩ ?_
      have htotal := congrArg length (hblank'.symm.trans hall')
      simp only [length_append, length_cons, length_nil] at htotal ⊢
      omega
    have hle := ink_le_of_infix hsuffix.isInfix
    rw [ink_append] at hle
    exact ink_eq_zero.mp (by omega)

/-- **A text on lines of its own**, with a blank line behind it. -/
theorem exists_cutsInto (text rest : List Char) : ∃ first others extra, CutsInto text first others extra ∧
    paragraphs ('\n' :: (text ++ '\n' :: '\n' :: rest).unixLines) =
      first :: others ++ paragraphs (extra ++ rest.unixLines) := by
  obtain ⟨feeds, body, hlines, hbody, hfeeds, hnoCr⟩ := unixLines_append_blank text rest
  have hblank : ('\n' :: (text.unixLines ++ (feeds ++ rest.unixLines))) =
      '\n' :: body ++ '\n' :: '\n' :: rest.unixLines := by
    rw [← append_assoc, hbody, append_assoc]
    rfl
  obtain ⟨first, others, extra, hsplit, hextra, hall⟩ := paragraphs_append ('\n' :: body) rest.unixLines
  rw [← hblank, ← hlines] at hsplit
  rw [cons_append, ← hbody] at hall
  refine ⟨first, others, extra, ?_, hsplit⟩
  have hextraInk : ink extra = 0 := by
    rcases hextra with rfl | rfl
    · rfl
    · rfl
  -- what is behind the first blank line
  obtain ⟨behind, hbehind⟩ : ∃ behind, behind = others.flatMap (· ++ ['\n', '\n']) ++ extra := ⟨_, rfl⟩
  have hink : ink behind = ink others.flatten := by
    rw [hbehind, ink_append, ink_flatMap_blank, hextraInk, Nat.add_zero]
  rw [← hbehind] at hall
  have htotal : ink text = ink first + ink others.flatten := by
    have h := congrArg ink hall
    rw [ink_feed, ink_append, ink_unixLines, hfeeds, ink_append, ink_feed, ink_feed, hink] at h
    exact h
  have hone : OneParagraph text ↔ ink others.flatten = 0 := by
    rw [hlines] at hsplit
    rw [← hink]
    exact oneParagraph_iff hfeeds hall hsplit
  have hhead : first = [] ∨ ∃ tail, first = '\n' :: tail := by
    cases first with
    | nil => exact Or.inl rfl
    | cons c tail =>
      rw [cons_append, cons.injEq] at hall
      exact Or.inr ⟨tail, by rw [hall.1]⟩
  have hcr : '\r' ∉ first := by
    intro hmem
    have hin : '\r' ∈ '\n' :: (text.unixLines ++ feeds) := by
      rw [hall]
      exact mem_append_left _ hmem
    rcases mem_append.mp (mem_of_ne_of_mem (by decide) hin) with hin | hin
    · exact notMem_unixLines text hin
    · exact hnoCr hin
  refine ⟨hextra, hhead, hcr, htotal, hone, fun h => ?_⟩
  have hwhite : ∀ c ∈ '\n' :: '\n' :: behind, c.isWhiteSpace = true := by
    rw [← ink_eq_zero, ink_feed, ink_feed, hink, hone.mp h]
  have hfeed : ∀ c ∈ ['\n'], c.isWhiteSpace = true := by decide
  have htrim : text.unixLines.trim = ('\n' :: text.unixLines ++ feeds).trim :=
    (trim_append hfeed (ink_eq_zero.mp hfeeds) _).symm
  rw [htrim, cons_append, hall]
  rcases hhead with rfl | ⟨tail, rfl⟩
  · rw [nil_append, trim_white hwhite]
    rfl
  · exact (trim_append hfeed hwhite tail).symm

end List

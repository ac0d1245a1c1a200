import StreamServer.Subtitles.Clock

/-!
# Cues of an SRT file

The reader cuts a file at its blank lines, two line feeds at a time, and expects the times on the second
line of a piece.  Where the number of blank lines in front of a block is not the one that comes out even,
a line feed is left over, the times stand on the third line, and the cue is lost.

## Main definitions

* `SrtBlock`, `SrtFile` — well-formed files, with blank lines in front and between the blocks.
* `KeepsCues` — there is one cue for each block.

## Main results

* `parseSrt_text` — what the reader makes of a file.
* `parseSrt_of_paired` — **where the blank lines come out even**, the cues are those of the blocks.
* `keepsCues_iff` — the cues are kept exactly if they do, and no text has white space at its ends.

## References

`enginefs/src/subtitles.rs`, `parse_srt`.
-/

namespace StreamServer.Subtitles

open Pattern

/-! ### Files -/

/-- A block: a counter, two times, and lines of text. -/
structure SrtBlock where
  counter : List Char
  startMs : ℕ
  endMs : ℕ
  lines : List (List Char)
  counter_ne : counter ≠ []
  counter_digits : ∀ c ∈ counter, c.isDigit = true
  startMs_lt : startMs < 360000000
  endMs_lt : endMs < 360000000
  lines_spec : ∀ line ∈ lines, line ≠ [] ∧ '\n' ∉ line ∧ '\r' ∉ line

namespace SrtBlock

variable (b : SrtBlock)

/-- The lines of the block. -/
def allLines : List (List Char) := b.counter :: timeLine ',' b.startMs b.endMs :: b.lines

/-- The lines of text with line feeds between them. -/
def text : List Char := List.unlines b.lines

/-- What a reader has to find: the times, and the text without its tags. -/
def expected : ℕ × ℕ × List Char := (b.startMs, b.endMs, removeAll tagPattern 0 b.text)

/-- The cue that is read from the block. -/
def cue : SubtitleCue :=
  let styled := parseSrtStyling b.text.trim
  ⟨b.startMs, b.endMs, styled.1, styled.2⟩

end SrtBlock

/-- Lines with line ends between them. -/
@[grind =] def joinLines (ending : List Char) : List (List Char) → List Char
  | [] => []
  | [line] => line
  | line :: rest => line ++ (ending ++ joinLines ending rest)

/-- So many line ends. -/
def lineEnds (ending : List Char) (n : ℕ) : List Char := (List.replicate n ending).flatten

/-- A well-formed file: blank lines, and blocks with the number of line ends behind each; between two
blocks there is a blank line at least. -/
structure SrtFile where
  crlf : Bool
  leading : ℕ
  blocks : List (SrtBlock × ℕ)
  separated : ∀ p ∈ blocks.dropLast, 2 ≤ p.2

namespace SrtFile

variable (file : SrtFile)

/-- How the lines of the file end. -/
def ending : List Char := if file.crlf then ['\r', '\n'] else ['\n']

/-- The file as it is written. -/
def text : List Char :=
  lineEnds file.ending file.leading ++
    file.blocks.flatMap fun p => joinLines file.ending p.1.allLines ++ lineEnds file.ending p.2

end SrtFile

/-- **There is one cue for each block**, in order, with its times and its text. -/
def KeepsCues (isNd : Char → Bool) (file : SrtFile) : Prop :=
  (parseSrt isNd file.text).map (fun cue => (cue.startMs, cue.endMs, cue.text)) =
    file.blocks.map fun p => p.1.expected

/-- The line ends in front of each block come in pairs. -/
@[grind =] def Paired : ℕ → List (SrtBlock × ℕ) → Prop
  | _, [] => True
  | front, p :: blocks => front % 2 = 0 ∧ Paired p.2 blocks

/-! ### Line ends -/

section LineEnds

variable {crlf : Bool} {ending : List Char}

theorem unixLines_ending (h : ending = if crlf then ['\r', '\n'] else ['\n']) (rest : List Char) :
    (ending ++ rest).unixLines = '\n' :: rest.unixLines := by
  cases crlf with
  | true =>
    rw [h]
    exact List.unixLines_crlf rest
  | false =>
    rw [h]
    exact List.unixLines_cons (by decide) rest

theorem unixLines_lineEnds (h : ending = if crlf then ['\r', '\n'] else ['\n']) (n : ℕ)
    (rest : List Char) :
    (lineEnds ending n ++ rest).unixLines = List.replicate n '\n' ++ rest.unixLines := by
  induction n with
  | zero => rfl
  | succ n ih =>
    have hsucc : lineEnds ending (n + 1) ++ rest = ending ++ (lineEnds ending n ++ rest) := by
      rw [lineEnds, List.replicate_succ, List.flatten_cons, List.append_assoc, lineEnds]
    rw [hsucc, unixLines_ending h, ih]
    rfl

theorem unixLines_joinLines (h : ending = if crlf then ['\r', '\n'] else ['\n'])
    {lines : List (List Char)} (hlines : ∀ line ∈ lines, '\r' ∉ line) (rest : List Char) :
    (joinLines ending lines ++ rest).unixLines = List.unlines lines ++ rest.unixLines := by
  induction lines with
  | nil => rfl
  | cons line lines ih =>
    have hline := hlines line List.mem_cons_self
    cases lines with
    | nil => exact List.unixLines_of_notMem hline rest
    | cons line' lines =>
      rw [joinLines, List.unlines_cons (List.cons_ne_nil _ _), List.append_assoc, List.append_assoc,
        List.unixLines_of_notMem hline, unixLines_ending h,
        ih fun line'' hmem => hlines line'' (List.mem_cons_of_mem line hmem), List.append_assoc]
      · rfl
      · simp

end LineEnds

/-! ### Tags -/

section Tags

variable {front text back : List Char}

theorem tagPattern_eq : tagPattern = lit '<' :: upTo '>' := rfl

/-- What has no `>` behind a text changes nothing in the tag it begins with. -/
theorem matchAt_tag_append (hback : '>' ∉ back) (c : Char) :
    matchAt tagPattern (c :: text ++ back) = matchAt tagPattern (c :: text) := by
  rw [tagPattern_eq, List.cons_append]
  by_cases hc : c = '<'
  · rw [hc, matchAt_lit, matchAt_lit]
    by_cases hmem : '>' ∈ text
    · obtain ⟨part, rest, rfl, hpart⟩ := List.eq_append_cons_of_mem hmem
      by_cases hne : part = []
      · rw [hne, List.nil_append, List.cons_append, matchAt_upTo_mark, matchAt_upTo_mark]
      · rw [List.append_assoc, List.cons_append, matchAt_upTo hne hpart, matchAt_upTo hne hpart]
    · rw [matchAt_upTo_none hmem, matchAt_upTo_none fun h => (List.mem_append.mp h).elim hmem hback]
  · have hhead : ∀ rest : List Char, (c :: rest).head? ≠ some '<' := by simpa using hc
    rw [matchAt_lit_none (hhead _), matchAt_lit_none (hhead _)]

/-- A text without `<` has no tags. -/
theorem removeAll_tag_of_notMem (h : '<' ∉ text) : removeAll tagPattern 0 text = text := by
  induction text with
  | nil => rfl
  | cons c rest ih =>
    rw [List.mem_cons, not_or] at h
    have hhead : (c :: rest).head? ≠ some '<' := by simpa using Ne.symm h.1
    rw [removeAll, tagPattern_eq, matchAt_lit_none hhead, ← tagPattern_eq, ih h.2]

theorem removeAll_tag_front (h : '<' ∉ front) (text : List Char) :
    removeAll tagPattern 0 (front ++ text) = front ++ removeAll tagPattern 0 text := by
  induction front with
  | nil => rfl
  | cons c front ih =>
    rw [List.mem_cons, not_or] at h
    have hhead : (c :: (front ++ text)).head? ≠ some '<' := by simpa using Ne.symm h.1
    rw [List.cons_append, removeAll, tagPattern_eq, matchAt_lit_none hhead, ← tagPattern_eq, ih h.2]
    rfl

theorem removeAll_tag_back (h : '<' ∉ back) (h' : '>' ∉ back) (text : List Char) {skip : ℕ}
    (hskip : skip ≤ text.length) :
    removeAll tagPattern skip (text ++ back) = removeAll tagPattern skip text ++ back := by
  induction text generalizing skip with
  | nil =>
    rw [List.length_nil, Nat.le_zero] at hskip
    rw [hskip, List.nil_append, removeAll_tag_of_notMem h, removeAll, List.nil_append]
  | cons c text ih =>
    rw [List.length_cons] at hskip
    cases skip with
    | succ skip => exact ih (Nat.le_of_succ_le_succ hskip)
    | zero =>
      have hsame := @matchAt_tag_append text back h' c
      rw [List.cons_append] at hsame ⊢
      rw [removeAll, removeAll, hsame]
      cases hmatch : matchAt tagPattern (c :: text) with
      | none => exact congrArg (c :: ·) (ih (Nat.zero_le _))
      | some parts =>
        have hlength := (flatten_prefix_of_matchAt hmatch).length_le
        rw [List.length_cons] at hlength
        exact ih (by omega)

theorem notMem_of_white {c : Char} (hc : c.isWhiteSpace = false)
    (h : ∀ d ∈ text, d.isWhiteSpace = true) : c ∉ text := by
  intro hmem
  rw [h c hmem] at hc
  cases hc

/-- **White space at the ends of a text** stays where it is when the tags are removed. -/
theorem removeAll_tag_trim (text : List Char) :
    removeAll tagPattern 0 text.trim = removeAll tagPattern 0 text ↔ text.trim = text := by
  constructor
  · intro h
    obtain ⟨front, back, hall, hfront, hback⟩ := List.trim_spec text
    have hclean : removeAll tagPattern 0 text =
        front ++ (removeAll tagPattern 0 text.trim ++ back) := by
      conv_lhs => rw [hall]
      rw [removeAll_tag_front (notMem_of_white (by decide) hfront),
        removeAll_tag_back (notMem_of_white (by decide) hback) (notMem_of_white (by decide) hback) _
          (Nat.zero_le _)]
    have hlength := congrArg List.length (h.trans hclean)
    rw [List.length_append, List.length_append] at hlength
    obtain rfl : front = [] := List.eq_nil_of_length_eq_zero (by omega)
    obtain rfl : back = [] := List.eq_nil_of_length_eq_zero (by omega)
    rwa [List.nil_append, List.append_nil, eq_comm] at hall
  · intro h
    rw [h]

end Tags

/-! ### Blocks -/

section Blocks

variable {isNd : Char → Bool}

/-- The cues that are read from a text with line feeds for line ends. -/
def cuesIn (isNd : Char → Bool) (text : List Char) : List SubtitleCue :=
  text.paragraphs.filterMap (parseSrtBlock isNd)

theorem cuesIn_blank (rest : List Char) : cuesIn isNd ('\n' :: '\n' :: rest) = cuesIn isNd rest := by
  rw [cuesIn, List.paragraphs_blank, List.filterMap_cons]
  rfl

/-- Line feeds in front of a text vanish in pairs. -/
theorem cuesIn_feeds (n : ℕ) (rest : List Char) : cuesIn isNd (List.replicate n '\n' ++ rest) =
    if n % 2 = 0 then cuesIn isNd rest else cuesIn isNd ('\n' :: rest) := by
  induction n using Nat.twoStepInduction with
  | zero => rfl
  | one => rfl
  | more n ih _ =>
    rw [Nat.add_mod_right, ← ih]
    exact cuesIn_blank _

/-- What stands behind a block: another line feed belongs to it, or none. -/
theorem paragraphs_behind {n : ℕ} {more : List Char} (h : 2 ≤ n ∨ more = []) :
    ∃ extra later, (List.replicate n '\n' ++ more).paragraphs = extra :: later ∧
      (extra = [] ∨ extra = ['\n']) ∧
      cuesIn isNd (List.replicate n '\n' ++ more) = later.filterMap (parseSrtBlock isNd) := by
  match n, h with
  | 0, h =>
    obtain rfl : more = [] := h.resolve_left (by omega)
    exact ⟨[], [], rfl, Or.inl rfl, rfl⟩
  | 1, h =>
    obtain rfl : more = [] := h.resolve_left (by omega)
    exact ⟨['\n'], [], by simp [List.paragraphs_cons, List.prependHead], Or.inr rfl, rfl⟩
  | n + 2, _ =>
    exact ⟨[], (List.replicate n '\n' ++ more).paragraphs, List.paragraphs_blank _, Or.inl rfl,
      cuesIn_blank _⟩

variable {b : SrtBlock} {extra : List Char}

theorem SrtBlock.allLines_spec {line : List Char} (h : line ∈ b.allLines) :
    line ≠ [] ∧ '\n' ∉ line ∧ '\r' ∉ line := by
  have hcounter : ∀ c : Char, c.isDigit = false → c ∉ b.counter := by
    intro c hc hmem
    rw [b.counter_digits c hmem] at hc
    cases hc
  simp only [SrtBlock.allLines, List.mem_cons] at h
  rcases h with rfl | rfl | h
  · exact ⟨b.counter_ne, hcounter _ (by decide), hcounter _ (by decide)⟩
  · exact ⟨timeLine_ne_nil, notMem_timeLine (by decide) (by decide),
      notMem_timeLine (by decide) (by decide)⟩
  · exact b.lines_spec line h

theorem textLines_block (hextra : extra = [] ∨ extra = ['\n']) :
    (List.unlines b.allLines ++ extra).textLines = b.allLines := by
  rcases hextra with rfl | rfl
  · rw [List.append_nil]
    exact List.textLines_unlines fun line hline => SrtBlock.allLines_spec hline
  · exact List.textLines_unlines_feed (List.cons_ne_nil _ _)
      fun line hline => (SrtBlock.allLines_spec hline).2

/-- **A block by itself** is read. -/
theorem parseSrtBlock_block (hdigits : TakesDigits isNd) (hextra : extra = [] ∨ extra = ['\n']) :
    parseSrtBlock isNd (List.unlines b.allLines ++ extra) = some b.cue := by
  rw [parseSrtBlock, textLines_block hextra, SrtBlock.allLines]
  simp only [timesOn_timeLine hdigits b.startMs_lt b.endMs_lt, Option.map_some]
  rfl

/-- **Behind a line feed** it is not: the counter is taken for the times. -/
theorem parseSrtBlock_feed (hextra : extra = [] ∨ extra = ['\n']) :
    parseSrtBlock isNd ('\n' :: (List.unlines b.allLines ++ extra)) = none := by
  have hlines := @List.textLines_cons [] (by simp) (by simp) (List.unlines b.allLines ++ extra)
  rw [List.nil_append, textLines_block hextra] at hlines
  have hcolon : ':' ∉ b.counter := by
    intro hmem
    exact absurd (b.counter_digits ':' hmem) (by decide)
  rw [parseSrtBlock, hlines, SrtBlock.allLines]
  simp only [timesOn_of_notMem hcolon, Option.map_none]

/-- The cues of the blocks that have an even number of line feeds in front of them. -/
@[grind =] def keptCues : ℕ → List (SrtBlock × ℕ) → List SubtitleCue
  | _, [] => []
  | front, p :: blocks =>
      if front % 2 = 0 then p.1.cue :: keptCues p.2 blocks else keptCues p.2 blocks

theorem cuesIn_block (hdigits : TakesDigits isNd) {n : ℕ} {more : List Char} (h : 2 ≤ n ∨ more = [])
    (front : ℕ) : cuesIn isNd (List.replicate front '\n' ++
        (List.unlines b.allLines ++ (List.replicate n '\n' ++ more))) =
      if front % 2 = 0 then b.cue :: cuesIn isNd (List.replicate n '\n' ++ more)
      else cuesIn isNd (List.replicate n '\n' ++ more) := by
  obtain ⟨extra, later, hsplit, hextra, hbehind⟩ := @paragraphs_behind isNd n more h
  have hspec : ∀ line ∈ b.allLines, line ≠ [] ∧ '\n' ∉ line :=
    fun line hline => ⟨(SrtBlock.allLines_spec hline).1, (SrtBlock.allLines_spec hline).2.1⟩
  have hbody := List.paragraphs_unlines hspec (List.replicate n '\n' ++ more)
  rw [hsplit, List.prependHead] at hbody
  have hhead : (List.unlines b.allLines ++ (List.replicate n '\n' ++ more)).head? ≠ some '\n' :=
    List.head?_unlines (hspec b.counter List.mem_cons_self) _ _
  rw [cuesIn_feeds]
  split
  · rw [cuesIn, hbody, List.filterMap_cons_some (parseSrtBlock_block hdigits hextra), hbehind]
  · have hfeed : ('\n' :: (List.unlines b.allLines ++ (List.replicate n '\n' ++ more))).paragraphs =
        ('\n' :: (List.unlines b.allLines ++ extra)) :: later := by
      rw [List.paragraphs_cons (Or.inr hhead), hbody]
      rfl
    rw [cuesIn, hfeed, List.filterMap_cons_none (parseSrtBlock_feed hextra), hbehind]

/-- **What the reader makes of blocks** with line feeds in front of them. -/
theorem cuesIn_blocks (hdigits : TakesDigits isNd) {blocks : List (SrtBlock × ℕ)}
    (hseparated : ∀ p ∈ blocks.dropLast, 2 ≤ p.2) (front : ℕ) :
    cuesIn isNd (List.replicate front '\n' ++
        blocks.flatMap fun p => List.unlines p.1.allLines ++ List.replicate p.2 '\n') =
      keptCues front blocks := by
  induction blocks generalizing front with
  | nil =>
    rw [List.flatMap_nil, cuesIn_feeds]
    split
    · rfl
    · rfl
  | cons p blocks ih =>
    have hbehind : 2 ≤ p.2 ∨ (blocks.flatMap fun p =>
        List.unlines p.1.allLines ++ List.replicate p.2 '\n') = [] := by
      cases blocks with
      | nil => exact Or.inr rfl
      | cons p' blocks => exact Or.inl (hseparated p List.mem_cons_self)
    have hrest : ∀ p' ∈ blocks.dropLast, 2 ≤ p'.2 := by
      intro p' hp'
      cases blocks with
      | nil => cases hp'
      | cons p'' blocks => exact hseparated p' (List.mem_cons_of_mem _ hp')
    rw [List.flatMap_cons, List.append_assoc, cuesIn_block hdigits hbehind front, ih hrest, keptCues]

end Blocks

/-! ### Files that keep their cues -/

section KeepsCues

variable {isNd : Char → Bool} {file : SrtFile}

theorem unixLines_blocks {ending : List Char} {crlf : Bool}
    (h : ending = if crlf then ['\r', '\n'] else ['\n']) (blocks : List (SrtBlock × ℕ)) :
    (blocks.flatMap fun p => joinLines ending p.1.allLines ++ lineEnds ending p.2).unixLines =
      blocks.flatMap fun p => List.unlines p.1.allLines ++ List.replicate p.2 '\n' := by
  induction blocks with
  | nil => rfl
  | cons p blocks ih =>
    rw [List.flatMap_cons, List.append_assoc,
      unixLines_joinLines h fun line hline => (SrtBlock.allLines_spec hline).2.2,
      unixLines_lineEnds h, ih, List.flatMap_cons, List.append_assoc]

/-- **What the reader makes of a file.** -/
theorem parseSrt_text (hdigits : TakesDigits isNd) (file : SrtFile) :
    parseSrt isNd file.text = keptCues file.leading file.blocks := by
  have hending : file.ending = if file.crlf then ['\r', '\n'] else ['\n'] := rfl
  rw [parseSrt, SrtFile.text, unixLines_lineEnds hending, unixLines_blocks hending]
  exact cuesIn_blocks hdigits file.separated file.leading

theorem length_keptCues_le (front : ℕ) (blocks : List (SrtBlock × ℕ)) :
    (keptCues front blocks).length ≤ blocks.length := by
  induction blocks generalizing front with
  | nil => exact Nat.le_refl 0
  | cons p blocks ih =>
    have hrest := ih p.2
    rw [keptCues, List.length_cons]
    split
    · exact Nat.succ_le_succ hrest
    · omega

theorem paired_iff (front : ℕ) (blocks : List (SrtBlock × ℕ)) :
    Paired front blocks ↔ (keptCues front blocks).length = blocks.length := by
  induction blocks generalizing front with
  | nil => simp [Paired, keptCues]
  | cons p blocks ih =>
    have hrest := length_keptCues_le p.2 blocks
    rw [Paired, keptCues, ih p.2]
    split
    · simp_all
    · next hodd =>
      rw [List.length_cons]
      constructor
      · intro h
        exact absurd h.1 hodd
      · intro h
        omega

theorem keptCues_of_paired {front : ℕ} {blocks : List (SrtBlock × ℕ)} (h : Paired front blocks) :
    keptCues front blocks = blocks.map fun p => p.1.cue := by
  induction blocks generalizing front with
  | nil => rfl
  | cons p blocks ih => rw [keptCues, if_pos h.1, ih h.2, List.map_cons]

/-- **The cues of a file are kept exactly if** the line ends in front of each block come in pairs and no
text has white space at its ends. -/
theorem keepsCues_iff (hdigits : TakesDigits isNd) :
    KeepsCues isNd file ↔
      Paired file.leading file.blocks ∧ ∀ p ∈ file.blocks, p.1.text.trim = p.1.text := by
  have htext : ∀ b : SrtBlock,
      (b.cue.startMs, b.cue.endMs, b.cue.text) = b.expected ↔ b.text.trim = b.text := by
    intro b
    rw [← removeAll_tag_trim]
    simp [SrtBlock.cue, SrtBlock.expected, parseSrtStyling]
  rw [KeepsCues, parseSrt_text hdigits]
  constructor
  · intro h
    have hlength := congrArg List.length h
    rw [List.length_map, List.length_map] at hlength
    have hpaired := (paired_iff file.leading file.blocks).mpr hlength
    rw [keptCues_of_paired hpaired, List.map_map, List.map_inj_left] at h
    exact ⟨hpaired, fun p hp => (htext p.1).mp (h p hp)⟩
  · intro h
    rw [keptCues_of_paired h.1, List.map_map, List.map_inj_left]
    exact fun p hp => (htext p.1).mpr (h.2 p hp)

/-- **Blocks with line ends in pairs in front of them** are all read, in order, with what is left of their
text without the white space at its ends and the tags. -/
theorem parseSrt_of_paired (hdigits : TakesDigits isNd) (h : Paired file.leading file.blocks) :
    (parseSrt isNd file.text).map (fun cue => (cue.startMs, cue.endMs, cue.text)) =
      file.blocks.map fun p => (p.1.startMs, p.1.endMs, removeAll tagPattern 0 p.1.text.trim) := by
  rw [parseSrt_text hdigits, keptCues_of_paired h, List.map_map]
  rfl

/-- A block of one line. -/
def oneLine (line : List Char) (h : line ≠ [] ∧ '\n' ∉ line ∧ '\r' ∉ line) : SrtBlock :=
  { counter := ['1']
    startMs := 1000
    endMs := 2500
    lines := [line]
    counter_ne := by decide
    counter_digits := by decide
    startMs_lt := by decide
    endMs_lt := by decide
    lines_spec := fun _ hline => List.mem_singleton.mp hline ▸ h }

/-- A block of one line. -/
def plainLine : SrtBlock := oneLine ['H', 'i'] (by decide)

/-- A block of one line, with a blank in front. -/
def indentedLine : SrtBlock := oneLine [' ', 'H', 'i'] (by decide)

/-- Two blocks with a blank line between them, and one in front. -/
def twoBlocks : SrtFile := ⟨true, 2, [(plainLine, 2), (indentedLine, 1)], by decide⟩

theorem twoBlocks_read : (parseSrt Char.isDigit twoBlocks.text).map
      (fun cue => (cue.startMs, cue.endMs, cue.text)) =
    [(1000, 2500, ['H', 'i']), (1000, 2500, ['H', 'i'])] := by
  have hpaired : Paired twoBlocks.leading twoBlocks.blocks := ⟨rfl, rfl, trivial⟩
  rw [parseSrt_of_paired (fun _ hc => hc) hpaired]
  decide

/-- The text of the second block is trimmed. -/
theorem twoBlocks_not_keepsCues : ¬ KeepsCues Char.isDigit twoBlocks := by
  intro h
  have hpaired : Paired twoBlocks.leading twoBlocks.blocks := ⟨rfl, rfl, trivial⟩
  rw [KeepsCues, parseSrt_text fun _ hc => hc, keptCues_of_paired hpaired] at h
  exact absurd h (by decide)

/-- Two blocks with so many line ends between them. -/
def spacedBlocks (between : ℕ) (h : 2 ≤ between) : SrtFile :=
  ⟨false, 0, [(plainLine, between), (plainLine, 1)], by simpa using h⟩

/-- One blank line between the blocks does no harm, and two of them do. -/
theorem spacedBlocks_keepsCues : KeepsCues Char.isDigit (spacedBlocks 2 (by decide)) ∧
    ¬ KeepsCues Char.isDigit (spacedBlocks 3 (by decide)) := by
  constructor
  · refine (keepsCues_iff fun _ hc => hc).mpr ⟨⟨rfl, rfl, trivial⟩, ?_⟩
    decide
  · intro h
    obtain ⟨⟨-, hodd, -⟩, -⟩ := (keepsCues_iff fun _ hc => hc).mp h
    exact absurd hodd (by decide)

end KeepsCues

end StreamServer.Subtitles

import StreamServer.Lib.LineEnds
import StreamServer.Subtitles.Stamp
import StreamServer.Subtitles.Vtt

/-!
# Cues of a WebVTT file

The reader takes a block with an arrow for a cue, wherever in it the arrow stands, so identifiers, notes and blank
lines do no harm.  It reads times with two digits for the hours only, and it trims the text.

## Main definitions

* `VttCue`, `VttNote`, `VttFile` — well-formed files.
* `ReadsCues` — there is one cue for each cue block.

## Main results

* `parseVtt_text` — what the reader makes of a file.
* `parseVtt_of_twoDigits` — **where all hours have two digits**, the cues are those of the blocks.
* `readsCues_iff` — the cues are read exactly if they have, and no text has white space at its ends.

## References

`enginefs/src/subtitles.rs`, `parse_vtt`.
-/

namespace StreamServer.Subtitles

open Pattern

/-! ### Files -/

/-- A line of text. -/
def TextLine (line : List Char) : Prop :=
  line ≠ [] ∧ '\n' ∉ line ∧ '\r' ∉ line ∧ containsText line "-->" = false

/-- Spaces and tabs. -/
def Blanks (text : List Char) : Prop := ∀ c ∈ text, c = ' ' ∨ c = '\t'

/-- Nothing, or something behind a space or a tab. -/
def Apart (text : List Char) : Prop :=
  (∀ c, text.head? = some c → c = ' ' ∨ c = '\t') ∧ '\n' ∉ text ∧ '\r' ∉ text

/-- A cue block: two times, maybe with an identifier in front and settings behind, and lines of text. -/
structure VttCue where
  identifier : Option (List Char)
  start : Stamp
  finish : Stamp
  before : List Char
  after : List Char
  settings : List Char
  payload : List (List Char)
  identifier_spec : ∀ line ∈ identifier, TextLine line
  before_spec : before ≠ [] ∧ Blanks before
  after_spec : after ≠ [] ∧ Blanks after
  settings_spec : Apart settings
  payload_spec : ∀ line ∈ payload, TextLine line

namespace VttCue

variable (cue : VttCue)

/-- The line with the times. -/
def timings : List Char :=
  cue.start.text '.' ++ (cue.before ++ '-' :: '-' :: '>' :: (cue.after ++ (cue.finish.text '.' ++ cue.settings)))

/-- The lines of the cue. -/
def lines : List (List Char) := cue.identifier.toList ++ cue.timings :: cue.payload

/-- The lines of text with line feeds between them. -/
def text : List Char := List.unlines cue.payload

/-- What a reader has to find. -/
def expected : ℕ × ℕ × List Char := (cue.start.ms, cue.finish.ms, cue.text)

end VttCue

/-- A note, a style sheet or a region. -/
structure VttNote where
  name : List Char
  rest : List Char
  more : List (List Char)
  name_spec : name ∈ ["NOTE".toList, "STYLE".toList, "REGION".toList]
  rest_spec : Apart rest
  first_spec : TextLine (name ++ rest)
  more_spec : ∀ line ∈ more, TextLine line

/-- The lines of the note. -/
def VttNote.lines (note : VttNote) : List (List Char) := (note.name ++ note.rest) :: note.more

/-- A block of the file. -/
inductive VttBlock
  | cue (cue : VttCue)
  | note (note : VttNote)

namespace VttBlock

/-- The lines of the block. -/
def lines : VttBlock → List (List Char)
  | cue c => c.lines
  | note n => n.lines

/-- The cue, if the block is one. -/
def asCue : VttBlock → Option VttCue
  | cue c => some c
  | note _ => none

end VttBlock

/-- The lines of a file: a title, blocks with the number of blank lines in front of each, and blank lines. -/
def vttLines (bom : Bool) (title : List Char) (blocks : List (ℕ × VttBlock)) (trailing : ℕ) : List (List Char) :=
  ((if bom then ['\uFEFF'] else []) ++ ("WEBVTT".toList ++ title)) ::
    (blocks.flatMap (fun p => List.replicate p.1 [] ++ p.2.lines) ++ List.replicate trailing [])

/-- A well-formed file; there is a blank line in front of each block at least. -/
structure VttFile where
  bom : Bool
  title : List Char
  blocks : List (ℕ × VttBlock)
  trailing : ℕ
  ends : ℕ → LineEnd
  /-- Whether the last line has an end. -/
  closed : Bool
  title_spec : Apart title
  separated : ∀ p ∈ blocks, 1 ≤ p.1
  apart : List.EndsApart ends (vttLines bom title blocks trailing)

namespace VttFile

variable (file : VttFile)

/-- The file as it is written. -/
def text : List Char :=
  List.writeLines file.closed file.ends (vttLines file.bom file.title file.blocks file.trailing)

/-- The cues of the file. -/
def cues : List VttCue := file.blocks.filterMap fun p => p.2.asCue

end VttFile

/-- **There is one cue for each cue block**, in order, with its times and its text. -/
def ReadsCues (isNd : Char → Bool) (file : VttFile) : Prop :=
  (parseVtt isNd file.text).map (fun cue => (cue.startMs, cue.endMs, cue.text)) = file.cues.map VttCue.expected

/-- The hours have two digits. -/
def Stamp.TwoDigits (stamp : Stamp) : Prop := ∃ digits, stamp.hours = some digits ∧ digits.length = 2

/-! ### Times -/

section Times

variable {isNd : Char → Bool} {mark : Char} {stamp : Stamp}

theorem exists_digitChar {c : Char} (h : c.isDigit = true) : ∃ n, n < 10 ∧ n.digitChar = c := by
  rw [Char.isDigit, Bool.and_eq_true, decide_eq_true_eq, decide_eq_true_eq] at h
  have hlow : 48 ≤ c.toNat := h.1
  have hhigh : c.toNat ≤ 57 := h.2
  refine ⟨c.toNat - 48, by omega, ?_⟩
  rw [← Char.toNat_inj, Nat.toNat_digitChar_of_lt_ten (by omega)]
  omega

/-- **A time with two digits for the hours** is written as the writer does. -/
theorem text_of_twoDigits (h : stamp.TwoDigits) (mark : Char) :
    stamp.text mark = formatTime mark stamp.ms ∧ stamp.ms < 360000000 := by
  obtain ⟨digits, hhours, hlength⟩ := h
  obtain ⟨a, b, rfl⟩ := List.length_eq_two.mp hlength
  have hdigits := (stamp.hours_spec _ hhours).2
  obtain ⟨x, hx, rfl⟩ := exists_digitChar (hdigits a List.mem_cons_self)
  obtain ⟨y, hy, rfl⟩ := exists_digitChar (hdigits b (List.mem_cons_of_mem _ List.mem_cons_self))
  have hmins := stamp.minutes_lt
  have hsecs := stamp.seconds_lt
  have hmillis := stamp.millis_lt
  have hms : stamp.ms = (10 * x + y) * 3600000 + stamp.minutes * 60000 + stamp.seconds * 1000 + stamp.millis := by
    rw [Stamp.ms, hhours, Option.map_some, Option.getD_some, Nat.ofDigitChars_cons_digitChar_of_lt_ten hx,
      Nat.ofDigitChars_cons_digitChar_of_lt_ten hy, Nat.ofDigitChars_nil]
    simp
  have hhours' : stamp.ms / 3600000 = 10 * x + y := by omega
  have hmins' : stamp.ms % 3600000 / 60000 = stamp.minutes := by omega
  have hsecs' : stamp.ms % 60000 / 1000 = stamp.seconds := by omega
  have hmillis' : stamp.ms % 1000 = stamp.millis := by omega
  have hx' : (10 * x + y) / 10 = x := by omega
  have hy' : (10 * x + y) % 10 = y := by omega
  refine ⟨?_, by omega⟩
  rw [formatTime, hhours', hmins', hsecs', hmillis', padded_of_lt_hundred (by omega), hx', hy', Stamp.text, hhours]
  rfl

/-- Other times do not match. -/
theorem matchAt_stamp_none (hdigits : TakesDigits isNd) (h : ¬ stamp.TwoDigits) (pieces : List Piece)
    (rest : List Char) : matchAt (clockPattern isNd '.' ++ pieces) (stamp.text '.' ++ rest) = none := by
  have hmins : (Decimal.padded 2 stamp.minutes).length = 2 :=
    length_padded_of_lt (by decide) (Nat.lt_trans stamp.minutes_lt (by decide))
  have hsecs : (Decimal.padded 2 stamp.seconds).length = 2 :=
    length_padded_of_lt (by decide) (Nat.lt_trans stamp.seconds_lt (by decide))
  cases hhours : stamp.hours with
  | none =>
    -- Where the second colon has to be there is the point.
    have hpoint : ((Decimal.padded 2 stamp.seconds ++ '.' :: (Decimal.padded 3 stamp.millis ++ rest)).drop 2).head? ≠
        some ':' := by
      rw [List.drop_append_of_le_length hsecs.ge, List.drop_of_length_le hsecs.le]
      simp
    rw [Stamp.text, hhours]
    simp only [Stamp.clock, clockPattern, List.append_assoc, List.cons_append]
    rw [matchAt_exactly hmins (takes_padded hdigits _ _), matchAt_lit, matchAt_exactly_lit_none hpoint]
    rfl
  | some digits =>
    obtain ⟨htwo, hall⟩ := stamp.hours_spec digits hhours
    have hlong : 2 < digits.length := by
      refine Nat.lt_of_le_of_ne htwo fun hlength => h ⟨digits, hhours, hlength.symm⟩
    refine matchAt_exactly_lit_none ?_
    rw [Stamp.text, hhours]
    simp only [List.append_assoc]
    rw [List.drop_append_of_le_length hlong.le, List.drop_eq_getElem_cons hlong, List.cons_append, List.head?_cons]
    intro hcolon
    have hdigit := hall _ (List.getElem_mem hlong)
    rw [Option.some.inj hcolon] at hdigit
    exact absurd hdigit (by decide)

/-- A time begins with a digit. -/
theorem head?_stamp {c : Char} {rest : List Char} (h : (stamp.text mark ++ rest).head? = some c) :
    c.isDigit = true := by
  have hclock : ∀ tail : List Char, (Decimal.padded 2 stamp.minutes ++ tail).head? = some c → c.isDigit = true := by
    intro tail hhead
    have hlong := two_le_length_padded stamp.minutes
    rw [List.head?_append_of_ne_nil _ (List.ne_nil_of_length_pos (by omega))] at hhead
    exact Decimal.isDigit_of_mem_padded (List.mem_of_head? hhead)
  cases hhours : stamp.hours with
  | none =>
    rw [Stamp.text, hhours] at h
    simp only [Stamp.clock, List.append_assoc] at h
    exact hclock _ h
  | some digits =>
    obtain ⟨htwo, hall⟩ := stamp.hours_spec digits hhours
    rw [Stamp.text, hhours] at h
    simp only [List.append_assoc] at h
    rw [List.head?_append_of_ne_nil _ (List.ne_nil_of_length_pos (by omega))] at h
    exact hall c (List.mem_of_head? h)

theorem mem_stamp {c : Char} (h : c ∈ stamp.text mark) : c.isDigit = true ∨ c = ':' ∨ c = mark := by
  have hclock : c ∈ stamp.clock mark → c.isDigit = true ∨ c = ':' ∨ c = mark := by
    intro hmem
    simp only [Stamp.clock, List.mem_append, List.mem_cons] at hmem
    rcases hmem with hmem | hmem | hmem | hmem | hmem
    · exact .inl (Decimal.isDigit_of_mem_padded hmem)
    · exact .inr (.inl hmem)
    · exact .inl (Decimal.isDigit_of_mem_padded hmem)
    · exact .inr (.inr hmem)
    · exact .inl (Decimal.isDigit_of_mem_padded hmem)
  cases hhours : stamp.hours with
  | none =>
    rw [Stamp.text, hhours] at h
    exact hclock h
  | some digits =>
    rw [Stamp.text, hhours] at h
    simp only [List.mem_append, List.mem_cons] at h
    rcases h with h | h | h
    · exact .inl ((stamp.hours_spec digits hhours).2 c h)
    · exact .inr (.inl h)
    · exact hclock h

theorem white_of_blanks {text : List Char} (h : Blanks text) : ∀ c ∈ text, c.isWhiteSpace = true := by
  intro c hc
  cases h c hc with
  | inl h => rw [h]; decide
  | inr h => rw [h]; decide

/-- **Times with two digits for the hours** are read. -/
theorem timesOn_timings (hdigits : TakesDigits isNd) {cue : VttCue} (hstart : cue.start.TwoDigits)
    (hfinish : cue.finish.TwoDigits) : timesOn isNd '.' cue.timings = some (cue.start.ms, cue.finish.ms) := by
  obtain ⟨hstartText, hstartMs⟩ := text_of_twoDigits hstart '.'
  obtain ⟨hfinishText, hfinishMs⟩ := text_of_twoDigits hfinish '.'
  rw [VttCue.timings, hstartText, hfinishText]
  exact timesOn_between hdigits hstartMs hfinishMs (white_of_blanks cue.before_spec.2)
    (white_of_blanks cue.after_spec.2) cue.settings

/-- White space in front of a time that does not match does not help. -/
theorem matchAt_blanks_stamp_none (hdigits : TakesDigits isNd)
    (hspace : ∀ c : Char, c.isWhiteSpace = true → isNd c = false) (h : ¬ stamp.TwoDigits) {blanks : List Char}
    (hblanks : Blanks blanks) (rest : List Char) :
    matchAt (many Char.isWhiteSpace :: clockPattern isNd '.') (blanks ++ (stamp.text '.' ++ rest)) = none := by
  have hhead : ∀ c, (stamp.text '.' ++ rest).head? = some c → c.isWhiteSpace = false :=
    fun c hc => not_space_of_isDigit (head?_stamp hc)
  refine matchAt_many_none fun k hk => ?_
  rw [takeWhile_append_stop (white_of_blanks hblanks) hhead] at hk
  rw [List.drop_append_of_le_length hk]
  cases hdrop : blanks.drop k with
  | nil =>
    have hnone := @matchAt_stamp_none isNd stamp hdigits h [] rest
    rwa [List.append_nil] at hnone
  | cons c tail =>
    -- The hours do not begin with a blank.
    have hc : c ∈ blanks := List.mem_of_mem_drop (by rw [hdrop]; exact List.mem_cons_self)
    rw [clockPattern, ← Option.not_isSome_iff_eq_none, Option.isSome_iff_exists]
    intro hsome
    obtain ⟨parts, hparts⟩ := hsome
    obtain ⟨part, rest', -, hall, hlength, hpart, -⟩ := matchAt_exactly_iff.mp hparts
    obtain ⟨d, e, rfl⟩ := List.length_eq_two.mp hlength
    have hd := hpart d List.mem_cons_self
    rw [← (List.cons.inj hall).1, hspace c (white_of_blanks hblanks c hc)] at hd
    cases hd

/-- Other times are not. -/
theorem timesOn_timings_none (hdigits : TakesDigits isNd)
    (hspace : ∀ c : Char, c.isWhiteSpace = true → isNd c = false) {cue : VttCue}
    (h : ¬ (cue.start.TwoDigits ∧ cue.finish.TwoDigits)) : timesOn isNd '.' cue.timings = none := by
  rw [timesOn, Option.map_eq_none_iff, timestampPattern]
  refine matchAt_many_none fun k hk => ?_
  have hnil := @takeWhile_append_stop Char.isWhiteSpace [] (by simp) cue.timings
    fun c hc => not_space_of_isDigit (head?_stamp hc)
  rw [List.nil_append] at hnil
  rw [hnil, List.length_nil, Nat.le_zero] at hk
  rw [hk, List.drop_zero, VttCue.timings]
  by_cases hstart : cue.start.TwoDigits
  · -- The first time is read, and the second one is not.
    have hfinish : ¬ cue.finish.TwoDigits := fun hfinish => h ⟨hstart, hfinish⟩
    obtain ⟨hstartText, hstartMs⟩ := text_of_twoDigits hstart '.'
    rw [hstartText, matchAt_clock hdigits hstartMs, Option.map_eq_none_iff]
    refine matchAt_many_none fun k hk => ?_
    rw [takeWhile_append_stop (white_of_blanks cue.before_spec.2)
      (fun c hc => by rw [List.head?_cons, Option.some.injEq] at hc; rw [← hc]; decide)] at hk
    rw [List.drop_append_of_le_length hk, arrow_eq]
    cases hdrop : cue.before.drop k with
    | nil =>
      simp only [List.nil_append, List.cons_append]
      rw [matchAt_lit, matchAt_lit, matchAt_lit,
        matchAt_blanks_stamp_none hdigits hspace hfinish cue.after_spec.2]
      rfl
    | cons c tail =>
      have hc : c ∈ cue.before := List.mem_of_mem_drop (by rw [hdrop]; exact List.mem_cons_self)
      refine matchAt_lit_none fun hdash => ?_
      rw [List.cons_append, List.head?_cons, Option.some.injEq] at hdash
      have hwhite := white_of_blanks cue.before_spec.2 c hc
      rw [hdash] at hwhite
      exact absurd hwhite (by decide)
  · exact matchAt_stamp_none hdigits hstart _ _

end Times

/-! ### Blocks -/

section Blocks

variable {isNd : Char → Bool}

/-- The cue that is read from a cue block. -/
def VttCue.read (isNd : Char → Bool) (cue : VttCue) : Option SubtitleCue :=
  (timesOn isNd '.' cue.timings).map fun times => ⟨times.1, times.2, cue.text.trim, none⟩

/-- What is read from lines with a blank line in front of them, or none, comes to this. -/
structure ReadsTo (isNd : Char → Bool) (lines : List (List Char)) (result : Option SubtitleCue) : Prop where
  ne_nil : lines ≠ []
  line_spec : ∀ line ∈ lines, line ≠ [] ∧ '\n' ∉ line ∧ '\r' ∉ line
  reads : ∀ block blank, (blank = [] ∨ blank = [[]]) → block.textLines = blank ++ lines →
    parseVttBlock isNd block = result

theorem notMem_timings {cue : VttCue} {c : Char} (h : c = '\n' ∨ c = '\r') : c ∉ cue.timings := by
  have hstamp : ∀ stamp : Stamp, c ∉ stamp.text '.' := by
    intro stamp hmem
    have hmem' := mem_stamp hmem
    rcases h with rfl | rfl
    · exact absurd hmem' (by decide)
    · exact absurd hmem' (by decide)
  have hblanks : ∀ {text : List Char}, Blanks text → c ∉ text := by
    intro text htext hmem
    have hmem' := htext c hmem
    rcases h with rfl | rfl
    · exact absurd hmem' (by decide)
    · exact absurd hmem' (by decide)
  have hsettings : c ∉ cue.settings := by
    rcases h with rfl | rfl
    · exact cue.settings_spec.2.1
    · exact cue.settings_spec.2.2
  have harrow : c ≠ '-' ∧ c ≠ '>' := by
    rcases h with rfl | rfl
    · decide
    · decide
  simp only [VttCue.timings, List.mem_append, List.mem_cons, not_or]
  exact ⟨hstamp cue.start, hblanks cue.before_spec.2, harrow.1, harrow.1, harrow.2, hblanks cue.after_spec.2,
    hstamp cue.finish, hsettings⟩

theorem containsText_timings (cue : VttCue) : containsText cue.timings "-->" = true := by
  rw [containsText_iff]
  exact ⟨cue.start.text '.' ++ cue.before, cue.after ++ (cue.finish.text '.' ++ cue.settings), by
    simp [VttCue.timings]⟩

theorem timings_ne_nil (cue : VttCue) : cue.timings ≠ [] := by
  intro h
  have harrow := containsText_timings cue
  rw [h] at harrow
  exact absurd harrow (by decide)

/-- There is no arrow in a blank line. -/
theorem not_containsText_blank {blank : List (List Char)} (h : blank = [] ∨ blank = [[]]) :
    ∀ line ∈ blank, containsText line "-->" = false := by
  intro line hline
  rcases h with rfl | rfl
  · cases hline
  · rw [List.mem_singleton.mp hline]
    exact not_containsText_arrow List.not_mem_nil

/-- **A cue block.** -/
theorem readsTo_cue (cue : VttCue) : ReadsTo isNd cue.lines (cue.read isNd) where
  ne_nil := List.append_ne_nil_of_right_ne_nil _ (List.cons_ne_nil _ _)
  line_spec line hline := by
    rw [VttCue.lines, List.mem_append, List.mem_cons, Option.mem_toList] at hline
    rcases hline with hline | rfl | hline
    · obtain ⟨hne, hfeed, hreturn, -⟩ := cue.identifier_spec line hline
      exact ⟨hne, hfeed, hreturn⟩
    · exact ⟨timings_ne_nil cue, notMem_timings (.inl rfl), notMem_timings (.inr rfl)⟩
    · obtain ⟨hne, hfeed, hreturn, -⟩ := cue.payload_spec line hline
      exact ⟨hne, hfeed, hreturn⟩
  reads block blank hblank hlines := by
    rw [VttCue.lines, ← List.append_assoc] at hlines
    refine parseVttBlock_of_lines hlines (fun line hline => ?_) (containsText_timings cue)
    rw [List.mem_append, Option.mem_toList] at hline
    cases hline with
    | inl hline => exact not_containsText_blank hblank line hline
    | inr hline => exact (cue.identifier_spec line hline).2.2.2

/-- Lines without an arrow are no cue. -/
theorem readsTo_none {lines : List (List Char)} (hne : lines ≠ []) (hlines : ∀ line ∈ lines, TextLine line) :
    ReadsTo isNd lines none where
  ne_nil := hne
  line_spec line hline := ⟨(hlines line hline).1, (hlines line hline).2.1, (hlines line hline).2.2.1⟩
  reads block blank hblank hall := by
    refine parseVttBlock_none fun line hline => ?_
    rw [hall, List.mem_append] at hline
    cases hline with
    | inl hline => exact not_containsText_blank hblank line hline
    | inr hline => exact (hlines line hline).2.2.2

/-- **A note** is no cue. -/
theorem readsTo_note (note : VttNote) : ReadsTo isNd note.lines none := by
  refine readsTo_none (List.cons_ne_nil _ _) fun line hline => ?_
  cases List.mem_cons.mp hline with
  | inl h => exact h ▸ note.first_spec
  | inr h => exact note.more_spec line h

theorem readsTo_block (block : VttBlock) : ReadsTo isNd block.lines (block.asCue.bind (VttCue.read isNd)) := by
  cases block with
  | cue c => exact readsTo_cue c
  | note n => exact readsTo_note n

/-- There may be an arrow behind the title, but no time in front of it. -/
theorem readsTo_title (bom : Bool) {title : List Char} (htitle : Apart title) :
    ReadsTo isNd [(if bom then ['\uFEFF'] else []) ++ ("WEBVTT".toList ++ title)] none where
  ne_nil := List.cons_ne_nil _ _
  line_spec line hline := by
    rw [List.mem_singleton.mp hline]
    have hfront : ∀ c : Char, c = '\n' ∨ c = '\r' → c ∉ (if bom then ['\uFEFF'] else []) ++ "WEBVTT".toList := by
      intro c hc
      cases bom with
      | false => rcases hc with rfl | rfl <;> decide
      | true => rcases hc with rfl | rfl <;> decide
    rw [← List.append_assoc]
    refine ⟨?_, ?_, ?_⟩
    · simp
    · rw [List.mem_append, not_or]
      exact ⟨hfront _ (.inl rfl), htitle.2.1⟩
    · rw [List.mem_append, not_or]
      exact ⟨hfront _ (.inr rfl), htitle.2.2⟩
  reads block blank hblank hall := by
    have hnone : timesOn isNd '.' ((if bom then ['\uFEFF'] else []) ++ ("WEBVTT".toList ++ title)) = none := by
      rw [timesOn, Option.map_eq_none_iff, timestampPattern]
      refine matchAt_many_none fun k hk => ?_
      cases bom with
      | false =>
        have hnil : ("WEBVTT".toList ++ title).takeWhile Char.isWhiteSpace = [] := rfl
        rw [if_neg (by decide), List.nil_append, hnil, List.length_nil, Nat.le_zero] at hk
        rw [hk]
        exact matchAt_exactly_lit_none (by simp)
      | true =>
        have hnil : ('\uFEFF' :: ("WEBVTT".toList ++ title)).takeWhile Char.isWhiteSpace = [] := rfl
        rw [if_pos rfl, List.singleton_append, hnil, List.length_nil, Nat.le_zero] at hk
        rw [hk]
        exact matchAt_exactly_lit_none (by simp)
    cases harrow : containsText ((if bom then ['\uFEFF'] else []) ++ ("WEBVTT".toList ++ title)) "-->" with
    | true =>
      rw [parseVttBlock_of_lines hall (not_containsText_blank hblank) harrow, hnone]
      rfl
    | false =>
      refine parseVttBlock_none fun line hline => ?_
      rw [hall, List.mem_append, List.mem_singleton] at hline
      cases hline with
      | inl hline => exact not_containsText_blank hblank line hline
      | inr hline => exact hline ▸ harrow

end Blocks

/-! ### The file -/

section File

variable {isNd : Char → Bool} {lines : List (List Char)} {result : Option SubtitleCue}

/-- The lines of a block, with a line feed in front of them or behind them. -/
theorem ReadsTo.parseVttBlock_eq (h : ReadsTo isNd lines result) {extra tail : List Char}
    (hextra : extra = [] ∨ extra = ['\n']) (htail : tail = [] ∨ tail = ['\n']) :
    parseVttBlock isNd (extra ++ (List.unlines lines ++ tail)) = result := by
  have hlines : (List.unlines lines ++ tail).textLines = lines := by
    rcases htail with rfl | rfl
    · rw [List.append_nil]
      exact List.textLines_unlines h.line_spec
    · exact List.textLines_unlines_feed h.ne_nil fun line hline => (h.line_spec line hline).2
  rcases hextra with rfl | rfl
  · exact h.reads _ [] (.inl rfl) hlines
  · have hblank := @List.textLines_cons [] (by simp) (by simp) (List.unlines lines ++ tail)
    rw [hlines] at hblank
    exact h.reads _ [[]] (.inr rfl) hblank

/-- The lines of a block are the beginning of a paragraph. -/
theorem ReadsTo.paragraphs_eq (h : ReadsTo isNd lines result) {extra rest tail : List Char}
    {later : List (List Char)} (hextra : extra = [] ∨ extra = ['\n']) (hrest : rest.paragraphs = tail :: later) :
    (extra ++ (List.unlines lines ++ rest)).paragraphs = (extra ++ (List.unlines lines ++ tail)) :: later := by
  obtain ⟨first, others, rfl⟩ := List.exists_cons_of_ne_nil h.ne_nil
  have hspec : ∀ line ∈ first :: others, line ≠ [] ∧ '\n' ∉ line :=
    fun line hline => ⟨(h.line_spec line hline).1, (h.line_spec line hline).2.1⟩
  have hbody := List.paragraphs_unlines hspec rest
  rw [hrest, List.prependHead] at hbody
  rcases hextra with rfl | rfl
  · exact hbody
  · have hhead := List.head?_unlines (hspec first List.mem_cons_self) others rest
    rw [List.singleton_append, List.paragraphs_cons (.inr hhead), hbody]
    rfl

theorem feeds_mod (n : ℕ) : List.replicate (n % 2) '\n' = [] ∨ List.replicate (n % 2) '\n' = ['\n'] := by
  rcases Nat.mod_two_eq_zero_or_one n with h | h
  · exact .inl (by rw [h]; rfl)
  · exact .inr (by rw [h]; rfl)

/-- Line feeds in front of a text vanish in pairs. -/
theorem vttCuesIn_feeds (n : ℕ) (rest : List Char) : vttCuesIn isNd (List.replicate n '\n' ++ rest) =
    vttCuesIn isNd (List.replicate (n % 2) '\n' ++ rest) := by
  have hblank : (List.replicate (n / 2) ([] : List Char)).filterMap (parseVttBlock isNd) = [] := by
    rw [List.filterMap_eq_nil_iff]
    intro block hblock
    rw [List.eq_of_mem_replicate hblock]
    rfl
  rw [vttCuesIn, List.paragraphs_feeds, List.filterMap_append, hblank, List.nil_append, vttCuesIn]

/-- **A block in front of other text.** -/
theorem vttCuesIn_block (h : ReadsTo isNd lines result) {extra : List Char} (hextra : extra = [] ∨ extra = ['\n'])
    (n : ℕ) (rest : List Char) :
    vttCuesIn isNd (extra ++ (List.unlines lines ++ (List.replicate (n + 2) '\n' ++ rest))) =
      result.toList ++ vttCuesIn isNd (List.replicate (n % 2) '\n' ++ rest) := by
  have hbehind : (List.replicate (n + 2) '\n' ++ rest).paragraphs =
      [] :: (List.replicate n '\n' ++ rest).paragraphs := List.paragraphs_blank _
  have hread := h.parseVttBlock_eq hextra (.inl rfl)
  rw [vttCuesIn, h.paragraphs_eq hextra hbehind, List.filterMap_cons, hread, ← vttCuesIn_feeds, vttCuesIn]
  cases result with
  | none => rfl
  | some cue => rfl

/-- **A block at the end** of a file. -/
theorem vttCuesIn_last (h : ReadsTo isNd lines result) {extra : List Char} (hextra : extra = [] ∨ extra = ['\n'])
    (n : ℕ) : vttCuesIn isNd (extra ++ (List.unlines lines ++ List.replicate n '\n')) = result.toList := by
  by_cases hn : n < 2
  · have htail : List.replicate n '\n' = [] ∨ List.replicate n '\n' = ['\n'] := by
      rw [← Nat.mod_eq_of_lt hn]
      exact feeds_mod n
    have hsplit : (List.replicate n '\n').paragraphs = [List.replicate n '\n'] := by
      rcases htail with h | h
      · rw [h]; rfl
      · rw [h]; rfl
    rw [vttCuesIn, h.paragraphs_eq hextra hsplit, List.filterMap_cons, h.parseVttBlock_eq hextra htail]
    cases result with
    | none => rfl
    | some cue => rfl
  · obtain ⟨k, rfl⟩ : ∃ k, n = k + 2 := ⟨n - 2, by omega⟩
    have hblock := vttCuesIn_block h hextra k []
    rw [List.append_nil, List.append_nil] at hblock
    have htail : vttCuesIn isNd (List.replicate (k % 2) '\n') = [] := vttCuesIn_over (feeds_mod k)
    rw [hblock, htail, List.append_nil]

/-- **Blocks with blank lines between them** are read one by one. -/
theorem vttCuesIn_blocks {blocks : List (ℕ × VttBlock)} (hseparated : ∀ p ∈ blocks, 1 ≤ p.1) (trailing : ℕ)
    {lines : List (List Char)} {result : Option SubtitleCue} (h : ReadsTo isNd lines result) {extra : List Char}
    (hextra : extra = [] ∨ extra = ['\n']) :
    vttCuesIn isNd (extra ++ (List.unlines lines ++
        (blocks.flatMap (fun p => List.replicate (p.1 + 1) '\n' ++ List.unlines p.2.lines) ++
          List.replicate trailing '\n'))) =
      result.toList ++ (blocks.filterMap fun p => p.2.asCue).filterMap (VttCue.read isNd) := by
  induction blocks generalizing lines result extra with
  | nil =>
    rw [List.flatMap_nil, List.nil_append, vttCuesIn_last h hextra]
    simp
  | cons p blocks ih =>
    have hp := hseparated p List.mem_cons_self
    obtain ⟨n, hn⟩ : ∃ n, p.1 + 1 = n + 2 := ⟨p.1 - 1, by omega⟩
    have hrest := ih (fun p' hp' => hseparated p' (List.mem_cons_of_mem p hp')) (readsTo_block p.2) (feeds_mod n)
    rw [List.flatMap_cons, List.append_assoc, List.append_assoc, hn, vttCuesIn_block h hextra, hrest]
    rw [List.filterMap_cons]
    cases hcue : p.2.asCue with
    | none => rfl
    | some cue =>
      rw [List.filterMap_cons, Option.bind_some]
      cases cue.read isNd with
      | none => rfl
      | some read => rfl

theorem unlines_eq_flatMap (first : List Char) (lines : List (List Char)) :
    List.unlines (first :: lines) = first ++ lines.flatMap ('\n' :: ·) := by
  induction lines generalizing first with
  | nil => simp [List.unlines]
  | cons line lines ih => rw [List.unlines_cons (List.cons_ne_nil _ _), ih, List.flatMap_cons, List.cons_append]

theorem flatMap_blank (n : ℕ) : (List.replicate n ([] : List Char)).flatMap ('\n' :: ·) = List.replicate n '\n' := by
  induction n with
  | zero => rfl
  | succ n ih => rw [List.replicate_succ, List.flatMap_cons, ih]; rfl

theorem lines_ne_nil (block : VttBlock) : block.lines ≠ [] := (@readsTo_block Char.isDigit block).ne_nil

/-- The lines of a file with line feeds between them. -/
theorem unlines_blocks (first : List Char) (blocks : List (ℕ × VttBlock)) (trailing : ℕ) :
    List.unlines (first :: (blocks.flatMap (fun p => List.replicate p.1 [] ++ p.2.lines) ++
        List.replicate trailing [])) =
      first ++ (blocks.flatMap (fun p => List.replicate (p.1 + 1) '\n' ++ List.unlines p.2.lines) ++
        List.replicate trailing '\n') := by
  rw [unlines_eq_flatMap, List.flatMap_append, flatMap_blank, List.flatMap_assoc]
  refine congrArg (fun f => first ++ (blocks.flatMap f ++ _)) (funext fun p => ?_)
  obtain ⟨line, lines, hlines⟩ := List.exists_cons_of_ne_nil (lines_ne_nil p.2)
  rw [List.flatMap_append, flatMap_blank, hlines, unlines_eq_flatMap, List.flatMap_cons, List.replicate_succ',
    List.append_assoc]
  rfl

theorem line_spec_vttLines {bom : Bool} {title : List Char} (htitle : Apart title) {blocks : List (ℕ × VttBlock)}
    {trailing : ℕ} : ∀ line ∈ vttLines bom title blocks trailing, '\n' ∉ line ∧ '\r' ∉ line := by
  intro line hline
  have hblank : ∀ n, line ∈ List.replicate n [] → '\n' ∉ line ∧ '\r' ∉ line := by
    intro n hmem
    rw [List.eq_of_mem_replicate hmem]
    exact ⟨List.not_mem_nil, List.not_mem_nil⟩
  rw [vttLines, List.mem_cons, List.mem_append, List.mem_flatMap] at hline
  rcases hline with rfl | hline | hline
  · exact ((@readsTo_title Char.isDigit bom title htitle).line_spec _ List.mem_cons_self).2
  · obtain ⟨p, -, hmem⟩ := hline
    rw [List.mem_append] at hmem
    cases hmem with
    | inl hmem => exact hblank p.1 hmem
    | inr hmem => exact ((@readsTo_block Char.isDigit p.2).line_spec line hmem).2
  · exact hblank trailing hline

/-- **What the reader makes of a file.** -/
theorem parseVtt_text (isNd : Char → Bool) (file : VttFile) :
    parseVtt isNd file.text = file.cues.filterMap (VttCue.read isNd) := by
  obtain ⟨extra, hextra⟩ : ∃ n, (if file.closed then ['\n'] else []) = List.replicate n '\n' := by
    cases file.closed with
    | false => exact ⟨0, rfl⟩
    | true => exact ⟨1, rfl⟩
  have hlines := @List.unixLines_writeLines file.ends file.closed _ _ (line_spec_vttLines file.title_spec) file.apart
  have hread := @vttCuesIn_blocks isNd file.blocks file.separated (file.trailing + extra) _ _
    (readsTo_title file.bom file.title_spec) [] (.inl rfl)
  rw [List.replicate_add, List.unlines, vttCuesIn] at hread
  rw [parseVtt, VttFile.text, vttLines, hlines, unlines_blocks, hextra]
  simpa only [List.append_assoc, List.nil_append, Option.toList_none, VttFile.cues] using hread

end File

/-! ### Cues that are read -/

section ReadsCues

variable {isNd : Char → Bool} {file : VttFile}

/-- **Where all hours have two digits**, each cue block is read, in order, with its text trimmed. -/
theorem parseVtt_of_twoDigits (hdigits : TakesDigits isNd)
    (h : ∀ cue ∈ file.cues, cue.start.TwoDigits ∧ cue.finish.TwoDigits) :
    (parseVtt isNd file.text).map (fun cue => (cue.startMs, cue.endMs, cue.text)) =
      file.cues.map fun cue => (cue.start.ms, cue.finish.ms, cue.text.trim) := by
  rw [parseVtt_text, List.map_filterMap, List.filterMap_eq_map_iff_forall_eq_some]
  intro cue hcue
  rw [VttCue.read, timesOn_timings hdigits (h cue hcue).1 (h cue hcue).2]
  rfl

/-- **The cues are read exactly if** all hours have two digits, and no text has white space at its ends. -/
theorem readsCues_iff (hdigits : TakesDigits isNd) (hspace : ∀ c : Char, c.isWhiteSpace = true → isNd c = false) :
    ReadsCues isNd file ↔
      ∀ cue ∈ file.cues, (cue.start.TwoDigits ∧ cue.finish.TwoDigits) ∧ cue.text.trim = cue.text := by
  rw [ReadsCues, parseVtt_text, List.map_filterMap, List.filterMap_eq_map_iff_forall_eq_some]
  refine forall₂_congr fun cue _ => ?_
  by_cases htwo : cue.start.TwoDigits ∧ cue.finish.TwoDigits
  · rw [VttCue.read, timesOn_timings hdigits htwo.1 htwo.2]
    simp [VttCue.expected, htwo.1, htwo.2]
  · rw [VttCue.read, timesOn_timings_none hdigits hspace htwo]
    simp [htwo]

/-- A minute and a half, with two digits for the hours. -/
def ninetySeconds : Stamp where
  hours := some ['0', '0']
  minutes := 1
  seconds := 30
  millis := 0
  hours_spec digits h := by
    rw [Option.mem_some_iff] at h
    rw [← h]
    decide
  minutes_lt := by decide
  seconds_lt := by decide
  millis_lt := by decide

theorem ninetySeconds_twoDigits : ninetySeconds.TwoDigits := ⟨['0', '0'], rfl, rfl⟩

/-- A cue with an identifier, settings and a line of text. -/
def lineCue (line : List Char) (h : TextLine line) : VttCue where
  identifier := some ['a']
  start := ninetySeconds
  finish := ninetySeconds
  before := [' ']
  after := ['\t']
  settings := " align:end".toList
  payload := [line]
  identifier_spec l hl := by
    rw [Option.mem_some_iff] at hl
    rw [← hl]
    exact ⟨by decide, by decide, by decide, by decide⟩
  before_spec := ⟨by decide, fun c hc => .inl (List.mem_singleton.mp hc)⟩
  after_spec := ⟨by decide, fun c hc => .inr (List.mem_singleton.mp hc)⟩
  settings_spec := ⟨fun c hc => .inl (by cases hc; rfl), by decide, by decide⟩
  payload_spec l hl := by
    rw [List.mem_singleton.mp hl]
    exact h

/-- A file with a cue behind two blank lines. -/
def oneCueFile (line : List Char) (h : TextLine line) : VttFile where
  bom := false
  title := []
  blocks := [(2, .cue (lineCue line h))]
  trailing := 0
  ends _ := .crlf
  closed := true
  title_spec := ⟨fun c hc => (nomatch hc), by decide, by decide⟩
  separated p hp := by
    rw [List.mem_singleton.mp hp]
    exact Nat.le_succ 1
  apart i hcr := nomatch hcr

/-- A file of one cue. -/
def plainFile : VttFile := oneCueFile ['H', 'i'] ⟨by decide, by decide, by decide, by decide⟩

/-- A file of one cue, with a blank in front of its text. -/
def indentedFile : VttFile := oneCueFile [' ', 'H', 'i'] ⟨by decide, by decide, by decide, by decide⟩

theorem plainFile_read : (parseVtt Char.isDigit plainFile.text).map
    (fun cue => (cue.startMs, cue.endMs, cue.text)) = [(90000, 90000, ['H', 'i'])] := by
  have htwo : ∀ cue ∈ plainFile.cues, cue.start.TwoDigits ∧ cue.finish.TwoDigits := by
    intro cue hcue
    rw [List.mem_singleton.mp hcue]
    exact ⟨ninetySeconds_twoDigits, ninetySeconds_twoDigits⟩
  exact parseVtt_of_twoDigits (fun _ hc => hc) htwo

/-- The text is trimmed. -/
theorem indentedFile_not_readsCues : ¬ ReadsCues Char.isDigit indentedFile := by
  intro h
  have hcue : indentedFile.cues.map VttCue.expected = [(90000, 90000, [' ', 'H', 'i'])] := rfl
  rw [ReadsCues, hcue] at h
  exact absurd h (by decide)

/-- A minute and a half, without hours. -/
def shortSeconds : Stamp :=
  { ninetySeconds with
    hours := none
    hours_spec := fun _ hdigits => nomatch hdigits }

/-- The file of one cue, which begins at this time. -/
def fileFrom (start : Stamp) : VttFile :=
  { plainFile with
    blocks := [(2, .cue { lineCue ['H', 'i'] ⟨by decide, by decide, by decide, by decide⟩ with start := start })]
    separated := fun p hp => by
      rw [List.mem_singleton.mp hp]
      exact Nat.le_succ 1
    apart := fun _ hcr => nomatch hcr }

/-- A cue is read with hours in its times and lost without. -/
theorem fileFrom_readsCues : ReadsCues Char.isDigit (fileFrom ninetySeconds) ∧
    ¬ ReadsCues Char.isDigit (fileFrom shortSeconds) := by
  constructor
  · refine (readsCues_iff (fun _ hc => hc) fun _ => not_isDigit_of_white).mpr fun cue hcue => ?_
    rw [List.mem_singleton.mp hcue]
    exact ⟨⟨ninetySeconds_twoDigits, ninetySeconds_twoDigits⟩, by decide⟩
  · intro h
    obtain ⟨⟨⟨digits, hhours, -⟩, -⟩, -⟩ :=
      (readsCues_iff (fun _ hc => hc) fun _ => not_isDigit_of_white).mp h _ List.mem_cons_self
    cases hhours

end ReadsCues

end StreamServer.Subtitles

import StreamServer.Lib.Ink
import StreamServer.Subtitles.Clock

/-!
# Cues that are written and read again

The writer puts a number, the times and the text of each cue on lines of their own, and a blank line behind
them.  The reader cuts the file at its blank lines and reads the times in two digits for the hours.  So a time
from 100 hours on is not read, and the text of a cue ends at the first blank line in it; what stands behind
that one may even be taken for another cue.

Such cues are never made up for elsewhere: a cue counts one more than the ink of its text, and what is read
from the text of a cue counts less than the cue, unless it is the cue.

## Main definitions

* `RoundTrips` — cues that are read as they were written.
* `SubtitleCue.Keeps` — a cue that is kept.

## Main results

* `map_vttCuesIn_cueTexts` — cues without long times and blank lines are read again.
* `weight_cueTexts` — others lose some of their weight.
* `keepsEveryCue_iff` — **the cues of a file are kept exactly if** each of them is kept.

## References

`enginefs/src/subtitles.rs`, `to_vtt` and `parse_vtt`.
-/

namespace StreamServer.Subtitles

open Pattern

/-- The cues are read as they were written, up to white space around their texts. -/
def RoundTrips (isNd : Char → Bool) (cues : List SubtitleCue) : Prop :=
  (parseVtt isNd (toVtt cues)).map (fun cue => (cue.startMs, cue.endMs, cue.text.trim)) =
    cues.map fun cue => (cue.startMs, cue.endMs, cue.styledText.trim)

/-- The cues of the file are read as they were written. -/
def KeepsEveryCue (isNd : Char → Bool) (content : List Char) : Prop :=
  ∀ parsed, parse isNd content = .ok parsed → RoundTrips isNd parsed.cues

namespace SubtitleCue

/-- Both times are below 100 hours, and only white space stands behind a blank line of the text. -/
structure Intact (cue : SubtitleCue) : Prop where
  startMs_lt : cue.startMs < 360000000
  endMs_lt : cue.endMs < 360000000
  oneParagraph : cue.styledText.OneParagraph

/-- Besides, all line ends in the text are line feeds. -/
structure Keeps (cue : SubtitleCue) : Prop extends cue.Intact where
  unixLines : '\r' ∉ cue.styledText.trim

end SubtitleCue

/-! ### Blocks -/

section Blocks

variable {isNd : Char → Bool} {startMs endMs : ℕ}

theorem containsText_iff {text : List Char} {pattern : String} :
    containsText text pattern = true ↔ pattern.toList <:+: text := List.occurrence?_isSome_iff

theorem containsText_arrow : containsText (timeLine '.' startMs endMs) "-->" = true := by
  rw [containsText_iff]
  exact ⟨formatTime '.' startMs ++ [' '], ' ' :: formatTime '.' endMs, by simp [timeLine]⟩

/-- There is no arrow without a dash. -/
theorem not_containsText_arrow {text : List Char} (h : '-' ∉ text) : containsText text "-->" = false := by
  rw [← Bool.not_eq_true, containsText_iff]
  exact fun hinfix => h (List.IsInfix.subset hinfix (by decide))

/-- What is read from a block whose first line with an arrow has these times. -/
theorem parseVttBlock_of_lines {block line : List Char} {before after : List (List Char)}
    (hlines : block.textLines = before ++ line :: after)
    (hbefore : ∀ line' ∈ before, containsText line' "-->" = false) (hline : containsText line "-->" = true) :
    parseVttBlock isNd block = (timesOn isNd '.' line).map fun times =>
      ⟨times.1, times.2, (List.unlines after).trim, none⟩ := by
  have hnone : before.findIdx? (containsText · "-->") = none := List.findIdx?_eq_none_iff.mpr hbefore
  have hidx : (before ++ line :: after).findIdx? (containsText · "-->") = some before.length := by
    rw [List.findIdx?_append, hnone, List.findIdx?_cons, hline]
    simp
  have hget : (before ++ line :: after).getD before.length [] = line := by simp
  have hdrop : (before ++ line :: after).drop (before.length + 1) = after := by simp
  rw [parseVttBlock]
  simp only [hlines, hidx, hget, hdrop]

/-- A block without an arrow is no cue. -/
theorem parseVttBlock_none {block : List Char} (h : ∀ line ∈ block.textLines, containsText line "-->" = false) :
    parseVttBlock isNd block = none := by
  have hnone : block.textLines.findIdx? (containsText · "-->") = none := List.findIdx?_eq_none_iff.mpr h
  rw [parseVttBlock]
  simp only [hnone]

theorem parseVttBlock_white {block : List Char} (h : block.ink = 0) : parseVttBlock isNd block = none := by
  refine parseVttBlock_none fun line hline => ?_
  have hink : line.ink = 0 := by
    rw [← List.sum_ink_textLines, List.sum_eq_zero_iff_forall_eq_nat] at h
    exact h _ (List.mem_map_of_mem hline)
  exact not_containsText_arrow fun hmem => absurd (List.ink_eq_zero.mp hink '-' hmem) (by decide)

/-- **What is read from a block** is less than the block: a line with an arrow is not in it. -/
theorem lt_ink_of_parseVttBlock {block : List Char} {cue : SubtitleCue}
    (h : parseVttBlock isNd block = some cue) : cue.text.ink + 1 < block.ink := by
  rw [parseVttBlock] at h
  cases hidx : block.textLines.findIdx? (containsText · "-->") with
  | none =>
    simp only [hidx] at h
    cases h
  | some idx =>
    simp only [hidx] at h
    obtain ⟨times, -, rfl⟩ := Option.map_eq_some_iff.mp h
    obtain ⟨hlt, harrow, -⟩ := List.findIdx?_eq_some_iff_getElem.mp hidx
    have hline : 3 ≤ (block.textLines[idx]).ink :=
      List.ink_le_of_infix (containsText_iff.mp harrow)
    have hall := List.sum_ink_textLines block
    rw [← List.take_append_drop idx block.textLines, List.drop_eq_getElem_cons hlt, List.map_append,
      List.sum_append, List.map_cons, List.sum_cons] at hall
    have htext : (List.unlines (block.textLines.drop (idx + 1))).trim.ink =
        ((block.textLines.drop (idx + 1)).map List.ink).sum := by
      rw [List.ink_trim, List.ink_unlines]
    simp only
    omega

/-- The block that a cue begins in. -/
theorem parseVttBlock_head {extra first : List Char} (hextra : extra = [] ∨ extra = ['\n'])
    (hfirst : first = [] ∨ ∃ tail, first = '\n' :: tail) (n : ℕ) :
    parseVttBlock isNd (extra ++ (List.unlines [Nat.toDigits 10 n, timeLine '.' startMs endMs] ++ first)) =
      (timesOn isNd '.' (timeLine '.' startMs endMs)).map fun times =>
        ⟨times.1, times.2, (List.unlines first.tail.textLines).trim, none⟩ := by
  have hdigits : ∀ c : Char, c.isDigit = false → c ∉ Nat.toDigits 10 n :=
    fun c hc => Decimal.notMem_digits hc
  have htimes : ∀ c : Char, c.isDigit = false → c ∉ [':', '.', ' ', '-', '>'] →
      c ∉ timeLine '.' startMs endMs := fun c hc hother => notMem_timeLine hc hother
  have hlast : ∀ line : List Char, '\r' ∉ line → line.getLast? ≠ some '\r' :=
    fun line hline hmem => hline (List.mem_of_getLast? hmem)
  have hbehind : (timeLine '.' startMs endMs ++ first).textLines =
      timeLine '.' startMs endMs :: first.tail.textLines := by
    have hfeed := htimes '\n' (by decide) (by decide)
    rcases hfirst with rfl | ⟨tail, rfl⟩
    · rw [List.append_nil, List.textLines, List.lines_of_notMem timeLine_ne_nil hfeed,
        List.map_singleton, List.chomp_of_notMem hfeed]
      rfl
    · exact List.textLines_cons hfeed (hlast _ (htimes '\r' (by decide) (by decide))) tail
  have hlines : (List.unlines [Nat.toDigits 10 n, timeLine '.' startMs endMs] ++ first).textLines =
      Nat.toDigits 10 n :: timeLine '.' startMs endMs :: first.tail.textLines := by
    rw [List.unlines_cons (List.cons_ne_nil _ _), List.append_assoc, List.cons_append,
      List.textLines_cons (hdigits '\n' (by decide)) (hlast _ (hdigits '\r' (by decide)))]
    exact congrArg _ hbehind
  rcases hextra with rfl | rfl
  · refine @parseVttBlock_of_lines isNd _ _ [Nat.toDigits 10 n] _ hlines ?_ containsText_arrow
    intro line hline
    rw [List.mem_singleton.mp hline]
    exact not_containsText_arrow (hdigits '-' (by decide))
  · have hblank : ('\n' :: (List.unlines [Nat.toDigits 10 n, timeLine '.' startMs endMs] ++ first)).textLines =
        [[], Nat.toDigits 10 n] ++ timeLine '.' startMs endMs :: first.tail.textLines := by
      have hnil := @List.textLines_cons [] (by simp) (by simp)
        (List.unlines [Nat.toDigits 10 n, timeLine '.' startMs endMs] ++ first)
      rw [List.nil_append, hlines] at hnil
      exact hnil
    refine parseVttBlock_of_lines hblank ?_ containsText_arrow
    intro line hline
    rcases List.mem_cons.mp hline with rfl | hline
    · exact not_containsText_arrow List.not_mem_nil
    · rw [List.mem_singleton.mp hline]
      exact not_containsText_arrow (hdigits '-' (by decide))

end Blocks

/-! ### The text of a cue -/

section Cues

variable {isNd : Char → Bool}

/-- The cues that are read from a text with line feeds for line ends. -/
def vttCuesIn (isNd : Char → Bool) (text : List Char) : List SubtitleCue :=
  text.paragraphs.filterMap (parseVttBlock isNd)

/-- The cue that is read where a cue with these times was written, with this text. -/
def cueAt (isNd : Char → Bool) (cue : SubtitleCue) (text : List Char) : List SubtitleCue :=
  ((timesOn isNd '.' (timeLine '.' cue.startMs cue.endMs)).map fun times =>
    ⟨times.1, times.2, text, none⟩).toList

theorem unixLines_cueText (i : ℕ) (cue : SubtitleCue) (rest : List Char) :
    (cueText i cue ++ rest).unixLines =
      List.unlines [Nat.toDigits 10 (i + 1), timeLine '.' cue.startMs cue.endMs] ++
        '\n' :: (cue.styledText ++ '\n' :: '\n' :: rest).unixLines := by
  have hcounter : '\r' ∉ Nat.toDigits 10 (i + 1) := Decimal.notMem_digits (by decide)
  have htimes : '\r' ∉ timeLine '.' cue.startMs cue.endMs := notMem_timeLine (by decide) (by decide)
  rw [List.unlines_cons (List.cons_ne_nil _ _), List.unlines, cueText]
  simp only [List.append_assoc, List.cons_append, List.nil_append]
  rw [List.unixLines_of_notMem hcounter, List.unixLines_cons (by decide),
    List.unixLines_of_notMem htimes, List.unixLines_cons (by decide)]

/-- **What is read from the text of a cue.** -/
theorem vttCuesIn_cueText {extra : List Char} (hextra : extra = [] ∨ extra = ['\n']) (i : ℕ)
    (cue : SubtitleCue) (rest : List Char) : ∃ first others extra',
      cue.styledText.CutsInto first others extra' ∧
      vttCuesIn isNd (extra ++ (cueText i cue ++ rest).unixLines) =
        cueAt isNd cue (List.unlines first.tail.textLines).trim ++
          (others.filterMap (parseVttBlock isNd) ++ vttCuesIn isNd (extra' ++ rest.unixLines)) := by
  obtain ⟨first, others, extra', hcut, hsplit⟩ := List.exists_cutsInto cue.styledText rest
  refine ⟨first, others, extra', hcut, ?_⟩
  have hlines : ∀ line ∈ [Nat.toDigits 10 (i + 1), timeLine '.' cue.startMs cue.endMs],
      line ≠ [] ∧ '\n' ∉ line := by
    intro line hline
    rcases List.mem_cons.mp hline with rfl | hline
    · exact ⟨Nat.toDigits_ne_nil, Decimal.notMem_digits (by decide)⟩
    · rw [List.mem_singleton.mp hline]
      exact ⟨timeLine_ne_nil, notMem_timeLine (by decide) (by decide)⟩
  have hbody : (extra ++ (cueText i cue ++ rest).unixLines).paragraphs =
      (extra ++ (List.unlines [Nat.toDigits 10 (i + 1), timeLine '.' cue.startMs cue.endMs] ++ first)) ::
        (others ++ (extra' ++ rest.unixLines).paragraphs) := by
    have hhead := List.head?_unlines (hlines _ List.mem_cons_self)
      [timeLine '.' cue.startMs cue.endMs]
      ('\n' :: (cue.styledText ++ '\n' :: '\n' :: rest).unixLines)
    have hbegin := List.paragraphs_unlines hlines
      ('\n' :: (cue.styledText ++ '\n' :: '\n' :: rest).unixLines)
    rw [hsplit, List.cons_append, List.prependHead] at hbegin
    rw [unixLines_cueText]
    rcases hextra with rfl | rfl
    · exact hbegin
    · rw [List.singleton_append, List.paragraphs_cons (Or.inr hhead), hbegin]
      rfl
  rw [vttCuesIn, hbody, List.filterMap_cons, parseVttBlock_head hextra hcut.first_spec, cueAt,
    List.filterMap_append, vttCuesIn]
  cases timesOn isNd '.' (timeLine '.' cue.startMs cue.endMs) with
  | none => rfl
  | some times => rfl

/-- Where the file ends, a line feed may be left over. -/
theorem vttCuesIn_over {extra : List Char} (hextra : extra = [] ∨ extra = ['\n']) :
    vttCuesIn isNd extra = [] := by
  rcases hextra with rfl | rfl
  · rfl
  · rfl

theorem cueAt_of_lt (hdigits : TakesDigits isNd) {cue : SubtitleCue} (hstart : cue.startMs < 360000000)
    (hend : cue.endMs < 360000000) (text : List Char) :
    cueAt isNd cue text = [⟨cue.startMs, cue.endMs, text, none⟩] := by
  rw [cueAt, timesOn_timeLine hdigits hstart hend]
  rfl

theorem cueAt_of_le (hdigits : TakesDigits isNd) {cue : SubtitleCue}
    (h : 360000000 ≤ cue.startMs ∨ 360000000 ≤ cue.endMs) (text : List Char) :
    cueAt isNd cue text = [] := by
  rw [cueAt, timesOn_timeLine_none hdigits h]
  rfl

theorem trim_unlines_textLines {text : List Char} (h : '\r' ∉ text) :
    (List.unlines text.textLines).trim = text.trim := by
  rcases List.unlines_textLines h with heq | heq
  · rw [← heq]
  · conv_rhs => rw [heq]
    exact (@List.trim_append [] ['\n'] (by simp) (by decide) _).symm

/-- **Cues without long times and blank lines** are read again. -/
theorem map_vttCuesIn_cueTexts (hdigits : TakesDigits isNd) {cues : List SubtitleCue}
    (hcues : ∀ cue ∈ cues, cue.Intact) {extra : List Char} (hextra : extra = [] ∨ extra = ['\n']) (i : ℕ) :
    (vttCuesIn isNd (extra ++ (cueTexts i cues).unixLines)).map
        (fun cue => (cue.startMs, cue.endMs, cue.text.trim)) =
      cues.map fun cue => (cue.startMs, cue.endMs, cue.styledText.unixLines.trim) := by
  induction cues generalizing extra i with
  | nil =>
    rw [cueTexts, List.unixLines_nil, List.append_nil, vttCuesIn_over hextra]
    rfl
  | cons cue cues ih =>
    have hcue := hcues cue List.mem_cons_self
    obtain ⟨first, others, extra', hcut, hread⟩ := @vttCuesIn_cueText isNd extra hextra i cue
      (cueTexts (i + 1) cues)
    have hothers : others.filterMap (parseVttBlock isNd) = [] := by
      rw [List.filterMap_eq_nil_iff]
      intro other hother
      have hwhite := List.ink_eq_zero.mp (hcut.oneParagraph.mp hcue.oneParagraph)
      exact parseVttBlock_white <| List.ink_eq_zero.mpr fun c hc =>
        hwhite c (List.mem_flatten.mpr ⟨other, hother, hc⟩)
    have htext : (List.unlines first.tail.textLines).trim.trim = cue.styledText.unixLines.trim := by
      rw [List.trim_trim, trim_unlines_textLines fun hmem => hcut.notMem_first (List.mem_of_mem_tail hmem),
        hcut.trim_first hcue.oneParagraph]
    rw [cueTexts, hread, cueAt_of_lt hdigits hcue.startMs_lt hcue.endMs_lt, hothers, List.nil_append,
      List.singleton_append, List.map_cons, List.map_cons, htext,
      ih (fun cue' hmem => hcues cue' (List.mem_cons_of_mem cue hmem)) hcut.over_spec]

end Cues

/-! ### Weights -/

section Weights

variable {isNd : Char → Bool}

/-- A cue weighs one more than the ink of its text. -/
def weight (cues : List SubtitleCue) : ℕ := (cues.map fun cue => cue.text.ink + 1).sum

/-- What the cues weigh as they are written. -/
def writtenWeight (cues : List SubtitleCue) : ℕ := (cues.map fun cue => cue.styledText.ink + 1).sum

@[simp] theorem weight_nil : weight [] = 0 := rfl

@[simp] theorem weight_append (cues cues' : List SubtitleCue) :
    weight (cues ++ cues') = weight cues + weight cues' := by
  simp [weight]

/-- **What is read from other blocks** weighs less than their ink, if they have any. -/
theorem weight_others (others : List (List Char)) :
    weight (others.filterMap (parseVttBlock isNd)) ≤ others.flatten.ink ∧
      (others.flatten.ink ≤ weight (others.filterMap (parseVttBlock isNd)) → others.flatten.ink = 0) := by
  induction others with
  | nil => exact ⟨Nat.le_refl 0, fun _ => rfl⟩
  | cons other others ih =>
    obtain ⟨hle, heq⟩ := ih
    rw [List.flatten_cons, List.ink_append]
    cases hblock : parseVttBlock isNd other with
    | none =>
      rw [List.filterMap_cons_none hblock]
      exact ⟨by omega, fun h => by have := heq (by omega); omega⟩
    | some cue =>
      have hlt := lt_ink_of_parseVttBlock hblock
      have hcons : weight (cue :: others.filterMap (parseVttBlock isNd)) =
          cue.text.ink + 1 + weight (others.filterMap (parseVttBlock isNd)) := rfl
      rw [List.filterMap_cons_some hblock, hcons]
      exact ⟨by omega, fun h => by omega⟩

/-- **What is read from the text of a cue** weighs less than the cue, unless the cue is intact. -/
theorem weight_cueText (hdigits : TakesDigits isNd) {cue : SubtitleCue} {first extra : List Char}
    {others : List (List Char)} (hcut : cue.styledText.CutsInto first others extra) :
    let read := cueAt isNd cue (List.unlines first.tail.textLines).trim ++
      others.filterMap (parseVttBlock isNd)
    weight read ≤ cue.styledText.ink + 1 ∧ (cue.styledText.ink + 1 ≤ weight read → cue.Intact) := by
  intro read
  obtain ⟨hle, heq⟩ := @weight_others isNd others
  have htotal := hcut.ink_eq
  have hread : weight read = weight (cueAt isNd cue (List.unlines first.tail.textLines).trim) +
      weight (others.filterMap (parseVttBlock isNd)) := weight_append _ _
  have htext : (List.unlines first.tail.textLines).trim.ink = first.ink := by
    rw [List.ink_trim, List.ink_unlines, List.sum_ink_textLines]
    rcases hcut.first_spec with rfl | ⟨tail, rfl⟩
    · rfl
    · rw [List.ink_feed, List.tail_cons]
  by_cases hlong : 360000000 ≤ cue.startMs ∨ 360000000 ≤ cue.endMs
  · -- the times are not read, and nothing else weighs so much
    rw [cueAt_of_le hdigits hlong, weight_nil] at hread
    exact ⟨by omega, fun h => by omega⟩
  · obtain ⟨hstart, hend⟩ := not_or.mp hlong
    have hcue : weight (cueAt isNd cue (List.unlines first.tail.textLines).trim) = first.ink + 1 := by
      rw [cueAt_of_lt hdigits (Nat.lt_of_not_le hstart) (Nat.lt_of_not_le hend), ← htext]
      rfl
    refine ⟨by omega, fun h => ⟨Nat.lt_of_not_le hstart, Nat.lt_of_not_le hend, ?_⟩⟩
    exact hcut.oneParagraph.mpr (heq (by omega))

/-- **What is read from the texts of cues** weighs less than the cues, unless they are intact. -/
theorem weight_cueTexts (hdigits : TakesDigits isNd) (cues : List SubtitleCue) {extra : List Char}
    (hextra : extra = [] ∨ extra = ['\n']) (i : ℕ) :
    let read := vttCuesIn isNd (extra ++ (cueTexts i cues).unixLines)
    weight read ≤ writtenWeight cues ∧ (writtenWeight cues ≤ weight read → ∀ cue ∈ cues, cue.Intact) := by
  induction cues generalizing extra i with
  | nil =>
    rw [cueTexts, List.unixLines_nil, List.append_nil, vttCuesIn_over hextra]
    exact ⟨Nat.le_refl 0, fun _ cue hcue => nomatch hcue⟩
  | cons cue cues ih =>
    intro read
    obtain ⟨first, others, extra', hcut, hread⟩ := @vttCuesIn_cueText isNd extra hextra i cue
      (cueTexts (i + 1) cues)
    obtain ⟨hcueLe, hcueEq⟩ := weight_cueText hdigits hcut
    obtain ⟨hle, heq⟩ := ih hcut.over_spec (i + 1)
    rw [← List.append_assoc] at hread
    have hweight := congrArg weight hread
    rw [weight_append] at hweight
    have hcons : writtenWeight (cue :: cues) = cue.styledText.ink + 1 + writtenWeight cues := rfl
    have hall : weight read = _ := hweight
    refine ⟨by omega, fun h cue' hcue' => ?_⟩
    rcases List.mem_cons.mp hcue' with rfl | hcue'
    · exact hcueEq (by omega)
    · exact heq (by omega) cue' hcue'

end Weights

/-! ### Files -/

section Files

variable {isNd : Char → Bool}

theorem parseVtt_toVtt (cues : List SubtitleCue) :
    parseVtt isNd (toVtt cues) = vttCuesIn isNd (cueTexts 0 cues).unixLines := by
  have hheader : parseVttBlock isNd "WEBVTT".toList = none := rfl
  have htext : toVtt cues = "WEBVTT\n\n".toList ++ cueTexts 0 cues := rfl
  have hsplit : (toVtt cues).unixLines.paragraphs =
      "WEBVTT".toList :: (cueTexts 0 cues).unixLines.paragraphs := by
    have hlines : "WEBVTT\n\n".toList ++ (cueTexts 0 cues).unixLines =
        "WEBVTT".toList ++ '\n' :: '\n' :: (cueTexts 0 cues).unixLines := rfl
    rw [htext, List.unixLines_of_notMem (by decide), hlines, List.paragraphs_line (by decide),
      List.paragraphs_blank, List.prependHead, List.append_nil]
  rw [parseVtt, hsplit, List.filterMap_cons_none hheader, vttCuesIn]

/-- **Cues are read as they were written exactly if** each of them is kept. -/
theorem roundTrips_iff (hdigits : TakesDigits isNd) (cues : List SubtitleCue) :
    RoundTrips isNd cues ↔ ∀ cue ∈ cues, cue.Keeps := by
  have hweights := @weight_cueTexts isNd hdigits cues [] (Or.inl rfl) 0
  have hintact := fun hcues => @map_vttCuesIn_cueTexts isNd hdigits cues hcues [] (Or.inl rfl) 0
  rw [List.nil_append] at hweights hintact
  rw [RoundTrips, parseVtt_toVtt]
  constructor
  · intro h
    have hsum := congrArg (fun keys => (keys.map fun key => key.2.2.ink + 1).sum) h
    simp only [List.map_map, Function.comp_def, List.ink_trim] at hsum
    have hcues := hweights.2 (Nat.le_of_eq hsum.symm)
    rw [hintact hcues, List.map_inj_left] at h
    intro cue hcue
    have hkey := h cue hcue
    rw [Prod.mk.injEq, Prod.mk.injEq] at hkey
    exact ⟨hcues cue hcue, (List.trim_unixLines _).mp hkey.2.2⟩
  · intro h
    rw [hintact fun cue hcue => (h cue hcue).toIntact, List.map_inj_left]
    intro cue hcue
    rw [(List.trim_unixLines _).mpr (h cue hcue).unixLines]

/-- **The cues of a file are kept exactly if** each of them is kept. -/
theorem keepsEveryCue_iff (hdigits : TakesDigits isNd) (content : List Char) :
    KeepsEveryCue isNd content ↔
      ∀ parsed, parse isNd content = .ok parsed → ∀ cue ∈ parsed.cues, cue.Keeps := by
  constructor
  · exact fun h parsed hparsed => (roundTrips_iff hdigits parsed.cues).mp (h parsed hparsed)
  · exact fun h parsed hparsed => (roundTrips_iff hdigits parsed.cues).mpr (h parsed hparsed)

/-- A file with two cues, of which one has a text of two lines. -/
def twoCuesFile : List Char :=
  "1\n00:00:01,000 --> 00:00:02,500\nHi\n\n2\n00:01:03,000 --> 00:01:04,250\nA\nB\n".toList

theorem parse_twoCuesFile : parse Char.isDigit twoCuesFile =
    .ok ⟨.srt, [⟨1000, 2500, ['H', 'i'], none⟩, ⟨63000, 64250, ['A', '\n', 'B'], none⟩]⟩ := rfl

theorem twoCuesFile_keeps : KeepsEveryCue Char.isDigit twoCuesFile := by
  refine (keepsEveryCue_iff (fun _ hc => hc) twoCuesFile).mpr fun parsed hparsed cue hcue => ?_
  rw [parse_twoCuesFile] at hparsed
  cases hparsed
  -- neither text has a blank line
  have hblank : ∀ {text front back : List Char}, ¬ ['\n', '\n'] <:+: '\n' :: text →
      '\n' :: text ≠ front ++ '\n' :: '\n' :: back := by
    intro text front back hnot heq
    exact hnot ⟨front, back, by rw [List.append_assoc]; exact heq.symm⟩
  rcases List.mem_cons.mp hcue with rfl | hcue
  · refine ⟨⟨by decide, by decide, fun front back hsplit => ?_⟩, by decide⟩
    have hnot : ¬ ['\n', '\n'] <:+: ['\n', 'H', 'i'] := by decide
    exact absurd hsplit (hblank hnot)
  · obtain rfl := List.mem_singleton.mp hcue
    refine ⟨⟨by decide, by decide, fun front back hsplit => ?_⟩, by decide⟩
    have hnot : ¬ ['\n', '\n'] <:+: ['\n', 'A', '\n', 'B'] := by decide
    exact absurd hsplit (hblank hnot)

/-- A file with a line that is nothing but a tag. -/
def tagLineFile : List Char := "1\n00:00:01,000 --> 00:00:02,500\nA\n<x>\nB".toList

theorem parse_tagLineFile : parse Char.isDigit tagLineFile =
    .ok ⟨.srt, [⟨1000, 2500, ['A', '\n', '\n', 'B'], none⟩]⟩ := rfl

/-- The tag leaves a blank line, and the text is cut there. -/
theorem tagLineFile_not_keeps : ¬ KeepsEveryCue Char.isDigit tagLineFile := by
  intro h
  have hkeeps := (roundTrips_iff (fun _ hc => hc) _).mp (h _ parse_tagLineFile) _ List.mem_cons_self
  have hwhite := hkeeps.oneParagraph ['\n', 'A'] ['B'] rfl 'B' List.mem_cons_self
  exact absurd hwhite (by decide)

end Files

end StreamServer.Subtitles

import Mathlib.Algebra.Ring.Int.Defs
import Mathlib.Data.Int.Notation
import StreamServer.Lib.Replacement
import StreamServer.Subtitles.Stamp

/-!
# Subtitles with an offset

The offset is added to whatever looks like a time in the whole text, with two digits for the hours.  So it is added
to the times of a cue if they are below 100 hours; of a longer one only the last two digits of the hours are
changed with the rest.  A time in the text of a cue is shifted with the others.

## Main definitions

* `applySubtitleOffset` — the text with the offset added.
* `Markup.render` — cues, written in one of the two formats.
* `ShiftsExactly` — the times of the cues are shifted, and nothing else.

## Main results

* `replaceAll_formatTime` — what the offset makes of a time, `shifts_time_iff` — when that is right.
* `shiftsExactly_iff` — **the offset shifts the times exactly if** each of them and each text allows it.
* `shiftsExactly_iff_and_add` — besides, one offset behind another is their sum.

## References

`server/src/routes/subtitles.rs`, `apply_subtitle_offset`; `enginefs/src/subtitles.rs`, `format_vtt_time`.
-/

namespace StreamServer.Subtitles

open Checked Pattern

/-! ### The offset -/

/-- A sum of 64-bit numbers with a sign. -/
def addSigned (a b : ℤ) : Run ℤ := if -2 ^ 63 ≤ a + b ∧ a + b < 2 ^ 63 then .ok (a + b) else .error .panic

/-- `HH:MM:SS,mmm` or `HH:MM:SS.mmm`. -/
def offsetPattern (isNd : Char → Bool) : List Piece :=
  [exactly 2 isNd, lit ':', exactly 2 isNd, lit ':', exactly 2 isNd, exactly 1 fun c => c == ',' || c == '.',
    exactly 3 isNd]

/-- `parse::<i64>().unwrap_or(0)`, of two or three digits. -/
def signedNumber (digits : List Char) : ℤ := ((Decimal.parse (2 ^ 63) digits).getD 0 : ℕ)

/-- A time with the offset added, but not below zero. -/
def shiftTime (offsetMs : ℤ) (parts : List (List Char)) : Run (List Char) := do
  let hours := signedNumber (parts.getD 0 [])
  let minutes := signedNumber (parts.getD 2 [])
  let seconds := signedNumber (parts.getD 4 [])
  let millis := signedNumber (parts.getD 6 [])
  let sum ← addSigned (hours * 3600000 + minutes * 60000 + seconds * 1000 + millis) offsetMs
  let total := (max sum 0).toNat
  .ok (Decimal.padded 2 (total / 3600000) ++ ':' :: (Decimal.padded 2 (total % 3600000 / 60000) ++
    ':' :: (Decimal.padded 2 (total % 60000 / 1000) ++ (parts.getD 5 [] ++ Decimal.padded 3 (total % 1000)))))

/-- `apply_subtitle_offset`. -/
def applySubtitleOffset (isNd : Char → Bool) (content : List Char) (offsetMs : ℤ) : Run (List Char) :=
  if offsetMs = 0 then .ok content else replaceAll (offsetPattern isNd) (shiftTime offsetMs) 0 content

/-! ### Cues in two formats -/

/-- The formats that cues are written in. -/
inductive Markup
  | srt
  | vtt
  deriving DecidableEq, Repr

namespace Markup

/-- The character in front of the milliseconds. -/
def mark : Markup → Char
  | srt => ','
  | vtt => '.'

/-- What stands in front of the cues. -/
def header : Markup → List Char
  | srt => []
  | vtt => "WEBVTT\n\n".toList

/-- The text of a cue as it is written. -/
def textOf : Markup → SubtitleCue → List Char
  | srt, cue => cue.text
  | vtt, cue => cue.styledText

variable (m : Markup)

/-- A cue with its number, and a blank line behind it. -/
def cueText (i : ℕ) (cue : SubtitleCue) : List Char :=
  Nat.toDigits 10 (i + 1) ++ '\n' :: (timeLine m.mark cue.startMs cue.endMs ++
    '\n' :: (m.textOf cue ++ ['\n', '\n']))

/-- The cues as they are written, numbered from `i` on. -/
def cueTexts : ℕ → List SubtitleCue → List Char
  | _, [] => []
  | i, cue :: cues => m.cueText i cue ++ cueTexts (i + 1) cues

/-- A file of the cues. -/
def render (cues : List SubtitleCue) : List Char := m.header ++ m.cueTexts 0 cues

theorem cueTexts_vtt (i : ℕ) (cues : List SubtitleCue) : vtt.cueTexts i cues = Subtitles.cueTexts i cues := by
  induction cues generalizing i with
  | nil => rfl
  | cons cue cues ih =>
    have hcue : vtt.cueText i cue = Subtitles.cueText i cue := rfl
    rw [cueTexts, Subtitles.cueTexts, hcue, ih]

/-- A WebVTT file is written as the writer does. -/
theorem render_vtt (cues : List SubtitleCue) : vtt.render cues = toVtt cues :=
  congrArg (vtt.header ++ ·) (cueTexts_vtt 0 cues)

end Markup

/-! ### What an offset is for -/

/-- A time with the offset, but not below zero. -/
def shifted (d : ℤ) (ms : ℕ) : ℕ := (max 0 (ms + d)).toNat

/-- The cue with its times moved. -/
def SubtitleCue.shift (d : ℤ) (cue : SubtitleCue) : SubtitleCue :=
  { cue with startMs := shifted d cue.startMs, endMs := shifted d cue.endMs }

/-- **The offset shifts the times of the cues**, which are times of the format again, and nothing else. -/
structure ShiftsExactly (isNd : Char → Bool) (m : Markup) (cues : List SubtitleCue) (d : ℤ) : Prop where
  shifts : applySubtitleOffset isNd (m.render cues) d = .ok (m.render (cues.map (SubtitleCue.shift d)))
  reads : ∀ cue ∈ cues, ∀ ms ∈ [cue.startMs, cue.endMs], ∃ stamp : Stamp, stamp.hours.isSome ∧
    stamp.text m.mark = formatTime m.mark (shifted d ms) ∧ stamp.ms = shifted d ms

/-- The offset does not overflow, and a time from 100 hours on keeps the hundreds of its hours. -/
def TimeFits (d : ℤ) (ms : ℕ) : Prop :=
  ((ms % 360000000 : ℕ) : ℤ) + d < 2 ^ 63 ∧
    (ms < 360000000 ∨ 0 ≤ ((ms % 360000000 : ℕ) : ℤ) + d ∧ ((ms % 360000000 : ℕ) : ℤ) + d < 360000000)

/-- What looks like a time in a text is zero, and the offset is negative. -/
def TextStays (isNd : Char → Bool) (d : ℤ) (text : List Char) : Prop :=
  ∀ parts ∈ findAll (offsetPattern isNd) 0 text,
    d < 0 ∧ parts.flatten ∈ ["00:00:00,000".toList, "00:00:00.000".toList]

/-- There is no offset, or each time and each text allows it. -/
def Shiftable (isNd : Char → Bool) (m : Markup) (cues : List SubtitleCue) (d : ℤ) : Prop :=
  d = 0 ∨ ∀ cue ∈ cues, TimeFits d cue.startMs ∧ TimeFits d cue.endMs ∧ TextStays isNd d (m.textOf cue)

/-! ### Matches -/

section Matches

variable {isNd : Char → Bool} {text : List Char} {parts : List (List Char)}

/-- **What a match is.** -/
theorem parts_of_matchAt (h : matchAt (offsetPattern isNd) text = some parts) :
    ∃ hours minutes seconds mark millis, parts = [hours, [':'], minutes, [':'], seconds, [mark], millis] ∧
      hours.length = 2 ∧ minutes.length = 2 ∧ seconds.length = 2 ∧ millis.length = 3 ∧
      (mark = ',' ∨ mark = '.') := by
  have hlit : ∀ {c : Char} {part : List Char}, part.length = 1 → (∀ d ∈ part, (d == c) = true) → part = [c] := by
    intro c part hlength hpart
    obtain ⟨d, rfl⟩ := List.length_eq_one_iff.mp hlength
    rw [beq_iff_eq.mp (hpart d List.mem_cons_self)]
  obtain ⟨hours, rest₁, later₁, -, hhours, -, h₁, rfl⟩ := matchAt_exactly_iff.mp h
  obtain ⟨colon, rest₂, later₂, -, hlength, hcolon, h₂, rfl⟩ := matchAt_exactly_iff.mp h₁
  obtain ⟨minutes, rest₃, later₃, -, hminutes, -, h₃, rfl⟩ := matchAt_exactly_iff.mp h₂
  obtain ⟨colon', rest₄, later₄, -, hlength', hcolon', h₄, rfl⟩ := matchAt_exactly_iff.mp h₃
  obtain ⟨seconds, rest₅, later₅, -, hseconds, -, h₅, rfl⟩ := matchAt_exactly_iff.mp h₄
  obtain ⟨mark, rest₆, later₆, -, hone, hmark, h₆, rfl⟩ := matchAt_exactly_iff.mp h₅
  obtain ⟨millis, rest₇, later₇, -, hmillis, -, h₇, rfl⟩ := matchAt_exactly_iff.mp h₆
  obtain ⟨c, rfl⟩ := List.length_eq_one_iff.mp hone
  have hc := hmark c List.mem_cons_self
  rw [Bool.or_eq_true, beq_iff_eq, beq_iff_eq] at hc
  obtain rfl : later₇ = [] := (Option.some.inj h₇).symm
  refine ⟨hours, minutes, seconds, c, millis, ?_, hhours, hminutes, hseconds, hmillis, hc⟩
  rw [hlit hlength hcolon, hlit hlength' hcolon']

theorem length_of_matchAt (h : matchAt (offsetPattern isNd) text = some parts) : parts.flatten.length = 12 := by
  obtain ⟨hours, minutes, seconds, mark, millis, rfl, hhours, hminutes, hseconds, hmillis, -⟩ := parts_of_matchAt h
  simp [hhours, hminutes, hseconds, hmillis]

theorem neverEmpty_offsetPattern : NeverEmpty (offsetPattern isNd) := by
  intro text parts h hnil
  have hlength := length_of_matchAt h
  rw [hnil] at hlength
  cases hlength

/-- There is no time without a colon. -/
theorem replaceAll_of_notMem {replace : List (List Char) → Run (List Char)} (h : ':' ∉ text) :
    replaceAll (offsetPattern isNd) replace 0 text = .ok text :=
  replaceAll_of_none fun _ htail => matchAt_exactly_lit_none fun hhead =>
    h (htail.subset (List.mem_of_mem_drop (List.mem_of_head? hhead)))

end Matches

/-! ### Times -/

section Times

variable {isNd : Char → Bool} {mark : Char} {ms : ℕ} {d : ℤ}

theorem signedNumber_padded {width n : ℕ} (h : n < 2 ^ 63) : signedNumber (Decimal.padded width n) = n := by
  rw [signedNumber, Decimal.parse_padded width h]
  rfl

theorem matchAt_formatTime (hdigits : TakesDigits isNd) (hmark : mark = ',' ∨ mark = '.') (h : ms < 360000000) :
    matchAt (offsetPattern isNd) (formatTime mark ms) = some (clockParts mark ms) := by
  have hhours : ms / 3600000 < 10 ^ 2 := by omega
  have hmins : ms % 3600000 / 60000 < 10 ^ 2 := by omega
  have hsecs : ms % 60000 / 1000 < 10 ^ 2 := by omega
  have hmillis : ms % 1000 < 10 ^ 3 := by omega
  have hone : ∀ c ∈ [mark], (c == ',' || c == '.') = true := by
    intro c hc
    rw [List.mem_singleton.mp hc]
    simpa using hmark
  have hlast := @matchAt_exactly [] isNd (Decimal.padded 3 (ms % 1000)) 3 (length_padded_of_lt (by decide) hmillis)
    (takes_padded hdigits _ _) []
  have hbefore := @matchAt_exactly [exactly 3 isNd] _ [mark] 1 rfl hone (Decimal.padded 3 (ms % 1000))
  rw [List.append_nil] at hlast
  rw [List.singleton_append] at hbefore
  rw [offsetPattern, formatTime,
    matchAt_exactly (length_padded_of_lt (by decide) hhours) (takes_padded hdigits _ _), matchAt_lit,
    matchAt_exactly (length_padded_of_lt (by decide) hmins) (takes_padded hdigits _ _), matchAt_lit,
    matchAt_exactly (length_padded_of_lt (by decide) hsecs) (takes_padded hdigits _ _), hbefore, hlast]
  rfl

theorem flatten_clockParts : (clockParts mark ms).flatten = formatTime mark ms := by
  simp [clockParts, formatTime]

/-- **The offset is added** to a time that was read. -/
theorem shiftTime_clockParts (h : ms < 360000000) : shiftTime d (clockParts mark ms) =
    (addSigned ms d >>= fun sum => .ok (formatTime mark (max sum 0).toNat)) := by
  have hsum : (signedNumber (Decimal.padded 2 (ms / 3600000)) * 3600000 +
      signedNumber (Decimal.padded 2 (ms % 3600000 / 60000)) * 60000 +
      signedNumber (Decimal.padded 2 (ms % 60000 / 1000)) * 1000 + signedNumber (Decimal.padded 3 (ms % 1000))) = ms := by
    rw [signedNumber_padded (by omega), signedNumber_padded (by omega), signedNumber_padded (by omega),
      signedNumber_padded (by omega)]
    omega
  have hall : shiftTime d (clockParts mark ms) =
      (addSigned (signedNumber (Decimal.padded 2 (ms / 3600000)) * 3600000 +
        signedNumber (Decimal.padded 2 (ms % 3600000 / 60000)) * 60000 +
        signedNumber (Decimal.padded 2 (ms % 60000 / 1000)) * 1000 + signedNumber (Decimal.padded 3 (ms % 1000))) d >>=
          fun sum => .ok (formatTime mark (max sum 0).toNat)) := rfl
  rw [hall, hsum]

/-- A time below 100 hours is one match. -/
theorem replaceAll_short (hdigits : TakesDigits isNd) (hmark : mark = ',' ∨ mark = '.') (h : ms < 360000000) :
    replaceAll (offsetPattern isNd) (shiftTime d) 0 (formatTime mark ms) =
      (addSigned ms d >>= fun sum => .ok (formatTime mark (max sum 0).toNat)) := by
  have hmatch := matchAt_formatTime hdigits hmark h
  have hlength := length_of_matchAt hmatch
  rw [flatten_clockParts] at hlength
  cases htext : formatTime mark ms with
  | nil =>
    rw [htext] at hlength
    cases hlength
  | cons c rest =>
    have hflat := @flatten_clockParts mark ms
    rw [htext] at hmatch hflat
    rw [replaceAll_some hmatch, shiftTime_clockParts h, hflat, replaceAll_skip, List.length_cons, Nat.add_sub_cancel,
      List.drop_length, replaceAll, bind_assoc]
    simp only [Checked.ok_bind, List.append_nil]

/-- The hours in front of the last two digits. -/
def hundreds (ms : ℕ) : List Char := if ms < 360000000 then [] else Nat.toDigits 10 (ms / 360000000)

theorem padded_of_hundred_le {n : ℕ} (h : 100 ≤ n) :
    Decimal.padded 2 n = Nat.toDigits 10 (n / 100) ++ Decimal.padded 2 (n % 100) := by
  have hlong : ¬ (Nat.toDigits 10 n).length ≤ 1 := by
    rw [Nat.length_toDigits_le_iff (by decide) (by decide)]
    omega
  have hnone : 2 - (Nat.toDigits 10 n).length = 0 := by omega
  have htens : n / 10 / 10 = n / 100 := by omega
  have htens' : n % 100 / 10 = n / 10 % 10 := by omega
  have hones : n % 100 % 10 = n % 10 := by omega
  rw [padded_of_lt_hundred (Nat.mod_lt n (by decide)), Decimal.padded, hnone,
    Nat.toDigits_of_base_le (by decide) (Nat.le_trans (by decide) h), Nat.toDigits_of_base_le (by decide) (by omega),
    htens, htens', hones]
  simp

/-- The last two digits of the hours, and the rest, are a time below 100 hours. -/
theorem formatTime_hundreds (mark : Char) (ms : ℕ) :
    formatTime mark ms = hundreds ms ++ formatTime mark (ms % 360000000) := by
  rw [hundreds]
  split
  · next h => rw [Nat.mod_eq_of_lt h, List.nil_append]
  · next h =>
    have hhours : ms / 3600000 / 100 = ms / 360000000 := by omega
    have hhours' : ms / 3600000 % 100 = ms % 360000000 / 3600000 := by omega
    have hmins : ms % 360000000 % 3600000 = ms % 3600000 := by omega
    have hsecs : ms % 360000000 % 60000 = ms % 60000 := by omega
    have hmillis : ms % 360000000 % 1000 = ms % 1000 := by omega
    rw [formatTime, formatTime, padded_of_hundred_le (by omega), hhours, hhours', hmins, hsecs, hmillis,
      List.append_assoc]

theorem isDigit_of_mem_hundreds {c : Char} (h : c ∈ hundreds ms) : c.isDigit = true := by
  rw [hundreds] at h
  split at h
  · cases h
  · exact Decimal.isDigit_of_mem h

/-- In front of a time with two digits for the hours, digits are no part of the match. -/
theorem replaceAll_digits {replace : List (List Char) → Run (List Char)} {front : List Char}
    (hfront : ∀ c ∈ front, c.isDigit = true) (ms : ℕ) :
    replaceAll (offsetPattern isNd) replace 0 (front ++ formatTime mark ms) =
      (replaceAll (offsetPattern isNd) replace 0 (formatTime mark ms) >>= fun text => .ok (front ++ text)) := by
  induction front with
  | nil =>
    rw [List.nil_append]
    cases replaceAll (offsetPattern isNd) replace 0 (formatTime mark ms) with
    | error stop => rfl
    | ok text => rfl
  | cons c front ih =>
    have hlong := two_le_length_padded (ms / 3600000)
    have hdigits : ∀ e ∈ c :: (front ++ Decimal.padded 2 (ms / 3600000)), e.isDigit = true := by
      intro e he
      rw [← List.cons_append, List.mem_append] at he
      cases he with
      | inl he => exact hfront e he
      | inr he => exact Decimal.isDigit_of_mem_padded he
    -- The third character is a digit, and no colon.
    have hthird : ((c :: (front ++ formatTime mark ms)).drop 2).head? ≠ some ':' := by
      intro hcolon
      have hsplit : c :: (front ++ formatTime mark ms) = (c :: (front ++ Decimal.padded 2 (ms / 3600000))) ++
          ':' :: (Decimal.padded 2 (ms % 3600000 / 60000) ++
            ':' :: (Decimal.padded 2 (ms % 60000 / 1000) ++ mark :: Decimal.padded 3 (ms % 1000))) := by
        simp [formatTime]
      have htwo : 2 < (c :: (front ++ Decimal.padded 2 (ms / 3600000))).length := by
        rw [List.length_cons, List.length_append]
        omega
      rw [hsplit, List.drop_append_of_le_length htwo.le, List.drop_eq_getElem_cons htwo, List.cons_append,
        List.head?_cons, Option.some.injEq] at hcolon
      have hdigit := hdigits _ (List.getElem_mem htwo)
      rw [hcolon] at hdigit
      exact absurd hdigit (by decide)
    have hnone : matchAt (offsetPattern isNd) (c :: (front ++ formatTime mark ms)) = none :=
      matchAt_exactly_lit_none hthird
    rw [List.cons_append, replaceAll_none hnone, ih fun e he => hfront e (List.mem_cons_of_mem c he), bind_assoc]
    rfl

/-- **What the offset makes of a time.** -/
theorem replaceAll_formatTime (hdigits : TakesDigits isNd) (hmark : mark = ',' ∨ mark = '.') (ms : ℕ) :
    replaceAll (offsetPattern isNd) (shiftTime d) 0 (formatTime mark ms) =
      (addSigned (ms % 360000000 : ℕ) d >>= fun sum => .ok (hundreds ms ++ formatTime mark (max sum 0).toNat)) := by
  rw [formatTime_hundreds mark ms, replaceAll_digits (fun c hc => isDigit_of_mem_hundreds hc),
    replaceAll_short hdigits hmark (Nat.mod_lt ms (by decide)), bind_assoc]
  rfl

/-- What has been written is written in one way only. -/
theorem hours_of_append_formatTime (hmark : mark = ',' ∨ mark = '.') {front : List Char}
    (hfront : ∀ c ∈ front, c.isDigit = true) {t t' : ℕ} (h : front ++ formatTime mark t = formatTime mark t') :
    front ++ Decimal.padded 2 (t / 3600000) = Decimal.padded 2 (t' / 3600000) ∧ t % 3600000 = t' % 3600000 := by
  have hnot : ∀ {c : Char} {digits : List Char}, c.isDigit = false → (∀ e ∈ digits, e.isDigit = true) →
      c ∉ digits := by
    intro c digits hc hdigits hmem
    rw [hdigits c hmem] at hc
    cases hc
  have hmark' : mark.isDigit = false := by
    cases hmark with
    | inl h => rw [h]; decide
    | inr h => rw [h]; decide
  have hpadded : ∀ {width n : ℕ} {c : Char}, c.isDigit = false → c ∉ Decimal.padded width n :=
    fun hc => hnot hc fun e he => Decimal.isDigit_of_mem_padded he
  have hhours : ':' ∉ front ++ Decimal.padded 2 (t / 3600000) := by
    rw [List.mem_append, not_or]
    exact ⟨hnot (by decide) hfront, hpadded (by decide)⟩
  rw [formatTime, formatTime, ← List.append_assoc] at h
  obtain ⟨hsame, h⟩ := List.append_cons_inj_of_not_mem hhours (hpadded (by decide)) h
  obtain ⟨hmins, h⟩ := List.append_cons_inj_of_not_mem (hpadded (by decide)) (hpadded (by decide)) h
  obtain ⟨hsecs, hmillis⟩ := List.append_cons_inj_of_not_mem (hpadded hmark') (hpadded hmark') h
  have hmins' := congrArg (fun digits => Nat.ofDigitChars 10 digits 0) hmins
  have hsecs' := congrArg (fun digits => Nat.ofDigitChars 10 digits 0) hsecs
  have hmillis' := congrArg (fun digits => Nat.ofDigitChars 10 digits 0) hmillis
  simp only [ofDigitChars_padded] at hmins' hsecs' hmillis'
  exact ⟨hsame, by omega⟩

theorem formatTime_inj (hmark : mark = ',' ∨ mark = '.') {t t' : ℕ} (h : formatTime mark t = formatTime mark t') :
    t = t' := by
  obtain ⟨hhours, hrest⟩ := @hours_of_append_formatTime mark hmark [] (by simp) t t' h
  have hvalue := congrArg (fun digits => Nat.ofDigitChars 10 digits 0) hhours
  simp only [List.nil_append, ofDigitChars_padded] at hvalue
  omega

/-- Two digits are enough below 100. -/
theorem lt_hundred_of_length {n : ℕ} (h : (Decimal.padded 2 n).length = 2) : n < 100 := by
  have hle : (Nat.toDigits 10 n).length ≤ 2 := by
    rw [Decimal.padded, List.length_append] at h
    omega
  exact (Nat.length_toDigits_le_iff (by decide) (by decide)).mp hle

/-- The hundreds of the hours stay where they are exactly if the rest stays below 100 hours. -/
theorem hundreds_append_iff (hmark : mark = ',' ∨ mark = '.') (h : 360000000 ≤ ms) :
    hundreds ms ++ formatTime mark (max (((ms % 360000000 : ℕ) : ℤ) + d) 0).toNat = formatTime mark (shifted d ms) ↔
      0 ≤ ((ms % 360000000 : ℕ) : ℤ) + d ∧ ((ms % 360000000 : ℕ) : ℤ) + d < 360000000 := by
  obtain ⟨t, ht⟩ : ∃ t, (max (((ms % 360000000 : ℕ) : ℤ) + d) 0).toNat = t := ⟨_, rfl⟩
  rw [ht]
  constructor
  · intro heq
    obtain ⟨hhours, hrest⟩ := hours_of_append_formatTime hmark (fun c hc => isDigit_of_mem_hundreds hc) heq
    have hvalue := congrArg (fun digits => Nat.ofDigitChars 10 digits 0) hhours
    simp only [ofDigitChars_padded] at hvalue
    rw [hundreds, if_neg (by omega), Nat.ofDigitChars_append, Nat.ofDigitChars_ten_toDigits,
      Nat.ofDigitChars_eq_ofDigitChars_zero, ofDigitChars_padded] at hvalue
    have hlong := two_le_length_padded (t / 3600000)
    by_cases htwo : (Decimal.padded 2 (t / 3600000)).length = 2
    · have hlt := lt_hundred_of_length htwo
      rw [htwo] at hvalue
      simp only [shifted] at hvalue hrest
      omega
    · -- More digits of the rest make the hundreds larger.
      have hpow : 10 ^ 3 ≤ 10 ^ (Decimal.padded 2 (t / 3600000)).length :=
        Nat.pow_le_pow_right (by decide) (by omega)
      have hlarge := Nat.mul_le_mul_right (ms / 360000000) hpow
      simp only [shifted] at hvalue hrest
      omega
  · intro hfits
    have hshifted : shifted d ms % 360000000 = t ∧ shifted d ms / 360000000 = ms / 360000000 := by
      rw [shifted]
      omega
    have hhundreds : hundreds (shifted d ms) = hundreds ms := by
      rw [hundreds, hundreds, if_neg (by rw [shifted]; omega), if_neg (by omega), hshifted.2]
    rw [formatTime_hundreds mark (shifted d ms), hshifted.1, hhundreds]

/-- **When a time is shifted**, and rightly. -/
theorem shifts_time_iff (hdigits : TakesDigits isNd) (hmark : mark = ',' ∨ mark = '.') (hd : -2 ^ 63 ≤ d) (ms : ℕ) :
    replaceAll (offsetPattern isNd) (shiftTime d) 0 (formatTime mark ms) = .ok (formatTime mark (shifted d ms)) ↔
      TimeFits d ms := by
  rw [replaceAll_formatTime hdigits hmark, addSigned, TimeFits]
  by_cases hfits : ((ms % 360000000 : ℕ) : ℤ) + d < 2 ^ 63
  · rw [if_pos ⟨by omega, hfits⟩, Checked.ok_bind, Except.ok.injEq]
    by_cases hshort : ms < 360000000
    · have hshifted : (max (((ms % 360000000 : ℕ) : ℤ) + d) 0).toNat = shifted d ms := by
        rw [shifted, Nat.mod_eq_of_lt hshort, Int.max_comm]
      rw [hundreds, if_pos hshort, List.nil_append, hshifted]
      exact iff_of_true rfl ⟨hfits, .inl hshort⟩
    · rw [hundreds_append_iff hmark (by omega)]
      exact ⟨fun h => ⟨hfits, .inr h⟩, fun h => h.2.resolve_left hshort⟩
  · rw [if_neg fun h => hfits h.2, Checked.error_bind]
    exact iff_of_false (fun h => nomatch h) fun h => hfits h.1

end Times

/-! ### Texts -/

section Texts

variable {isNd : Char → Bool} {text : List Char} {parts : List (List Char)} {d : ℤ}

/-- What a match becomes is written like a time. -/
theorem shiftTime_of_matchAt (hmatch : matchAt (offsetPattern isNd) text = some parts) {new : List Char}
    (h : shiftTime d parts = .ok new) : ∃ mark t, (mark = ',' ∨ mark = '.') ∧ new = formatTime mark t := by
  obtain ⟨hours, minutes, seconds, mark, millis, rfl, -, -, -, -, hmark⟩ := parts_of_matchAt hmatch
  obtain ⟨sum, -, hnew⟩ := Checked.bind_ok_iff.mp h
  exact ⟨mark, (max sum 0).toNat, hmark, (Except.ok.inj hnew).symm⟩

theorem length_formatTime (mark : Char) (t : ℕ) :
    (formatTime mark t).length = (Decimal.padded 2 (t / 3600000)).length + 10 := by
  have hmins : (Decimal.padded 2 (t % 3600000 / 60000)).length = 2 := length_padded_of_lt (by decide) (by omega)
  have hsecs : (Decimal.padded 2 (t % 60000 / 1000)).length = 2 := length_padded_of_lt (by decide) (by omega)
  have hmillis : (Decimal.padded 3 (t % 1000)).length = 3 := length_padded_of_lt (by decide) (by omega)
  simp only [formatTime, List.length_append, List.length_cons, hmins, hsecs, hmillis]

/-- A match that is written like a time has the parts of one. -/
theorem parts_eq_clockParts (hmatch : matchAt (offsetPattern isNd) text = some parts) {mark : Char} {t : ℕ}
    (h : parts.flatten = formatTime mark t) : t < 360000000 ∧ parts = clockParts mark t := by
  have hlength := length_of_matchAt hmatch
  rw [h, length_formatTime] at hlength
  have htwo : (Decimal.padded 2 (t / 3600000)).length = 2 := by omega
  have hmins : (Decimal.padded 2 (t % 3600000 / 60000)).length = 2 := length_padded_of_lt (by decide) (by omega)
  have hsecs : (Decimal.padded 2 (t % 60000 / 1000)).length = 2 := length_padded_of_lt (by decide) (by omega)
  have hlt := lt_hundred_of_length htwo
  obtain ⟨hours, minutes, seconds, mark', millis, rfl, hhours, hminutes, hseconds, -, -⟩ := parts_of_matchAt hmatch
  have hall : hours ++ ':' :: (minutes ++ ':' :: (seconds ++ mark' :: millis)) = formatTime mark t := by
    rw [← h]
    simp
  obtain ⟨hsame₁, hrest₁⟩ := List.append_inj hall (hhours.trans htwo.symm)
  obtain ⟨hsame₂, hrest₂⟩ := List.append_inj (List.cons.inj hrest₁).2 (hminutes.trans hmins.symm)
  obtain ⟨hsame₃, hrest₃⟩ := List.append_inj (List.cons.inj hrest₂).2 (hseconds.trans hsecs.symm)
  obtain ⟨hsame₄, hsame₅⟩ := List.cons.inj hrest₃
  refine ⟨by omega, ?_⟩
  rw [hsame₁, hsame₂, hsame₃, hsame₄, hsame₅]
  rfl

/-- **A match stays as it is exactly if** it is zero and the offset is negative. -/
theorem shiftTime_eq_self_iff (hne : d ≠ 0) (hd : -2 ^ 63 ≤ d)
    (hmatch : matchAt (offsetPattern isNd) text = some parts) : shiftTime d parts = .ok parts.flatten ↔
      d < 0 ∧ parts.flatten ∈ ["00:00:00,000".toList, "00:00:00.000".toList] := by
  have hzero : ["00:00:00,000".toList, "00:00:00.000".toList] = [formatTime ',' 0, formatTime '.' 0] := by decide
  rw [hzero]
  constructor
  · intro h
    obtain ⟨mark, t, hmark, hflat⟩ := shiftTime_of_matchAt hmatch h
    obtain ⟨hshort, hparts⟩ := parts_eq_clockParts hmatch hflat
    rw [hflat, hparts, shiftTime_clockParts hshort] at h
    obtain ⟨sum, hsum, hnew⟩ := Checked.bind_ok_iff.mp h
    have hsame := formatTime_inj hmark (Except.ok.inj hnew)
    have hadd : sum = t + d := by
      rw [addSigned] at hsum
      split at hsum
      · exact (Except.ok.inj hsum).symm
      · cases hsum
    obtain rfl : t = 0 := by omega
    refine ⟨by omega, ?_⟩
    rw [hflat]
    cases hmark with
    | inl h => simp [h]
    | inr h => simp [h]
  · intro h
    obtain ⟨hneg, hmem⟩ := h
    obtain ⟨mark, hflat⟩ : ∃ mark, parts.flatten = formatTime mark 0 := by
      rw [List.mem_cons, List.mem_singleton] at hmem
      cases hmem with
      | inl h => exact ⟨_, h⟩
      | inr h => exact ⟨_, h⟩
    obtain ⟨hshort, hparts⟩ := parts_eq_clockParts hmatch hflat
    have hsum : addSigned (0 : ℕ) d = .ok d := by
      rw [addSigned, if_pos ⟨by omega, by omega⟩]
      simp
    have hmax : (max d 0).toNat = 0 := by omega
    rw [hflat, hparts, shiftTime_clockParts hshort, hsum, Checked.ok_bind, hmax]

/-- **A text stays as it is exactly if** what looks like a time in it does. -/
theorem replaceAll_text_iff (hne : d ≠ 0) (hd : -2 ^ 63 ≤ d) (text : List Char) :
    replaceAll (offsetPattern isNd) (shiftTime d) 0 text = .ok text ↔ TextStays isNd d text := by
  have hgrows : ∀ text parts new, matchAt (offsetPattern isNd) text = some parts → shiftTime d parts = .ok new →
      parts.flatten.length ≤ new.length := by
    intro text parts new hmatch hnew
    obtain ⟨mark, t, -, rfl⟩ := shiftTime_of_matchAt hmatch hnew
    have hlong := two_le_length_padded (t / 3600000)
    rw [length_of_matchAt hmatch, length_formatTime]
    omega
  rw [TextStays]
  refine (replaceAll_eq_self_iff neverEmpty_offsetPattern hgrows 0).trans (forall₂_congr fun parts hparts => ?_)
  obtain ⟨tail, hmatch⟩ := exists_matchAt_of_mem_findAll hparts
  exact shiftTime_eq_self_iff hne hd hmatch

end Texts

/-! ### Cues -/

section Cues

variable {isNd : Char → Bool} {m : Markup} {d : ℤ}

theorem Markup.mark_spec (m : Markup) : m.mark = ',' ∨ m.mark = '.' := by
  cases m with
  | srt => exact .inl rfl
  | vtt => exact .inr rfl

theorem textOf_shift (m : Markup) (cue : SubtitleCue) : m.textOf (cue.shift d) = m.textOf cue := by
  cases m with
  | srt => rfl
  | vtt => rfl

theorem stops_of_not {c : Char} (h : isNd c = false) (hother : c ∉ [':', ',', '.']) :
    ∀ piece ∈ offsetPattern isNd, piece.accepts c = false := by
  simp only [List.mem_cons, List.not_mem_nil, or_false, not_or] at hother
  intro piece hpiece
  simp only [offsetPattern, List.mem_cons, List.not_mem_nil, or_false] at hpiece
  rcases hpiece with rfl | rfl | rfl | rfl | rfl | rfl | rfl
  · exact h
  · simpa [lit] using hother.1
  · exact h
  · simpa [lit] using hother.1
  · exact h
  · simpa [exactly] using hother.2
  · exact h

/-- No time is longer than a line, or than what stands between two spaces. -/
theorem stops_white (hspace : ∀ c : Char, c.isWhiteSpace = true → isNd c = false) {c : Char}
    (hc : c = '\n' ∨ c = ' ') : ∀ piece ∈ offsetPattern isNd, piece.accepts c = false := by
  cases hc with
  | inl h => exact stops_of_not (hspace c (by rw [h]; decide)) (by rw [h]; decide)
  | inr h => exact stops_of_not (hspace c (by rw [h]; decide)) (by rw [h]; decide)

theorem count_shifted (hspace : ∀ c : Char, c.isWhiteSpace = true → isNd c = false) {c : Char}
    (hc : c = '\n' ∨ c = ' ') {text out : List Char}
    (h : replaceAll (offsetPattern isNd) (shiftTime d) 0 text = .ok out) : out.count c = text.count c := by
  refine count_replaceAll (stops_white hspace hc) neverEmpty_offsetPattern ?_ h
  intro text parts new hmatch hnew hmem
  obtain ⟨mark, t, hmark, rfl⟩ := shiftTime_of_matchAt hmatch hnew
  have hmem' := mem_formatTime hmem
  rcases hc with rfl | rfl
  · rcases hmark with rfl | rfl
    · exact absurd hmem' (by decide)
    · exact absurd hmem' (by decide)
  · rcases hmark with rfl | rfl
    · exact absurd hmem' (by decide)
    · exact absurd hmem' (by decide)

/-- **What the offset makes of the text of a cue**: of its times and its text. -/
theorem replaceAll_cueText (hspace : ∀ c : Char, c.isWhiteSpace = true → isNd c = false) (i : ℕ)
    (cue : SubtitleCue) (rest : List Char) :
    replaceAll (offsetPattern isNd) (shiftTime d) 0 (m.cueText i cue ++ rest) =
      (replaceAll (offsetPattern isNd) (shiftTime d) 0 (formatTime m.mark cue.startMs) >>= fun startText =>
        replaceAll (offsetPattern isNd) (shiftTime d) 0 (formatTime m.mark cue.endMs) >>= fun endText =>
        replaceAll (offsetPattern isNd) (shiftTime d) 0 (m.textOf cue) >>= fun text =>
        replaceAll (offsetPattern isNd) (shiftTime d) 0 rest >>= fun rest' =>
          .ok (Nat.toDigits 10 (i + 1) ++ '\n' :: (startText ++ ' ' :: ("-->".toList ++ ' ' :: (endText ++
            '\n' :: (text ++ '\n' :: '\n' :: rest')))))) := by
  have hsplit : m.cueText i cue ++ rest = Nat.toDigits 10 (i + 1) ++ '\n' :: (formatTime m.mark cue.startMs ++
      ' ' :: ("-->".toList ++ ' ' :: (formatTime m.mark cue.endMs ++
        '\n' :: (m.textOf cue ++ '\n' :: ([] ++ '\n' :: rest))))) := by
    simp [Markup.cueText, timeLine]
  have hfeed := stops_white hspace (.inl rfl)
  have hblank := stops_white hspace (.inr rfl)
  have hcounter : ':' ∉ Nat.toDigits 10 (i + 1) := Decimal.notMem_digits (by decide)
  have harrow : ':' ∉ "-->".toList := by decide
  have hnone : ':' ∉ ([] : List Char) := List.not_mem_nil
  rw [hsplit, replaceAll_append_stop hfeed neverEmpty_offsetPattern, replaceAll_of_notMem hcounter,
    replaceAll_append_stop hblank neverEmpty_offsetPattern, replaceAll_append_stop hblank neverEmpty_offsetPattern,
    replaceAll_of_notMem harrow, replaceAll_append_stop hfeed neverEmpty_offsetPattern,
    replaceAll_append_stop hfeed neverEmpty_offsetPattern, replaceAll_append_stop hfeed neverEmpty_offsetPattern,
    replaceAll_of_notMem hnone]
  simp only [bind_assoc, Checked.ok_bind, List.nil_append]

/-- **The text of a cue is shifted exactly if** its times are and its text stays as it is. -/
theorem shifts_cueText_iff (hdigits : TakesDigits isNd) (hspace : ∀ c : Char, c.isWhiteSpace = true → isNd c = false)
    (hne : d ≠ 0) (hd : -2 ^ 63 ≤ d) (i : ℕ) (cue : SubtitleCue) (rest target : List Char) :
    replaceAll (offsetPattern isNd) (shiftTime d) 0 (m.cueText i cue ++ rest) =
        .ok (m.cueText i (cue.shift d) ++ target) ↔
      (TimeFits d cue.startMs ∧ TimeFits d cue.endMs ∧ TextStays isNd d (m.textOf cue)) ∧
        replaceAll (offsetPattern isNd) (shiftTime d) 0 rest = .ok target := by
  have htarget : m.cueText i (cue.shift d) ++ target = Nat.toDigits 10 (i + 1) ++
      '\n' :: (formatTime m.mark (shifted d cue.startMs) ++ ' ' :: ("-->".toList ++
        ' ' :: (formatTime m.mark (shifted d cue.endMs) ++ '\n' :: (m.textOf cue ++ '\n' :: '\n' :: target)))) := by
    rw [Markup.cueText, textOf_shift]
    simp [timeLine, SubtitleCue.shift]
  rw [replaceAll_cueText hspace, htarget, ← shifts_time_iff hdigits m.mark_spec hd cue.startMs,
    ← shifts_time_iff hdigits m.mark_spec hd cue.endMs, ← replaceAll_text_iff hne hd]
  constructor
  · intro h
    obtain ⟨startText, hstart, h⟩ := Checked.bind_ok_iff.mp h
    obtain ⟨endText, hend, h⟩ := Checked.bind_ok_iff.mp h
    obtain ⟨text, htext, h⟩ := Checked.bind_ok_iff.mp h
    obtain ⟨rest', hrest, h⟩ := Checked.bind_ok_iff.mp h
    have hcount : ∀ {c : Char} {ms ms' : ℕ}, c = '\n' ∨ c = ' ' →
        (formatTime m.mark ms).count c = (formatTime m.mark ms').count c := by
      intro c ms ms' hc
      have hnot : ∀ ms, c ∉ formatTime m.mark ms := by
        intro ms hmem
        have hmem' := mem_formatTime hmem
        have hmark := m.mark_spec
        rcases hc with rfl | rfl
        · rcases hmark with h | h
          · rw [h] at hmem'
            exact absurd hmem' (by decide)
          · rw [h] at hmem'
            exact absurd hmem' (by decide)
        · rcases hmark with h | h
          · rw [h] at hmem'
            exact absurd hmem' (by decide)
          · rw [h] at hmem'
            exact absurd hmem' (by decide)
      rw [List.count_eq_zero.mpr (hnot ms), List.count_eq_zero.mpr (hnot ms')]
    -- Each piece ends where it did before.
    have h₁ := (List.cons.inj (List.append_cancel_left (Except.ok.inj h))).2
    obtain ⟨rfl, h₂⟩ := List.append_cons_inj_of_count
      ((count_shifted hspace (.inr rfl) hstart).trans (hcount (.inr rfl))) h₁
    have h₃ := (List.cons.inj (List.append_cancel_left h₂)).2
    obtain ⟨rfl, h₄⟩ := List.append_cons_inj_of_count
      ((count_shifted hspace (.inl rfl) hend).trans (hcount (.inl rfl))) h₃
    obtain ⟨rfl, h₅⟩ := List.append_cons_inj_of_count (count_shifted hspace (.inl rfl) htext) h₄
    obtain rfl := (List.cons.inj h₅).2
    exact ⟨⟨hstart, hend, htext⟩, hrest⟩
  · intro h
    obtain ⟨⟨hstart, hend, htext⟩, hrest⟩ := h
    rw [hstart, hend, htext, hrest]
    rfl

theorem shifts_cueTexts_iff (hdigits : TakesDigits isNd) (hspace : ∀ c : Char, c.isWhiteSpace = true → isNd c = false)
    (hne : d ≠ 0) (hd : -2 ^ 63 ≤ d) (i : ℕ) (cues : List SubtitleCue) :
    replaceAll (offsetPattern isNd) (shiftTime d) 0 (m.cueTexts i cues) =
        .ok (m.cueTexts i (cues.map (SubtitleCue.shift d))) ↔
      ∀ cue ∈ cues, TimeFits d cue.startMs ∧ TimeFits d cue.endMs ∧ TextStays isNd d (m.textOf cue) := by
  induction cues generalizing i with
  | nil => exact iff_of_true rfl fun cue hcue => nomatch hcue
  | cons cue cues ih =>
    rw [List.map_cons, Markup.cueTexts, Markup.cueTexts, shifts_cueText_iff hdigits hspace hne hd, ih,
      List.forall_mem_cons]

theorem Markup.header_spec (m : Markup) : m.header = [] ∨ m.header = "WEBVTT".toList ++ ['\n', '\n'] := by
  cases m with
  | srt => exact .inl rfl
  | vtt => exact .inr (by decide)

theorem replaceAll_header (hspace : ∀ c : Char, c.isWhiteSpace = true → isNd c = false) (m : Markup)
    (rest : List Char) : replaceAll (offsetPattern isNd) (shiftTime d) 0 (m.header ++ rest) =
      (replaceAll (offsetPattern isNd) (shiftTime d) 0 rest >>= fun rest' => .ok (m.header ++ rest')) := by
  rcases m.header_spec with h | h
  · rw [h, List.nil_append]
    exact (bind_pure _).symm
  · have hfeed := stops_white hspace (.inl rfl)
    have hname : ':' ∉ "WEBVTT".toList := by decide
    have hnone : ':' ∉ ([] : List Char) := List.not_mem_nil
    have hsplit : "WEBVTT".toList ++ ['\n', '\n'] ++ rest = "WEBVTT".toList ++ '\n' :: ([] ++ '\n' :: rest) := by
      rw [List.append_assoc]
      rfl
    rw [h, hsplit, replaceAll_append_stop hfeed neverEmpty_offsetPattern, replaceAll_of_notMem hname,
      replaceAll_append_stop hfeed neverEmpty_offsetPattern, replaceAll_of_notMem hnone]
    simp only [bind_assoc, Checked.ok_bind, List.append_assoc, List.cons_append, List.nil_append]

/-- **The offset shifts the times exactly if** each of them and each text allows it. -/
theorem shiftsExactly_iff (hdigits : TakesDigits isNd) (hspace : ∀ c : Char, c.isWhiteSpace = true → isNd c = false)
    (hd : -2 ^ 63 ≤ d) (cues : List SubtitleCue) : ShiftsExactly isNd m cues d ↔ Shiftable isNd m cues d := by
  have hreads : ∀ cue ∈ cues, ∀ ms ∈ [cue.startMs, cue.endMs], ∃ stamp : Stamp, stamp.hours.isSome ∧
      stamp.text m.mark = formatTime m.mark (shifted d ms) ∧ stamp.ms = shifted d ms :=
    fun _ _ ms _ => ⟨Stamp.ofMs (shifted d ms), rfl, text_ofMs _ _, ms_ofMs _⟩
  have hiff : ShiftsExactly isNd m cues d ↔
      applySubtitleOffset isNd (m.render cues) d = .ok (m.render (cues.map (SubtitleCue.shift d))) :=
    ⟨fun h => h.shifts, fun h => ⟨h, hreads⟩⟩
  rw [hiff, applySubtitleOffset, Shiftable]
  by_cases hzero : d = 0
  · have hsame : cues.map (SubtitleCue.shift d) = cues := by
      refine List.map_id'' (fun cue => ?_) cues
      simp [SubtitleCue.shift, shifted, hzero]
    rw [if_pos hzero, hsame]
    exact iff_of_true rfl (.inl hzero)
  · rw [if_neg hzero, or_iff_right hzero, ← shifts_cueTexts_iff hdigits hspace hzero hd 0, Markup.render,
      Markup.render, replaceAll_header hspace, Checked.bind_ok_iff]
    constructor
    · intro h
      obtain ⟨text, htext, hall⟩ := h
      rw [htext, List.append_cancel_left (Except.ok.inj hall)]
    · exact fun h => ⟨_, h, rfl⟩

theorem shift_shift {e : ℤ} {cue : SubtitleCue}
    (h : ∀ ms ∈ [cue.startMs, cue.endMs], 0 ≤ (ms : ℤ) + d ∧ 0 ≤ (ms : ℤ) + d + e) :
    (cue.shift d).shift e = cue.shift (d + e) := by
  have hms : ∀ ms ∈ [cue.startMs, cue.endMs], shifted e (shifted d ms) = shifted (d + e) ms := by
    intro ms hmem
    have hboth := h ms hmem
    simp only [shifted]
    omega
  rw [SubtitleCue.shift, SubtitleCue.shift, SubtitleCue.shift, hms _ List.mem_cons_self,
    hms _ (List.mem_cons_of_mem _ List.mem_cons_self)]

/-- **The offset shifts the times exactly if** each of them and each text allows it.  Where no time gets below zero
and two offsets, one behind the other, shift the times, they come to their sum exactly if it shifts them too. -/
theorem shiftsExactly_iff_and_add (hdigits : TakesDigits isNd)
    (hspace : ∀ c : Char, c.isWhiteSpace = true → isNd c = false) (m : Markup) (cues : List SubtitleCue) {d e : ℤ}
    (hd : -2 ^ 63 ≤ d) (he : -2 ^ 63 ≤ e) (hsum : -2 ^ 63 ≤ d + e) :
    (ShiftsExactly isNd m cues d ↔ Shiftable isNd m cues d) ∧
      ((∀ cue ∈ cues, ∀ ms ∈ [cue.startMs, cue.endMs], 0 ≤ (ms : ℤ) + d ∧ 0 ≤ (ms : ℤ) + d + e) →
        Shiftable isNd m cues d → Shiftable isNd m (cues.map (SubtitleCue.shift d)) e →
        ((applySubtitleOffset isNd (m.render cues) d >>= fun text => applySubtitleOffset isNd text e) =
            applySubtitleOffset isNd (m.render cues) (d + e) ↔
          Shiftable isNd m cues (d + e))) := by
  refine ⟨shiftsExactly_iff hdigits hspace hd cues, fun hunclamped hfirst hsecond => ?_⟩
  have hcues : (cues.map (SubtitleCue.shift d)).map (SubtitleCue.shift e) = cues.map (SubtitleCue.shift (d + e)) := by
    rw [List.map_map, List.map_inj_left]
    exact fun cue hcue => shift_shift (hunclamped cue hcue)
  have hfirst' := ((shiftsExactly_iff hdigits hspace hd cues).mpr hfirst).shifts
  have hsecond' := ((shiftsExactly_iff hdigits hspace he _).mpr hsecond).shifts
  rw [hfirst', Checked.ok_bind, hsecond', hcues, ← shiftsExactly_iff hdigits hspace hsum]
  constructor
  · intro h
    refine ⟨h.symm, fun _ _ ms _ => ?_⟩
    exact ⟨Stamp.ofMs (shifted (d + e) ms), rfl, text_ofMs _ _, ms_ofMs _⟩
  · exact fun h => h.shifts.symm

/-- A cue of one second. -/
def oneSecond (text : List Char) : SubtitleCue := ⟨1000, 2000, text, none⟩

theorem oneSecond_shifts : ShiftsExactly Char.isDigit .srt [oneSecond ['H', 'i']] (-500) ∧
    (applySubtitleOffset Char.isDigit (Markup.srt.render [oneSecond ['H', 'i']]) (-500) >>=
      fun text => applySubtitleOffset Char.isDigit text 700) =
        applySubtitleOffset Char.isDigit (Markup.srt.render [oneSecond ['H', 'i']]) (-500 + 700) := by
  have hshiftable : ∀ (cue : SubtitleCue) (d : ℤ), cue.startMs ≤ 2000 → cue.endMs ≤ 2000 → cue.text = ['H', 'i'] →
      d < 1000 → Shiftable Char.isDigit .srt [cue] d := by
    intro cue d hstart hend htext hd
    refine .inr fun cue' hcue' => ?_
    have hstays : TextStays Char.isDigit d ['H', 'i'] := fun parts hparts => nomatch hparts
    rw [List.mem_singleton.mp hcue', Markup.textOf, htext, TimeFits, TimeFits]
    exact ⟨by omega, by omega, hstays⟩
  obtain ⟨hiff, hadd⟩ := @shiftsExactly_iff_and_add Char.isDigit (fun _ hc => hc) (fun _ hc => not_isDigit_of_white hc)
    .srt [oneSecond ['H', 'i']] (-500) 700 (by decide) (by decide) (by decide)
  have hfirst := hshiftable (oneSecond ['H', 'i']) (-500) (by decide) (by decide) rfl (by decide)
  have hsecond := hshiftable ((oneSecond ['H', 'i']).shift (-500)) 700 (by decide) (by decide) rfl (by decide)
  have hboth := hshiftable (oneSecond ['H', 'i']) (-500 + 700) (by decide) (by decide) rfl (by decide)
  exact ⟨hiff.mpr hfirst, (hadd (by decide) hfirst hsecond).mpr hboth⟩

/-- In the text of a cue, a time is shifted as well. -/
theorem clockInText_not_shifts : ¬ ShiftsExactly Char.isDigit .vtt [oneSecond "At 12:00:00.000".toList] 1000 := by
  intro h
  exact absurd h.shifts (by decide)

end Cues

end StreamServer.Subtitles

import StreamServer.Lib.Checked
import StreamServer.Lib.Decimal
import StreamServer.Lib.Occurrence
import StreamServer.Lib.Paragraphs
import StreamServer.Lib.Pattern

/-!
# Subtitles

Subtitles are read as SRT, ASS or WebVTT and written as WebVTT.  The first and the last of these are
cut at blank lines; an ASS file is searched for lines of dialogue.

What counts as a digit in the patterns is a parameter: they take the decimal digits of all scripts, as far
as the tables of the library go.  Only the ASCII ones have a value.

## Main definitions

* `parseSrt`, `parseAss`, `parseVtt`, `parse` — the readers; the time of a line of dialogue may overflow.
* `applyVttStyling`, `toVtt` — the writer.

## References

`enginefs/src/subtitles.rs`.
-/

namespace StreamServer.Subtitles

open Checked Pattern

/-- `SubFormat`. -/
inductive SubFormat
  | srt
  | ass
  | vtt
  | unknown
  deriving DecidableEq, Repr

/-- `CueStyle`. -/
structure CueStyle where
  color : Option (List Char)
  bold : Bool
  italic : Bool
  underline : Bool
  deriving DecidableEq, Repr

/-- `SubtitleCue`. -/
structure SubtitleCue where
  startMs : ℕ
  endMs : ℕ
  text : List Char
  style : Option CueStyle
  deriving DecidableEq, Repr

/-- `ParsedSubtitle`. -/
structure ParsedSubtitle where
  format : SubFormat
  cues : List SubtitleCue
  deriving DecidableEq, Repr

/-- `contains`, for a text. -/
def containsText (text : List Char) (pattern : String) : Bool :=
  (text.occurrence? pattern.toList).isSome

/-- A style, if anything in it is set. -/
def CueStyle.ifSet (style : CueStyle) : Option CueStyle :=
  if style.bold || style.italic || style.underline || style.color.isSome then some style else none

/-! ### Times -/

/-- `parse().unwrap_or(0)`. -/
def number (digits : List Char) : ℕ := (Decimal.parse (2 ^ 64) digits).getD 0

/-- The parts of a time of day, up to milliseconds. -/
def parseTimeComponents (hours mins secs millis : List Char) : ℕ :=
  number hours * 3600000 + number mins * 60000 + number secs * 1000 + number millis

/-- The time of a line of dialogue, up to hundredths; there may be any number of hours. -/
def parseAssTime (hours mins secs centis : List Char) : Run ℕ := do
  let ms ← mul (2 ^ 64) (number hours) 3600000
  let ms ← add (2 ^ 64) ms (number mins * 60000)
  let ms ← add (2 ^ 64) ms (number secs * 1000)
  add (2 ^ 64) ms (number centis * 10)

/-- `HH:MM:SS,mmm`, with this mark in front of the milliseconds. -/
def clockPattern (isNd : Char → Bool) (mark : Char) : List Piece :=
  [exactly 2 isNd, lit ':', exactly 2 isNd, lit ':', exactly 2 isNd, lit mark, exactly 3 isNd]

/-- Two times of day with an arrow between them. -/
def timestampPattern (isNd : Char → Bool) (mark : Char) : List Piece :=
  many Char.isWhiteSpace :: (clockPattern isNd mark ++
    many Char.isWhiteSpace :: (word "-->" ++ many Char.isWhiteSpace :: clockPattern isNd mark))

/-- The time whose hours are the part with this number. -/
def clockTime (parts : List (List Char)) (first : ℕ) : ℕ :=
  parseTimeComponents (parts.getD first []) (parts.getD (first + 2) []) (parts.getD (first + 4) [])
    (parts.getD (first + 6) [])

/-- The two times on a line. -/
def timesOn (isNd : Char → Bool) (mark : Char) (line : List Char) : Option (ℕ × ℕ) :=
  (matchAt (timestampPattern isNd mark) line).map fun parts => (clockTime parts 1, clockTime parts 13)

/-! ### SRT -/

/-- The expression of a font tag with a color. -/
def fontPattern : List Piece :=
  word "<font" ++ many1 Char.isWhiteSpace :: (word "color=" ++
    [optional fun c => c == '"' || c == '\'', many1 fun c => !(c == '"' || c == '\'' || c == '>'),
      optional fun c => c == '"' || c == '\'', lit '>'])

/-- What is taken for a tag. -/
def tagPattern : List Piece := [lit '<', many1 (· != '>'), lit '>']

/-- `parse_srt_styling`: the text without its tags, and the style they give. -/
def parseSrtStyling (text : List Char) : List Char × Option CueStyle :=
  let style : CueStyle :=
    { color := (find? fontPattern text).map fun parts => parts.getD 13 []
      bold := containsText text "<b>" || containsText text "<B>"
      italic := containsText text "<i>" || containsText text "<I>"
      underline := containsText text "<u>" || containsText text "<U>" }
  (removeAll tagPattern 0 text, style.ifSet)

/-- A cue is read from a block with times on its second line. -/
def parseSrtBlock (isNd : Char → Bool) (block : List Char) : Option SubtitleCue :=
  match block.textLines with
  | _ :: timestampLine :: lines =>
      (timesOn isNd ',' timestampLine).map fun times =>
        let styled := parseSrtStyling (List.unlines lines).trim
        ⟨times.1, times.2, styled.1, styled.2⟩
  | _ => none

/-- `parse_srt`. -/
def parseSrt (isNd : Char → Bool) (content : List Char) : List SubtitleCue :=
  content.unixLines.paragraphs.filterMap (parseSrtBlock isNd)

/-! ### ASS -/

/-- `H:MM:SS.cc`. -/
def assClockPattern (isNd : Char → Bool) : List Piece :=
  [many1 isNd, lit ':', exactly 2 isNd, lit ':', exactly 2 isNd, lit '.', exactly 2 isNd]

/-- The expression of a line of dialogue. -/
def dialoguePattern (isNd : Char → Bool) : List Piece :=
  let field := many (· != ',')
  word "Dialogue:" ++ many Char.isWhiteSpace :: many1 isNd :: lit ',' ::
    (assClockPattern isNd ++ lit ',' :: (assClockPattern isNd ++
      [lit ',', field, lit ',', field, lit ',', many1 isNd, lit ',', many1 isNd, lit ',', many1 isNd,
        lit ',', field, lit ',', many (· != '\n')]))

/-- A digit of a color. -/
def isHexDigit (c : Char) : Bool :=
  c.isDigit || ('A' ≤ c && c ≤ 'F') || ('a' ≤ c && c ≤ 'f')

/-- The expression of a color. -/
def assColorPattern : List Piece :=
  [lit '\\', optional (· == '1'), lit 'c', lit '&', lit 'H', exactly 6 isHexDigit, lit '&']

/-- The colour with its bytes the other way round. -/
def rgb (bgr : List Char) : List Char :=
  '#' :: ((bgr.drop 4).take 2 ++ (bgr.drop 2).take 2 ++ bgr.take 2)

/-- What is taken for an override. -/
def overridePattern : List Piece := [lit '\x7b', many (· != '\x7d'), lit '\x7d']

/-- `parse_ass_styling`: the text without its overrides, and the style they give. -/
def parseAssStyling (text : List Char) : List Char × Option CueStyle :=
  let set (tag : String) : Bool :=
    containsText text ("\x7b\\" ++ tag ++ "1\x7d") || containsText text ("\x7b\\" ++ tag ++ "1\\")
  let style : CueStyle :=
    { color := (find? assColorPattern text).map fun parts => rgb (parts.getD 5 [])
      bold := set "b"
      italic := set "i"
      underline := set "u" }
  let clean := removeAll overridePattern 0 text
  let clean := List.replaceText ['\\', 'N'] ['\n'] 0 clean
  (List.replaceText ['\\', 'n'] ['\n'] 0 clean, style.ifSet)

/-- A cue is read from a line of dialogue. -/
def dialogueCue (parts : List (List Char)) : Run SubtitleCue := do
  let startMs ← parseAssTime (parts.getD 12 []) (parts.getD 14 []) (parts.getD 16 []) (parts.getD 18 [])
  let endMs ← parseAssTime (parts.getD 20 []) (parts.getD 22 []) (parts.getD 24 []) (parts.getD 26 [])
  let styled := parseAssStyling (parts.getD 40 [])
  .ok ⟨startMs, endMs, styled.1, styled.2⟩

/-- `parse_ass`. -/
def parseAss (isNd : Char → Bool) (content : List Char) : Run (List SubtitleCue) :=
  (findAll (dialoguePattern isNd) 0 content).mapM dialogueCue

/-! ### WebVTT -/

/-- A cue is read from a block, from the first line with an arrow on. -/
def parseVttBlock (isNd : Char → Bool) (block : List Char) : Option SubtitleCue :=
  let lines := block.textLines
  match lines.findIdx? (containsText · "-->") with
  | none => none
  | some timestampIdx =>
      (timesOn isNd '.' (lines.getD timestampIdx [])).map fun times =>
        ⟨times.1, times.2, (List.unlines (lines.drop (timestampIdx + 1))).trim, none⟩

/-- `parse_vtt`. -/
def parseVtt (isNd : Char → Bool) (content : List Char) : List SubtitleCue :=
  content.unixLines.paragraphs.filterMap (parseVttBlock isNd)

/-! ### The formats -/

/-- The expression of the first two lines of a block. -/
def srtPattern (isNd : Char → Bool) : List Piece :=
  many1 isNd :: many Char.isWhiteSpace :: optional (· == '\r') :: lit '\n' :: clockPattern isNd ','

/-- `detect_format`. -/
def detectFormat (isNd : Char → Bool) (content : List Char) : SubFormat :=
  let trimmed := content.trim
  if "WEBVTT".toList <+: trimmed then .vtt
  else if containsText trimmed "[Script Info]" || containsText trimmed "ScriptType:" then .ass
  else if (matchAt (srtPattern isNd) trimmed).isSome then .srt
  else .unknown

/-- `ParsedSubtitle::parse`. -/
def parse (isNd : Char → Bool) (content : List Char) : Run ParsedSubtitle :=
  match detectFormat isNd content with
  | .srt => .ok ⟨.srt, parseSrt isNd content⟩
  | .ass => do
      let cues ← parseAss isNd content
      .ok ⟨.ass, cues⟩
  | .vtt => .ok ⟨.vtt, parseVtt isNd content⟩
  | .unknown => .ok ⟨.unknown, parseSrt isNd content⟩

/-! ### The writer -/

/-- A time of day, with this mark in front of the milliseconds. -/
def formatTime (mark : Char) (ms : ℕ) : List Char :=
  Decimal.padded 2 (ms / 3600000) ++ ':' :: (Decimal.padded 2 (ms % 3600000 / 60000) ++
    ':' :: (Decimal.padded 2 (ms % 60000 / 1000) ++ mark :: Decimal.padded 3 (ms % 1000)))

/-- `format_vtt_time`. -/
def formatVttTime (ms : ℕ) : List Char := formatTime '.' ms

/-- `apply_vtt_styling`. -/
def applyVttStyling (text : List Char) (style : Option CueStyle) : List Char :=
  let tag (name body : List Char) := '<' :: name ++ '>' :: (body ++ '<' :: '/' :: name.take 1 ++ ['>'])
  match style with
  | none => text
  | some s =>
      let result := if s.bold then tag ['b'] text else text
      let result := if s.italic then tag ['i'] result else result
      let result := if s.underline then tag ['u'] result else result
      match s.color with
      | some color => tag ('c' :: '.' :: color.dropWhile (· == '#')) result
      | none => result

/-- The text of a cue with tags for its style. -/
def SubtitleCue.styledText (cue : SubtitleCue) : List Char := applyVttStyling cue.text cue.style

/-- The line with the times of a cue. -/
def timeLine (mark : Char) (startMs endMs : ℕ) : List Char :=
  formatTime mark startMs ++ ' ' :: '-' :: '-' :: '>' :: ' ' :: formatTime mark endMs

/-- A cue with its number, and a blank line behind it. -/
def cueText (i : ℕ) (cue : SubtitleCue) : List Char :=
  Nat.toDigits 10 (i + 1) ++ '\n' :: (timeLine '.' cue.startMs cue.endMs ++
    '\n' :: (cue.styledText ++ ['\n', '\n']))

/-- The cues as they are written, numbered from `i` on. -/
def cueTexts : ℕ → List SubtitleCue → List Char
  | _, [] => []
  | i, cue :: cues => cueText i cue ++ cueTexts (i + 1) cues

/-- `to_vtt`. -/
def toVtt (cues : List SubtitleCue) : List Char := "WEBVTT\n\n".toList ++ cueTexts 0 cues

end StreamServer.Subtitles

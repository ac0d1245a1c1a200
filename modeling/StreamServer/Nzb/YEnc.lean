import StreamServer.Lib.Occurrence
import StreamServer.Nzb.Nntp

/-!
# yEnc

A yEnc article frames its data by lines that begin with `=ybegin`, `=ypart` and `=yend`.  Each
byte of the data has 42 added; a byte that would be taken for something else then is written as
`=` and the byte with 64 more.  Line breaks say nothing.

The decoder looks for the markers as it goes: it takes the text behind the first line with
`=ybegin`, skips a line that begins with `=ypart`, and stops where `=yend` stands.

## Main definitions

* `decodeYenc` — the decoder.
* `Framing` — how data are to be framed: which bytes are escaped, how long the lines are, what
  else the marker lines say.
* `Framing.encode` — the article.

## Main results

* `Framing.decodeData_code` — a byte that is written is read.
* `decodeYenc_encode` — **decoding undoes encoding.**

## References

`server/src/archives/nzb/stream.rs`, `decode_yenc`.
-/

namespace StreamServer.Nzb

/-! ### The decoder -/

/-- `=`. -/
def equals : UInt8 := 61

/-- `=ybegin`. -/
def startMarker : List UInt8 := [61, 121, 98, 101, 103, 105, 110]

/-- `=ypart`. -/
def partMarker : List UInt8 := [61, 121, 112, 97, 114, 116]

/-- `=yend`. -/
def endMarker : List UInt8 := [61, 121, 101, 110, 100]

/-- What is behind the first line feed, or everything if there is none. -/
def skipLine (input : List UInt8) : List UInt8 :=
  match input.idxOf? lf with
  | some pos => input.drop (pos + 1)
  | none => input

/-- The loop over the data. -/
def decodeData : List UInt8 → List UInt8
  | [] => []
  | b :: input =>
      if b = equals ∧ endMarker.isPrefixOf (b :: input) then []
      else if b = equals then
        match input with
        | [] => []
        | escaped :: input => (escaped - 64 - 42) :: decodeData input
      else if b = cr ∨ b = lf then decodeData input
      else (b - 42) :: decodeData input

/-- `decode_yenc`; it does not fail. -/
def decodeYenc (input : List UInt8) : Except String (List UInt8) :=
  let start := (input.occurrence? startMarker).getD 0
  let data := skipLine (input.drop start)
  let data := if partMarker.isPrefixOf data then skipLine data else data
  .ok (decodeData data)

/-! ### The encoder -/

/-- How a line ends. -/
inductive LineBreak
  | lf
  | crlf
  deriving DecidableEq, Repr

/-- The bytes of a line end. -/
def LineBreak.bytes : LineBreak → List UInt8
  | .lf => [Nzb.lf]
  | .crlf => Nzb.crlf

/-- How data are framed. -/
structure Framing where
  /-- The bytes that are not written as they are. -/
  escaped : UInt8 → Bool
  escapes : ∀ b ∈ [0, lf, cr, equals], escaped b = true
  /-- With `9` escaped there would be a `y` behind a `=`. -/
  spares : escaped 57 = false
  lineLength : ℕ
  /-- What ends each line, in order. -/
  breaks : ℕ → LineBreak
  /-- What else stands in the first line. -/
  header : List UInt8
  header_line : lf ∉ header ∧ cr ∉ header
  /-- What else stands in the line of the part, if there is one. -/
  part : Option (List UInt8)
  part_line : ∀ text ∈ part, lf ∉ text ∧ cr ∉ text
  /-- Everything behind the last marker. -/
  trailer : List UInt8

namespace Framing

variable (f : Framing)

/-- How a byte is written. -/
def code (b : UInt8) : List UInt8 :=
  if f.escaped (b + 42) then [equals, b + 42 + 64] else [b + 42]

/-- The data in lines; `column` is how much of the line is filled, `n` the number of the line.  An
escape stays in one line. -/
def encodeData (column n : ℕ) : List UInt8 → List UInt8
  | [] => if column = 0 then [] else (f.breaks n).bytes
  | b :: data =>
      let column' := column + (f.code b).length
      if f.lineLength ≤ column' then f.code b ++ ((f.breaks n).bytes ++ encodeData 0 (n + 1) data)
      else f.code b ++ encodeData column' n data

/-- The line of the part. -/
def partLine : List UInt8 :=
  match f.part with
  | some text => partMarker ++ (text ++ (f.breaks 1).bytes)
  | none => []

/-- **The article.** -/
def encode (data : List UInt8) : List UInt8 :=
  startMarker ++ (f.header ++ (f.breaks 0).bytes) ++ f.partLine ++
    (f.encodeData 0 2 data ++ (endMarker ++ f.trailer))

end Framing

/-! ### Reading what was written -/

section Decoding

variable (f : Framing) {input rest : List UInt8}

/-- One turn of the loop. -/
theorem decodeData_cons (b : UInt8) (input : List UInt8) : decodeData (b :: input) =
    if b = equals ∧ endMarker.isPrefixOf (b :: input) then []
    else if b = equals then
      match input with
      | [] => []
      | escaped :: input => (escaped - 64 - 42) :: decodeData input
    else if b = cr ∨ b = lf then decodeData input
    else (b - 42) :: decodeData input := by
  cases input <;> rfl

/-- A line break says nothing. -/
@[simp] theorem decodeData_break (linebreak : LineBreak) :
    decodeData (linebreak.bytes ++ rest) = decodeData rest := by
  cases linebreak with
  | lf => simp [LineBreak.bytes, decodeData_cons, lf, equals]
  | crlf => simp [LineBreak.bytes, crlf, decodeData_cons, lf, cr, equals]

/-- The end marker ends the data. -/
@[simp] theorem decodeData_end : decodeData (endMarker ++ rest) = [] := by
  simp [endMarker, decodeData_cons, equals, List.isPrefixOf]

/-- No escape is a `y`. -/
theorem Framing.escape_ne {b : UInt8} (h : f.escaped (b + 42) = true) : 121 ≠ b + 42 + 64 := by
  intro hy
  have hnine : b + 42 = 57 := by
    rw [← UInt8.add_sub_cancel (b + 42) 64, ← hy]
    rfl
  rw [hnine, f.spares] at h
  cases h

/-- **A byte that is written is read.** -/
@[simp] theorem Framing.decodeData_code (b : UInt8) :
    decodeData (f.code b ++ rest) = b :: decodeData rest := by
  rw [Framing.code]
  split
  · next hesc =>
    have hnot : endMarker.isPrefixOf (equals :: (b + 42 + 64) :: rest) = false := by
      simp [endMarker, equals, List.isPrefixOf, f.escape_ne hesc]
    rw [List.cons_append, List.cons_append, List.nil_append, decodeData_cons, hnot]
    simp
  · next hesc =>
    have hne : ∀ c ∈ [0, lf, cr, equals], b + 42 ≠ c := by
      intro c hc h
      rw [h, f.escapes c hc] at hesc
      exact hesc rfl
    have heq := hne equals (by simp)
    have hcr := hne cr (by simp)
    have hlf := hne lf (by simp)
    rw [List.cons_append, List.nil_append, decodeData_cons]
    simp [heq, hcr, hlf]

theorem Framing.decodeData_encodeData (data : List UInt8) (column n : ℕ) :
    decodeData (f.encodeData column n data ++ rest) = data ++ decodeData rest := by
  induction data generalizing column n with
  | nil =>
    rw [Framing.encodeData]
    split
    · rfl
    · rw [decodeData_break]
      rfl
  | cons b data ih =>
    simp only [Framing.encodeData]
    split
    · rw [List.append_assoc, decodeData_code, List.append_assoc, decodeData_break, ih]
      rfl
    · rw [List.append_assoc, decodeData_code, ih]
      rfl

/-- The first line is skipped. -/
theorem skipLine_line {line : List UInt8} (h : lf ∉ line) (linebreak : LineBreak) :
    skipLine (line ++ linebreak.bytes ++ rest) = rest := by
  have hskip : ∀ {text : List UInt8}, lf ∉ text → skipLine (text ++ lf :: rest) = rest := by
    intro text htext
    rw [skipLine, List.idxOf?_append_cons htext]
    simp
  cases linebreak with
  | lf => simpa [LineBreak.bytes] using hskip h
  | crlf =>
    have hcr : lf ∉ line ++ [cr] := by
      rw [List.mem_append, not_or]
      exact ⟨h, by decide⟩
    simpa [LineBreak.bytes, crlf] using hskip hcr

/-- Data do not begin like the line of a part. -/
theorem Framing.not_part (data : List UInt8) :
    partMarker.isPrefixOf (f.encodeData 0 2 data ++ (endMarker ++ f.trailer)) = false := by
  have hcode : ∀ b rest, partMarker.isPrefixOf (f.code b ++ rest) = false := by
    intro b rest
    rw [Framing.code]
    split
    · next hesc =>
      simp [partMarker, equals, List.isPrefixOf, f.escape_ne hesc]
    · next hesc =>
      have hne : (61 : UInt8) ≠ b + 42 := by
        intro h
        rw [← h] at hesc
        exact hesc (f.escapes equals (by simp))
      simp [partMarker, List.isPrefixOf, hne]
  cases data with
  | nil => simp [Framing.encodeData, endMarker, partMarker, List.isPrefixOf]
  | cons b data =>
    simp only [Framing.encodeData]
    split
    · rw [List.append_assoc, hcode]
    · rw [List.append_assoc, hcode]

/-- **Decoding undoes encoding.** -/
theorem decodeYenc_encode (data : List UInt8) : decodeYenc (f.encode data) = .ok data := by
  have hstart : (f.encode data).occurrence? startMarker = some 0 := by
    apply List.occurrence?_of_begins
    simp only [Framing.encode, List.append_assoc]
    exact List.prefix_append _ _
  have hheader : lf ∉ startMarker ++ f.header := by
    rw [List.mem_append, not_or]
    exact ⟨by decide, f.header_line.1⟩
  have hfirst : skipLine (f.encode data) =
      f.partLine ++ (f.encodeData 0 2 data ++ (endMarker ++ f.trailer)) := by
    have hline := @skipLine_line (f.partLine ++ (f.encodeData 0 2 data ++ (endMarker ++ f.trailer)))
      _ hheader (f.breaks 0)
    simpa [Framing.encode] using hline
  have hdata : decodeData (f.encodeData 0 2 data ++ (endMarker ++ f.trailer)) = data := by
    rw [f.decodeData_encodeData, decodeData_end, List.append_nil]
  simp only [decodeYenc, hstart, Option.getD_some, List.drop_zero, hfirst]
  cases hpart : f.part with
  | none =>
    rw [Framing.partLine, hpart, List.nil_append, f.not_part, if_neg Bool.false_ne_true, hdata]
  | some text =>
    have htext : lf ∉ partMarker ++ text := by
      rw [List.mem_append, not_or]
      exact ⟨by decide, (f.part_line text hpart).1⟩
    have hpre : partMarker.isPrefixOf (f.partLine ++ (f.encodeData 0 2 data ++
        (endMarker ++ f.trailer))) = true := by
      rw [List.isPrefixOf_iff_prefix, Framing.partLine, hpart, List.append_assoc]
      exact List.prefix_append _ _
    have hsecond := @skipLine_line (f.encodeData 0 2 data ++ (endMarker ++ f.trailer)) _ htext
      (f.breaks 1)
    have hskip : skipLine (f.partLine ++ (f.encodeData 0 2 data ++ (endMarker ++ f.trailer))) =
        f.encodeData 0 2 data ++ (endMarker ++ f.trailer) := by
      simpa [Framing.partLine, hpart] using hsecond
    rw [if_pos hpre, hskip, hdata]

end Decoding

/-- Only what has to be escaped is, in short lines that end in both ways; the marker lines say
` part=1`, ` begin=1` and ` size=6`. -/
def sampleFraming : Framing where
  escaped b := b = 0 ∨ b = lf ∨ b = cr ∨ b = equals
  escapes := by simp
  spares := by decide
  lineLength := 5
  breaks n := if n = 2 then .crlf else .lf
  header := [32, 112, 97, 114, 116, 61, 49]
  header_line := by decide
  part := some [32, 98, 101, 103, 105, 110, 61, 49]
  part_line := by decide
  trailer := [32, 115, 105, 122, 101, 61, 54]

/-- Bytes that would be written as NUL, as a line feed, as a carriage return and as `=`, among
others. -/
def sampleData : List UInt8 := [214, 0, 224, 227, 19, 5]

/-- They come in two lines with two escapes each. -/
theorem sampleFraming_decodes :
    sampleFraming.encodeData 0 2 sampleData =
      [equals, 64, 42, equals, 74, cr, lf] ++ [equals, 77, equals, 125, 47, lf] ∧
    decodeYenc (sampleFraming.encode sampleData) = .ok sampleData :=
  ⟨by decide, decodeYenc_encode sampleFraming sampleData⟩

end StreamServer.Nzb

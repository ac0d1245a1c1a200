import StreamServer.Lib.Lines
import StreamServer.Readers.Layout

/-!
# Fetching an article body from a news server

The server answers `222` and sends the body line by line.  A line that starts with a dot is
sent with one more in front of it, and a line with nothing but a dot ends the body.  The
client reads line by line through a buffer, and keeps each line as a string, so that a line
that is not UTF-8 is an error; a line that starts with two dots loses the first.

A connection is the bytes in the buffer, the pieces that will still come in, and how it ends:
orderly, or with an error.

## Main definitions

* `validUtf8`, `trimEnd` — what strings are used for.
* `Connection.readUntil`, `readLine` — reading a line.
* `readBody`, `fetchBody` — fetching a body; the loop has fuel.

## Main results

* `validUtf8_append_ascii`, `validUtf8_lines` — a string can be cut at a byte that is a
  character.
* `bodyFollows_trimEnd` — the code of an answer is not trimmed.

## References

`server/src/archives/nzb/nntp.rs`.
-/

namespace StreamServer.Nzb

open Readers

/-! ### Strings -/

/-- A line feed. -/
def lf : UInt8 := 10

/-- A carriage return. -/
def cr : UInt8 := 13

/-- A dot. -/
def dot : UInt8 := 46

/-- The end of a line. -/
def crlf : List UInt8 := [cr, lf]

/-- `0x80..=0xBF`. -/
def isContinuation (b : UInt8) : Bool := 0x80 ≤ b && b ≤ 0xBF

/-- The second byte of a character of three or four bytes, by its first: neither an overlong
encoding nor a surrogate nor beyond the last code point. -/
def isSecond (first b : UInt8) : Bool :=
  isContinuation b &&
    (if first = 0xE0 then 0xA0 ≤ b else if first = 0xED then b ≤ 0x9F
      else if first = 0xF0 then 0x90 ≤ b else if first = 0xF4 then b ≤ 0x8F else true)

/-- `str::from_utf8` accepts the bytes. -/
@[grind =] def validUtf8 : List UInt8 → Bool
  | [] => true
  | a :: rest =>
      if a < 0x80 then validUtf8 rest
      else
        match rest with
        | [] => false
        | b :: rest =>
            if 0xC2 ≤ a && a ≤ 0xDF then isContinuation b && validUtf8 rest
            else
              match rest with
              | [] => false
              | c :: rest =>
                  if 0xE0 ≤ a && a ≤ 0xEF then isSecond a b && isContinuation c && validUtf8 rest
                  else
                    match rest with
                    | [] => false
                    | d :: rest =>
                        0xF0 ≤ a && a ≤ 0xF4 && isSecond a b && isContinuation c &&
                          isContinuation d && validUtf8 rest

section
variable {a b c d : UInt8} {s : List UInt8}

theorem validUtf8_one (ha : a < 0x80) : validUtf8 (a :: s) = validUtf8 s := by
  rw [validUtf8.eq_def]
  exact if_pos ha

theorem validUtf8_two (ha : ¬ a < 0x80) (htwo : (0xC2 ≤ a && a ≤ 0xDF) = true) :
    validUtf8 (a :: b :: s) = (isContinuation b && validUtf8 s) := by
  rw [validUtf8.eq_def]
  simp only [if_neg ha, if_pos htwo]

theorem validUtf8_three (ha : ¬ a < 0x80) (htwo : ¬ (0xC2 ≤ a && a ≤ 0xDF) = true)
    (hthree : (0xE0 ≤ a && a ≤ 0xEF) = true) :
    validUtf8 (a :: b :: c :: s) = (isSecond a b && isContinuation c && validUtf8 s) := by
  rw [validUtf8.eq_def]
  simp only [if_neg ha, if_neg htwo, if_pos hthree]

theorem validUtf8_four (ha : ¬ a < 0x80) (htwo : ¬ (0xC2 ≤ a && a ≤ 0xDF) = true)
    (hthree : ¬ (0xE0 ≤ a && a ≤ 0xEF) = true) :
    validUtf8 (a :: b :: c :: d :: s) =
      (0xF0 ≤ a && a ≤ 0xF4 && isSecond a b && isContinuation c && isContinuation d &&
        validUtf8 s) := by
  rw [validUtf8.eq_def]
  simp only [if_neg ha, if_neg htwo, if_neg hthree]

end

/-- **A string can be cut** in front of a byte that is a character. -/
theorem validUtf8_append_ascii {a : UInt8} (ha : a < 0x80) (rest : List UInt8) (s : List UInt8) :
    validUtf8 (s ++ a :: rest) = (validUtf8 s && validUtf8 rest) := by
  have hcont : isContinuation a = false := by
    have : ¬ (0x80 : UInt8) ≤ a := UInt8.not_le.mpr ha
    simp [isContinuation, this]
  have hsecond : ∀ first, isSecond first a = false := by
    intro first
    rw [isSecond, hcont, Bool.false_and]
  induction s using validUtf8.induct with
  | case1 => exact validUtf8_one ha
  | case2 b s hb ih => rw [List.cons_append, validUtf8_one hb, validUtf8_one hb, ih]
  | case3 b hb =>
    -- the character goes on
    rcases rest with - | ⟨c, - | ⟨d, rest⟩⟩ <;> simp [validUtf8, hb, hcont, hsecond]
  | case4 b hb c s htwo ih =>
    rw [List.cons_append, List.cons_append, validUtf8_two hb htwo, validUtf8_two hb htwo, ih,
      Bool.and_assoc]
  | case5 b hb c htwo => rcases rest with - | ⟨d, rest⟩ <;> simp [validUtf8, hb, htwo, hcont]
  | case6 b hb c htwo d s hthree ih =>
    rw [List.cons_append, List.cons_append, List.cons_append, validUtf8_three hb htwo hthree,
      validUtf8_three hb htwo hthree, ih]
    simp only [Bool.and_assoc]
  | case7 b hb c htwo d hthree => simp [validUtf8, hb, htwo, hthree, hcont]
  | case8 b hb c htwo d hthree e s ih =>
    rw [List.cons_append, List.cons_append, List.cons_append, List.cons_append,
      validUtf8_four hb htwo hthree, validUtf8_four hb htwo hthree, ih]
    simp only [Bool.and_assoc]

/-- **A string is one if its lines are.** -/
theorem validUtf8_lines (s : List UInt8) :
    validUtf8 s = true ↔ ∀ line ∈ s.lines lf, validUtf8 line = true := by
  induction hn : s.length using Nat.strong_induction_on generalizing s with
  | _ n ih =>
    rcases List.lines_cases lf s with rfl | ⟨-, -, hlines⟩ | ⟨line, rest, -, rfl, hlines⟩
    · simp [validUtf8]
    · rw [hlines, List.forall_mem_singleton]
    · have hrest := ih rest.length (by simp at hn; omega) rest rfl
      have hlf : lf < 0x80 := by decide
      rw [hlines, List.forall_mem_cons, validUtf8_append_ascii hlf, validUtf8_append_ascii hlf,
        Bool.and_eq_true, hrest, validUtf8, Bool.and_true]

/-- The characters with the property `White_Space`. -/
def whiteSpace : List (List UInt8) :=
  [[0x09], [0x0A], [0x0B], [0x0C], [0x0D], [0x20], [0xC2, 0x85], [0xC2, 0xA0],
    [0xE1, 0x9A, 0x80], [0xE2, 0x80, 0x80], [0xE2, 0x80, 0x81], [0xE2, 0x80, 0x82],
    [0xE2, 0x80, 0x83], [0xE2, 0x80, 0x84], [0xE2, 0x80, 0x85], [0xE2, 0x80, 0x86],
    [0xE2, 0x80, 0x87], [0xE2, 0x80, 0x88], [0xE2, 0x80, 0x89], [0xE2, 0x80, 0x8A],
    [0xE2, 0x80, 0xA8], [0xE2, 0x80, 0xA9], [0xE2, 0x80, 0xAF], [0xE2, 0x81, 0x9F],
    [0xE3, 0x80, 0x80]]

/-- Take away up to `n` characters at the end. -/
@[grind =] def trimChars : ℕ → List UInt8 → List UInt8
  | 0, s => s
  | n + 1, s =>
      match whiteSpace.find? fun c => c.isSuffixOf s with
      | some c => trimChars n (s.take (s.length - c.length))
      | none => s

/-- `str::trim_end`. -/
def trimEnd (s : List UInt8) : List UInt8 := trimChars s.length s

/-! ### Connections -/

/-- What has been read but not handed out, what will come in, and the error it ends with, if
it does not end orderly. -/
structure Connection where
  buffer : List UInt8
  incoming : List (List UInt8)
  ending : Option IoError
  deriving DecidableEq, Repr

namespace Connection

/-- All the bytes to come. -/
def bytes (conn : Connection) : List UInt8 := conn.buffer ++ conn.incoming.flatten

/-- `read_until`: the bytes up to a line feed, or all there are. -/
@[grind =] def readUntil (ending : Option IoError) :
    List UInt8 → List (List UInt8) → Except IoError (List UInt8 × Connection)
  | buffer, [] =>
      match buffer.span (· ≠ lf) with
      | (line, _ :: rest) => .ok (line ++ [lf], ⟨rest, [], ending⟩)
      | (line, []) =>
          match ending with
          | none => .ok (line, ⟨[], [], none⟩)
          | some error => .error error
  | buffer, piece :: incoming =>
      match buffer.span (· ≠ lf) with
      | (line, _ :: rest) => .ok (line ++ [lf], ⟨rest, piece :: incoming, ending⟩)
      | (line, []) => (readUntil ending piece incoming).map fun r => (line ++ r.1, r.2)

/-- The error of `read_line` for a line that is not UTF-8. -/
def notUtf8 : IoError := ⟨.invalidData, "stream did not contain valid UTF-8"⟩

/-- `read_line`. -/
@[grind =] def readLine (conn : Connection) : Except IoError (List UInt8 × Connection) :=
  match readUntil conn.ending conn.buffer conn.incoming with
  | .error error => .error error
  | .ok (line, conn) => if validUtf8 line then .ok (line, conn) else .error notUtf8

/-- `read_response`. -/
def readResponse (conn : Connection) : Except IoError (List UInt8 × Connection) :=
  conn.readLine.map fun r => (trimEnd r.1, r.2)

end Connection

/-! ### Fetching a body -/

/-- The errors of `fetch_body`. -/
inductive FetchError
  | io (error : IoError)
  /-- `Failed to fetch body for {}: {}`. -/
  | refused (msgId : String) (response : List UInt8)
  deriving DecidableEq, Repr

/-- `.\r\n`. -/
def terminator : List UInt8 := dot :: crlf

/-- The code of an answer that is followed by a body. -/
def bodyFollows : List UInt8 := [50, 50, 50]

theorem bodyFollows_trimChars (n : ℕ) (s : List UInt8) :
    bodyFollows.isPrefixOf (trimChars n s) = bodyFollows.isPrefixOf s := by
  induction n generalizing s with
  | zero => rfl
  | succ n ih =>
    rw [trimChars]
    cases hfind : whiteSpace.find? fun c => c.isSuffixOf s with
    | none => rfl
    | some c =>
      have hsuffix := List.find?_some hfind
      obtain ⟨t, rfl⟩ := List.isSuffixOf_iff_suffix.mp hsuffix
      -- no byte of the code is white space
      have hfree : ∀ c ∈ whiteSpace, (50 : UInt8) ∉ c := by decide
      have hc := hfree c (List.mem_of_find?_eq_some hfind)
      dsimp only
      rw [List.length_append, Nat.add_sub_cancel, List.take_left, ih, Bool.eq_iff_iff,
        List.isPrefixOf_iff_prefix, List.isPrefixOf_iff_prefix]
      constructor
      · intro h
        exact h.trans (List.prefix_append t c)
      · intro h
        obtain ⟨r, hr⟩ := h
        rcases List.append_eq_append_iff.mp hr with ⟨more, rfl, -⟩ | ⟨more, hmore, rfl⟩
        · exact List.prefix_append bodyFollows more
        · cases more with
          | nil => simp [hmore]
          | cons b more =>
            have hb : b ∈ bodyFollows := by simp [hmore]
            have hcode : b = 50 := by simpa [bodyFollows] using hb
            exact absurd (by simp [hcode]) hc

/-- **The code is not trimmed.** -/
theorem bodyFollows_trimEnd (s : List UInt8) :
    bodyFollows.isPrefixOf (trimEnd s) = bodyFollows.isPrefixOf s :=
  bodyFollows_trimChars s.length s

/-- A line that starts with two dots loses the first. -/
def unstuff (line : List UInt8) : List UInt8 :=
  if [dot, dot].isPrefixOf line then line.drop 1 else line

/-- The loop of `fetch_body`; `none` means that the fuel has run out. -/
@[grind =] def readBody : ℕ → Connection → List UInt8 → Option (Except FetchError (List UInt8))
  | 0, _, _ => none
  | fuel + 1, conn, body =>
      match conn.readLine with
      | .error error => some (.error (.io error))
      | .ok (line, conn) =>
          if line.length = 0 then some (.ok body)
          else if line = terminator then some (.ok body)
          else readBody fuel conn (body ++ unstuff line)

/-- The message id in angle brackets. -/
def encapsulate (messageId : String) : String :=
  if messageId.startsWith "<" then messageId else s!"<{messageId}>"

/-- `fetch_body`, with what comes of sending the command. -/
def fetchBody (messageId : String) (sent : Except IoError Unit) (conn : Connection) :
    Option (Except FetchError (List UInt8)) :=
  match sent with
  | .error error => some (.error (.io error))
  | .ok () =>
      match conn.readResponse with
      | .error error => some (.error (.io error))
      | .ok (response, conn) =>
          if bodyFollows.isPrefixOf response then readBody (conn.bytes.length + 1) conn []
          else some (.error (.refused (encapsulate messageId) response))

end StreamServer.Nzb

import StreamServer.Nzb.Transfer

/-!
# What of an article arrives

A server answers with a line that begins with `222`, sends the lines of the body, each with
carriage return and line feed behind it and with a dot in front of it if it starts with one,
and a line with a dot.  A transfer is faithful if what is fetched is the body, and if a
connection that ends too early is an error.

Two things stand against it.  A line is kept as a string, so that a body that is not UTF-8
cannot be fetched, however it is sent; and a connection that ends in order is taken for the
end of the body, wherever it ends.

## Main definitions

* `Article` — an answer and the lines of a body.
* `Article.bytes` — the body.
* `Article.wire` — what is sent.
* `Article.Faithful` — the transfer is faithful on a connection.
* `Article.Readable` — the condition.

## Main results

* `collect_sent` — what is made of the lines behind the answer if all of them come in.
* `collect_cut` — and if some do not.
* `Article.fetchBody_faithful_iff` — the transfer is faithful just if the condition holds.

## References

`server/src/archives/nzb/nntp.rs`.
-/

namespace StreamServer.Nzb

open Readers

/-! ### Dots -/

/-- A dot is put in front of a line that starts with one. -/
def stuff : List UInt8 → List UInt8
  | [] => []
  | a :: line => if a = dot then dot :: a :: line else a :: line

/-- **The dot is taken away again.** -/
theorem unstuff_stuff (line : List UInt8) : unstuff (stuff line ++ crlf) = line ++ crlf := by
  cases line with
  | nil => rfl
  | cons a line =>
    by_cases hdot : a = dot
    · subst hdot
      rfl
    · have hnot : [dot, dot].isPrefixOf (a :: (line ++ crlf)) = false := by
        rw [List.isPrefixOf, beq_false_of_ne (Ne.symm hdot), Bool.false_and]
      rw [stuff, if_neg hdot, unstuff, List.cons_append, hnot, if_neg Bool.false_ne_true]

/-- **No line is taken for the end.** -/
theorem stuff_ne_terminator (line : List UInt8) : stuff line ++ crlf ≠ terminator := by
  cases line with
  | nil => decide
  | cons a line =>
    by_cases hdot : a = dot
    · subst hdot
      intro heq
      have hcons : (dot :: dot :: (line ++ crlf)) = dot :: cr :: [lf] := heq
      rw [List.cons.injEq, List.cons.injEq] at hcons
      exact absurd hcons.2.1 (by decide)
    · intro heq
      rw [stuff, if_neg hdot, List.cons_append, terminator, List.cons.injEq] at heq
      exact hdot heq.1

theorem validUtf8_crlf (line : List UInt8) : validUtf8 (line ++ crlf) = validUtf8 line := by
  rw [crlf, validUtf8_append_ascii (by decide), validUtf8_one (by decide), validUtf8,
    Bool.and_true]

theorem validUtf8_stuff (line : List UInt8) : validUtf8 (stuff line) = validUtf8 line := by
  cases line with
  | nil => rfl
  | cons a line =>
    by_cases hdot : a = dot
    · rw [stuff, if_pos hdot, validUtf8_one (by decide)]
    · rw [stuff, if_neg hdot]

theorem lf_notMem_stuff {line : List UInt8} (h : lf ∉ line) : lf ∉ stuff line := by
  cases line with
  | nil => exact h
  | cons a line =>
    rw [stuff]
    split
    · rw [List.mem_cons, not_or]
      exact ⟨by decide, h⟩
    · exact h

/-! ### The lines behind the answer -/

variable (ending : Option IoError)

/-- **All lines come in**: the body is there just if all of them are strings. -/
theorem collect_sent (lines : List (List UInt8)) (later : List (List UInt8)) (body : List UInt8) :
    (collect ending (lines.map (fun line => stuff line ++ crlf) ++ terminator :: later) body =
        .ok (body ++ lines.flatMap (· ++ crlf))) ↔ ∀ line ∈ lines, validUtf8 line = true := by
  have hlf : ∀ line : List UInt8, lf ∈ line ++ crlf := by simp [crlf]
  induction lines generalizing body with
  | nil =>
    have hend : collect ending (terminator :: later) body = .ok body := by
      rw [collect_cons (Or.inl (by decide)), if_pos (by decide), if_pos rfl]
    simp [hend]
  | cons line lines ih =>
    rw [List.map_cons, List.cons_append, collect_cons (Or.inl (hlf _)), validUtf8_crlf,
      validUtf8_stuff, if_neg (stuff_ne_terminator line), unstuff_stuff, List.forall_mem_cons,
      List.flatMap_cons, ← List.append_assoc]
    cases validUtf8 line with
    | false => simp
    | true =>
      have hlater := ih (body ++ (line ++ crlf))
      simpa using hlater

/-- **The end does not come in**: an error is seen just if the connection ends with one, or if
some line is not a string. -/
theorem collect_cut {lines : List (List UInt8)} (h : terminator ∉ lines) (body : List UInt8) :
    (∃ error, collect ending lines body = .error error) ↔
      ending ≠ none ∨ ∃ line ∈ lines, validUtf8 line = false := by
  induction lines generalizing body with
  | nil => cases ending <;> simp [collect]
  | cons line lines ih =>
    rw [List.mem_cons, not_or] at h
    by_cases hread : lf ∈ line ∨ ending = none
    · rw [collect_cons hread, if_neg (Ne.symm h.1), List.exists_mem_cons_iff]
      cases hvalid : validUtf8 line with
      | false => simp
      | true => simp [ih h.2]
    · rw [not_or] at hread
      obtain ⟨error, rfl⟩ := Option.ne_none_iff_exists'.mp hread.2
      simp [collect_cons_error hread.1]

/-- The code is read off the first line. -/
theorem bodyFollows_line (line rest : List UInt8) :
    bodyFollows <+: line ++ [lf] ↔ bodyFollows <+: line ++ lf :: rest := by
  have hsplit : line ++ lf :: rest = (line ++ [lf]) ++ rest := by simp
  rw [hsplit]
  constructor
  · intro h
    exact h.trans (List.prefix_append _ rest)
  · intro h
    rcases List.prefix_or_prefix_of_prefix h (List.prefix_append (line ++ [lf]) rest) with
      hcode | hline
    · exact hcode
    · exact absurd (hline.subset (by simp)) (by decide : lf ∉ bodyFollows)

/-- **The end does not come in**, with the answer. -/
theorem answer_cut (messageId : String) {bytes : List UInt8} (h : terminator ∉ bytes.lines lf) :
    (∃ error, answer messageId ending (bytes.lines lf) = .error error) ↔
      ending ≠ none ∨ ¬ bodyFollows <+: bytes ∨ validUtf8 bytes = false := by
  rcases List.lines_cases lf bytes with rfl | ⟨-, hnot, hlines⟩ | ⟨line, rest, hline, rfl, hlines⟩
  · have hcode : ¬ bodyFollows <+: [] := by decide
    cases ending <;> simp [answer, hcode]
  · rw [hlines]
    cases hend : ending with
    | some error => simp [answer, hnot]
    | none =>
      rw [answer_cons (Or.inr rfl), bodyFollows_trimEnd, ← List.isPrefixOf_iff_prefix]
      cases validUtf8 bytes <;> cases bodyFollows.isPrefixOf bytes <;> simp [collect]
  · rw [hlines, List.mem_cons, not_or] at h
    have hlf : lf < 0x80 := by decide
    have hfirst : validUtf8 (line ++ [lf]) = validUtf8 line := by
      rw [validUtf8_append_ascii hlf, validUtf8, Bool.and_true]
    have hcut := collect_cut ending h.2 []
    have hlater : validUtf8 rest = false ↔ ∃ line ∈ rest.lines lf, validUtf8 line = false := by
      rw [← Bool.not_eq_true, validUtf8_lines]
      simp
    rw [hlines, answer_cons (Or.inl (by simp)), bodyFollows_trimEnd, ← bodyFollows_line line rest,
      ← List.isPrefixOf_iff_prefix, hfirst, validUtf8_append_ascii hlf]
    cases validUtf8 line with
    | false => simp
    | true =>
      cases bodyFollows.isPrefixOf (line ++ [lf]) with
      | false => simp
      | true => simpa [hlater] using hcut

/-! ### Articles -/

/-- What a server sends in answer to a command `BODY`. -/
structure Article where
  /-- The answer, without the line end. -/
  response : List UInt8
  lines : List (List UInt8)
  response_start : bodyFollows <+: response
  response_clean : lf ∉ response
  lines_clean : ∀ line ∈ lines, lf ∉ line

namespace Article

variable (a : Article) (messageId : String) (conn : Connection)

/-- The body. -/
def bytes : List UInt8 := a.lines.flatMap (· ++ crlf)

/-- The lines that are sent, without the line feeds. -/
def sent : List (List UInt8) :=
  (a.response ++ [cr]) :: a.lines.map (fun line => stuff line ++ [cr]) ++ [[dot, cr]]

/-- What is sent. -/
def wire : List UInt8 := a.sent.flatMap fun line => line ++ [lf]

/-- **The transfer is faithful.** -/
structure Faithful : Prop where
  arrives : a.wire <+: conn.bytes → fetchBody messageId (.ok ()) conn = some (.ok a.bytes)
  /-- The connection ends before the last line does. -/
  noticed : conn.bytes <+: a.wire → conn.bytes ≠ a.wire →
    ∃ error, fetchBody messageId (.ok ()) conn = some (.error error)

/-- What is sent is a string; what ends too early ends with an error, or within the code of the
answer, or is not a string. -/
structure Readable : Prop where
  string : a.wire <+: conn.bytes → validUtf8 a.response = true ∧ validUtf8 a.bytes = true
  seen : conn.bytes <+: a.wire → conn.bytes ≠ a.wire →
    conn.ending ≠ none ∨ ¬ bodyFollows <+: conn.bytes ∨ validUtf8 conn.bytes = false

theorem validUtf8_bytes : validUtf8 a.bytes = true ↔ ∀ line ∈ a.lines, validUtf8 line = true := by
  unfold bytes
  induction a.lines with
  | nil => simp [validUtf8]
  | cons line lines ih =>
    have hcr : cr < 0x80 := by decide
    rw [List.flatMap_cons, crlf, List.append_assoc, List.cons_append, List.singleton_append,
      validUtf8_append_ascii hcr, validUtf8_one (by decide), Bool.and_eq_true,
      List.forall_mem_cons, ← crlf, ih]

theorem lf_notMem_sent : ∀ line ∈ a.sent, lf ∉ line := by
  intro line hline
  have hcr : lf ∉ [cr] := by decide
  simp only [sent, List.cons_append, List.mem_cons, List.mem_append, List.mem_map,
    List.not_mem_nil, or_false] at hline
  rcases hline with rfl | ⟨line, hmem, rfl⟩ | rfl
  · rw [List.mem_append, not_or]
    exact ⟨a.response_clean, hcr⟩
  · rw [List.mem_append, not_or]
    exact ⟨lf_notMem_stuff (a.lines_clean line hmem), hcr⟩
  · decide

/-- The lines with the line feeds. -/
theorem map_sent : a.sent.map (fun line => line ++ [lf]) =
    (a.response ++ crlf) :: (a.lines.map (fun line => stuff line ++ crlf) ++ [terminator]) := by
  simp [sent, crlf, terminator, Function.comp_def]

/-- Only the last line is taken for the end. -/
theorem terminator_notMem {whole : List (List UInt8)} (h : whole <+: a.sent)
    (hne : whole ≠ a.sent) : terminator ∉ whole.map fun line => line ++ [lf] := by
  have hfront : whole <+: (a.response ++ [cr]) :: a.lines.map (fun line => stuff line ++ [cr]) := by
    rw [sent, List.prefix_concat_iff] at h
    exact h.resolve_left hne
  intro hmem
  obtain ⟨line, hline, hterminator⟩ := List.mem_map.mp hmem
  rcases List.mem_cons.mp (hfront.subset hline) with rfl | hsent
  · -- the answer begins with a code
    have hlong := a.response_start.length_le
    have hthree := congrArg List.length hterminator
    simp only [List.length_append, terminator, crlf, List.length_cons,
      List.length_nil, bodyFollows] at hlong hthree
    omega
  · obtain ⟨line, -, rfl⟩ := List.mem_map.mp hsent
    rw [List.append_assoc] at hterminator
    exact stuff_ne_terminator line hterminator

/-- **All of it comes in.** -/
theorem arrives_iff (h : a.wire <+: conn.bytes) :
    fetchBody messageId (.ok ()) conn = some (.ok a.bytes) ↔
      validUtf8 a.response = true ∧ validUtf8 a.bytes = true := by
  obtain ⟨rest, hrest⟩ := h
  have hlines : conn.bytes.lines lf = (a.response ++ crlf) ::
      (a.lines.map (fun line => stuff line ++ crlf) ++ terminator :: rest.lines lf) := by
    rw [← hrest, wire, List.lines_flatten a.sent a.lf_notMem_sent rest, map_sent]
    simp
  have hcode : bodyFollows.isPrefixOf (a.response ++ crlf) = true :=
    List.isPrefixOf_iff_prefix.mpr (a.response_start.trans (List.prefix_append _ _))
  have hsent := collect_sent conn.ending a.lines (rest.lines lf) []
  rw [fetchBody_eq, hlines, answer_cons (Or.inl (by simp [crlf])), bodyFollows_trimEnd, hcode,
    validUtf8_crlf, validUtf8_bytes, ← hsent]
  cases validUtf8 a.response with
  | false => simp
  | true => simp [bytes]

/-- **It ends too early.** -/
theorem noticed_iff (h : conn.bytes <+: a.wire) (hne : conn.bytes ≠ a.wire) :
    (∃ error, fetchBody messageId (.ok ()) conn = some (.error error)) ↔
      conn.ending ≠ none ∨ ¬ bodyFollows <+: conn.bytes ∨ validUtf8 conn.bytes = false := by
  have hnot : terminator ∉ conn.bytes.lines lf := by
    obtain ⟨whole, hwhole, hlines, hall⟩ := List.lines_prefix a.lf_notMem_sent h
    have hfront := a.terminator_notMem hwhole fun heq => hne (hall heq)
    rcases hlines with hlines | ⟨last, hlast, hlines⟩
    · rw [hlines]
      exact hfront
    · have hend : terminator ≠ last := by
        intro heq
        exact hlast (heq ▸ by decide)
      rw [hlines, List.mem_append, List.mem_singleton, not_or]
      exact ⟨hfront, hend⟩
  rw [← answer_cut conn.ending messageId hnot, fetchBody_eq]
  simp only [Option.some.injEq]

/-- **A transfer is faithful just if what is sent is a string and the end is seen.** -/
theorem fetchBody_faithful_iff : a.Faithful messageId conn ↔ a.Readable conn := by
  constructor
  · intro hfaithful
    exact ⟨fun h => (a.arrives_iff messageId conn h).mp (hfaithful.arrives h),
      fun h hne => (a.noticed_iff messageId conn h hne).mp (hfaithful.noticed h hne)⟩
  · intro hreadable
    exact ⟨fun h => (a.arrives_iff messageId conn h).mpr (hreadable.string h),
      fun h hne => (a.noticed_iff messageId conn h hne).mpr (hreadable.seen h hne)⟩

/-- A body with a byte that is no character. -/
def highByte : Article :=
  ⟨[50, 50, 50, 32, 48], [[0xFF]], by decide, by decide, by decide⟩

/-- All of it comes in, but cannot be fetched; and a connection that ends behind the answer
counts as an empty body. -/
theorem highByte_unfaithful :
    ¬ highByte.Faithful "a@b" ⟨[], [highByte.wire], none⟩ ∧
      ¬ highByte.Faithful "a@b" ⟨[], [[50, 50, 50, 32, 48, 13, 10]], none⟩ := by
  constructor
  · intro h
    have hall : highByte.wire <+: Connection.bytes ⟨[], [highByte.wire], none⟩ := by decide
    have hstring := (highByte.arrives_iff "a@b" _ hall).mp (h.arrives hall)
    exact absurd hstring.2 (by decide)
  · intro h
    have hcut : Connection.bytes ⟨[], [[50, 50, 50, 32, 48, 13, 10]], none⟩ <+: highByte.wire := by
      decide
    have hseen := (highByte.noticed_iff "a@b" _ hcut (by decide)).mp
      (h.noticed hcut (by decide))
    exact absurd hseen (by decide)

end Article

end StreamServer.Nzb

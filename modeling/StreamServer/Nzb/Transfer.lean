import StreamServer.Nzb.Nntp

/-!
# What a client makes of the lines

The pieces in which the bytes come in do not matter: a line is read as the bytes up to a line
feed, whatever pieces they lie in.  So what `fetch_body` comes to is a function of the lines
of the bytes and of how the connection ends.

## Main definitions

* `collect` — what the loop makes of the lines behind the answer.
* `answer` — what `fetch_body` makes of all the lines.

## Main results

* `readUntil_line`, `readUntil_end` — the pieces do not matter.
* `readBody_eq` — the fuel is enough.
* `fetchBody_eq` — `fetch_body` is `answer`.

## References

`server/src/archives/nzb/nntp.rs`.
-/

namespace StreamServer.Nzb

open Readers

/-! ### Reading a line -/

namespace Connection

variable {ending : Option IoError}

/-- **A line is read**, whatever pieces it comes in. -/
theorem readUntil_line {line rest : List UInt8} (h : lf ∉ line) (incoming : List (List UInt8))
    (buffer : List UInt8) (hbytes : buffer ++ incoming.flatten = line ++ lf :: rest) :
    ∃ conn, readUntil ending buffer incoming = .ok (line ++ [lf], conn) ∧ conn.bytes = rest ∧
      conn.ending = ending := by
  induction incoming generalizing buffer line with
  | nil =>
    rw [List.flatten_nil, List.append_nil] at hbytes
    refine ⟨⟨rest, [], ending⟩, ?_, by simp [bytes], rfl⟩
    rw [readUntil, hbytes, List.span_line h]
  | cons piece incoming ih =>
    by_cases hmem : lf ∈ buffer
    · obtain ⟨before, after, rfl, hbefore⟩ := List.eq_append_cons_of_mem hmem
      rw [List.append_assoc, List.cons_append] at hbytes
      obtain ⟨rfl, rfl⟩ := List.line_unique hbefore h hbytes
      refine ⟨⟨after, piece :: incoming, ending⟩, ?_, rfl, rfl⟩
      rw [readUntil, List.span_line hbefore]
    · -- the buffer is the beginning of the line
      obtain ⟨later, rfl, hlater⟩ : ∃ later, line = buffer ++ later ∧
          piece ++ incoming.flatten = later ++ lf :: rest := by
        rw [List.flatten_cons] at hbytes
        rcases List.append_eq_append_iff.mp hbytes with ⟨later, hline, hlater⟩ | ⟨more, hbuffer, hmore⟩
        · exact ⟨later, hline, hlater⟩
        · cases more with
          | nil => exact ⟨[], by simpa using hbuffer.symm, by simpa using hmore.symm⟩
          | cons a more =>
            obtain ⟨rfl, -⟩ := List.cons.inj hmore
            exact absurd (by simp [hbuffer]) hmem
      have hnot : lf ∉ later := fun hin => h (List.mem_append_right _ hin)
      obtain ⟨conn, hread, hrest, hend⟩ := ih hnot piece hlater
      refine ⟨conn, ?_, hrest, hend⟩
      rw [readUntil, List.span_rest hmem]
      dsimp only
      rw [hread, List.append_assoc]
      rfl

/-- Without a line feed, all there is is read, if the connection ends orderly. -/
theorem readUntil_end (incoming : List (List UInt8)) (buffer : List UInt8)
    (h : lf ∉ buffer ++ incoming.flatten) :
    readUntil ending buffer incoming =
      match ending with
      | none => .ok (buffer ++ incoming.flatten, ⟨[], [], none⟩)
      | some error => .error error := by
  induction incoming generalizing buffer with
  | nil =>
    rw [List.flatten_nil, List.append_nil] at h ⊢
    cases ending with
    | none => simp only [readUntil, List.span_rest h]
    | some error => simp only [readUntil, List.span_rest h]
  | cons piece incoming ih =>
    rw [List.flatten_cons, List.mem_append, not_or] at h
    rw [readUntil, List.span_rest h.1]
    dsimp only
    rw [ih piece h.2]
    cases ending with
    | none => rfl
    | some error => rfl

/-- **What `read_line` comes to**, by the bytes to come. -/
theorem readLine_line (conn : Connection) {line rest : List UInt8} (h : lf ∉ line)
    (hbytes : conn.bytes = line ++ lf :: rest) :
    ∃ conn', conn'.bytes = rest ∧ conn'.ending = conn.ending ∧
      conn.readLine =
        if validUtf8 (line ++ [lf]) then .ok (line ++ [lf], conn') else .error notUtf8 := by
  obtain ⟨conn', hread, hrest, hend⟩ := readUntil_line h conn.incoming conn.buffer hbytes
  refine ⟨conn', hrest, hend, ?_⟩
  rw [readLine, hread]

theorem readLine_end (conn : Connection) (h : lf ∉ conn.bytes) :
    conn.readLine =
      match conn.ending with
      | none => if validUtf8 conn.bytes then .ok (conn.bytes, ⟨[], [], none⟩) else .error notUtf8
      | some error => .error error := by
  rw [readLine, readUntil_end conn.incoming conn.buffer h]
  cases conn.ending with
  | none => rfl
  | some error => rfl

end Connection

/-! ### The lines that come in -/

/-- What is made of the lines behind the answer: a line that is cut off by an error is not
handed out. -/
def collect (ending : Option IoError) :
    List (List UInt8) → List UInt8 → Except FetchError (List UInt8)
  | [], body =>
      match ending with
      | none => .ok body
      | some error => .error (.io error)
  | line :: later, body =>
      match if lf ∈ line then none else ending with
      | some error => .error (.io error)
      | none =>
          if validUtf8 line then
            if line = terminator then .ok body else collect ending later (body ++ unstuff line)
          else .error (.io Connection.notUtf8)

variable {ending : Option IoError} {line : List UInt8} {later : List (List UInt8)}
  {body : List UInt8}

theorem collect_cons (h : lf ∈ line ∨ ending = none) :
    collect ending (line :: later) body =
      if validUtf8 line then
        if line = terminator then .ok body else collect ending later (body ++ unstuff line)
      else .error (.io Connection.notUtf8) := by
  have hnone : (if lf ∈ line then none else ending) = none := by
    rcases h with hmem | hend
    · exact if_pos hmem
    · rw [hend, ite_self]
  rw [collect, hnone]

theorem collect_cons_error (h : lf ∉ line) (error : IoError) :
    collect (some error) (line :: later) body = .error (.io error) := by
  rw [collect, if_neg h]

/-- **The fuel is enough**, and the body is collected from the lines. -/
theorem readBody_eq (fuel : ℕ) (conn : Connection) (body : List UInt8)
    (h : conn.bytes.length < fuel) :
    readBody fuel conn body = some (collect conn.ending (conn.bytes.lines lf) body) := by
  induction fuel generalizing conn body with
  | zero => omega
  | succ fuel ih =>
    rw [readBody]
    -- the end of the connection, a last line without its end, or a whole line
    rcases List.lines_cases lf conn.bytes with
      hnil | ⟨hne, hnot, hlines⟩ | ⟨line, rest, hline, hbytes, hlines⟩
    · rw [conn.readLine_end (by simp [hnil]), hnil]
      cases conn.ending with
      | none => rfl
      | some error => rfl
    · rw [conn.readLine_end hnot, hlines]
      cases hend : conn.ending with
      | some error => rw [collect_cons_error hnot]
      | none =>
        have hpos : conn.bytes.length ≠ 0 := (List.length_pos_iff.mpr hne).ne'
        have hrest := ih ⟨[], [], none⟩ (body ++ unstuff conn.bytes)
          (by simp only [Connection.bytes, List.append_nil, List.flatten_nil, List.length_nil]; omega)
        rw [collect_cons (Or.inr rfl)]
        cases validUtf8 conn.bytes with
        | false => rfl
        | true =>
          simp only [if_true, if_neg hpos, hrest]
          split <;> rfl
    · obtain ⟨conn', hrest, hend, hread⟩ := conn.readLine_line hline hbytes
      have hshort : conn'.bytes.length < fuel := by
        rw [hbytes, List.length_append, List.length_cons] at h
        rw [hrest]
        omega
      have hlater := ih conn' (body ++ unstuff (line ++ [lf])) hshort
      have hpos : (line ++ [lf]).length ≠ 0 := by simp
      rw [hrest, hend] at hlater
      rw [hread, hlines, collect_cons (Or.inl (by simp))]
      cases validUtf8 (line ++ [lf]) with
      | false => rfl
      | true =>
        simp only [if_true, if_neg hpos, hlater]
        split <;> rfl

/-- What is made of all the lines: the first is the answer. -/
def answer (messageId : String) (ending : Option IoError) :
    List (List UInt8) → Except FetchError (List UInt8)
  | [] =>
      match ending with
      | none => .error (.refused (encapsulate messageId) (trimEnd []))
      | some error => .error (.io error)
  | response :: later =>
      match if lf ∈ response then none else ending with
      | some error => .error (.io error)
      | none =>
          if validUtf8 response then
            if bodyFollows.isPrefixOf (trimEnd response) then collect ending later []
            else .error (.refused (encapsulate messageId) (trimEnd response))
          else .error (.io Connection.notUtf8)

theorem answer_cons {messageId : String} (h : lf ∈ line ∨ ending = none) :
    answer messageId ending (line :: later) =
      if validUtf8 line then
        if bodyFollows.isPrefixOf (trimEnd line) then collect ending later []
        else .error (.refused (encapsulate messageId) (trimEnd line))
      else .error (.io Connection.notUtf8) := by
  have hnone : (if lf ∈ line then none else ending) = none := by
    rcases h with hmem | hend
    · exact if_pos hmem
    · rw [hend, ite_self]
  rw [answer, hnone]

/-- **What `fetch_body` comes to**, by the lines that come in. -/
theorem fetchBody_eq (messageId : String) (conn : Connection) :
    fetchBody messageId (.ok ()) conn =
      some (answer messageId conn.ending (conn.bytes.lines lf)) := by
  have hloop : ∀ conn' : Connection,
      readBody (conn'.bytes.length + 1) conn' [] =
        some (collect conn'.ending (conn'.bytes.lines lf) []) :=
    fun conn' => readBody_eq _ conn' [] (Nat.lt_succ_self _)
  unfold fetchBody Connection.readResponse
  dsimp only
  rcases List.lines_cases lf conn.bytes with
    hnil | ⟨hne, hnot, hlines⟩ | ⟨line, rest, hline, hbytes, hlines⟩
  · rw [conn.readLine_end (by simp [hnil]), hnil]
    cases conn.ending with
    | none => rfl
    | some error => rfl
  · rw [conn.readLine_end hnot, hlines, answer, if_neg hnot]
    cases hend : conn.ending with
    | some error => rfl
    | none =>
      cases validUtf8 conn.bytes with
      | false => rfl
      | true =>
        simp only [if_true, Except.map, hloop]
        split <;> rfl
  · obtain ⟨conn', hrest, hend, hread⟩ := conn.readLine_line hline hbytes
    have hlater := hloop conn'
    rw [hend] at hlater
    rw [hread, hlines, answer_cons (Or.inl (by simp)), ← hrest]
    cases validUtf8 (line ++ [lf]) with
    | false => rfl
    | true =>
      simp only [if_true, Except.map, hlater]
      split <;> rfl

end StreamServer.Nzb

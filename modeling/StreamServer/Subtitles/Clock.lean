import StreamServer.Subtitles.Formats

/-!
# Times on a line

A time below 100 hours is written with two digits for the hours, and read again; one from 100 hours on is
written with three digits or more, and not read.

## Main results

* `timesOn_timeLine` — **times below 100 hours are read as they are written.**
* `timesOn_timeLine_none` — longer ones are not.
* `notMem_timeLine` — what does not stand on such a line.

## References

`enginefs/src/subtitles.rs`, `parse_time_components` and `format_vtt_time`.
-/

namespace StreamServer.Subtitles

open Pattern

variable {isNd : Char → Bool} {mark : Char} {ms : ℕ}

/-- The patterns take the ASCII digits for digits. -/
def TakesDigits (isNd : Char → Bool) : Prop := ∀ c : Char, c.isDigit = true → isNd c = true

theorem not_space_of_isDigit {c : Char} (h : c.isDigit = true) : c.isWhiteSpace = false := by
  rw [Char.isDigit, Bool.and_eq_true, decide_eq_true_eq, decide_eq_true_eq] at h
  have hlow : 48 ≤ c.toNat := h.1
  have hhigh : c.toNat ≤ 57 := h.2
  simp only [Char.isWhiteSpace, Bool.or_eq_false_iff, Bool.and_eq_false_iff, decide_eq_false_iff_not,
    beq_eq_false_iff_ne]
  omega

theorem not_isDigit_of_white {c : Char} (h : c.isWhiteSpace = true) : c.isDigit = false := by
  cases hdigit : c.isDigit with
  | false => rfl
  | true =>
    rw [not_space_of_isDigit hdigit] at h
    cases h

theorem number_padded {width n : ℕ} (h : n < 2 ^ 64) : number (Decimal.padded width n) = n := by
  rw [number, Decimal.parse_padded width h]
  rfl

theorem length_padded_of_lt {width n : ℕ} (hwidth : 0 < width) (h : n < 10 ^ width) :
    (Decimal.padded width n).length = width :=
  Decimal.length_padded ((Nat.length_toDigits_le_iff (by decide) hwidth).mpr h)

theorem takes_padded (hdigits : TakesDigits isNd) (width n : ℕ) :
    ∀ c ∈ Decimal.padded width n, isNd c = true :=
  fun _ hc => hdigits _ (Decimal.isDigit_of_mem_padded hc)

/-- The parts of a time. -/
def clockParts (mark : Char) (ms : ℕ) : List (List Char) :=
  [Decimal.padded 2 (ms / 3600000), [':'], Decimal.padded 2 (ms % 3600000 / 60000), [':'],
    Decimal.padded 2 (ms % 60000 / 1000), [mark], Decimal.padded 3 (ms % 1000)]

/-- **A time below 100 hours** matches. -/
theorem matchAt_clock (hdigits : TakesDigits isNd) (h : ms < 360000000) (pieces : List Piece)
    (rest : List Char) : matchAt (clockPattern isNd mark ++ pieces) (formatTime mark ms ++ rest) =
      (matchAt pieces rest).map (clockParts mark ms ++ ·) := by
  have hhours : ms / 3600000 < 10 ^ 2 := by omega
  have hmins : ms % 3600000 / 60000 < 10 ^ 2 := by omega
  have hsecs : ms % 60000 / 1000 < 10 ^ 2 := by omega
  have hmillis : ms % 1000 < 10 ^ 3 := by omega
  simp only [clockPattern, formatTime, List.append_assoc, List.cons_append, List.nil_append]
  rw [matchAt_exactly (length_padded_of_lt (by decide) hhours) (takes_padded hdigits _ _), matchAt_lit,
    matchAt_exactly (length_padded_of_lt (by decide) hmins) (takes_padded hdigits _ _), matchAt_lit,
    matchAt_exactly (length_padded_of_lt (by decide) hsecs) (takes_padded hdigits _ _), matchAt_lit,
    matchAt_exactly (length_padded_of_lt (by decide) hmillis) (takes_padded hdigits _ _)]
  simp only [Option.map_map]
  rfl

/-- The hours of a longer time have three digits. -/
theorem head?_drop_formatTime (h : 360000000 ≤ ms) {k : ℕ} (hk : k ≤ 2) (rest : List Char) :
    ((formatTime mark ms ++ rest).drop k).head? ≠ some ':' := by
  have hlong : 2 < (Decimal.padded 2 (ms / 3600000)).length := by
    have hdigits : ¬ (Nat.toDigits 10 (ms / 3600000)).length ≤ 2 := by
      rw [Nat.length_toDigits_le_iff (by decide) (by decide)]
      omega
    rw [Decimal.padded, List.length_append]
    omega
  have hin : k < (Decimal.padded 2 (ms / 3600000)).length := by omega
  rw [formatTime, List.append_assoc, List.drop_append_of_le_length hin.le,
    List.drop_eq_getElem_cons hin]
  intro hcolon
  have hdigit := Decimal.isDigit_of_mem_padded (List.getElem_mem hin)
  rw [List.cons_append, List.head?_cons, Option.some.injEq] at hcolon
  rw [hcolon] at hdigit
  exact absurd hdigit (by decide)

/-- A longer time does not match. -/
theorem matchAt_clock_none (h : 360000000 ≤ ms) (pieces : List Piece) (rest : List Char) :
    matchAt (clockPattern isNd mark ++ pieces) (formatTime mark ms ++ rest) = none :=
  matchAt_exactly_lit_none (head?_drop_formatTime h (Nat.le_refl 2) rest)

/-- A time begins with a digit. -/
theorem head?_formatTime {c : Char} {rest : List Char}
    (h : (formatTime mark ms ++ rest).head? = some c) : c.isDigit = true := by
  have hne : Decimal.padded 2 (ms / 3600000) ≠ [] :=
    List.append_ne_nil_of_right_ne_nil _ Nat.toDigits_ne_nil
  rw [formatTime, List.append_assoc, List.head?_append_of_ne_nil _ hne] at h
  exact Decimal.isDigit_of_mem_padded (List.mem_of_head? h)

theorem head?_formatTime_space {rest : List Char} :
    ∀ c, (formatTime mark ms ++ rest).head? = some c → c.isWhiteSpace = false :=
  fun _ h => not_space_of_isDigit (head?_formatTime h)

/-- **A time is read as it is written.** -/
theorem parseTimeComponents_padded (h : ms < 360000000) :
    parseTimeComponents (Decimal.padded 2 (ms / 3600000)) (Decimal.padded 2 (ms % 3600000 / 60000))
      (Decimal.padded 2 (ms % 60000 / 1000)) (Decimal.padded 3 (ms % 1000)) = ms := by
  rw [parseTimeComponents, number_padded (by omega), number_padded (by omega),
    number_padded (by omega), number_padded (by omega)]
  omega

/-- Nothing in front of a time is white space. -/
theorem matchAt_space_clock {pattern : List Piece} {rest : List Char} {parts : List (List Char)}
    (h : matchAt pattern (formatTime mark ms ++ rest) = some parts) :
    matchAt (many Char.isWhiteSpace :: pattern) (formatTime mark ms ++ rest) = some ([] :: parts) :=
  @matchAt_many pattern _ [] (by simp) _ head?_formatTime_space parts h

variable {startMs endMs : ℕ}

theorem arrow_eq : word "-->" = [lit '-', lit '-', lit '>'] := by
  rw [word]
  rfl

/-- An arrow matches, and the white space around it. -/
theorem matchAt_arrow {pattern : List Piece} {front back rest : List Char} {parts : List (List Char)}
    (hfront : ∀ c ∈ front, c.isWhiteSpace = true) (hback : ∀ c ∈ back, c.isWhiteSpace = true)
    (hrest : ∀ c, rest.head? = some c → c.isWhiteSpace = false) (h : matchAt pattern rest = some parts) :
    matchAt (many Char.isWhiteSpace :: (word "-->" ++ many Char.isWhiteSpace :: pattern))
      (front ++ '-' :: '-' :: '>' :: (back ++ rest)) =
        some (front :: ['-'] :: ['-'] :: ['>'] :: back :: parts) := by
  have hword : matchAt (word "-->" ++ many Char.isWhiteSpace :: pattern)
      ('-' :: '-' :: '>' :: (back ++ rest)) = some (['-'] :: ['-'] :: ['>'] :: back :: parts) := by
    rw [arrow_eq]
    simp only [List.cons_append, List.nil_append]
    rw [matchAt_lit, matchAt_lit, matchAt_lit, matchAt_many hback hrest h]
    rfl
  refine matchAt_many hfront (fun c hc => ?_) hword
  cases hc
  rfl

/-- **Times below 100 hours are read**, whatever white space stands around the arrow and whatever is behind. -/
theorem timesOn_between (hdigits : TakesDigits isNd) (hstart : startMs < 360000000) (hend : endMs < 360000000)
    {front back : List Char} (hfront : ∀ c ∈ front, c.isWhiteSpace = true)
    (hback : ∀ c ∈ back, c.isWhiteSpace = true) (rest : List Char) :
    timesOn isNd mark (formatTime mark startMs ++
      (front ++ '-' :: '-' :: '>' :: (back ++ (formatTime mark endMs ++ rest)))) = some (startMs, endMs) := by
  have hlast := @matchAt_clock isNd mark endMs hdigits hend [] rest
  rw [List.append_nil] at hlast
  have hmatch : matchAt (timestampPattern isNd mark) (formatTime mark startMs ++
      (front ++ '-' :: '-' :: '>' :: (back ++ (formatTime mark endMs ++ rest)))) =
      some ([] :: (clockParts mark startMs ++
        front :: ['-'] :: ['-'] :: ['>'] :: back :: clockParts mark endMs)) := by
    refine matchAt_space_clock ?_
    rw [matchAt_clock hdigits hstart, matchAt_arrow hfront hback head?_formatTime_space hlast]
    rfl
  have hparts : (parseTimeComponents (Decimal.padded 2 (startMs / 3600000))
        (Decimal.padded 2 (startMs % 3600000 / 60000)) (Decimal.padded 2 (startMs % 60000 / 1000))
        (Decimal.padded 3 (startMs % 1000)),
      parseTimeComponents (Decimal.padded 2 (endMs / 3600000))
        (Decimal.padded 2 (endMs % 3600000 / 60000)) (Decimal.padded 2 (endMs % 60000 / 1000))
        (Decimal.padded 3 (endMs % 1000))) = (startMs, endMs) := by
    rw [parseTimeComponents_padded hstart, parseTimeComponents_padded hend]
  rw [timesOn, hmatch]
  exact congrArg some hparts

/-- **Times below 100 hours are read as they are written.** -/
theorem timesOn_timeLine (hdigits : TakesDigits isNd) (hstart : startMs < 360000000)
    (hend : endMs < 360000000) :
    timesOn isNd mark (timeLine mark startMs endMs) = some (startMs, endMs) := by
  have hspace : ∀ c ∈ [' '], c.isWhiteSpace = true := by decide
  have h := @timesOn_between isNd mark startMs endMs hdigits hstart hend [' '] [' '] hspace hspace []
  rwa [List.append_nil] at h

/-- White space in front of a longer time does not help. -/
theorem matchAt_space_clock_none (h : 360000000 ≤ ms) (pieces : List Piece) (rest : List Char) :
    matchAt (many Char.isWhiteSpace :: (clockPattern isNd mark ++ pieces))
      ([' '] ++ (formatTime mark ms ++ rest)) = none := by
  refine matchAt_many_none fun k hk => ?_
  rw [takeWhile_append_stop (by decide) head?_formatTime_space, List.length_singleton] at hk
  rcases Nat.le_one_iff_eq_zero_or_eq_one.mp hk with rfl | rfl
  · exact matchAt_exactly_lit_none (head?_drop_formatTime h (Nat.le_succ 1) rest)
  · exact matchAt_clock_none h pieces rest

/-- Longer times are not read. -/
theorem timesOn_timeLine_none (hdigits : TakesDigits isNd)
    (h : 360000000 ≤ startMs ∨ 360000000 ≤ endMs) :
    timesOn isNd mark (timeLine mark startMs endMs) = none := by
  rw [timesOn, Option.map_eq_none_iff, timestampPattern]
  refine matchAt_many_none fun k hk => ?_
  have hnil := @takeWhile_append_stop Char.isWhiteSpace [] (by simp) _
    (@head?_formatTime_space mark startMs (' ' :: '-' :: '-' :: '>' :: ' ' :: formatTime mark endMs))
  rw [List.nil_append] at hnil
  rw [timeLine, hnil, List.length_nil, Nat.le_zero] at hk
  rw [hk, List.drop_zero, timeLine]
  by_cases hstart : 360000000 ≤ startMs
  · exact matchAt_clock_none hstart _ _
  · -- the first time is read, and the second one is not
    have hend : 360000000 ≤ endMs := h.resolve_left hstart
    have hlast := @matchAt_space_clock_none isNd mark endMs hend [] []
    rw [List.append_nil, List.append_nil, List.singleton_append] at hlast
    rw [matchAt_clock hdigits (by omega), Option.map_eq_none_iff]
    refine matchAt_many_none fun k hk => ?_
    have hone := @takeWhile_append_stop Char.isWhiteSpace [' '] (by decide)
      ('-' :: '-' :: '>' :: ' ' :: formatTime mark endMs) (by simp; decide)
    rw [List.singleton_append] at hone
    rw [hone, List.length_singleton] at hk
    rw [arrow_eq]
    rcases Nat.le_one_iff_eq_zero_or_eq_one.mp hk with rfl | rfl
    · exact matchAt_lit_none (by simp)
    · simp only [List.cons_append, List.nil_append, List.drop_succ_cons, List.drop_zero]
      rw [matchAt_lit, matchAt_lit, matchAt_lit, hlast]
      rfl

/-! ### What stands on a line -/

theorem mem_formatTime {c : Char} (h : c ∈ formatTime mark ms) :
    c.isDigit = true ∨ c = ':' ∨ c = mark := by
  simp only [formatTime, List.mem_append, List.mem_cons] at h
  rcases h with h | h | h | h | h | h | h
  · exact Or.inl (Decimal.isDigit_of_mem_padded h)
  · exact Or.inr (Or.inl h)
  · exact Or.inl (Decimal.isDigit_of_mem_padded h)
  · exact Or.inr (Or.inl h)
  · exact Or.inl (Decimal.isDigit_of_mem_padded h)
  · exact Or.inr (Or.inr h)
  · exact Or.inl (Decimal.isDigit_of_mem_padded h)

/-- A line with times is one line. -/
theorem notMem_timeLine {c : Char} (hdigit : c.isDigit = false)
    (hother : c ∉ [':', mark, ' ', '-', '>']) : c ∉ timeLine mark startMs endMs := by
  have htime : ∀ ms, c ∉ formatTime mark ms := by
    intro ms hmem
    rcases mem_formatTime hmem with h | rfl | rfl
    · rw [h] at hdigit
      cases hdigit
    · exact hother (by simp)
    · exact hother (by simp)
  simp only [List.mem_cons, List.not_mem_nil, or_false, not_or] at hother
  simp only [timeLine, List.mem_append, List.mem_cons, not_or]
  exact ⟨htime startMs, hother.2.2.1, hother.2.2.2.1, hother.2.2.2.1, hother.2.2.2.2, hother.2.2.1,
    htime endMs⟩

theorem timeLine_ne_nil : timeLine mark startMs endMs ≠ [] :=
  List.append_ne_nil_of_right_ne_nil _ (List.cons_ne_nil _ _)

/-- There are no times without a colon. -/
theorem timesOn_of_notMem {line : List Char} (h : ':' ∉ line) : timesOn isNd mark line = none := by
  rw [timesOn, Option.map_eq_none_iff]
  refine matchAt_many_none fun k _ => matchAt_exactly_lit_none fun hhead => h ?_
  exact List.mem_of_mem_drop (List.mem_of_mem_drop (List.mem_of_head? hhead))

end StreamServer.Subtitles

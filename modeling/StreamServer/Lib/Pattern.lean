import Mathlib.Data.List.Basic
import Mathlib.Data.List.TakeDrop
import Mathlib.Data.List.TakeWhile

/-!
# Patterns that are rows of repeated characters

A pattern of this kind is a row of pieces, and a piece is a class of characters with how often it may be
repeated.  A match takes as much as it can for each piece, and less if the pieces behind it do not match
otherwise: the first match of a regular expression that backtracks.

* `Pattern.matchAt` — the parts of a text that the pieces match, from its beginning on.
* `Pattern.find?`, `Pattern.findAll`, `Pattern.removeAll` — the first match in a text, all matches one
  behind the other, and what is left without them.
* `matchAt_exactly`, `matchAt_exactly_iff`, `matchAt_lit`, `matchAt_many` — how a match begins.
* `matchAt_exactly_lit_none`, `matchAt_many_none` — how it fails.
* `flatten_prefix_of_matchAt` — a match is a beginning of the text.
* `matchAt_upTo` — the characters up to a mark, and the mark.
-/

namespace Pattern

/-- A class of characters, repeated at least and at most so often. -/
structure Piece where
  accepts : Char → Bool
  least : ℕ
  most : Option ℕ

/-- One character. -/
def lit (c : Char) : Piece := ⟨(· == c), 1, some 1⟩

/-- So many characters of a class. -/
def exactly (n : ℕ) (accepts : Char → Bool) : Piece := ⟨accepts, n, some n⟩

/-- Any number of characters of a class. -/
def many (accepts : Char → Bool) : Piece := ⟨accepts, 0, none⟩

/-- One character of a class or more. -/
def many1 (accepts : Char → Bool) : Piece := ⟨accepts, 1, none⟩

/-- At most one character of a class. -/
def optional (accepts : Char → Bool) : Piece := ⟨accepts, 0, some 1⟩

/-- The pieces that match a word. -/
def word (text : String) : List Piece := text.toList.map lit

/-- How far a piece reaches at most. -/
@[grind =] def Piece.reach (piece : Piece) (text : List Char) : ℕ :=
  match piece.most with
  | none => (text.takeWhile piece.accepts).length
  | some most => min (text.takeWhile piece.accepts).length most

/-- The parts of a text that the pieces match, from its beginning on. -/
@[grind =] def matchAt : List Piece → List Char → Option (List (List Char))
  | [], _ => some []
  | piece :: pieces, text =>
      (List.range (piece.reach text + 1 - piece.least)).findSome? fun less =>
        (matchAt pieces (text.drop (piece.reach text - less))).map
          (text.take (piece.reach text - less) :: ·)

/-- The first match in a text. -/
def find? (pattern : List Piece) : List Char → Option (List (List Char))
  | [] => matchAt pattern []
  | c :: rest =>
      match matchAt pattern (c :: rest) with
      | some parts => some parts
      | none => find? pattern rest

/-- All matches in a text, one behind the other, when so many characters are passed over; none of them is
empty. -/
def findAll (pattern : List Piece) : ℕ → List Char → List (List (List Char))
  | _, [] => []
  | skip + 1, _ :: rest => findAll pattern skip rest
  | 0, c :: rest =>
      match matchAt pattern (c :: rest) with
      | some parts => parts :: findAll pattern (parts.flatten.length - 1) rest
      | none => findAll pattern 0 rest

/-- A text without the matches in it. -/
@[grind =] def removeAll (pattern : List Piece) : ℕ → List Char → List Char
  | _, [] => []
  | skip + 1, _ :: rest => removeAll pattern skip rest
  | 0, c :: rest =>
      match matchAt pattern (c :: rest) with
      | some parts => removeAll pattern (parts.flatten.length - 1) rest
      | none => c :: removeAll pattern 0 rest

/-! ### How a match begins -/

variable {pieces : List Piece} {accepts : Char → Bool} {part text : List Char}

theorem takeWhile_length_ge (h : ∀ c ∈ part, accepts c = true) (rest : List Char) :
    part.length ≤ ((part ++ rest).takeWhile accepts).length := by
  rw [List.takeWhile_append_of_pos h, List.length_append]
  omega

/-- So many characters of the class. -/
theorem matchAt_exactly {n : ℕ} (hn : part.length = n) (h : ∀ c ∈ part, accepts c = true)
    (rest : List Char) : matchAt (exactly n accepts :: pieces) (part ++ rest) =
      (matchAt pieces rest).map (part :: ·) := by
  subst hn
  have hreach : (exactly part.length accepts).reach (part ++ rest) = part.length :=
    Nat.min_eq_right (takeWhile_length_ge h rest)
  have hrange : part.length + 1 - (exactly part.length accepts).least = 1 := by
    simp only [exactly]
    omega
  rw [matchAt, hreach, hrange]
  simp

theorem matchAt_lit (c : Char) (rest : List Char) :
    matchAt (lit c :: pieces) (c :: rest) = (matchAt pieces rest).map ([c] :: ·) :=
  @matchAt_exactly pieces (· == c) [c] 1 rfl (by simp) rest

/-- **So many characters of a class**, and a match behind them. -/
theorem matchAt_exactly_iff {n : ℕ} {parts : List (List Char)} :
    matchAt (exactly n accepts :: pieces) text = some parts ↔
      ∃ part rest later, text = part ++ rest ∧ part.length = n ∧ (∀ c ∈ part, accepts c = true) ∧
        matchAt pieces rest = some later ∧ parts = part :: later := by
  constructor
  · intro h
    rw [matchAt] at h
    obtain ⟨less, hless, h⟩ := List.exists_of_findSome?_eq_some h
    obtain ⟨later, hlater, rfl⟩ := Option.map_eq_some_iff.mp h
    have hreach : (exactly n accepts).reach text = min (text.takeWhile accepts).length n := rfl
    have hleast : (exactly n accepts).least = n := rfl
    have hall : (exactly n accepts).reach text - less = n := by
      rw [List.mem_range] at hless
      omega
    have hlong : n ≤ (text.takeWhile accepts).length := by omega
    have htake : text.take n <+: text.takeWhile accepts :=
      List.prefix_of_prefix_length_le (List.take_prefix _ _) (List.takeWhile_prefix _)
        (Nat.le_trans (List.length_take_le _ _) hlong)
    rw [hall] at hlater ⊢
    refine ⟨text.take n, text.drop n, later, (List.take_append_drop n text).symm, ?_, ?_, hlater, rfl⟩
    · rw [List.length_take]
      exact Nat.min_eq_left (Nat.le_trans hlong (List.takeWhile_prefix _).length_le)
    · exact fun c hc => List.mem_takeWhile_imp (htake.subset hc)
  · intro h
    obtain ⟨part, rest, later, rfl, hn, hpart, hlater, rfl⟩ := h
    rw [matchAt_exactly hn hpart, hlater]
    rfl

/-- The characters of a class, up to one that is not in it. -/
theorem takeWhile_append_stop (h : ∀ c ∈ part, accepts c = true) {rest : List Char}
    (hrest : ∀ c, rest.head? = some c → accepts c = false) :
    (part ++ rest).takeWhile accepts = part := by
  have hnil : rest.takeWhile accepts = [] := by
    cases rest with
    | nil => rfl
    | cons c rest => rw [List.takeWhile_cons_of_neg (by rw [hrest c rfl]; simp)]
  rw [List.takeWhile_append_of_pos h, hnil, List.append_nil]

theorem reach_many (h : ∀ c ∈ part, accepts c = true) {rest : List Char}
    (hrest : ∀ c, rest.head? = some c → accepts c = false) :
    (many accepts).reach (part ++ rest) = part.length := by
  rw [Piece.reach, many, takeWhile_append_stop h hrest]

/-- **As many as there are.** -/
theorem matchAt_many (h : ∀ c ∈ part, accepts c = true) {rest : List Char}
    (hrest : ∀ c, rest.head? = some c → accepts c = false) {parts : List (List Char)}
    (hmatch : matchAt pieces rest = some parts) :
    matchAt (many accepts :: pieces) (part ++ rest) = some (part :: parts) := by
  rw [matchAt, reach_many h hrest, show part.length + 1 - (many accepts).least = part.length + 1 by rfl,
    List.range_succ_eq_map, List.findSome?_cons]
  simp [hmatch]

/-! ### How a match fails -/

theorem matchAt_lit_none {c : Char} (h : text.head? ≠ some c) :
    matchAt (lit c :: pieces) text = none := by
  have hnil : text.takeWhile (· == c) = [] := by
    cases text with
    | nil => rfl
    | cons d text =>
      have hne : ¬ (d == c) = true := by
        intro heq
        rw [beq_iff_eq.mp heq] at h
        exact h rfl
      exact List.takeWhile_cons_of_neg hne
  have hreach : (lit c).reach text = 0 := by
    rw [Piece.reach, lit, hnil]
    rfl
  rw [matchAt, hreach]
  rfl

/-- Behind so many characters there is not the one that has to be there. -/
theorem matchAt_exactly_lit_none {n : ℕ} {c : Char} (h : (text.drop n).head? ≠ some c) :
    matchAt (exactly n accepts :: lit c :: pieces) text = none := by
  rw [matchAt, List.findSome?_eq_none_iff]
  intro less hless
  rw [List.mem_range] at hless
  have hreach : (exactly n accepts).reach text ≤ n := Nat.min_le_right _ _
  have hleast : (exactly n accepts).least = n := rfl
  have hall : (exactly n accepts).reach text - less = n := by omega
  rw [hall, matchAt_lit_none h]
  rfl

/-- However many are taken, the pieces behind them do not match. -/
theorem matchAt_many_none (h : ∀ k, k ≤ (text.takeWhile accepts).length →
    matchAt pieces (text.drop k) = none) : matchAt (many accepts :: pieces) text = none := by
  rw [matchAt, List.findSome?_eq_none_iff]
  intro less _
  have hreach : (many accepts).reach text = (text.takeWhile accepts).length := rfl
  rw [hreach, h _ (Nat.sub_le _ _)]
  rfl

/-- **A match is a beginning of the text.** -/
theorem flatten_prefix_of_matchAt {parts : List (List Char)} (h : matchAt pieces text = some parts) :
    parts.flatten <+: text := by
  induction pieces generalizing text parts with
  | nil =>
    cases h
    exact List.nil_prefix
  | cons piece pieces ih =>
    rw [matchAt] at h
    obtain ⟨less, -, hless⟩ := List.exists_of_findSome?_eq_some h
    obtain ⟨rest, hrest, rfl⟩ := Option.map_eq_some_iff.mp hless
    rw [List.flatten_cons]
    conv_rhs => rw [← List.take_append_drop (piece.reach text - less) text]
    exact (List.prefix_append_right_inj _).mpr (ih hrest)

/-! ### Up to a mark -/

section UpTo

variable {c : Char} {rest : List Char}

/-- The characters up to a mark, and the mark; there is one character at least. -/
def upTo (c : Char) : List Piece := [many1 (· != c), lit c]

theorem reach_upTo (h : c ∉ part) (hrest : ∀ d, rest.head? = some d → d = c) :
    (many1 (· != c)).reach (part ++ rest) = part.length := by
  have hpart : ∀ d ∈ part, (d != c) = true := fun d hd => bne_iff_ne.mpr fun heq => h (heq ▸ hd)
  have hstop : ∀ d, rest.head? = some d → (d != c) = false := by
    intro d hd
    rw [hrest d hd, bne_self_eq_false]
  rw [Piece.reach, many1, takeWhile_append_stop hpart hstop]

/-- **A mark behind other characters.** -/
theorem matchAt_upTo (hne : part ≠ []) (h : c ∉ part) (rest : List Char) :
    matchAt (upTo c) (part ++ c :: rest) = some [part, [c]] := by
  have hreach : (many1 (· != c)).reach (part ++ c :: rest) = part.length :=
    reach_upTo h (by simp)
  obtain ⟨n, hn⟩ : ∃ n, part.length + 1 - (many1 (· != c)).least = n + 1 := by
    have hpos := List.length_pos_of_ne_nil hne
    exact ⟨part.length - 1, by simp only [many1]; omega⟩
  rw [upTo, matchAt, hreach, hn, List.range_succ_eq_map, List.findSome?_cons, Nat.sub_zero,
    List.drop_left, List.take_left, matchAt_lit]
  rfl

/-- No mark. -/
theorem matchAt_upTo_none (h : c ∉ text) : matchAt (upTo c) text = none := by
  rw [upTo, matchAt, List.findSome?_eq_none_iff]
  intro less _
  have hdrop : (text.drop ((many1 (· != c)).reach text - less)).head? ≠ some c :=
    fun hhead => h (List.mem_of_mem_drop (List.mem_of_head? hhead))
  rw [matchAt_lit_none hdrop]
  rfl

/-- A mark at once. -/
theorem matchAt_upTo_mark (rest : List Char) : matchAt (upTo c) (c :: rest) = none := by
  have hreach : (many1 (· != c)).reach (c :: rest) = 0 :=
    @reach_upTo [] c (c :: rest) (by simp) (by simp)
  rw [upTo, matchAt, hreach]
  rfl

end UpTo

end Pattern

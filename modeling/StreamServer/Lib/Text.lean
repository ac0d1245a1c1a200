import Mathlib.Data.List.DropRight
import Mathlib.Data.List.Infix
import StreamServer.Lib.Lines

/-!
# Texts

Characters that count as white space, texts without what stands at their ends, and lines.

* `Char.isWhiteSpace` — the characters with the property `White_Space`.
* `List.trimStart`, `List.trimEnd`, `List.trim` — a text without its white space at the ends.
* `List.strip` — a text without the characters of a kind at its ends.
* `List.trimStartMatches`, `List.trimEndMatches` — a text without a pattern at its ends, as often as
  it stands there.
* `List.textLines` — the lines of a text, without what ends them.
* `trim_spec`, `trim_append` — nothing else is trimmed away, and white space makes no difference.
* `String.eqIgnoreAsciiCase` — the comparison that takes ASCII letters as one case.
-/

/-- The characters with the Unicode property `White_Space`. -/
def Char.isWhiteSpace (c : Char) : Bool :=
  (9 ≤ c.toNat && c.toNat ≤ 13) || c.toNat == 0x20 || c.toNat == 0x85 || c.toNat == 0xA0 ||
    c.toNat == 0x1680 || (0x2000 ≤ c.toNat && c.toNat ≤ 0x200A) || c.toNat == 0x2028 ||
    c.toNat == 0x2029 || c.toNat == 0x202F || c.toNat == 0x205F || c.toNat == 0x3000

namespace List

/-- `trim_start()`. -/
def trimStart (text : List Char) : List Char := text.dropWhile Char.isWhiteSpace

/-- `trim_end()`. -/
def trimEnd (text : List Char) : List Char := text.rdropWhile Char.isWhiteSpace

/-- `trim()`. -/
def trim (text : List Char) : List Char := text.trimStart.trimEnd

/-- What is trimmed away is white space. -/
theorem trim_spec (text : List Char) : ∃ front back, text = front ++ (text.trim ++ back) ∧
    (∀ c ∈ front, c.isWhiteSpace = true) ∧ ∀ c ∈ back, c.isWhiteSpace = true := by
  refine ⟨text.takeWhile Char.isWhiteSpace, text.trimStart.rtakeWhile Char.isWhiteSpace, ?_,
    fun c hc => mem_takeWhile_imp hc, fun c hc => mem_rtakeWhile_imp hc⟩
  rw [trim, trimEnd, rdropWhile_append_rtakeWhile, trimStart, takeWhile_append_dropWhile]

section Trim

variable {text front back : List Char}

theorem trimStart_append (h : ∀ c ∈ front, c.isWhiteSpace = true) (text : List Char) :
    (front ++ text).trimStart = text.trimStart := dropWhile_append_of_pos h

theorem trimEnd_append (h : ∀ c ∈ back, c.isWhiteSpace = true) (text : List Char) :
    (text ++ back).trimEnd = text.trimEnd := by
  have hback : ∀ c ∈ back.reverse, c.isWhiteSpace = true := fun c hc => h c (mem_reverse.mp hc)
  rw [trimEnd, rdropWhile, reverse_append, dropWhile_append_of_pos hback]
  rfl

/-- White space has nothing left. -/
theorem trim_white (h : ∀ c ∈ text, c.isWhiteSpace = true) : text.trim = [] := by
  rw [trim, trimStart, dropWhile_eq_nil_iff.mpr h]
  rfl

/-- **White space at the ends** makes no difference. -/
theorem trim_append (hfront : ∀ c ∈ front, c.isWhiteSpace = true)
    (hback : ∀ c ∈ back, c.isWhiteSpace = true) (text : List Char) :
    (front ++ (text ++ back)).trim = text.trim := by
  rw [trim, trimStart_append hfront]
  by_cases hwhite : ∀ c ∈ text, c.isWhiteSpace = true
  · have hall : ∀ c ∈ text ++ back, c.isWhiteSpace = true :=
      fun c hc => (mem_append.mp hc).elim (hwhite c) (hback c)
    exact (trim_white hall).trans (trim_white hwhite).symm
  · have hsome : ¬ (dropWhile Char.isWhiteSpace text).isEmpty = true := by
      rw [isEmpty_iff, dropWhile_eq_nil_iff]
      exact hwhite
    have hstart : (text ++ back).trimStart = text.trimStart ++ back := by
      rw [trimStart, dropWhile_append, if_neg hsome, trimStart]
    rw [hstart, trimEnd_append hback, trim]

theorem trim_trim (text : List Char) : text.trim.trim = text.trim := by
  obtain ⟨front, back, hall, hfront, hback⟩ := trim_spec text
  conv_rhs => rw [hall]
  exact (trim_append hfront hback text.trim).symm

theorem mem_of_mem_trim {c : Char} (h : c ∈ text.trim) : c ∈ text := by
  obtain ⟨front, back, hall, -, -⟩ := trim_spec text
  rw [hall]
  exact mem_append_right _ (mem_append_left _ h)

/-- What is trimmed does not begin with white space. -/
theorem head?_trim {c : Char} (h : text.trim.head? = some c) : c.isWhiteSpace = false := by
  have hnot := head?_dropWhile_not Char.isWhiteSpace text
  obtain ⟨tail, htail⟩ : text.trim <+: text.trimStart := rdropWhile_prefix _ _
  have hhead : (dropWhile Char.isWhiteSpace text).head? = some c := by
    rw [← trimStart, ← htail, head?_append, h]
    rfl
  rw [hhead] at hnot
  exact hnot

end Trim

/-! ### Stripped texts -/

section Strip

variable {α : Type*} {p : α → Bool} {text : List α}

/-- A text without the characters of a kind at its ends. -/
def strip (p : α → Bool) (text : List α) : List α := (text.dropWhile p).rdropWhile p

theorem trim_eq_strip (text : List Char) : text.trim = text.strip Char.isWhiteSpace := rfl

theorem mem_of_mem_strip {c : α} (h : c ∈ text.strip p) : c ∈ text :=
  (dropWhile_sublist p).subset (( rdropWhile_prefix p _).subset h)

/-- What is left begins where the characters of the kind end. -/
theorem head?_strip : (text.strip p).head? = (text.dropWhile p).head? := by
  rw [strip]
  cases hdrop : text.dropWhile p with
  | nil => rfl
  | cons c rest =>
    have hc : ¬ p c = true := by
      have hnot := head?_dropWhile_not p text
      rw [hdrop] at hnot
      exact fun h => Bool.noConfusion (h.symm.trans hnot)
    obtain ⟨front, hfront⟩ := rdropWhile_prefix p (l := c :: rest)
    cases hstrip : (c :: rest).rdropWhile p with
    | nil => exact absurd (rdropWhile_eq_nil_iff.mp hstrip c mem_cons_self) hc
    | cons d more =>
      rw [hstrip, cons_append, cons.injEq] at hfront
      rw [head?_cons, head?_cons, hfront.1]

theorem not_of_head?_strip {c : α} (h : (text.strip p).head? = some c) : p c = false := by
  rw [head?_strip] at h
  have hnot := head?_dropWhile_not p text
  rw [h] at hnot
  exact hnot

/-- Nothing is stripped from a text that has none of the kind at its ends. -/
theorem strip_eq_self (hfirst : ∀ c ∈ text.head?, p c = false) (hlast : ∀ c ∈ text.getLast?, p c = false) :
    text.strip p = text := by
  have hdrop : text.dropWhile p = text := by
    cases text with
    | nil => rfl
    | cons c text => exact dropWhile_cons_of_neg (by simp [hfirst c rfl])
  rw [strip, hdrop, rdropWhile_eq_self_iff]
  intro hne
  have hmem : text.getLast hne ∈ text.getLast? := by
    rw [getLast?_eq_some_getLast hne]
    rfl
  simp [hlast _ hmem]

/-- It makes no difference which end is stripped first. -/
theorem dropWhile_rdropWhile (text : List α) :
    (text.rdropWhile p).dropWhile p = (text.dropWhile p).rdropWhile p := by
  have hback : ∀ c ∈ (text.rtakeWhile p).reverse, p c = true :=
    fun c hc => mem_rtakeWhile_imp (mem_reverse.mp hc)
  have hall : text.rdropWhile p ++ text.rtakeWhile p = text := rdropWhile_append_rtakeWhile
  have hlast : ∀ hne : text.rdropWhile p ≠ [], ¬ p ((text.rdropWhile p).getLast hne) = true :=
    fun hne => rdropWhile_last_not p text hne
  generalize text.rdropWhile p = front at hall hlast ⊢
  rw [← hall, dropWhile_append]
  split
  · next hempty =>
    have hnil : dropWhile p (text.rtakeWhile p) = [] :=
      dropWhile_eq_nil_iff.mpr fun c hc => mem_rtakeWhile_imp hc
    rw [isEmpty_iff.mp hempty, hnil]
    rfl
  · next hsome =>
    have hne : front.dropWhile p ≠ [] := fun heq => hsome (isEmpty_iff.mpr heq)
    have hself : (front.dropWhile p).rdropWhile p = front.dropWhile p := by
      rw [rdropWhile_eq_self_iff]
      intro hne
      rw [(dropWhile_suffix p).getLast hne]
      exact hlast _
    rw [rdropWhile, reverse_append, dropWhile_append_of_pos hback, ← rdropWhile, hself]

/-- The ends are stripped alike. -/
theorem strip_reverse (text : List α) : text.reverse.strip p = (text.strip p).reverse := by
  have hdrop : text.reverse.dropWhile p = (text.rdropWhile p).reverse := by
    rw [rdropWhile, reverse_reverse]
  rw [strip, hdrop, rdropWhile_reverse, dropWhile_rdropWhile, ← strip]

/-- The pieces have nothing of what a text is cut at. -/
theorem not_mem_splitOnP (p : α → Bool) (text : List α) :
    ∀ piece ∈ text.splitOnP p, ∀ c ∈ piece, p c = false := by
  induction text with
  | nil => simp
  | cons a text ih =>
    rw [splitOnP_cons_eq_if_modifyHead]
    split
    · intro piece hpiece
      rcases mem_cons.mp hpiece with rfl | hpiece
      · exact fun c hc => absurd hc not_mem_nil
      · exact ih piece hpiece
    · next ha =>
      cases hsplit : text.splitOnP p with
      | nil => exact absurd hsplit (splitOnP_ne_nil p text)
      | cons first pieces =>
        rw [hsplit] at ih
        intro piece hpiece c hc
        rw [modifyHead_cons] at hpiece
        rcases mem_cons.mp hpiece with rfl | hpiece
        · rcases mem_cons.mp hc with rfl | hc
          · exact (Bool.not_eq_true _).mp ha
          · exact ih first mem_cons_self c hc
        · exact ih piece (mem_cons_of_mem _ hpiece) c hc

/-- What stands in a joined text is the separator, or stands in a piece. -/
theorem mem_intercalate {sep c : α} {pieces : List (List α)} (h : c ∈ [sep].intercalate pieces) :
    c = sep ∨ ∃ piece ∈ pieces, c ∈ piece := by
  induction pieces with
  | nil => exact absurd h not_mem_nil
  | cons piece pieces ih =>
    cases pieces with
    | nil => exact .inr ⟨piece, mem_cons_self, by simpa using h⟩
    | cons piece' pieces =>
      rw [intercalate_cons_cons, mem_append, mem_append] at h
      rcases h with (h | h) | h
      · exact .inr ⟨piece, mem_cons_self, h⟩
      · exact .inl (mem_singleton.mp h)
      · rcases ih h with heq | ⟨found, hfound, hc⟩
        · exact .inl heq
        · exact .inr ⟨found, mem_cons_of_mem _ hfound, hc⟩

end Strip

section Patterns

variable {α : Type*} [DecidableEq α] {pattern text : List α}

/-- Takes the pattern away from the front, at most so many times. -/
@[grind =] def dropMatches (pattern : List α) : ℕ → List α → List α
  | 0, text => text
  | n + 1, text =>
      if pattern <+: text then dropMatches pattern n (text.drop pattern.length) else text

/-- A text without the pattern at its front; the pattern is not empty. -/
def trimStartMatches (text pattern : List α) : List α := dropMatches pattern text.length text

/-- A text without the pattern at its end. -/
def trimEndMatches (text pattern : List α) : List α :=
  (text.reverse.trimStartMatches pattern.reverse).reverse

theorem dropMatches_of_not (h : ¬ pattern <+: text) (n : ℕ) :
    dropMatches pattern n text = text := by
  cases n with
  | zero => rfl
  | succ n => rw [dropMatches, if_neg h]

theorem trimStartMatches_append (hne : pattern ≠ []) (h : ¬ pattern <+: text) :
    (pattern ++ text).trimStartMatches pattern = text := by
  have hpos : 0 < pattern.length := length_pos_of_ne_nil hne
  obtain ⟨n, hn⟩ : ∃ n, (pattern ++ text).length = n + 1 :=
    ⟨(pattern ++ text).length - 1, by simp only [length_append]; omega⟩
  rw [trimStartMatches, hn, dropMatches, if_pos (prefix_append _ _), drop_left]
  exact dropMatches_of_not h n

/-- A pattern that stands once at the end. -/
theorem trimEndMatches_append (hne : pattern ≠ []) (h : ¬ pattern <:+ text) :
    (text ++ pattern).trimEndMatches pattern = text := by
  rw [trimEndMatches, reverse_append, trimStartMatches_append (by simpa using hne), reverse_reverse]
  rwa [ reverse_prefix]

end Patterns

/-! ### Lines of a text -/

/-- A line without what ends it. -/
@[grind =] def chomp (line : List Char) : List Char :=
  match line.reverse with
  | '\n' :: '\r' :: rest => rest.reverse
  | '\n' :: rest => rest.reverse
  | _ => line

/-- The lines of a text. -/
def textLines (text : List Char) : List (List Char) := (lines '\n' text).map chomp

theorem chomp_line {line : List Char} (h : line.getLast? ≠ some '\r') :
    chomp (line ++ ['\n']) = line := by
  rw [chomp, reverse_append, reverse_singleton, singleton_append]
  split
  · next rest heq =>
    rw [cons.injEq] at heq
    have hlast : line.reverse.head? = some '\r' := by rw [heq.2]; rfl
    exact absurd (by rwa [head?_reverse] at hlast) h
  · next rest _ heq =>
    rw [cons.injEq] at heq
    rw [← heq.2, reverse_reverse]
  · next hnot => exact absurd rfl (hnot line.reverse)

theorem chomp_of_notMem {line : List Char} (h : '\n' ∉ line) : chomp line = line := by
  have hrev : '\n' ∉ line.reverse := fun hmem => h (mem_reverse.mp hmem)
  rw [chomp]
  split
  · next heq => exact absurd (by rw [heq]; simp) hrev
  · next heq => exact absurd (by rw [heq]; simp) hrev
  · rfl

/-- **Lines that are put together** are found again. -/
theorem textLines_flatten {pieces : List (List Char)}
    (h : ∀ piece ∈ pieces, '\n' ∉ piece ∧ piece.getLast? ≠ some '\r') :
    textLines (pieces.flatMap fun piece => piece ++ ['\n']) = pieces := by
  have hlines := lines_flatten pieces (fun piece hpiece => (h piece hpiece).1) []
  rw [append_nil, lines_nil, append_nil] at hlines
  rw [textLines, hlines, map_map]
  conv_rhs => rw [← map_id pieces]
  refine map_congr_left fun piece hpiece => ?_
  exact chomp_line (h piece hpiece).2

end List

namespace String

/-- A text without the white space at its ends. -/
def trimSpaces (text : String) : String := String.ofList text.toList.trim

/-- Whether two texts differ in the case of ASCII letters at most. -/
def eqIgnoreAsciiCase (text text' : String) : Bool :=
  text.toList.map Char.toLower == text'.toList.map Char.toLower

end String

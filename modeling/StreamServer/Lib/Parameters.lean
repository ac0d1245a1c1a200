import Mathlib.Data.Nat.Notation
import StreamServer.Lib.Lines

/-!
# Headers with parameters

A header such as `type; name=token; name="text"`, as its receiver reads it.

* `Header.readParameters`, `Header.read` — what the receiver reads.
* `Header.Value.render`, `Header.render` — the header with these parameters.
* `Header.WellFormed` — the parameters that can be written so.
* `read_render` — what is written is read.
-/

namespace Header

/-- The value of a parameter. -/
inductive Value
  | token (text : List Char)
  | quoted (text : List Char)
  deriving DecidableEq, Repr

/-- The text up to the closing quotation mark, and what follows it.  A character behind a backslash stands for
itself. -/
@[grind =] def readQuoted (escaped : Bool) : List Char → Option (List Char × List Char)
  | [] => none
  | c :: rest =>
      if escaped = true then (readQuoted false rest).map fun read => (c :: read.1, read.2)
      else if c = '"' then some ([], rest)
      else if c = '\\' then readQuoted true rest
      else (readQuoted false rest).map fun read => (c :: read.1, read.2)

/-- The value in front of the text, quoted or up to the next semicolon, with what follows it. -/
def readValue (text : List Char) : Option (Value × List Char) :=
  if text.head? = some '"' then (readQuoted false text.tail).map fun read => (.quoted read.1, read.2)
  else some (.token (text.span (· ≠ ';')).1, (text.span (· ≠ ';')).2)

/-- At most so many parameters, each behind a semicolon. -/
@[grind =] def readParameters : ℕ → List Char → Option (List (List Char × Value))
  | _, [] => some []
  | 0, _ => none
  | n + 1, c :: rest =>
      if c = ';' then
        match (rest.dropWhile (· = ' ')).span (· ≠ '=') with
        | (_, []) => none
        | (name, _ :: rest) =>
            (readValue rest).bind fun read =>
              (readParameters n read.2).map fun parameters => (name, read.1) :: parameters
      else none

/-- The type of a header, and its parameters. -/
def read (header : List Char) : Option (List Char × List (List Char × Value)) :=
  (readParameters header.length (header.span (· ≠ ';')).2).map fun parameters =>
    ((header.span (· ≠ ';')).1, parameters)

/-- A value as it is written. -/
def Value.render : Value → List Char
  | .token text => text
  | .quoted text => '"' :: text ++ ['"']

/-- The parameters as they are written, each behind a semicolon. -/
def renderParameters (parameters : List (List Char × Value)) : List Char :=
  parameters.flatMap fun p => "; ".toList ++ p.1 ++ '=' :: p.2.render

/-- The header with its parameters. -/
def render (kind : List Char) (parameters : List (List Char × Value)) : List Char :=
  kind ++ renderParameters parameters

/-- The value needs no escapes, and is read back as it is written. -/
def Value.WellFormed : Value → Prop
  | .token text => ';' ∉ text ∧ text.head? ≠ some '"'
  | .quoted text => '"' ∉ text ∧ '\\' ∉ text

/-- A parameter that can be written. -/
def WellFormed (p : List Char × Value) : Prop :=
  '=' ∉ p.1 ∧ p.1.head? ≠ some ' ' ∧ p.2.WellFormed

/-- A text without quotation marks and backslashes, up to the quotation mark behind it. -/
theorem readQuoted_append {text : List Char} (h : '"' ∉ text ∧ '\\' ∉ text) (rest : List Char) :
    readQuoted false (text ++ '"' :: rest) = some (text, rest) := by
  induction text with
  | nil => rw [List.nil_append, readQuoted, if_neg (by decide), if_pos rfl]
  | cons c text ih =>
    obtain ⟨hquote, hescape⟩ := h
    rw [List.mem_cons, not_or] at hquote hescape
    rw [List.cons_append, readQuoted, if_neg (by decide), if_neg (Ne.symm hquote.1), if_neg (Ne.symm hescape.1),
      ih ⟨hquote.2, hescape.2⟩]
    rfl

/-- A text up to the next parameter. -/
theorem span_parameters {text rest : List Char} (h : ';' ∉ text)
    (hrest : rest = [] ∨ ∃ more, rest = ';' :: more) : (text ++ rest).span (· ≠ ';') = (text, rest) := by
  rcases hrest with rfl | ⟨more, rfl⟩
  · have hall : ∀ c ∈ text, decide (c ≠ ';') = true := fun c hc => decide_eq_true fun heq => h (heq ▸ hc)
    rw [List.append_nil, List.span_eq_takeWhile_dropWhile, List.takeWhile_eq_self_iff.mpr hall,
      List.dropWhile_eq_nil_iff.mpr hall]
  · exact List.span_line h more

/-- A value is read up to the next parameter. -/
theorem readValue_append {value : Value} (h : value.WellFormed) {rest : List Char}
    (hrest : rest = [] ∨ ∃ more, rest = ';' :: more) :
    readValue (value.render ++ rest) = some (value, rest) := by
  cases value with
  | token text =>
    have hhead : (text ++ rest).head? ≠ some '"' := by
      cases text with
      | nil =>
        rcases hrest with rfl | ⟨more, rfl⟩
        · simp
        · simp
      | cons c text => exact h.2
    rw [Value.render, readValue, if_neg hhead, span_parameters h.1 hrest]
  | quoted text =>
    rw [Value.render, readValue, List.cons_append, List.cons_append, List.head?_cons, if_pos rfl, List.tail_cons,
      List.append_assoc, List.singleton_append, readQuoted_append h]
    rfl

theorem renderParameters_begin (parameters : List (List Char × Value)) :
    renderParameters parameters = [] ∨ ∃ more, renderParameters parameters = ';' :: more := by
  cases parameters with
  | nil => exact .inl rfl
  | cons p parameters => exact .inr ⟨_, rfl⟩

/-- **The parameters that are written are read**, one after the other. -/
theorem readParameters_render {parameters : List (List Char × Value)} (h : ∀ p ∈ parameters, WellFormed p)
    {n : ℕ} (hn : parameters.length ≤ n) :
    readParameters n (renderParameters parameters) = some parameters := by
  induction parameters generalizing n with
  | nil => rw [renderParameters, List.flatMap_nil, readParameters]
  | cons p parameters ih =>
    obtain ⟨n, rfl⟩ : ∃ m, n = m + 1 := ⟨n - 1, by rw [List.length_cons] at hn; omega⟩
    obtain ⟨hname, hhead, hvalue⟩ := h p List.mem_cons_self
    have hrest := ih (fun q hq => h q (List.mem_cons_of_mem _ hq)) (Nat.le_of_succ_le_succ hn)
    have hsplit : renderParameters (p :: parameters) =
        ';' :: ' ' :: (p.1 ++ '=' :: (p.2.render ++ renderParameters parameters)) := by
      simp [renderParameters]
    have hdrop : (' ' :: (p.1 ++ '=' :: (p.2.render ++ renderParameters parameters))).dropWhile (· = ' ') =
        p.1 ++ '=' :: (p.2.render ++ renderParameters parameters) := by
      rw [List.dropWhile_cons_of_pos (by decide)]
      cases hp : p.1 with
      | nil => rfl
      | cons c name =>
        rw [hp] at hhead
        exact List.dropWhile_cons_of_neg (by simpa using hhead)
    rw [hsplit, readParameters, if_pos rfl, hdrop, List.span_line hname]
    dsimp only
    rw [readValue_append hvalue (renderParameters_begin parameters), Option.bind_some, hrest]
    rfl

theorem length_le_render (kind : List Char) (parameters : List (List Char × Value)) :
    parameters.length ≤ (render kind parameters).length := by
  rw [render, List.length_append]
  refine Nat.le_trans ?_ (Nat.le_add_left _ _)
  induction parameters with
  | nil => exact Nat.zero_le _
  | cons p parameters ih =>
    rw [renderParameters, List.flatMap_cons, ← renderParameters, List.length_append, List.length_cons]
    simp only [List.length_append, List.length_cons]
    omega

/-- **What is written is read.** -/
theorem read_render {kind : List Char} (hkind : ';' ∉ kind) {parameters : List (List Char × Value)}
    (h : ∀ p ∈ parameters, WellFormed p) : read (render kind parameters) = some (kind, parameters) := by
  have hlength := length_le_render kind parameters
  rw [read]
  generalize (render kind parameters).length = n at hlength ⊢
  rw [render, span_parameters hkind (renderParameters_begin parameters)]
  dsimp only
  rw [readParameters_render h hlength]
  rfl

end Header

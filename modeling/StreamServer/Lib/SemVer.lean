import Mathlib.Algebra.Ring.Nat
import Mathlib.Data.Char
import Mathlib.Data.List.Lex
import Mathlib.Data.Nat.Notation
import Mathlib.Data.Prod.Lex
import Mathlib.Data.Sum.Order
import Mathlib.Order.WithBot

/-!
# Semantic versions

The order of versions: by the numbers, and then by what stands behind the hyphen.

* `SemVer.IsPrerelease`, `SemVer.IsBuild` — what may stand behind the hyphen, and behind the plus sign.
* `SemVer.precedence` — the place of a prerelease in the order.
* `SemVer.Library` — what a program uses of a library for versions; `SemVer.Library.Lawful` is its documentation.
* `SemVer.Version` — versions; `SemVer.Version.key` is their place in the order.
* `cmp_eq_compare` — they are compared by their places.
* `reference` — a library that is lawful.
-/

namespace SemVer

/-- An identifier is a number or a text, and a number comes before every text. -/
abbrev Identifier := ℕ ⊕ₗ List Char

/-- The place of a prerelease.  The release itself comes behind all of them. -/
abbrev Precedence := WithTop (List Identifier)

/-- The characters of identifiers: letters, digits and the hyphen. -/
def isIdentifierChar (c : Char) : Bool := c.isAlphanum || c = '-'

/-- The identifiers of build metadata, which may begin with a zero. -/
def IsBuildIdentifier (s : List Char) : Prop := s ≠ [] ∧ ∀ c ∈ s, isIdentifierChar c = true

/-- A number has no zeros in front of it. -/
def IsIdentifier (s : List Char) : Prop :=
  IsBuildIdentifier s ∧ ((∀ c ∈ s, c.isDigit = true) → s.head? = some '0' → s = ['0'])

/-- Identifiers between dots. -/
def IsPrerelease (text : List Char) : Prop := ∀ piece ∈ text.splitOn '.', IsIdentifier piece

/-- Build identifiers between dots. -/
def IsBuild (text : List Char) : Prop := ∀ piece ∈ text.splitOn '.', IsBuildIdentifier piece

instance (s : List Char) : Decidable (IsBuildIdentifier s) := inferInstanceAs (Decidable (_ ∧ _))

instance (s : List Char) : Decidable (IsIdentifier s) := inferInstanceAs (Decidable (_ ∧ _))

instance (text : List Char) : Decidable (IsPrerelease text) :=
  inferInstanceAs (Decidable (∀ piece ∈ text.splitOn '.', IsIdentifier piece))

/-- How identifiers are compared: numbers come first, by their value. -/
def identifier (s : List Char) : Identifier :=
  if s.all Char.isDigit then toLex (.inl (Nat.ofDigitChars 10 s 0)) else toLex (.inr s)

/-- The place of what stands behind the hyphen; nothing stands there in a release. -/
def precedence (text : List Char) : Precedence :=
  if text = [] then ⊤ else ((text.splitOn '.').map identifier : List Identifier)

@[simp] theorem precedence_nil : precedence [] = ⊤ := rfl

/-- A prerelease comes before the release. -/
theorem precedence_ne_top {text : List Char} (h : text ≠ []) : precedence text ≠ ⊤ := by
  rw [precedence, if_neg h]
  exact WithTop.coe_ne_top

/-- No prerelease comes before `0`. -/
theorem precedence_zero_le (text : List Char) : precedence ['0'] ≤ precedence text := by
  by_cases h : text = []
  · rw [h, precedence_nil]
    exact le_top
  · have hzero : precedence ['0'] = (([toLex (.inl 0)] : List Identifier) : Precedence) := rfl
    rw [hzero, precedence, if_neg h, WithTop.coe_le_coe]
    cases hpieces : (text.splitOn '.').map identifier with
    | nil => exact absurd (List.map_eq_nil_iff.mp hpieces) (List.splitOnP_ne_nil _ _)
    | cons first rest =>
      have hfirst : toLex (.inl 0) ≤ first := by
        cases first using Lex.rec with
        | h first =>
          cases first with
          | inl n => exact Sum.Lex.inl_le_inl_iff.mpr (Nat.zero_le n)
          | inr s => exact Sum.Lex.inl_le_inr 0 s
      rcases hfirst.lt_or_eq with hlt | heq
      · exact le_of_lt (List.Lex.rel hlt)
      · rw [heq]
        cases rest with
        | nil => exact le_refl _
        | cons second rest => exact le_of_lt (List.Lex.cons List.Lex.nil)

/-! ### Libraries -/

/-- What a program uses of a library. -/
structure Library where
  Prerelease : Type
  empty : Prerelease
  new : List Char → Option Prerelease
  text : Prerelease → List Char
  cmp : Prerelease → Prerelease → Ordering

/-- The documentation of a library. -/
structure Library.Lawful (lib : Library) : Prop where
  new_isSome : ∀ text, (lib.new text).isSome = true ↔ text = [] ∨ IsPrerelease text
  text_new : ∀ text p, lib.new text = some p → lib.text p = text
  text_empty : lib.text lib.empty = []
  cmp_eq : ∀ p q, lib.cmp p q = compare (precedence (lib.text p)) (precedence (lib.text q))

/-- A version without build metadata. -/
structure Version (lib : Library) where
  major : ℕ
  minor : ℕ
  patch : ℕ
  pre : lib.Prerelease

variable {lib : Library}

/-- The order of versions, which does not see the build metadata. -/
def Version.cmp (v w : Version lib) : Ordering :=
  (compare v.major w.major).then
    ((compare v.minor w.minor).then ((compare v.patch w.patch).then (lib.cmp v.pre w.pre)))

/-- The place of a version. -/
def Version.key (v : Version lib) : ℕ ×ₗ ℕ ×ₗ ℕ ×ₗ Precedence :=
  toLex (v.major, toLex (v.minor, toLex (v.patch, precedence (lib.text v.pre))))

/-- **Versions are compared by their places.** -/
theorem cmp_eq_compare (hlib : lib.Lawful) (v w : Version lib) : v.cmp w = compare v.key w.key := by
  rw [Version.cmp, hlib.cmp_eq]
  rfl

/-- A library that does what the documentation says. -/
def reference : Library where
  Prerelease := { text : List Char // text = [] ∨ IsPrerelease text }
  empty := ⟨[], .inl rfl⟩
  new text := if h : text = [] ∨ IsPrerelease text then some ⟨text, h⟩ else none
  text p := p.1
  cmp p q := compare (precedence p.1) (precedence q.1)

theorem reference_lawful : reference.Lawful where
  new_isSome text := by
    simp only [reference]
    split
    · next h => exact iff_of_true rfl h
    · next h => exact iff_of_false (by simp) h
  text_new text p h := by
    simp only [reference] at h
    split at h
    · rw [← Option.some.inj h]
      rfl
    · cases h
  text_empty := rfl
  cmp_eq _ _ := rfl

end SemVer

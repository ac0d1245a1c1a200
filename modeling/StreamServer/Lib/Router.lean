import Mathlib.Data.List.Basic
import Mathlib.Data.List.Forall2
import Mathlib.Data.Nat.Notation

/-!
# Routes

A pattern says for each segment of a path what may stand there.  Of the patterns that a path meets the
router takes the most specific one: at the first segment where two differ, a word comes before a
parameter, and a parameter before the rest of a path.

* `Router.captures` — what the parameters of a pattern stand for.
* `Router.dispatch` — the route that a path takes.
* `Router.possible` — whether a path of which one knows only so much can meet a pattern.
* `dispatch_of_best` — a route that is more specific than the others that a path meets is taken.
* `dispatch_of_clues` — the same, for all paths of which one knows so much.
* `dispatch_of_front`, `dispatch_eq_none` — all paths of which one knows how they begin.
* `dispatch_mem` — a path takes a route that it meets.
-/

namespace Router

/-- What a pattern says about a segment. -/
inductive Piece
  /-- It is this word. -/
  | lit (word : String)
  /-- It is a word that goes on behind this beginning. -/
  | start (word : String)
  /-- It is not empty. -/
  | param
  /-- It and what follows is not empty; the last piece of a pattern. -/
  | rest
  deriving DecidableEq

/-- The pattern of a route, one piece for each segment. -/
abbrev Pattern := List Piece

/-- How specific a piece is; the lowest goes first. -/
@[grind =] def Piece.rank : Piece → ℕ
  | lit _ => 0
  | start _ => 1
  | param => 2
  | rest => 3

/-- What the parameters stand for, if a path meets the pattern. -/
@[grind =] def captures : Pattern → List String → Option (List String)
  | [], [] => some []
  | .lit word :: pattern, segment :: path =>
      if segment = word then captures pattern path else none
  | .start word :: pattern, segment :: path =>
      if word.toList <+: segment.toList ∧ segment ≠ word then
        (captures pattern path).map (String.ofList (segment.toList.drop word.toList.length) :: ·)
      else none
  | .param :: pattern, segment :: path =>
      if segment = "" then none else (captures pattern path).map (segment :: ·)
  | [.rest], path =>
      let text := "/".intercalate path
      if text = "" then none else some [text]
  | _, _ => none

theorem captures_nil {path values : List String} (h : captures [] path = some values) :
    path = [] ∧ values = [] := by
  cases path with
  | nil =>
    cases h
    exact ⟨rfl, rfl⟩
  | cons _ _ => cases h

theorem captures_lit {word : String} {pattern : Pattern} {path values : List String}
    (h : captures (.lit word :: pattern) path = some values) :
    ∃ path', path = word :: path' ∧ captures pattern path' = some values := by
  cases path with
  | nil => cases h
  | cons segment path =>
    rw [captures] at h
    split at h
    · next heq => exact ⟨path, by rw [heq], h⟩
    · cases h

theorem captures_param {pattern : Pattern} {path values : List String}
    (h : captures (.param :: pattern) path = some values) :
    ∃ segment path' values', path = segment :: path' ∧ values = segment :: values' ∧
      segment ≠ "" ∧ captures pattern path' = some values' := by
  cases path with
  | nil => cases h
  | cons segment path =>
    rw [captures] at h
    split at h
    · cases h
    · next hne =>
      obtain ⟨values', hvalues, rfl⟩ := Option.map_eq_some_iff.mp h
      exact ⟨segment, path, values', rfl, rfl, hne, hvalues⟩

theorem captures_param_cons {pattern : Pattern} {path values : List String} {segment : String}
    (hne : segment ≠ "") (h : captures pattern path = some values) :
    captures (.param :: pattern) (segment :: path) = some (segment :: values) := by
  rw [captures, if_neg hne, h, Option.map_some]

/-- A pattern without a rest is met by paths of its length. -/
theorem length_of_captures {pattern : Pattern} {path values : List String}
    (hrest : Piece.rest ∉ pattern) (h : captures pattern path = some values) :
    path.length = pattern.length := by
  induction pattern generalizing path values with
  | nil =>
    rw [(captures_nil h).1]
    rfl
  | cons piece pattern ih =>
    have hpattern : Piece.rest ∉ pattern := fun hmem => hrest (List.mem_cons_of_mem _ hmem)
    cases piece with
    | lit word =>
      obtain ⟨path', rfl, hcaptures⟩ := captures_lit h
      rw [List.length_cons, List.length_cons, ih hpattern hcaptures]
    | start word =>
      cases path with
      | nil => cases h
      | cons segment path =>
        rw [captures] at h
        split at h
        · obtain ⟨values', hvalues, -⟩ := Option.map_eq_some_iff.mp h
          rw [List.length_cons, List.length_cons, ih hpattern hvalues]
        · cases h
    | param =>
      obtain ⟨segment, path', values', rfl, -, -, hcaptures⟩ := captures_param h
      rw [List.length_cons, List.length_cons, ih hpattern hcaptures]
    | rest => exact absurd List.mem_cons_self hrest

/-- Whether a pattern is more specific than another at the first segment where they differ. -/
@[grind =] def Pattern.before : Pattern → Pattern → Bool
  | piece :: pattern, piece' :: pattern' =>
      piece.rank < piece'.rank || (piece.rank == piece'.rank && Pattern.before pattern pattern')
  | _, _ => false

theorem Pattern.not_before_self (pattern : Pattern) : pattern.before pattern = false := by
  induction pattern with
  | nil => rfl
  | cons piece pattern ih => simp [Pattern.before, ih]

theorem Pattern.not_before_of_before {pattern pattern' : Pattern} (h : pattern.before pattern') :
    pattern'.before pattern = false := by
  induction pattern generalizing pattern' with
  | nil => cases h
  | cons piece pattern ih =>
    cases pattern' with
    | nil => cases h
    | cons piece' pattern' =>
      rw [Pattern.before, Bool.or_eq_true, decide_eq_true_iff, Bool.and_eq_true, beq_iff_eq] at h
      rw [Pattern.before, Bool.or_eq_false_iff, decide_eq_false_iff_not]
      rcases h with h | ⟨heq, h⟩
      · refine ⟨by omega, ?_⟩
        rw [Bool.and_eq_false_iff, beq_eq_false_iff_ne]
        exact Or.inl (by omega)
      · exact ⟨by omega, by rw [ih h, Bool.and_false]⟩

variable {H : Type*} {routes : List (Pattern × H)} {path : List String}

/-- The routes that a path meets. -/
def met (routes : List (Pattern × H)) (path : List String) : List (Pattern × H × List String) :=
  routes.filterMap fun route => (captures route.1 path).map (route.1, route.2, ·)

/-- Whether none of the patterns is more specific. -/
def isLeast (patterns : List (Pattern × H × List String)) (route : Pattern × H × List String) :
    Bool :=
  patterns.all fun route' => !route'.1.before route.1

/-- The route that a path takes. -/
def dispatch (routes : List (Pattern × H)) (path : List String) : Option (H × List String) :=
  ((met routes path).find? (isLeast (met routes path))).map (·.2)

theorem mem_met {pattern : Pattern} {handler : H} {values : List String} :
    (pattern, handler, values) ∈ met routes path ↔
      (pattern, handler) ∈ routes ∧ captures pattern path = some values := by
  rw [met, List.mem_filterMap]
  constructor
  · intro h
    obtain ⟨⟨pattern', handler'⟩, hmem, h⟩ := h
    obtain ⟨values', hvalues, heq⟩ := Option.map_eq_some_iff.mp h
    cases heq
    exact ⟨hmem, hvalues⟩
  · intro h
    exact ⟨(pattern, handler), h.1, Option.map_eq_some_iff.mpr ⟨values, h.2, rfl⟩⟩

/-- A path takes a route that it meets. -/
theorem dispatch_mem {handler : H} {values : List String}
    (h : dispatch routes path = some (handler, values)) :
    ∃ pattern, (pattern, handler) ∈ routes ∧ captures pattern path = some values := by
  rw [dispatch, Option.map_eq_some_iff] at h
  obtain ⟨⟨pattern, route⟩, hfind, rfl⟩ := h
  exact ⟨pattern, mem_met.mp (List.mem_of_find?_eq_some hfind)⟩

/-- **A route that is more specific than the others that a path meets is taken.** -/
theorem dispatch_of_best {pattern : Pattern} {handler : H} {values : List String}
    (hmem : (pattern, handler) ∈ routes) (hvalues : captures pattern path = some values)
    (hbest : ∀ route ∈ routes, (captures route.1 path).isSome →
      route = (pattern, handler) ∨ pattern.before route.1) :
    dispatch routes path = some (handler, values) := by
  have hothers : ∀ route ∈ met routes path,
      route = (pattern, handler, values) ∨ pattern.before route.1 := by
    intro route hroute
    obtain ⟨pattern', handler', values'⟩ := route
    obtain ⟨hmem', hvalues'⟩ := mem_met.mp hroute
    rcases hbest _ hmem' (by rw [hvalues']; rfl) with heq | hbefore
    · cases heq
      rw [hvalues] at hvalues'
      cases hvalues'
      exact Or.inl rfl
    · exact Or.inr hbefore
  have hself := mem_met.mpr ⟨hmem, hvalues⟩
  have hleast : isLeast (met routes path) (pattern, handler, values) = true := by
    rw [isLeast, List.all_eq_true]
    intro route hroute
    rw [Bool.not_eq_true']
    rcases hothers route hroute with rfl | hbefore
    · exact Pattern.not_before_self pattern
    · exact Pattern.not_before_of_before hbefore
  have hfind : (met routes path).find? (isLeast (met routes path)) =
      some (pattern, handler, values) := by
    cases hfound : (met routes path).find? (isLeast (met routes path)) with
    | none => exact absurd hleast (List.find?_eq_none.mp hfound _ hself)
    | some route =>
      rcases hothers route (List.mem_of_find?_eq_some hfound) with rfl | hbefore
      · rfl
      · -- the route that was found is not the most specific one
        have hall := List.find?_some hfound
        rw [isLeast, List.all_eq_true] at hall
        have hnot := hall _ hself
        rw [hbefore] at hnot
        cases hnot
  rw [dispatch, hfind, Option.map_some]

/-! ### Paths of which one does not know everything -/

/-- What one knows about a segment. -/
inductive Clue
  /-- It is this word. -/
  | known (word : String)
  /-- It is none of these words. -/
  | unlike (words : List String)

/-- The segment is what is known of it. -/
def Clue.Fits : Clue → String → Prop
  | known word, segment => segment = word
  | unlike words, segment => segment ∉ words

/-- Whether a path with these clues can meet the pattern. -/
@[grind =] def possible : Pattern → List Clue → Bool
  | [], [] => true
  | .lit word :: pattern, .known word' :: clues => word == word' && possible pattern clues
  | .lit word :: pattern, .unlike words :: clues => !words.contains word && possible pattern clues
  | .start _ :: pattern, _ :: clues => possible pattern clues
  | .param :: pattern, _ :: clues => possible pattern clues
  | [.rest], _ => true
  | _, _ => false

theorem possible_of_captures {clues : List Clue} (hfits : List.Forall₂ Clue.Fits clues path)
    {pattern : Pattern} (h : (captures pattern path).isSome) : possible pattern clues = true := by
  induction pattern generalizing clues path with
  | nil =>
    cases hfits with
    | nil => rfl
    | cons _ _ => cases h
  | cons piece pattern ih =>
    cases hfits with
    | nil =>
      cases piece with
      -- a literal piece is met by its own segment, which no clue may exclude
      | lit word => cases h
      | start word => cases h
      | param => cases h
      | rest =>
        cases pattern with
        | nil => rfl
        | cons _ _ => cases h
    | @cons clue segment clues path hclue hfits =>
      cases piece with
      | lit word =>
        rw [captures] at h
        split at h
        · next heq =>
          cases clue with
          | known word' =>
            rw [possible, ih hfits h, Bool.and_true, beq_iff_eq, ← heq]
            exact hclue
          | unlike words =>
            have hnot : segment ∉ words := hclue
            rw [possible, ih hfits h, Bool.and_true, ← heq]
            simpa using hnot
        · cases h
      | start word =>
        rw [captures] at h
        split at h
        · exact ih hfits (by simpa using h)
        · cases h
      | param =>
        rw [captures] at h
        split at h
        · cases h
        · exact ih hfits (by simpa using h)
      | rest =>
        cases pattern with
        | nil => rfl
        | cons _ _ => cases h

/-- **All paths with these clues** take the route. -/
theorem dispatch_of_clues {clues : List Clue} {pattern : Pattern} {handler : H}
    {values : List String} (hfits : List.Forall₂ Clue.Fits clues path)
    (hmem : (pattern, handler) ∈ routes) (hvalues : captures pattern path = some values)
    (hbest : ∀ route ∈ routes, possible route.1 clues = true →
      route = (pattern, handler) ∨ pattern.before route.1) :
    dispatch routes path = some (handler, values) :=
  dispatch_of_best hmem hvalues fun route hroute hmeets =>
    hbest route hroute (possible_of_captures hfits hmeets)

/-! ### Paths of which one knows how they begin -/

/-- Whether a path that begins with these clues, and goes on behind them, can meet the pattern. -/
@[grind =] def possibleFront : Pattern → List Clue → Bool
  | [], _ => false
  | .lit word :: pattern, .known word' :: clues => word == word' && possibleFront pattern clues
  | .lit word :: pattern, .unlike words :: clues =>
      !words.contains word && possibleFront pattern clues
  | .start _ :: pattern, _ :: clues => possibleFront pattern clues
  | .param :: pattern, _ :: clues => possibleFront pattern clues
  | [.rest], _ :: _ => true
  | .rest :: _ :: _, _ :: _ => false
  | _ :: _, [] => true

theorem possibleFront_of_captures {clues : List Clue} {front back : List String}
    (hfits : List.Forall₂ Clue.Fits clues front) (hback : back ≠ []) {pattern : Pattern}
    (h : (captures pattern (front ++ back)).isSome) : possibleFront pattern clues = true := by
  induction pattern generalizing clues front with
  | nil =>
    obtain ⟨values, hvalues⟩ := Option.isSome_iff_exists.mp h
    exact absurd (List.append_eq_nil_iff.mp (captures_nil hvalues).1).2 hback
  | cons piece pattern ih =>
    cases hfits with
    | nil =>
      -- there are no clues left, and the path goes on
      cases piece with
      | lit word => rfl
      | start word => rfl
      | param => rfl
      | rest =>
        cases pattern with
        | nil => rfl
        | cons _ _ => rfl
    | @cons clue segment clues front hclue hfits =>
      rw [List.cons_append] at h
      cases piece with
      | lit word =>
        rw [captures] at h
        split at h
        · next heq =>
          cases clue with
          | known word' =>
            rw [possibleFront, ih hfits h, Bool.and_true, beq_iff_eq, ← heq]
            exact hclue
          | unlike words =>
            have hnot : segment ∉ words := hclue
            rw [possibleFront, ih hfits h, Bool.and_true, ← heq]
            simpa using hnot
        · cases h
      | start word =>
        rw [captures] at h
        split at h
        · exact ih hfits (by simpa using h)
        · cases h
      | param =>
        rw [captures] at h
        split at h
        · cases h
        · exact ih hfits (by simpa using h)
      | rest =>
        cases pattern with
        | nil => rfl
        | cons _ _ => cases h

/-- **All paths that begin with these clues** take the route. -/
theorem dispatch_of_front {clues : List Clue} {front back : List String} {pattern : Pattern}
    {handler : H} {values : List String} (hfits : List.Forall₂ Clue.Fits clues front)
    (hback : back ≠ []) (hmem : (pattern, handler) ∈ routes)
    (hvalues : captures pattern (front ++ back) = some values)
    (hbest : ∀ route ∈ routes, possibleFront route.1 clues = true →
      route = (pattern, handler) ∨ pattern.before route.1) :
    dispatch routes (front ++ back) = some (handler, values) :=
  dispatch_of_best hmem hvalues fun route hroute hmeets =>
    hbest route hroute (possibleFront_of_captures hfits hback hmeets)

/-- **No path that begins with these clues** takes a route. -/
theorem dispatch_eq_none {clues : List Clue} {front back : List String}
    (hfits : List.Forall₂ Clue.Fits clues front) (hback : back ≠ [])
    (hnone : ∀ route ∈ routes, possibleFront route.1 clues = false) :
    dispatch routes (front ++ back) = none := by
  rw [Option.eq_none_iff_forall_not_mem]
  intro found hfound
  obtain ⟨pattern, hmem, hvalues⟩ := dispatch_mem (Option.mem_def.mp hfound)
  have hpossible := possibleFront_of_captures hfits hback (by rw [hvalues]; rfl)
  rw [hnone _ hmem] at hpossible
  cases hpossible

end Router

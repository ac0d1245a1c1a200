import StreamServer.Lib.Parameters
import StreamServer.Lib.Text
import StreamServer.Lib.Uri

/-!
# Names of downloads

A file that is downloaded gets the name that the header `Content-Disposition` of the answer proposes: one of
ASCII characters between quotation marks, and one that is escaped.  Both are made from the path of the file in
its torrent.

## Main definitions

* `contentDispositionAttachment` — the header.
* `SafeName` — a name that a client can take as it is.
* `SafeHeader` — a header with one quoted name and one escaped name, both of them safe.
* `DotsBeforeSpace` — dots at the beginning of a text, with white space behind them.

## Main results

* `mem_cleanFilenameComponent` — no separators, quotation marks and control characters are left.
* `asciiFallback_eq_map` — the fallback changes characters only, where the ends are clean.
* `read_attachment` — what a client reads in the header.
* `safeHeader_iff` — **the header is safe exactly if stripping the dots leaves no white space at the ends.**

## References

`server/src/routes/compat.rs`.
-/

namespace StreamServer.Routes

open Uri

/-! ### The header -/

/-- The characters that end a directory. -/
def isSeparator (c : Char) : Bool := c = '/' || c = '\\'

/-- `char::is_control`. -/
def isControl (c : Char) : Bool := c.toNat < 0x20 || (0x7F ≤ c.toNat && c.toNat ≤ 0x9F)

/-- The character that a name neither begins nor ends with. -/
def isDot (c : Char) : Bool := c = '.'

/-- The last component of a path that is a name. -/
def basename (path : List Char) : List Char :=
  ((path.splitOnP isSeparator).reverse.find? fun part => part ≠ [] ∧ part ≠ ['.'] ∧ part ≠ ['.', '.']).getD
    "download".toList

/-- The characters of a name that are kept. -/
def isKept (c : Char) : Bool := !isControl c && c ≠ '"' && c ≠ '\r' && c ≠ '\n'

/-- `clean_filename_component`. -/
def cleanFilenameComponent (name : List Char) : List Char :=
  let cleaned := (name.filter isKept).trim.strip isDot
  if cleaned = [] then "download".toList else cleaned

/-- The character, or an underscore in its place. -/
def asciiChar (c : Char) : Char :=
  if c.isAlphanum || c = '.' || c = '-' || c = '_' || c = ' ' then c else '_'

/-- `ascii_fallback`. -/
def asciiFallback (name : List Char) : List Char :=
  let fallback := (name.map asciiChar).trim.strip isDot
  if fallback = [] then "download".toList else fallback

/-- `HeaderValue::from_str`. -/
def headerValue? (text : List Char) : Option (List Char) :=
  if ∀ c ∈ text, (0x20 ≤ c.toNat ∧ c.toNat ≠ 0x7F) ∨ c = '\t' then some text else none

/-- `content_disposition_attachment`. -/
def contentDispositionAttachment (path : List Char) : List Char :=
  let cleaned := cleanFilenameComponent (basename path)
  let fallback := asciiFallback cleaned
  let encoded := percentEncode (String.ofList cleaned)
  (headerValue? ("attachment; filename=\"".toList ++ fallback ++ "\"; filename*=UTF-8''".toList ++ encoded)).getD
    "attachment; filename=\"download\"".toList

/-! ### Safe names -/

/-- A name that a client can take as it is. -/
structure SafeName (name : List Char) : Prop where
  nonBlank : ∃ c ∈ name, c.isWhiteSpace = false
  chars : ∀ c ∈ name, isSeparator c = false ∧ c ≠ '"' ∧ isControl c = false
  first : ∀ c ∈ name.head?, isDot c = false ∧ c.isWhiteSpace = false
  last : ∀ c ∈ name.getLast?, isDot c = false ∧ c.isWhiteSpace = false

/-- A client reads one quoted name of ASCII characters and one escaped name, and both are safe. -/
def SafeHeader (header : List Char) : Prop :=
  ∃ fallback encoded name,
    Header.read header = some ("attachment".toList, [("filename".toList, .quoted fallback),
      ("filename*".toList, .token ("UTF-8''".toList ++ encoded))]) ∧
    percentDecode (String.ofList encoded) = some (String.ofList name) ∧
    (∀ c ∈ fallback, c.toNat < 128) ∧ SafeName fallback ∧ SafeName name

/-- Dots at the beginning of a text, with white space behind them. -/
def DotsBeforeSpace (text : List Char) : Prop :=
  ∃ dots c rest, text = dots ++ c :: rest ∧ dots ≠ [] ∧ (∀ d ∈ dots, isDot d = true) ∧ c.isWhiteSpace = true

theorem mem_basename {path : List Char} {c : Char} (h : c ∈ basename path) : isSeparator c = false := by
  rw [basename] at h
  cases hfind : (path.splitOnP isSeparator).reverse.find? fun part =>
      part ≠ [] ∧ part ≠ ['.'] ∧ part ≠ ['.', '.'] with
  | none =>
    rw [hfind] at h
    have hall : ∀ c ∈ "download".toList, isSeparator c = false := by decide
    exact hall c h
  | some part =>
    rw [hfind] at h
    exact List.not_mem_splitOnP _ path part (List.mem_reverse.mp (List.mem_of_find?_eq_some hfind)) c h

/-- **What is left of a name** has no separators, quotation marks and control characters. -/
theorem mem_cleanFilenameComponent {name : List Char} (hname : ∀ c ∈ name, isSeparator c = false) :
    ∀ c ∈ cleanFilenameComponent name, isSeparator c = false ∧ c ≠ '"' ∧ isControl c = false := by
  intro c hc
  rw [cleanFilenameComponent] at hc
  split at hc
  · have hall : ∀ c ∈ "download".toList, isSeparator c = false ∧ c ≠ '"' ∧ isControl c = false := by decide
    exact hall c hc
  · have hmem := List.mem_filter.mp (List.mem_of_mem_trim (List.mem_of_mem_strip hc))
    have hkept := hmem.2
    simp only [isKept, Bool.and_eq_true, Bool.not_eq_true', decide_eq_true_eq] at hkept
    exact ⟨hname c hmem.1, hkept.1.1.2, hkept.1.1.1⟩

/-- The characters of the fallback. -/
theorem asciiChar_spec (c : Char) : 0x20 ≤ (asciiChar c).toNat ∧ (asciiChar c).toNat < 0x7F ∧
    isSeparator (asciiChar c) = false ∧ asciiChar c ≠ '"' ∧
      ((asciiChar c).isWhiteSpace = true → c = ' ') ∧ (isDot (asciiChar c) = true → c = '.') := by
  have hne : ∀ d : Char, c.toNat ≠ d.toNat → c ≠ d := fun d h heq => h (congrArg Char.toNat heq)
  rw [asciiChar]
  split
  · next h =>
    simp only [Bool.or_eq_true, decide_eq_true_eq] at h
    rcases h with (((h | rfl) | rfl) | rfl) | rfl
    · have hrange : (48 ≤ c.toNat ∧ c.toNat ≤ 57) ∨ (65 ≤ c.toNat ∧ c.toNat ≤ 90) ∨
          (97 ≤ c.toNat ∧ c.toNat ≤ 122) := by
        delta Char.isAlphanum Char.isAlpha Char.isUpper Char.isLower Char.isDigit at h
        simp only [Bool.or_eq_true, Bool.and_eq_true, decide_eq_true_eq, ge_iff_le, UInt32.le_iff_toNat_le] at h
        change ((65 ≤ c.toNat ∧ c.toNat ≤ 90) ∨ (97 ≤ c.toNat ∧ c.toNat ≤ 122)) ∨
          (48 ≤ c.toNat ∧ c.toNat ≤ 57) at h
        omega
      have hslash := hne '/' (by change c.toNat ≠ 47; omega)
      have hback := hne '\\' (by change c.toNat ≠ 92; omega)
      have hquote := hne '"' (by change c.toNat ≠ 34; omega)
      have hdot := hne '.' (by change c.toNat ≠ 46; omega)
      refine ⟨by omega, by omega, by simp [isSeparator, hslash, hback], hquote, fun hwhite => ?_,
        fun hdot' => of_decide_eq_true hdot'⟩
      simp only [Char.isWhiteSpace, Bool.or_eq_true, Bool.and_eq_true, decide_eq_true_eq, beq_iff_eq] at hwhite
      omega
    all_goals decide
  · exact ⟨by decide, by decide, by decide, by decide, fun h => absurd h (by decide), fun h => absurd h (by decide)⟩

/-- A character that is neither a dot nor white space does not become one. -/
theorem asciiChar_clean {c : Char} (h : isDot c = false ∧ c.isWhiteSpace = false) :
    isDot (asciiChar c) = false ∧ (asciiChar c).isWhiteSpace = false := by
  obtain ⟨-, -, -, -, hwhite, hdot⟩ := asciiChar_spec c
  constructor
  · rw [← Bool.not_eq_true]
    intro htrue
    rw [hdot htrue] at h
    exact absurd h.1 (by decide)
  · rw [← Bool.not_eq_true]
    intro htrue
    rw [hwhite htrue] at h
    exact absurd h.2 (by decide)

section Ends

variable {name : List Char} (hfirst : ∀ c ∈ name.head?, isDot c = false ∧ c.isWhiteSpace = false)
  (hlast : ∀ c ∈ name.getLast?, isDot c = false ∧ c.isWhiteSpace = false)

include hfirst hlast

/-- Its ends stay clean. -/
theorem asciiChar_ends : (∀ c ∈ (name.map asciiChar).head?, isDot c = false ∧ c.isWhiteSpace = false) ∧
    ∀ c ∈ (name.map asciiChar).getLast?, isDot c = false ∧ c.isWhiteSpace = false := by
  constructor
  · intro c hc
    rw [List.head?_map, Option.mem_def, Option.map_eq_some_iff] at hc
    obtain ⟨d, hd, rfl⟩ := hc
    exact asciiChar_clean (hfirst d hd)
  · intro c hc
    rw [List.getLast?_map, Option.mem_def, Option.map_eq_some_iff] at hc
    obtain ⟨d, hd, rfl⟩ := hc
    exact asciiChar_clean (hlast d hd)

/-- **The fallback of a name with clean ends** changes characters only. -/
theorem asciiFallback_eq_map (hne : name ≠ []) : asciiFallback name = name.map asciiChar := by
  obtain ⟨hfirst', hlast'⟩ := asciiChar_ends hfirst hlast
  have htrim : (name.map asciiChar).trim = name.map asciiChar :=
    List.strip_eq_self (fun c hc => (hfirst' c hc).2) fun c hc => (hlast' c hc).2
  have hstrip : (name.map asciiChar).strip isDot = name.map asciiChar :=
    List.strip_eq_self (fun c hc => (hfirst' c hc).1) fun c hc => (hlast' c hc).1
  rw [asciiFallback, htrim, hstrip]
  exact if_neg (by simpa using hne)

/-- A name with clean ends is safe if its characters are. -/
theorem SafeName.of_ends (hne : name ≠ [])
    (hchars : ∀ c ∈ name, isSeparator c = false ∧ c ≠ '"' ∧ isControl c = false) : SafeName name := by
  cases name with
  | nil => exact absurd rfl hne
  | cons c name => exact ⟨⟨c, List.mem_cons_self, (hfirst c rfl).2⟩, hchars, hfirst, hlast⟩

end Ends

/-- All that comes into the fallback. -/
theorem mem_asciiFallback {name : List Char} : ∀ c ∈ asciiFallback name, 0x20 ≤ c.toNat ∧ c.toNat < 0x7F ∧
    isSeparator c = false ∧ c ≠ '"' := by
  intro c hc
  rw [asciiFallback] at hc
  split at hc
  · have hall : ∀ c ∈ "download".toList, 0x20 ≤ c.toNat ∧ c.toNat < 0x7F ∧ isSeparator c = false ∧ c ≠ '"' := by
      decide
    exact hall c hc
  · obtain ⟨d, -, rfl⟩ := List.mem_map.mp (List.mem_of_mem_trim (List.mem_of_mem_strip hc))
    obtain ⟨hlow, hhigh, hsep, hquote, -⟩ := asciiChar_spec d
    exact ⟨hlow, hhigh, hsep, hquote⟩

/-- **What a client reads in the header.** -/
theorem read_attachment (path : List Char) : Header.read (contentDispositionAttachment path) =
    some ("attachment".toList, [("filename".toList, .quoted (asciiFallback (cleanFilenameComponent (basename path)))),
      ("filename*".toList, .token ("UTF-8''".toList ++
        percentEncode (String.ofList (cleanFilenameComponent (basename path)))))]) := by
  rw [contentDispositionAttachment]
  have hfallback := @mem_asciiFallback (cleanFilenameComponent (basename path))
  -- both names are printable ASCII without a semicolon that would end the parameter
  have hencoded : ∀ c ∈ percentEncode (String.ofList (cleanFilenameComponent (basename path))),
      0x20 ≤ c.toNat ∧ c.toNat < 0x7F ∧ c ≠ ';' := by
    intro c hc
    obtain ⟨hlt, hsemi⟩ := ascii_percentEncode hc
    have hquery := (mem_percentEncode hc).1
    simp only [isQueryChar, Bool.and_eq_true, decide_eq_true_eq, bne_iff_ne] at hquery
    exact ⟨by omega, by omega, hsemi⟩
  generalize asciiFallback (cleanFilenameComponent (basename path)) = fallback at hfallback ⊢
  generalize percentEncode (String.ofList (cleanFilenameComponent (basename path))) = encoded at hencoded ⊢
  have hfield : headerValue? ("attachment; filename=\"".toList ++ fallback ++ "\"; filename*=UTF-8''".toList ++
      encoded) = some ("attachment; filename=\"".toList ++ fallback ++ "\"; filename*=UTF-8''".toList ++
      encoded) := by
    refine if_pos fun c hc => .inl ?_
    have hlit : ∀ c ∈ "attachment; filename=\"".toList ++ "\"; filename*=UTF-8''".toList,
        0x20 ≤ c.toNat ∧ c.toNat ≠ 0x7F := by decide
    simp only [List.mem_append] at hc hlit
    rcases hc with ((hc | hc) | hc) | hc
    · exact hlit c (.inl hc)
    · have := hfallback c hc
      omega
    · exact hlit c (.inr hc)
    · have := hencoded c hc
      omega
  have hrender : "attachment; filename=\"".toList ++ fallback ++ "\"; filename*=UTF-8''".toList ++ encoded =
      Header.render "attachment".toList [("filename".toList, .quoted fallback),
        ("filename*".toList, .token ("UTF-8''".toList ++ encoded))] := by
    simp [Header.render, Header.renderParameters, Header.Value.render]
  rw [hfield, Option.getD_some, hrender]
  have hnames : ∀ name ∈ ["filename".toList, "filename*".toList], '=' ∉ name ∧ name.head? ≠ some ' ' := by decide
  refine Header.read_render (by decide) fun p hp => ?_
  rcases List.mem_pair.mp hp with rfl | rfl
  · obtain ⟨hname, hhead⟩ := hnames _ (List.mem_cons_self)
    refine ⟨hname, hhead, fun hmem => (hfallback _ hmem).2.2.2 rfl, fun hmem => ?_⟩
    exact absurd (hfallback _ hmem).2.2.1 (by decide)
  · obtain ⟨hname, hhead⟩ := hnames _ (List.mem_cons_of_mem _ List.mem_cons_self)
    refine ⟨hname, hhead, fun hmem => ?_, by simp⟩
    rcases List.mem_append.mp hmem with hmem | hmem
    · exact absurd hmem (by decide)
    · exact (hencoded _ hmem).2.2 rfl

/-! ### Where the names are safe -/

section Dots

variable {text : List Char}

/-- **Dots with white space behind them leave the white space** when they are stripped. -/
theorem dotsBeforeSpace_iff (htext : ∀ c ∈ text.head?, c.isWhiteSpace = false) :
    DotsBeforeSpace text ↔ ∃ c ∈ (text.strip isDot).head?, c.isWhiteSpace = true := by
  rw [List.head?_strip]
  constructor
  · intro h
    obtain ⟨dots, c, rest, rfl, -, hdots, hwhite⟩ := h
    have hdot : ¬ isDot c = true := fun hdot => by
      rw [of_decide_eq_true hdot] at hwhite
      exact absurd hwhite (by decide)
    exact ⟨c, by rw [List.dropWhile_append_of_pos hdots, List.dropWhile_cons_of_neg hdot]; rfl, hwhite⟩
  · intro h
    obtain ⟨c, hc, hwhite⟩ := h
    obtain ⟨rest, hrest⟩ := List.head?_eq_some_iff.mp hc
    have hall : text.takeWhile isDot ++ c :: rest = text := by
      rw [← hrest]
      exact List.takeWhile_append_dropWhile
    refine ⟨text.takeWhile isDot, c, rest, hall.symm, fun hnil => ?_, fun d hd => List.mem_takeWhile_imp hd, hwhite⟩
    rw [hnil, List.nil_append] at hall
    rw [htext c (by rw [← hall]; rfl)] at hwhite
    cases hwhite

theorem dotsBeforeSpace_reverse_iff (htext : ∀ c ∈ text.getLast?, c.isWhiteSpace = false) :
    DotsBeforeSpace text.reverse ↔ ∃ c ∈ (text.strip isDot).getLast?, c.isWhiteSpace = true := by
  rw [dotsBeforeSpace_iff (by rwa [List.head?_reverse]), List.strip_reverse, List.head?_reverse]

theorem getLast?_trim {c : Char} (h : text.trim.getLast? = some c) : c.isWhiteSpace = false := by
  rw [← List.head?_reverse, List.trim_eq_strip, ← List.strip_reverse] at h
  exact List.not_of_head?_strip h

theorem not_isDot_getLast? {c : Char} (h : (text.strip isDot).getLast? = some c) : isDot c = false := by
  rw [← List.head?_reverse, ← List.strip_reverse] at h
  exact List.not_of_head?_strip h

end Dots

/-- What a client decodes is the clean name. -/
theorem safeName_of_safeHeader {path : List Char} (h : SafeHeader (contentDispositionAttachment path)) :
    SafeName (cleanFilenameComponent (basename path)) := by
  obtain ⟨fallback, encoded, name, hread, hdecode, -, -, hsafe⟩ := h
  rw [read_attachment] at hread
  simp only [Option.some.injEq, Prod.mk.injEq, List.cons.injEq, Header.Value.token.injEq, true_and, and_true,
    List.append_cancel_left_eq] at hread
  rw [← hread.2, percentDecode_percentEncode, Option.some.injEq, String.ofList_inj] at hdecode
  rwa [hdecode]

/-- **The header is safe exactly if stripping the dots leaves no white space at the ends.** -/
theorem safeHeader_iff (path : List Char) : SafeHeader (contentDispositionAttachment path) ↔
    ¬ DotsBeforeSpace ((basename path).filter isKept).trim ∧
      ¬ DotsBeforeSpace ((basename path).filter isKept).trim.reverse := by
  have hchars := mem_cleanFilenameComponent fun c hc => @mem_basename path c hc
  have hname := @safeName_of_safeHeader path
  rw [dotsBeforeSpace_iff (fun c hc => List.head?_trim hc), dotsBeforeSpace_reverse_iff (fun c hc => getLast?_trim hc)]
  have hdot := @List.not_of_head?_strip _ isDot ((basename path).filter isKept).trim
  have hdot' := @not_isDot_getLast? ((basename path).filter isKept).trim
  have hread := read_attachment path
  generalize hcleaned : cleanFilenameComponent (basename path) = cleaned at hchars hname hread
  rw [cleanFilenameComponent] at hcleaned
  generalize ((basename path).filter isKept).trim.strip isDot = stripped at hcleaned hdot hdot' ⊢
  constructor
  · intro h
    -- a safe header has the cleaned name in it, whose ends are neither dots nor white space
    have hsafe := hname h
    split at hcleaned
    · next hnil => simp [hnil]
    · subst hcleaned
      constructor
      · intro hbad
        obtain ⟨c, hc, hwhite⟩ := hbad
        rw [(hsafe.first c hc).2] at hwhite
        cases hwhite
      · intro hbad
        obtain ⟨c, hc, hwhite⟩ := hbad
        rw [(hsafe.last c hc).2] at hwhite
        cases hwhite
  · intro h
    -- the name is the one for empty names, or what is left between the dots
    have hends : cleaned ≠ [] ∧ (∀ c ∈ cleaned.head?, isDot c = false ∧ c.isWhiteSpace = false) ∧
        ∀ c ∈ cleaned.getLast?, isDot c = false ∧ c.isWhiteSpace = false := by
      split at hcleaned
      · rw [← hcleaned]
        refine ⟨by decide, fun c hc => ?_, fun c hc => ?_⟩
        · rw [← Option.mem_some_iff.mp hc]
          decide
        · rw [← Option.mem_some_iff.mp hc]
          decide
      · next hne =>
        subst hcleaned
        refine ⟨hne, fun c hc => ⟨hdot hc, ?_⟩, fun c hc => ⟨hdot' hc, ?_⟩⟩
        · exact (Bool.not_eq_true _).mp fun hwhite => h.1 ⟨c, hc, hwhite⟩
        · exact (Bool.not_eq_true _).mp fun hwhite => h.2 ⟨c, hc, hwhite⟩
    obtain ⟨hne, hfirst, hlast⟩ := hends
    refine ⟨_, _, cleaned, hread, percentDecode_percentEncode _, fun c hc => ?_, ?_, .of_ends hfirst hlast hne hchars⟩
    · have := (mem_asciiFallback c hc).2.1
      omega
    · have hsafe := @mem_asciiFallback cleaned
      obtain ⟨hfirst', hlast'⟩ := asciiChar_ends hfirst hlast
      rw [asciiFallback_eq_map hfirst hlast hne] at hsafe ⊢
      refine .of_ends hfirst' hlast' (by simpa using hne) fun c hc => ?_
      obtain ⟨hlow, hhigh, hsep, hquote⟩ := hsafe c hc
      refine ⟨hsep, hquote, ?_⟩
      simp only [isControl, Bool.or_eq_false_iff, Bool.and_eq_false_iff, decide_eq_false_iff_not]
      omega

/-- The escaped name that is made of a component with dots behind white space ends with white space. -/
theorem waiting_not_safe : ¬ SafeHeader (contentDispositionAttachment "Wait ...".toList) := by
  intro h
  have hsafe := safeName_of_safeHeader h
  have hlast : ' ' ∈ (cleanFilenameComponent (basename "Wait ...".toList)).getLast? := by decide
  exact absurd (hsafe.last ' ' hlast).2 (by decide)

end StreamServer.Routes

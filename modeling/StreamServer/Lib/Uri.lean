import Mathlib.Data.List.Induction
import Mathlib.Data.Nat.Notation
import Mathlib.Tactic.SplitIfs
import StreamServer.Lib.Lines
import StreamServer.Lib.Text

/-!
# Targets of requests and references to them

The path of a target is the list of its segments, as they are sent.  A reference that does not lead
away from a server is resolved against the target of the request that was answered with it.

* `Uri.percentDecode`, `Uri.percentEncode` — the text that is escaped in a segment, and a text with
  escapes.
* `Uri.Target`, `Uri.resolve` — targets, and the target that a reference stands for.
* `percentDecode_plain`, `percentDecode_percentEncode` — a segment without escapes, and an escaped text.
* `resolve_file`, `resolve_root` — a file beside the target, and a path from the root.
* `percentDecode_encodeSegments`, `resolve_beside` — a path whose segments are escaped, and a path
  beside the target.
-/

namespace Uri

/-! ## Escapes -/

/-- The bytes of a text. -/
def utf8 (text : String) : List UInt8 := text.toList.flatMap String.utf8EncodeChar

/-- The text of the bytes, if they are UTF-8. -/
def ofUtf8 (bytes : List UInt8) : Option String := String.fromUTF8? bytes.toByteArray

theorem utf8_append (text text' : String) : utf8 (text ++ text') = utf8 text ++ utf8 text' := by
  rw [utf8, String.toList_append, List.flatMap_append, utf8, utf8]

@[simp] theorem ofUtf8_utf8 (text : String) : ofUtf8 (utf8 text) = some text := by
  have h : (utf8 text).toByteArray = text.toByteArray := String.utf8Encode_toList
  rw [ofUtf8, h, String.fromUTF8?, dif_pos text.isValidUTF8]
  rfl

/-- The value of a hexadecimal digit. -/
def hexValue (b : UInt8) : Option UInt8 :=
  if 48 ≤ b ∧ b ≤ 57 then some (b - 48)
  else if 65 ≤ b ∧ b ≤ 70 then some (b - 55)
  else if 97 ≤ b ∧ b ≤ 102 then some (b - 87)
  else none

/-- Puts in what is escaped; what only looks like an escape stays. -/
def unescape : List UInt8 → List UInt8
  | 37 :: high :: low :: rest =>
      match hexValue high, hexValue low with
      | some h, some l => (16 * h + l) :: unescape rest
      | _, _ => 37 :: unescape (high :: low :: rest)
  | b :: rest => b :: unescape rest
  | [] => []

/-- The text that is escaped, if it is one. -/
def percentDecode (text : String) : Option String := ofUtf8 (unescape (utf8 text))

theorem unescape_of_notMem {bytes : List UInt8} (h : 37 ∉ bytes) : unescape bytes = bytes := by
  induction bytes with
  | nil => rfl
  | cons b bytes ih =>
    have hb : b ≠ 37 := fun heq => h (by simp [heq])
    have hrest := ih fun hmem => h (List.mem_cons_of_mem b hmem)
    rw [unescape, hrest]
    intro high low rest heq
    exact absurd heq hb

/-- Only `%` is written with the byte of `%`. -/
theorem eq_of_mem_utf8EncodeChar {c : Char} (h : 37 ∈ String.utf8EncodeChar c) : c = '%' := by
  have hval : ∀ n : ℕ, n < 256 → 37 = UInt8.ofNat n → n = 37 := by
    intro n hn heq
    have hnat := congrArg UInt8.toNat heq
    rw [UInt8.toNat_ofNat', Nat.mod_eq_of_lt hn] at hnat
    exact hnat.symm
  rw [String.utf8EncodeChar] at h
  split_ifs at h with h1 h2 h3
  · rw [List.mem_singleton] at h
    have hc : c.toNat = 37 := hval c.toNat (by change c.val.toNat < 256; omega) h
    rw [← Char.ofNat_toNat c, hc]
  -- the bytes of other characters are above 127
  · simp only [List.mem_cons, List.not_mem_nil, or_false] at h
    rcases h with h | h <;> exact absurd (hval _ (by omega) h) (by omega)
  · simp only [List.mem_cons, List.not_mem_nil, or_false] at h
    rcases h with h | h | h <;> exact absurd (hval _ (by omega) h) (by omega)
  · simp only [List.mem_cons, List.not_mem_nil, or_false] at h
    rcases h with h | h | h | h <;> exact absurd (hval _ (by omega) h) (by omega)

/-- **A text without escapes** stands for itself. -/
theorem percentDecode_plain {text : String} (h : '%' ∉ text.toList) :
    percentDecode text = some text := by
  have hbytes : (37 : UInt8) ∉ utf8 text := by
    intro hmem
    obtain ⟨c, hc, hbyte⟩ := List.mem_flatMap.mp hmem
    exact h (eq_of_mem_utf8EncodeChar hbyte ▸ hc)
  rw [percentDecode, unescape_of_notMem hbytes, ofUtf8_utf8]

/-- The bytes that are not escaped: letters, digits, `-`, `.`, `_` and `~`. -/
def isUnreserved (b : UInt8) : Bool :=
  (48 ≤ b && b ≤ 57) || (65 ≤ b && b ≤ 90) || (97 ≤ b && b ≤ 122) || b == 45 || b == 46 ||
    b == 95 || b == 126

/-- The hexadecimal digit `n`, in upper case. -/
def hexChar (n : ℕ) : Char := if n < 10 then Char.ofNat (48 + n) else Char.ofNat (55 + n)

/-- A byte as it stands or behind a percent sign. -/
def escape (b : UInt8) : List Char :=
  if isUnreserved b then [Char.ofNat b.toNat]
  else ['%', hexChar (b.toNat / 16), hexChar (b.toNat % 16)]

/-- A text with all that is not unreserved escaped. -/
def percentEncode (text : String) : List Char := (utf8 text).flatMap escape

/-- What stands in a query. -/
def isQueryChar (c : Char) : Bool := 0x20 < c.toNat && c != '#' && c.toNat != 0x7F

theorem mem_escape : ∀ n < 256, ∀ c ∈ escape (UInt8.ofNat n), isQueryChar c = true ∧ c ≠ '"' := by
  decide +kernel

/-- An escaped text can stand in a query, and between quotation marks. -/
theorem mem_percentEncode {text : String} {c : Char} (h : c ∈ percentEncode text) :
    isQueryChar c = true ∧ c ≠ '"' := by
  obtain ⟨b, -, hc⟩ := List.mem_flatMap.mp h
  rw [← UInt8.ofNat_toNat (x := b)] at hc
  exact mem_escape b.toNat b.toNat_lt c hc

theorem utf8EncodeChar_of_lt {c : Char} (h : c.toNat < 128) :
    String.utf8EncodeChar c = [UInt8.ofNat c.toNat] := by
  have hle : c.val.toNat ≤ 127 := Nat.le_of_lt_succ h
  rw [String.utf8EncodeChar, if_pos hle]
  rfl

theorem hexChar_spec : ∀ n < 16, (hexChar n).toNat < 128 ∧ hexChar n ≠ ';' ∧
    hexValue (UInt8.ofNat (hexChar n).toNat) = some (UInt8.ofNat n) := by
  decide

theorem toNat_of_isUnreserved {b : UInt8} (h : isUnreserved b = true) :
    b.toNat < 128 ∧ b.toNat ≠ 37 ∧ b.toNat ≠ 59 := by
  simp only [isUnreserved, Bool.or_eq_true, Bool.and_eq_true, decide_eq_true_eq, beq_iff_eq, UInt8.le_iff_toNat_le,
    ← UInt8.toNat_inj] at h
  simp at h
  omega

theorem toNat_ofNat_byte (b : UInt8) : (Char.ofNat b.toNat).toNat = b.toNat := by
  have hvalid : b.toNat.isValidChar := Or.inl (Nat.lt_trans b.toNat_lt (by decide))
  rw [Char.ofNat, dif_pos hvalid]
  rfl

/-- An escaped byte is found again, whatever follows it. -/
theorem unescape_escape (b : UInt8) (rest : List UInt8) :
    unescape ((escape b).flatMap String.utf8EncodeChar ++ rest) = b :: unescape rest := by
  rw [escape]
  split
  · next h =>
    have hb := toNat_of_isUnreserved h
    have hchar : (Char.ofNat b.toNat).toNat = b.toNat := toNat_ofNat_byte b
    rw [List.flatMap_singleton, utf8EncodeChar_of_lt (by omega), hchar, UInt8.ofNat_toNat, List.singleton_append,
      unescape]
    intro high low rest' heq
    exact absurd (congrArg UInt8.toNat heq) hb.2.1
  · obtain ⟨hhigh, -, hhigh'⟩ := hexChar_spec (b.toNat / 16) (by have := b.toNat_lt; omega)
    obtain ⟨hlow, -, hlow'⟩ := hexChar_spec (b.toNat % 16) (Nat.mod_lt _ (by decide))
    have hbyte : 16 * UInt8.ofNat (b.toNat / 16) + UInt8.ofNat (b.toNat % 16) = b := by
      have hlt := b.toNat_lt
      have hsixteen : (16 : UInt8).toNat = 16 := rfl
      rw [← UInt8.toNat_inj, UInt8.toNat_add, UInt8.toNat_mul, UInt8.toNat_ofNat', UInt8.toNat_ofNat', hsixteen]
      omega
    rw [List.flatMap_cons, List.flatMap_cons, List.flatMap_singleton, utf8EncodeChar_of_lt (by decide),
      utf8EncodeChar_of_lt hhigh, utf8EncodeChar_of_lt hlow]
    change unescape (37 :: UInt8.ofNat _ :: UInt8.ofNat _ :: rest) = _
    rw [unescape, hhigh', hlow']
    dsimp only
    rw [hbyte]

theorem unescape_percentEncode (text : String) (rest : List UInt8) :
    unescape ((percentEncode text).flatMap String.utf8EncodeChar ++ rest) =
      utf8 text ++ unescape rest := by
  rw [percentEncode]
  induction utf8 text with
  | nil => rfl
  | cons b bytes ih =>
    rw [List.flatMap_cons, List.flatMap_append, List.append_assoc, unescape_escape, ih, List.cons_append]

/-- **An escaped text** is found again. -/
theorem percentDecode_percentEncode (text : String) :
    percentDecode (String.ofList (percentEncode text)) = some text := by
  have hbytes := unescape_percentEncode text []
  rw [List.append_nil, unescape, List.append_nil] at hbytes
  rw [percentDecode, utf8, String.toList_ofList, hbytes, ofUtf8_utf8]

/-- An escaped text has only ASCII characters, and no semicolon. -/
theorem ascii_percentEncode {text : String} {c : Char} (h : c ∈ percentEncode text) :
    c.toNat < 128 ∧ c ≠ ';' := by
  obtain ⟨b, -, hc⟩ := List.mem_flatMap.mp h
  rw [escape] at hc
  split at hc
  · next hun =>
    have hb := toNat_of_isUnreserved hun
    rw [List.mem_singleton] at hc
    have hnat : c.toNat = b.toNat := by rw [hc, toNat_ofNat_byte]
    refine ⟨by omega, fun heq => hb.2.2 ?_⟩
    rw [← hnat, heq]
    rfl
  · rw [List.mem_cons, List.mem_cons, List.mem_singleton] at hc
    rcases hc with rfl | rfl | rfl
    · decide
    · have hspec := hexChar_spec (b.toNat / 16) (by have := b.toNat_lt; omega)
      exact ⟨hspec.1, hspec.2.1⟩
    · have hspec := hexChar_spec (b.toNat % 16) (Nat.mod_lt _ (by decide))
      exact ⟨hspec.1, hspec.2.1⟩

/-! ## Targets -/

/-- A text without a character that ends a query. -/
abbrev Query := { text : String // ∀ c ∈ text.toList, isQueryChar c = true }

/-- The text as a query, if it is one. -/
def Query.ofList? (text : List Char) : Option Query :=
  if h : ∀ c ∈ (String.ofList text).toList, isQueryChar c = true then some ⟨String.ofList text, h⟩
  else none

/-- The target of a request: the segments of its path, and its query. -/
structure Target where
  path : List String
  query : Option Query
  deriving DecidableEq

/-- The segments of a path. -/
def segments (path : List Char) : List String := (path.splitOn '/').map String.ofList

/-- The directory after a segment of a path, with `.` and `..`. -/
def enter (directory : List String) (segment : String) : List String :=
  if segment = "." then directory
  else if segment = ".." then directory.dropLast
  else directory ++ [segment]

/-- Where one is after these segments. -/
def walk (path : List String) : List String := path.foldl enter []

/-- A path without the segments `.` and `..`. -/
def removeDots (path : List String) : List String :=
  walk path ++ if path.getLast? = some "." ∨ path.getLast? = some ".." then [""] else []

/-- Whether a reference begins with a scheme. -/
def hasScheme (reference : List Char) : Bool :=
  match reference.span (· ≠ ':') with
  | (c :: scheme, ':' :: _) =>
      c.isAlpha && scheme.all fun c => c.isAlphanum || c == '+' || c == '-' || c == '.'
  | _ => false

/-- The path and the query of a reference. -/
def parts (reference : List Char) : List Char × Option (List Char) :=
  match (reference.takeWhile (· ≠ '#')).span (· ≠ '?') with
  | (path, _ :: query) => (path, some query)
  | (path, []) => (path, none)

/-- The target that a reference stands for, if it does not lead away from the server. -/
def resolve (base : Target) (reference : String) : Option Target :=
  let (path, query) := parts reference.toList
  if hasScheme reference.toList ∨ "//".toList <+: path then none
  else do
    let query ← match query with
      | none => some none
      | some query => (Query.ofList? query).map some
    match path with
    | [] => some { path := base.path, query := query <|> base.query }
    | '/' :: path => some { path := removeDots (segments path), query }
    | path => some { path := removeDots (base.path.dropLast ++ segments path), query }

theorem Query.ofList?_toList (query : Query) : Query.ofList? query.1.toList = some query := by
  have h : ∀ c ∈ (String.ofList query.1.toList).toList, isQueryChar c = true := by
    rw [String.ofList_toList]
    exact query.2
  rw [Query.ofList?, dif_pos h]
  congr 1
  exact Subtype.ext String.ofList_toList

theorem walk_concat (path : List String) {segment : String} (h : segment ≠ ".")
    (h' : segment ≠ "..") : walk (path ++ [segment]) = walk path ++ [segment] := by
  rw [walk, List.foldl_append, List.foldl_cons, List.foldl_nil, enter, if_neg h, if_neg h', walk]

theorem walk_append (path : List String) {pieces : List String}
    (h : ∀ piece ∈ pieces, piece ≠ "." ∧ piece ≠ "..") : walk (path ++ pieces) = walk path ++ pieces := by
  induction pieces using List.reverseRecOn with
  | nil => rw [List.append_nil, List.append_nil]
  | append_singleton pieces piece ih =>
    obtain ⟨hdot, hdots⟩ := h piece (by simp)
    rw [← List.append_assoc, walk_concat _ hdot hdots, ih fun s hs => h s (by simp [hs]),
      List.append_assoc]

/-- One stays in a directory. -/
theorem walk_dot (path : List String) : walk (path ++ ["."]) = walk path := by
  rw [walk, List.foldl_append]
  rfl

/-- A path without dots is the way itself. -/
theorem walk_of_plain {path : List String} (h : ∀ segment ∈ path, segment ≠ "." ∧ segment ≠ "..") :
    walk path = path :=
  walk_append [] h

theorem removeDots_concat (path : List String) {segment : String} (h : segment ≠ ".")
    (h' : segment ≠ "..") : removeDots (path ++ [segment]) = walk path ++ [segment] := by
  have hlast : ¬((path ++ [segment]).getLast? = some "." ∨
      (path ++ [segment]).getLast? = some "..") := by
    rw [List.getLast?_concat, Option.some.injEq, Option.some.injEq]
    exact not_or.mpr ⟨h, h'⟩
  rw [removeDots, if_neg hlast, List.append_nil, walk_concat path h h']

/-- A reference that begins with no letter has no scheme. -/
theorem hasScheme_of_head {c : Char} (hc : c.isAlpha = false) (text : List Char) :
    hasScheme (c :: text) = false := by
  rw [hasScheme, List.span_eq_takeWhile_dropWhile, List.takeWhile_cons]
  by_cases hcolon : c = ':'
  · simp [hcolon]
  · rw [if_pos (decide_eq_true hcolon)]
    split
    · next heq =>
      rw [Prod.mk.injEq, List.cons.injEq] at heq
      rw [← heq.1.1, hc, Bool.false_and]
    · rfl

theorem parts_query {path : List Char} (h : ∀ c ∈ path, c ≠ '?' ∧ c ≠ '#') (query : Query) :
    parts (path ++ '?' :: query.1.toList) = (path, some query.1.toList) := by
  have hall : ∀ c ∈ path ++ '?' :: query.1.toList, decide (c ≠ '#') = true := by
    intro c hc
    rw [decide_eq_true_iff]
    rcases List.mem_append.mp hc with hc | hc
    · exact (h c hc).2
    · rcases List.mem_cons.mp hc with rfl | hc
      · decide
      · intro heq
        have hquery := query.2 c hc
        rw [heq] at hquery
        exact absurd hquery (by decide)
  rw [parts, List.takeWhile_eq_self_iff.mpr hall, List.span_line fun hmem => (h _ hmem).1 rfl]

/-- **A file beside the target.** -/
theorem resolve_file (base : Target) {name : List Char}
    (hname : ∀ c ∈ name, c ≠ '/' ∧ c ≠ '?' ∧ c ≠ '#') (hdot : String.ofList name ≠ ".")
    (hdots : String.ofList name ≠ "..") (query : Query) :
    resolve base (String.ofList ('.' :: '/' :: name ++ '?' :: query.1.toList)) =
      some { path := walk base.path.dropLast ++ [String.ofList name], query := some query } := by
  have hpath : ∀ c ∈ '.' :: '/' :: name, c ≠ '?' ∧ c ≠ '#' := by
    intro c hc
    rcases List.mem_cons.mp hc with rfl | hc
    · decide
    · rcases List.mem_cons.mp hc with rfl | hc
      · decide
      · exact (hname c hc).2
  have hsegments : segments ('.' :: '/' :: name) = [".", String.ofList name] := by
    have hslash : ∀ piece ∈ [['.'], name], '/' ∉ piece := by
      intro piece hpiece
      rcases List.mem_pair.mp hpiece with rfl | rfl
      · decide
      · exact fun hmem => (hname _ hmem).1 rfl
    have hjoin : ['/'].intercalate [['.'], name] = '.' :: '/' :: name := by simp
    rw [segments, ← hjoin, List.splitOn_intercalate '/' hslash (by simp)]
    rfl
  have hscheme : hasScheme ('.' :: '/' :: name ++ '?' :: query.1.toList) = false :=
    hasScheme_of_head rfl _
  rw [resolve, String.toList_ofList, parts_query hpath]
  dsimp only
  rw [hscheme, if_neg (by simp), Query.ofList?_toList]
  change some _ = _
  rw [hsegments, ← List.singleton_append, ← List.append_assoc, removeDots_concat _ hdot hdots, walk_dot]

/-- **A path from the root.** -/
theorem resolve_root (base : Target) {path : List Char} (h : ∀ c ∈ path, c ≠ '?' ∧ c ≠ '#')
    (hhead : path.head? ≠ some '/') (query : Query) :
    resolve base (String.ofList ('/' :: path ++ '?' :: query.1.toList)) =
      some { path := removeDots (segments path), query := some query } := by
  have hpath : ∀ c ∈ '/' :: path, c ≠ '?' ∧ c ≠ '#' := by
    intro c hc
    rcases List.mem_cons.mp hc with rfl | hc
    · decide
    · exact h c hc
  have hscheme : hasScheme ('/' :: path ++ '?' :: query.1.toList) = false :=
    hasScheme_of_head rfl _
  have hlocal : ¬ "//".toList <+: '/' :: path := by
    intro hpre
    obtain ⟨rest, hrest⟩ := hpre
    rw [List.cons_eq_cons.mp hrest |>.2.symm] at hhead
    exact hhead rfl
  rw [resolve, String.toList_ofList, parts_query hpath]
  dsimp only
  rw [hscheme, if_neg (by simpa using hlocal), Query.ofList?_toList]
  rfl

/-! ### Paths beside a target -/

theorem mem_escape_segment :
    ∀ n < 256, ∀ c ∈ escape (UInt8.ofNat n), c ≠ '/' ∧ c ≠ '?' ∧ c ≠ '#' := by
  decide +kernel

/-- An escaped text can stand in a segment. -/
theorem segment_percentEncode {text : String} {c : Char} (h : c ∈ percentEncode text) :
    c ≠ '/' ∧ c ≠ '?' ∧ c ≠ '#' := by
  obtain ⟨b, -, hc⟩ := List.mem_flatMap.mp h
  rw [← UInt8.ofNat_toNat (x := b)] at hc
  exact mem_escape_segment b.toNat b.toNat_lt c hc

/-- Only a text without escapes is written as it is. -/
theorem percentEncode_ne {text word : String} (hplain : '%' ∉ word.toList) (h : text ≠ word) :
    String.ofList (percentEncode text) ≠ word := by
  intro heq
  have hdecode := percentDecode_percentEncode text
  rw [heq, percentDecode_plain hplain] at hdecode
  exact h (Option.some.inj hdecode).symm

/-- The segments of a path, each escaped. -/
def encodeSegments (pieces : List String) : List String :=
  pieces.map fun piece => String.ofList (percentEncode piece)

theorem unescape_encodeSegments (pieces : List String) :
    unescape (utf8 ("/".intercalate (encodeSegments pieces))) = utf8 ("/".intercalate pieces) := by
  induction pieces with
  | nil => rfl
  | cons piece pieces ih =>
    have hpiece : utf8 (String.ofList (percentEncode piece)) =
        (percentEncode piece).flatMap String.utf8EncodeChar := by
      rw [utf8, String.toList_ofList]
    have hcons : encodeSegments (piece :: pieces) =
        String.ofList (percentEncode piece) :: encodeSegments pieces := rfl
    by_cases hnil : pieces = []
    · subst hnil
      have hone := unescape_percentEncode piece []
      rw [List.append_nil, unescape, List.append_nil, ← hpiece] at hone
      rw [hcons, encodeSegments, List.map_nil, String.intercalate_singleton,
        String.intercalate_singleton, hone]
    · -- what stands between two segments is not escaped
      have hslash : ∀ rest, unescape (utf8 "/" ++ rest) = utf8 "/" ++ unescape rest := fun rest => rfl
      have hne : encodeSegments pieces ≠ [] := by
        rw [encodeSegments, ne_eq, List.map_eq_nil_iff]
        exact hnil
      rw [hcons, String.intercalate_cons_of_ne_nil hne, String.intercalate_cons_of_ne_nil hnil]
      simp only [utf8_append, List.append_assoc]
      rw [hpiece, unescape_percentEncode, hslash, ih]

/-- **A path whose segments are escaped** is found again. -/
theorem percentDecode_encodeSegments (pieces : List String) :
    percentDecode ("/".intercalate (encodeSegments pieces)) = some ("/".intercalate pieces) := by
  rw [percentDecode, unescape_encodeSegments, ofUtf8_utf8]

theorem parts_path {path : List Char} (h : ∀ c ∈ path, c ≠ '?' ∧ c ≠ '#') :
    parts path = (path, none) := by
  have hhash : path.takeWhile (· ≠ '#') = path :=
    List.takeWhile_eq_self_iff.mpr fun c hc => decide_eq_true (h c hc).2
  have hquestion : path.takeWhile (· ≠ '?') = path :=
    List.takeWhile_eq_self_iff.mpr fun c hc => decide_eq_true (h c hc).1
  have hnone : path.dropWhile (· ≠ '?') = [] :=
    List.dropWhile_eq_nil_iff.mpr fun c hc => decide_eq_true (h c hc).1
  rw [parts, hhash, List.span_eq_takeWhile_dropWhile, hquestion, hnone]

/-- **A path beside the target.** -/
theorem resolve_beside (base : Target) {pieces : List String} (hne : pieces ≠ [])
    (hchars : ∀ piece ∈ pieces, ∀ c ∈ piece.toList, c ≠ '/' ∧ c ≠ '?' ∧ c ≠ '#')
    (hdots : ∀ piece ∈ pieces, piece ≠ "." ∧ piece ≠ "..") :
    resolve base ("./" ++ "/".intercalate pieces) =
      some { path := walk base.path.dropLast ++ pieces, query := none } := by
  have htext : ("./" ++ "/".intercalate pieces).toList =
      '.' :: '/' :: ("/".intercalate pieces).toList := by
    rw [String.toList_append]
    rfl
  have hjoin : '.' :: '/' :: ("/".intercalate pieces).toList =
      ['/'].intercalate (['.'] :: pieces.map String.toList) := by
    rw [String.toList_intercalate, List.intercalate_cons_of_ne_nil (by simpa using hne)]
    rfl
  have hpath : ∀ c ∈ '.' :: '/' :: ("/".intercalate pieces).toList, c ≠ '?' ∧ c ≠ '#' := by
    intro c hc
    rw [hjoin] at hc
    rcases List.mem_intercalate hc with rfl | ⟨piece, hpiece, hc⟩
    · decide
    · rcases List.mem_cons.mp hpiece with rfl | hpiece
      · rw [List.mem_singleton.mp hc]
        decide
      · obtain ⟨piece, hmem, rfl⟩ := List.mem_map.mp hpiece
        exact (hchars piece hmem c hc).2
  have hsegments : segments ('.' :: '/' :: ("/".intercalate pieces).toList) = "." :: pieces := by
    have hslash : ∀ piece ∈ ['.'] :: pieces.map String.toList, '/' ∉ piece := by
      intro piece hpiece
      rcases List.mem_cons.mp hpiece with rfl | hpiece
      · decide
      · obtain ⟨piece, hmem, rfl⟩ := List.mem_map.mp hpiece
        exact fun h => (hchars piece hmem _ h).1 rfl
    rw [segments, hjoin, List.splitOn_intercalate '/' hslash (by simp), List.map_cons, List.map_map]
    simp [Function.comp_def]
  have hremove : removeDots (base.path.dropLast ++ "." :: pieces) =
      walk base.path.dropLast ++ pieces := by
    -- the last piece is no dot, so nothing is put behind it
    obtain ⟨front, last, rfl⟩ := (List.eq_nil_or_concat pieces).resolve_left hne
    obtain ⟨hdot, hdot'⟩ := hdots last (by simp)
    rw [List.concat_eq_append, ← List.cons_append, ← List.append_assoc, removeDots_concat _ hdot hdot',
      ← List.singleton_append,
      ← List.append_assoc, walk_append _ fun piece h => hdots piece (by simp [h]), walk_dot,
      List.append_assoc]
  rw [resolve, htext, parts_path hpath]
  dsimp only
  rw [hasScheme_of_head rfl, if_neg (by simp)]
  change some _ = _
  rw [hsegments, hremove]

end Uri

import StreamServer.Lib.Text
import StreamServer.Updater.Staging

/-!
# The list of checksums

A release comes with a list of the checksums of its assets, as one of several tools writes it.  What
each line says is read again, in either of two forms, with white space around it, between comments and
blank lines; of two lines about one name the later one counts.  A line in the form that marks a binary
file by ` *` in front of its name says nothing.

## Main definitions

* `ChecksumLine` — the lines of a list.
* `ChecksumLine.checksum` — what a line says.

## Main results

* `lineChecksum_text` — a line is read as what it says.
* `parseSha256sums_fileText` — **the list is read as what its lines say**.

## References

`server/src/updater/assets.rs`, `parse_sha256sums`, `is_sha256`.
-/

namespace StreamServer.Updater

/-! ### Checksums -/

/-- A digit of a hash. -/
def isHex (c : Char) : Bool := c.isDigit || ('a' ≤ c && c ≤ 'f') || ('A' ≤ c && c ≤ 'F')

theorem isSha256_iff {value : List Char} :
    isSha256 value = true ↔ value.length = 64 ∧ ∀ c ∈ value, isHex c = true := by
  rw [isSha256, Bool.and_eq_true, decide_eq_true_iff, List.all_eq_true]
  rfl

theorem isHex_ofNat : ∀ n < 128, isHex (Char.ofNat n) = true →
    (Char.ofNat n).isWhiteSpace = false ∧ Char.ofNat n ≠ ' ' ∧ Char.ofNat n ≠ '#' ∧
      Char.ofNat n ≠ 'S' ∧ isHex (Char.ofNat n).toLower = true ∧
      (Char.ofNat n).toLower.toLower = (Char.ofNat n).toLower := by
  decide

theorem isHex_spec {c : Char} (h : isHex c = true) : c.isWhiteSpace = false ∧ c ≠ ' ' ∧ c ≠ '#' ∧
    c ≠ 'S' ∧ isHex c.toLower = true ∧ c.toLower.toLower = c.toLower := by
  have hlt : c.toNat < 128 := by
    simp only [isHex, Char.isDigit, Bool.or_eq_true, Bool.and_eq_true, decide_eq_true_iff, ge_iff_le,
      Char.le_def, UInt32.le_iff_toNat_le] at h
    rcases h with (h | h) | h
    · exact Nat.lt_of_le_of_lt h.2 (by decide)
    · exact Nat.lt_of_le_of_lt h.2 (by decide)
    · exact Nat.lt_of_le_of_lt h.2 (by decide)
  have hspec := isHex_ofNat c.toNat hlt
  rw [Char.ofNat_toNat] at hspec
  exact hspec h

section Sha256

variable {hash : List Char}

/-- Nothing is trimmed from a checksum. -/
theorem trim_of_isSha256 (h : isSha256 hash = true) : hash.trim = hash := by
  have hwhite : ∀ c ∈ hash, c.isWhiteSpace = false := fun c hc =>
    (isHex_spec ((isSha256_iff.mp h).2 c hc)).1
  rw [List.trim_eq_strip]
  exact List.strip_eq_self (fun c hc => hwhite c (List.mem_of_mem_head? hc))
    fun c hc => hwhite c (List.mem_of_mem_getLast? hc)

theorem head?_of_isSha256 (h : isSha256 hash = true) : ∃ c rest, hash = c :: rest ∧ isHex c = true := by
  obtain ⟨hlength, hall⟩ := isSha256_iff.mp h
  cases hash with
  | nil => cases hlength
  | cons c rest => exact ⟨c, rest, rfl, hall c List.mem_cons_self⟩

/-- A checksum in lower case is one. -/
theorem isSha256_toLower (h : isSha256 hash = true) : isSha256 (hash.map Char.toLower) = true := by
  obtain ⟨hlength, hall⟩ := isSha256_iff.mp h
  refine isSha256_iff.mpr ⟨by rw [List.length_map, hlength], ?_⟩
  intro c hc
  obtain ⟨d, hd, rfl⟩ := List.mem_map.mp hc
  exact (isHex_spec (hall d hd)).2.2.2.2.1

end Sha256

/-! ### Lines -/

/-- The lines of a list of checksums. -/
inductive ChecksumLine
  /-- `<hash>  <name>`, where the name may be marked. -/
  | plain (hash : List Char) (marks : ℕ) (name : List Char)
  /-- `SHA256(<name>)= <hash>`. -/
  | tagged (hash name : List Char)
  /-- `<hash> *<name>`. -/
  | binary (hash name : List Char)
  | comment (text : List Char)
  | blank

namespace ChecksumLine

/-- The line as it is written. -/
def text : ChecksumLine → List Char
  | plain hash marks name => hash ++ ([' ', ' '] ++ (List.replicate marks '*' ++ name))
  | tagged hash name => ("SHA256(".toList ++ name ++ [')']) ++ ('=' :: ' ' :: hash)
  | binary hash name => hash ++ (' ' :: '*' :: name)
  | comment text => '#' :: text
  | blank => []

/-- A name without white space at its ends and without marks in front, as a line can say it. -/
structure IsName (name : List Char) : Prop where
  head : ∃ c rest, name = c :: rest ∧ c.isWhiteSpace = false ∧ c ≠ '*'
  last : ∀ c ∈ name.getLast?, c.isWhiteSpace = false

/-- A line of a tool. -/
def WellFormed : ChecksumLine → Prop
  | plain hash _ name => isSha256 hash = true ∧ IsName name
  | tagged hash name => isSha256 hash = true ∧ '=' ∉ name
  | binary hash name => isSha256 hash = true ∧ IsName name
  | comment _ | blank => True

/-- What a line says of a name. -/
def checksum : ChecksumLine → Option (String × String)
  | plain hash _ name | tagged hash name =>
    some (String.ofList name, String.ofList (hash.map Char.toLower))
  | binary _ _ | comment _ | blank => none

end ChecksumLine

section Lines

variable {hash name line : List Char}

/-- What is in front of a separator begins as the line does. -/
theorem head?_trim_take {c : Char} {rest : List Char} (hc : c.isWhiteSpace = false) (n : ℕ) :
    ((c :: rest).take n).trim = [] ∨ ((c :: rest).take n).trim.head? = some c := by
  cases n with
  | zero => exact .inl rfl
  | succ n =>
    right
    rw [List.trim_eq_strip, List.head?_strip, List.take_succ_cons,
      List.dropWhile_cons_of_neg (by rw [hc]; exact Bool.false_ne_true), List.head?_cons]

/-- A line that begins with no digit has no checksum in front. -/
theorem plainChecksum_eq_none {c : Char} {rest : List Char} (hc : c.isWhiteSpace = false)
    (hhex : isHex c = false) : plainChecksum (c :: rest) = none := by
  rw [plainChecksum, splitOnce]
  cases (c :: rest).occurrence? [' ', ' '] with
  | none => rfl
  | some n =>
    have hnot : isSha256 ((c :: rest).take n).trim = false := by
      rw [Bool.eq_false_iff]
      intro hsha
      obtain ⟨d, more, hd, hdhex⟩ := head?_of_isSha256 hsha
      rcases head?_trim_take hc n with hnil | hhead
      · rw [hnil] at hd
        cases hd
      · rw [hd, List.head?_cons, Option.some.injEq] at hhead
        rw [hhead, hhex] at hdhex
        cases hdhex
    rw [Option.map_some, Option.bind_some]
    dsimp only
    rw [hnot, Bool.false_and]
    rfl

/-- A line that does not begin with an `S` has no tag. -/
theorem taggedChecksum_eq_none {c : Char} {rest : List Char} (hc : c.isWhiteSpace = false)
    (hne : c ≠ 'S') : taggedChecksum (c :: rest) = none := by
  rw [taggedChecksum, splitOnce]
  cases (c :: rest).occurrence? ['='] with
  | none => rfl
  | some n =>
    have hnot : "SHA256(".toList.isPrefixOf ((c :: rest).take n).trim = false := by
      rw [Bool.eq_false_iff]
      intro hpre
      obtain ⟨back, hback⟩ := List.isPrefixOf_iff_prefix.mp hpre
      rcases head?_trim_take hc n with hnil | hhead
      · rw [hnil] at hback
        cases hback
      · rw [← hback] at hhead
        exact hne (Option.some.inj hhead).symm
    rw [Option.map_some, Option.bind_some]
    dsimp only
    rw [hnot, Bool.false_and, Bool.false_and]
    rfl

/-- The first separator of a line. -/
theorem splitOnce_append {front separator : List Char} {a : Char} {more : List Char}
    (hsep : separator = a :: more) (ha : a ∉ front) (back : List Char) :
    splitOnce (front ++ (separator ++ back)) separator = some (front, back) := by
  have hocc : (front ++ (separator ++ back)).occurrence? separator = some front.length := by
    rw [List.occurrence?_eq_some_iff]
    refine ⟨by simp, by rw [List.drop_left]; exact List.prefix_append _ _, fun m hm hpre => ?_⟩
    -- an earlier one would begin in the front
    rw [List.drop_append_of_le_length hm.le, hsep] at hpre
    obtain ⟨b, rest, hb⟩ : ∃ b rest, front.drop m = b :: rest :=
      List.exists_cons_of_ne_nil (by simpa using hm)
    rw [hb, List.cons_append] at hpre
    have hmem : b ∈ front := List.mem_of_mem_drop (hb ▸ List.mem_cons_self)
    exact ha ((List.cons_prefix_cons.mp hpre).1 ▸ hmem)
  rw [splitOnce, hocc, Option.map_some, List.take_left, ← List.drop_drop, List.drop_left, List.drop_left]

/-- A line that neither begins nor ends with white space, and is no comment. -/
theorem lineChecksum_of_trim {c : Char} {rest : List Char} (h : (c :: rest).trim = c :: rest)
    (hc : c ≠ '#') :
    lineChecksum (c :: rest) = (plainChecksum (c :: rest)).or (taggedChecksum (c :: rest)) := by
  rw [lineChecksum, h]
  simp [hc]

theorem trim_cons_of {c : Char} {rest : List Char} (hc : c.isWhiteSpace = false)
    (hlast : ∀ d ∈ (c :: rest).getLast?, d.isWhiteSpace = false) : (c :: rest).trim = c :: rest := by
  rw [List.trim_eq_strip]
  refine List.strip_eq_self ?_ hlast
  intro d hd
  rw [← Option.some.inj hd]
  exact hc

theorem lineChecksum_plain (hsha : isSha256 hash = true) (marks : ℕ)
    (hname : ChecksumLine.IsName name) :
    lineChecksum (ChecksumLine.plain hash marks name).text =
      (ChecksumLine.plain hash marks name).checksum := by
  obtain ⟨c, rest, rfl, hc⟩ := head?_of_isSha256 hsha
  obtain ⟨d, more, rfl, hd, hstar⟩ := hname.head
  obtain ⟨hwhite, -, hsharp, -⟩ := isHex_spec hc
  have hspace : ' ' ∉ c :: rest := fun hmem =>
    (isHex_spec ((isSha256_iff.mp hsha).2 _ hmem)).2.1 rfl
  have hlast : ∀ front : List Char, ∀ e ∈ (front ++ d :: more).getLast?, e.isWhiteSpace = false := by
    intro front e he
    rw [List.getLast?_append_of_ne_nil _ (List.cons_ne_nil _ _)] at he
    exact hname.last e he
  have hline : (c :: (rest ++ ([' ', ' '] ++ (List.replicate marks '*' ++ d :: more)))).trim =
      c :: (rest ++ ([' ', ' '] ++ (List.replicate marks '*' ++ d :: more))) := by
    refine trim_cons_of hwhite ?_
    have heq : c :: (rest ++ ([' ', ' '] ++ (List.replicate marks '*' ++ d :: more))) =
        (c :: rest ++ ([' ', ' '] ++ List.replicate marks '*')) ++ d :: more := by
      simp
    rw [heq]
    exact hlast _
  have hbody : (List.replicate marks '*' ++ d :: more).trim = List.replicate marks '*' ++ d :: more := by
    rw [List.trim_eq_strip]
    refine List.strip_eq_self ?_ (hlast _)
    cases marks with
    | zero =>
      intro e he
      rw [← Option.some.inj he]
      exact hd
    | succ marks =>
      intro e he
      rw [← Option.some.inj he]
      decide
  -- the marks are stripped up to the name, which does not begin with one
  have hdrop : (List.replicate marks '*' ++ d :: more).dropWhile (fun e => decide (e = '*')) =
      d :: more := by
    rw [List.dropWhile_append_of_pos fun e he => decide_eq_true (List.eq_of_mem_replicate he),
      List.dropWhile_cons_of_neg (by simpa using hstar)]
  have hplain : plainChecksum (c :: rest ++ ([' ', ' '] ++ (List.replicate marks '*' ++ d :: more))) =
      (ChecksumLine.plain (c :: rest) marks (d :: more)).checksum := by
    rw [plainChecksum, splitOnce_append rfl hspace, Option.bind_some]
    dsimp only
    rw [trim_of_isSha256 hsha, hbody, hdrop, hsha]
    rfl
  refine (lineChecksum_of_trim hline hsharp).trans ?_
  rw [← List.cons_append, hplain]
  rfl

theorem lineChecksum_tagged (hsha : isSha256 hash = true) (hname : '=' ∉ name) :
    lineChecksum (ChecksumLine.tagged hash name).text =
      (ChecksumLine.tagged hash name).checksum := by
  have hlast : ∀ e ∈ hash.getLast?, e.isWhiteSpace = false := fun e he =>
    (isHex_spec ((isSha256_iff.mp hsha).2 e (List.mem_of_mem_getLast? he))).1
  have hne : hash ≠ [] := by
    obtain ⟨c, rest, rfl, -⟩ := head?_of_isSha256 hsha
    exact List.cons_ne_nil _ _
  have hline : ('S' :: ("HA256(".toList ++ name ++ [')'] ++ ('=' :: ' ' :: hash))).trim =
      'S' :: ("HA256(".toList ++ name ++ [')'] ++ ('=' :: ' ' :: hash)) := by
    refine trim_cons_of (by decide) ?_
    have heq : 'S' :: ("HA256(".toList ++ name ++ [')'] ++ ('=' :: ' ' :: hash)) =
        ("SHA256(".toList ++ name ++ [')', '=', ' ']) ++ hash := by
      simp
    rw [heq, List.getLast?_append_of_ne_nil _ hne]
    exact hlast
  -- without `=` in the name, the line is split in front of the hash
  have hequal : '=' ∉ "SHA256(".toList ++ name ++ [')'] := by
    simp [hname]
  have hleft : ("SHA256(".toList ++ name ++ [')']).trim = "SHA256(".toList ++ name ++ [')'] := by
    rw [List.trim_eq_strip]
    refine List.strip_eq_self ?_ ?_
    · intro e he
      rw [← Option.some.inj he]
      decide
    · intro e he
      rw [List.getLast?_concat] at he
      rw [← Option.some.inj he]
      decide
  have hright : (' ' :: hash).trim = hash := by
    have htrim := @List.trim_append [' '] [] (by decide) (by decide) hash
    rw [List.append_nil, List.singleton_append] at htrim
    rw [htrim, trim_of_isSha256 hsha]
  have hpre : "SHA256(".toList.isPrefixOf ("SHA256(".toList ++ name ++ [')']) = true := by
    rw [List.isPrefixOf_iff_prefix, List.append_assoc]
    exact List.prefix_append _ _
  have hinner : (("SHA256(".toList ++ name ++ [')']).drop 7).dropLast = name := by
    rw [List.append_assoc]
    exact List.dropLast_concat
  have htagged : taggedChecksum (("SHA256(".toList ++ name ++ [')']) ++ (['='] ++ (' ' :: hash))) =
      (ChecksumLine.tagged hash name).checksum := by
    rw [taggedChecksum, splitOnce_append rfl hequal, Option.bind_some]
    dsimp only
    rw [hleft, hright, hpre, hsha, List.getLast?_concat, hinner]
    rfl
  -- the line does not begin with a hex digit, so the plain form does not take it
  refine (lineChecksum_of_trim hline (by decide)).trans ?_
  rw [plainChecksum_eq_none (by decide) (by decide), Option.none_or]
  exact htagged

/-- Two spaces come after the mark only. -/
theorem mark_mem_take {n : ℕ} (hspace : ' ' ∉ hash)
    (hpre : [' ', ' '] <+: (hash ++ (' ' :: '*' :: name)).drop n) :
    '*' ∈ (hash ++ (' ' :: '*' :: name)).take n := by
  rcases Nat.lt_trichotomy n hash.length with hlt | heq | hgt
  · obtain ⟨b, rest, hb⟩ : ∃ b rest, hash.drop n = b :: rest :=
      List.exists_cons_of_ne_nil (by simpa using hlt)
    rw [List.drop_append_of_le_length hlt.le, hb, List.cons_append] at hpre
    have hmem : b ∈ hash := List.mem_of_mem_drop (hb ▸ List.mem_cons_self)
    exact absurd ((List.cons_prefix_cons.mp hpre).1 ▸ hmem) hspace
  · rw [heq, List.drop_left] at hpre
    exact absurd (List.cons_prefix_cons.mp (List.cons_prefix_cons.mp hpre).2).1 (by decide)
  · obtain ⟨k, rfl⟩ := Nat.exists_eq_add_of_lt hgt
    rw [show hash.length + k + 1 = hash.length + (k + 1) by omega] at hpre ⊢
    rw [← List.drop_drop, List.drop_left, List.drop_succ_cons] at hpre
    rw [List.take_length_add_append, List.take_succ_cons]
    cases k with
    | zero => exact absurd (List.cons_prefix_cons.mp hpre).1 (by decide)
    | succ k => simp

theorem lineChecksum_binary (hsha : isSha256 hash = true) (hname : ChecksumLine.IsName name) :
    lineChecksum (ChecksumLine.binary hash name).text = none := by
  obtain ⟨c, rest, rfl, hc⟩ := head?_of_isSha256 hsha
  obtain ⟨hwhite, -, hsharp, hS, -⟩ := isHex_spec hc
  have hne : name ≠ [] := by
    obtain ⟨d, more, rfl, -⟩ := hname.head
    exact List.cons_ne_nil _ _
  have hline : (c :: (rest ++ (' ' :: '*' :: name))).trim = c :: (rest ++ (' ' :: '*' :: name)) := by
    refine trim_cons_of hwhite ?_
    have heq : c :: (rest ++ (' ' :: '*' :: name)) = (c :: rest ++ [' ', '*']) ++ name := by
      simp
    rw [heq, List.getLast?_append_of_ne_nil _ hne]
    exact hname.last
  have hplain : plainChecksum (c :: (rest ++ (' ' :: '*' :: name))) = none := by
    rw [plainChecksum, splitOnce]
    cases hocc : (c :: (rest ++ (' ' :: '*' :: name))).occurrence? [' ', ' '] with
    | none => rfl
    | some n =>
      -- what is in front of the two spaces has the mark in it
      have hmark : '*' ∈ ((c :: (rest ++ (' ' :: '*' :: name))).take n).trim := by
        have hspace : ' ' ∉ c :: rest := fun hmem =>
          (isHex_spec ((isSha256_iff.mp hsha).2 _ hmem)).2.1 rfl
        have hmem := mark_mem_take hspace (List.occurrence?_eq_some_iff.mp hocc).2.1
        obtain ⟨before, behind, heq, hbefore, hbehind⟩ :=
          List.trim_spec ((c :: rest ++ (' ' :: '*' :: name)).take n)
        rw [heq] at hmem
        rcases List.mem_append.mp hmem with hin | hin
        · exact absurd (hbefore _ hin) (by decide)
        · rcases List.mem_append.mp hin with hin | hin
          · exact hin
          · exact absurd (hbehind _ hin) (by decide)
      have hnot : isSha256 ((c :: (rest ++ (' ' :: '*' :: name))).take n).trim = false := by
        rw [Bool.eq_false_iff]
        intro hsha
        exact absurd ((isSha256_iff.mp hsha).2 _ hmark) (by decide)
      rw [Option.map_some, Option.bind_some]
      dsimp only
      rw [hnot, Bool.false_and]
      rfl
  refine (lineChecksum_of_trim hline hsharp).trans ?_
  rw [hplain, Option.none_or, taggedChecksum_eq_none hwhite hS]

theorem lineChecksum_comment (text : List Char) : lineChecksum ('#' :: text) = none := by
  have hhead : ('#' :: text).trim.head? = some '#' := by
    rw [List.trim_eq_strip, List.head?_strip, List.dropWhile_cons_of_neg (by decide), List.head?_cons]
  rw [lineChecksum, hhead]
  simp

/-- **A line is read as what it says**, with white space around it. -/
theorem lineChecksum_text {l : ChecksumLine} (h : l.WellFormed) {front back : List Char}
    (hfront : ∀ c ∈ front, c.isWhiteSpace = true) (hback : ∀ c ∈ back, c.isWhiteSpace = true) :
    lineChecksum (front ++ (l.text ++ back)) = l.checksum := by
  have htrim : lineChecksum (front ++ (l.text ++ back)) = lineChecksum l.text := by
    rw [lineChecksum, List.trim_append hfront hback]
    rfl
  rw [htrim]
  cases l with
  | plain hash marks name => exact lineChecksum_plain h.1 marks h.2
  | tagged hash name => exact lineChecksum_tagged h.1 h.2
  | binary hash name => exact lineChecksum_binary h.1 h.2
  | comment text => exact lineChecksum_comment text
  | blank => rfl

/-- What is read is a checksum in lower case. -/
theorem lineChecksum_sound {c : String × String} (h : lineChecksum line = some c) :
    ∃ hash, isSha256 hash = true ∧ c.2 = String.ofList (hash.map Char.toLower) := by
  rw [lineChecksum] at h
  split at h
  · cases h
  · rcases Option.or_eq_some_iff.mp h with h | ⟨-, h⟩
    · -- a plain line has its checksum in front, a tagged one at its end
      obtain ⟨⟨left, right⟩, -, h⟩ := Option.bind_eq_some_iff.mp h
      dsimp only at h
      split at h
      · next hcond =>
        cases h
        exact ⟨_, ((Bool.and_eq_true _ _).mp hcond).1, rfl⟩
      · cases h
    · obtain ⟨⟨left, right⟩, -, h⟩ := Option.bind_eq_some_iff.mp h
      dsimp only at h
      split at h
      · next hcond =>
        cases h
        exact ⟨_, ((Bool.and_eq_true _ _).mp hcond).2, rfl⟩
      · cases h

end Lines

/-! ### The list -/

/-- A line of a list, with the white space around it. -/
structure FileLine where
  front : List Char
  line : ChecksumLine
  back : List Char

namespace FileLine

/-- The line between its blanks. -/
def text (l : FileLine) : List Char := l.front ++ (l.line.text ++ l.back)

/-- The line is well formed, with nothing but blanks around it. -/
structure WellFormed (l : FileLine) : Prop where
  line : l.line.WellFormed
  front : ∀ c ∈ l.front, c.isWhiteSpace = true
  back : ∀ c ∈ l.back, c.isWhiteSpace = true
  oneLine : '\n' ∉ l.text

end FileLine

/-- The lines as a file. -/
def fileText (lines : List FileLine) : String :=
  String.ofList (['\n'].intercalate (lines.map FileLine.text))

/-- What a list says, line by line. -/
def checksumsOf (lines : List FileLine) : Checksums := lines.filterMap fun l => l.line.checksum

theorem parseSha256sums_eq_reverse {lines : List FileLine} (h : ∀ l ∈ lines, l.WellFormed) :
    parseSha256sums (fileText lines) = (checksumsOf lines).reverse := by
  rw [parseSha256sums, fileText, String.toList_ofList, checksumsOf]
  congr 1
  cases lines with
  | nil => rfl
  | cons l lines =>
    have hpieces : ∀ piece ∈ (l :: lines).map FileLine.text, '\n' ∉ piece := by
      intro piece hpiece
      obtain ⟨m, hm, rfl⟩ := List.mem_map.mp hpiece
      exact (h m hm).oneLine
    have hsplit : (['\n'].intercalate ((l :: lines).map FileLine.text)).splitOnP (· = '\n') =
        (l :: lines).map FileLine.text :=
      List.splitOn_intercalate '\n' hpieces (List.cons_ne_nil _ _)
    rw [hsplit, List.filterMap_map]
    refine List.filterMap_congr fun m hm => ?_
    exact lineChecksum_text (h m hm).line (h m hm).front (h m hm).back

/-- The first of the entries from behind is the last one. -/
theorem lookup_reverse (entries : Checksums) (name : String) :
    entries.reverse.lookup name =
      ((entries.filter fun entry => entry.1 = name).getLast?).map Prod.snd := by
  induction entries using List.reverseRecOn with
  | nil => rfl
  | append_singleton entries entry ih =>
    rw [List.reverse_append, List.reverse_singleton, List.singleton_append, List.filter_append]
    -- the last entry is the first one from behind
    by_cases h : entry.1 = name
    · subst h
      rw [List.lookup_cons, beq_self_eq_true]
      simp
    · have hbeq : (name == entry.1) = false := by simpa using Ne.symm h
      rw [List.lookup_cons, hbeq, ih]
      simp [h]

/-- **The list is read as what its lines say**: the checksum of a name is that of the last line about it,
in lower case, and a name that no line is about has none.  Whatever the text is, what is read are
checksums in lower case. -/
theorem parseSha256sums_fileText :
    (∀ lines : List FileLine, (∀ l ∈ lines, l.WellFormed) → ∀ name,
      (parseSha256sums (fileText lines)).lookup name =
        (((checksumsOf lines).filter fun entry => entry.1 = name).getLast?).map Prod.snd) ∧
    ∀ text, ∀ entry ∈ parseSha256sums text, isSha256 entry.2.toList = true ∧
      entry.2.toList.map Char.toLower = entry.2.toList := by
  constructor
  · intro lines h name
    rw [parseSha256sums_eq_reverse h, lookup_reverse]
  · intro text entry hentry
    obtain ⟨line, -, hline⟩ := List.mem_filterMap.mp (List.mem_reverse.mp hentry)
    obtain ⟨hash, hsha, heq⟩ := lineChecksum_sound hline
    rw [heq, String.toList_ofList, List.map_map]
    refine ⟨isSha256_toLower hsha, List.map_congr_left fun c hc => ?_⟩
    exact (isHex_spec ((isSha256_iff.mp hsha).2 c hc)).2.2.2.2.2

/-- A list with a comment, and two lines about one asset in two forms. -/
def sampleLines : List FileLine :=
  [⟨[], .comment " assets".toList, []⟩,
    ⟨[], .plain (List.replicate 64 'A') 0 "server.exe".toList, ['\r']⟩,
    ⟨[' '], .tagged (List.replicate 64 'b') "server.exe".toList, []⟩, ⟨[], .blank, []⟩]

theorem sampleName : ChecksumLine.IsName "server.exe".toList where
  head := ⟨'s', "erver.exe".toList, rfl, by decide, by decide⟩
  last c hc := by
    have hlast : c = 'e' := (Option.some.inj hc).symm
    rw [hlast]
    decide

theorem sampleLines_wellFormed : ∀ l ∈ sampleLines, l.WellFormed := by
  intro l hl
  simp only [sampleLines, List.mem_cons, List.not_mem_nil, or_false] at hl
  rcases hl with rfl | rfl | rfl | rfl
  · exact ⟨trivial, by decide, by decide, by decide⟩
  · exact ⟨⟨by decide, sampleName⟩, by decide, by decide, by decide⟩
  · exact ⟨⟨by decide, by decide⟩, by decide, by decide, by decide⟩
  · exact ⟨trivial, by decide, by decide, by decide⟩

theorem sampleLines_read : (parseSha256sums (fileText sampleLines)).lookup "server.exe" =
    (((checksumsOf sampleLines).filter fun entry => entry.1 = "server.exe").getLast?).map Prod.snd :=
  parseSha256sums_fileText.1 sampleLines sampleLines_wellFormed "server.exe"

end StreamServer.Updater

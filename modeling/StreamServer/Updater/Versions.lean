import StreamServer.Lib.Checked
import StreamServer.Lib.Decimal
import StreamServer.Lib.SemVer
import StreamServer.Lib.Text

/-!
# Release tags

The updater reads the tag of a release as a version of three numbers, where the last one packs the third and
the fourth number of the tag, and takes what stands behind the first hyphen or plus sign for a prerelease.

## Main definitions

* `parseReleaseTag` — how a tag is read.
* `Tag`, `Tag.text`, `Tag.key` — the tags, what is written for them, and their order.
* `Tag.Fits` — the numbers of a tag fit, also when they are packed.
* `Tag.Sound` — they do, the fourth one does not reach the third, and the build metadata is not read.

## Main results

* `parseReleaseTag_text` — what is read of a tag that fits.
* `fits_of_parse` — what is read fits.
* `compare_key` — sound tags are ordered as what is read of them.
* `sound_iff` — **only sound tags** are ordered with all sound tags as what is read of them.

## References

`server/src/updater/version.rs`.
-/

namespace StreamServer.Updater

open SemVer

/-! ### Reading tags -/

section Read

variable (lib : Library)

/-- The characters in front of the suffix. -/
def isBeforeSuffix (c : Char) : Bool := c ≠ '-' && c ≠ '+'

/-- What stands before the first hyphen or plus sign, and what stands behind it. -/
def splitSuffix (s : List Char) : List Char × Option (List Char) :=
  match s.span isBeforeSuffix with
  | (numeric, _ :: suffix) => (numeric, some suffix)
  | (numeric, []) => (numeric, none)

/-- `apply_suffix`. -/
def applySuffix (v : Version lib) (suffix : Option (List Char)) : Version lib :=
  match suffix.bind lib.new with
  | some pre => { v with pre := pre }
  | none => v

/-- `parts[i].parse::<u64>()`. -/
def parseComponent (text : List Char) : Option ℕ := Decimal.parse (2 ^ 64) text

/-- `parse_release_tag`, in a build that checks for overflows. -/
def parseReleaseTag (tag : List Char) : Checked.Run (Option (Version lib)) := do
  let tag := if tag.head? = some 'v' then tag.tail else tag
  let (numeric, suffix) := splitSuffix tag
  match (numeric.splitOn '.').mapM parseComponent with
  | some [major, minor] => return some (applySuffix lib ⟨major, minor, 0, lib.empty⟩ suffix)
  | some [major, minor, patch] =>
      let packed ← Checked.mul (2 ^ 64) patch 10000
      return some (applySuffix lib ⟨major, minor, packed, lib.empty⟩ suffix)
  | some [major, minor, patchHi, patchLo] =>
      let high ← Checked.mul (2 ^ 64) patchHi 10000
      let packed ← Checked.add (2 ^ 64) high patchLo
      return some (applySuffix lib ⟨major, minor, packed, lib.empty⟩ suffix)
  | _ => return none

/-- `is_newer`. -/
def isNewer (candidate current : Version lib) : Bool := candidate.cmp current = .gt

end Read

/-! ### Tags -/

/-- A row of digits. -/
abbrev Numeral := { digits : List Char // digits ≠ [] ∧ ∀ c ∈ digits, c.isDigit = true }

/-- The number that the digits write. -/
def Numeral.value (n : Numeral) : ℕ := Nat.ofDigitChars 10 n.1 0

/-- A tag `v?A.B`, `v?A.B.C` or `v?A.B.C.D` with an optional prerelease and optional build metadata. -/
structure Tag where
  v : Bool
  major : Numeral
  minor : Numeral
  patch : Option (Numeral × Option Numeral)
  pre : Option { text : List Char // IsPrerelease text }
  build : Option { text : List Char // IsBuild text }

namespace Tag

/-- The numbers of the tag. -/
def components (t : Tag) : List Numeral :=
  t.major :: t.minor :: match t.patch with
    | none => []
    | some (c, none) => [c]
    | some (c, some d) => [c, d]

/-- The numbers with dots between them. -/
def numeric (t : Tag) : List Char := ['.'].intercalate (t.components.map (·.1))

/-- The suffix as it is written. -/
def suffixText (t : Tag) : List Char :=
  (match t.pre with
    | none => []
    | some p => '-' :: p.1) ++
  match t.build with
    | none => []
    | some b => '+' :: b.1

/-- The tag as it is written. -/
def text (t : Tag) : List Char := (if t.v then ['v'] else []) ++ (t.numeric ++ t.suffixText)

/-- The third number. -/
def third (t : Tag) : ℕ := (t.patch.map fun p => p.1.value).getD 0

/-- The fourth number. -/
def fourth (t : Tag) : ℕ := ((t.patch.bind fun p => p.2).map Numeral.value).getD 0

/-- The text of the pre-release, empty if there is none. -/
def preText (t : Tag) : List Char := (t.pre.map (·.1)).getD []

/-- The place of a tag among the tags. -/
def key (t : Tag) : ℕ ×ₗ ℕ ×ₗ ℕ ×ₗ ℕ ×ₗ Precedence :=
  toLex (t.major.value, toLex (t.minor.value, toLex (t.third, toLex (t.fourth, precedence t.preText))))

/-- What stands behind the first hyphen or plus sign. -/
def suffix (t : Tag) : Option (List Char) :=
  match t.pre, t.build with
  | none, none => none
  | some p, none => some p.1
  | none, some b => some b.1
  | some p, some b => some (p.1 ++ '+' :: b.1)

/-- What is read as the prerelease of a tag. -/
def readPre (t : Tag) : List Char :=
  match t.suffix with
  | none => []
  | some s => if IsPrerelease s then s else []

/-- The numbers fit, also when they are packed. -/
def Fits (t : Tag) : Prop :=
  t.major.value < 2 ^ 64 ∧ t.minor.value < 2 ^ 64 ∧ t.third * 10000 + t.fourth < 2 ^ 64

/-- The tag fits, its fourth number does not reach the third one, and it has no build metadata, or such as cannot
be read as a prerelease. -/
structure Sound (t : Tag) : Prop where
  fits : t.Fits
  fourth : t.fourth < 10000
  build : ∀ b, t.build = some b → t.pre = none ∧ ¬ IsPrerelease b.1

end Tag

theorem numeral_dot (n : Numeral) : '.' ∉ n.1 := fun h => absurd (n.2.2 _ h) (by decide)

theorem numeral_isBeforeSuffix (n : Numeral) : ∀ c ∈ n.1, isBeforeSuffix c = true := by
  intro c hc
  have hdigit := n.2.2 c hc
  have hminus : c ≠ '-' := fun heq => absurd (heq ▸ hdigit) (by decide)
  have hplus : c ≠ '+' := fun heq => absurd (heq ▸ hdigit) (by decide)
  rw [isBeforeSuffix, decide_eq_true hminus, decide_eq_true hplus]
  rfl

theorem parseComponent_numeral (n : Numeral) :
    parseComponent n.1 = if n.value < 2 ^ 64 then some n.value else none := by
  rw [parseComponent, Decimal.parse_of_digits n.2.1 n.2.2, Option.filter_some]
  simp only [decide_eq_true_eq]
  rfl

namespace Tag

variable {t : Tag}

theorem splitOn_numeric (t : Tag) : t.numeric.splitOn '.' = t.components.map (·.1) := by
  rw [numeric, List.splitOn_intercalate '.' ?_ (by simp [components])]
  intro piece hpiece
  obtain ⟨n, -, rfl⟩ := List.mem_map.mp hpiece
  exact numeral_dot n

theorem mem_numeric {c : Char} (h : c ∈ t.numeric) : isBeforeSuffix c = true := by
  rcases List.mem_intercalate h with rfl | ⟨piece, hpiece, hc⟩
  · decide
  · obtain ⟨n, -, rfl⟩ := List.mem_map.mp hpiece
    exact numeral_isBeforeSuffix n c hc

/-- The part behind the numbers begins with a hyphen or a plus sign. -/
theorem suffixText_eq (t : Tag) : (t.suffixText = [] ∧ t.suffix = none) ∨
    ∃ c rest, (c = '-' ∨ c = '+') ∧ t.suffixText = c :: rest ∧ t.suffix = some rest := by
  rw [suffixText, suffix]
  cases t.pre with
  | none =>
    cases t.build with
    | none => exact .inl ⟨rfl, rfl⟩
    | some b => exact .inr ⟨'+', b.1, .inr rfl, rfl, rfl⟩
  | some p =>
    cases t.build with
    | none => exact .inr ⟨'-', p.1, .inl rfl, List.append_nil _, rfl⟩
    | some b => exact .inr ⟨'-', p.1 ++ '+' :: b.1, .inl rfl, rfl, rfl⟩

/-- **The numbers and the suffix are found.** -/
theorem splitSuffix_text (t : Tag) : splitSuffix (t.numeric ++ t.suffixText) = (t.numeric, t.suffix) := by
  have hnumeric : ∀ c ∈ t.numeric, isBeforeSuffix c = true := fun c hc => mem_numeric hc
  rw [splitSuffix, List.span_eq_takeWhile_dropWhile, List.takeWhile_append_of_pos hnumeric,
    List.dropWhile_append_of_pos hnumeric]
  rcases t.suffixText_eq with ⟨htext, hsuffix⟩ | ⟨c, rest, hc, htext, hsuffix⟩
  · rw [htext, hsuffix, List.takeWhile_nil, List.dropWhile_nil, List.append_nil]
  · have hneg : ¬ isBeforeSuffix c = true := by
      rcases hc with rfl | rfl <;> decide
    rw [htext, hsuffix, List.takeWhile_cons_of_neg hneg, List.dropWhile_cons_of_neg hneg, List.append_nil]

/-- A tag begins with a digit, or with the `v` that is taken away. -/
theorem strip_text (t : Tag) : (if t.text.head? = some 'v' then t.text.tail else t.text) =
    t.numeric ++ t.suffixText := by
  obtain ⟨digit, digits, hdigits⟩ := List.exists_cons_of_ne_nil t.major.2.1
  have hhead : digit.isDigit = true := t.major.2.2 digit (by rw [hdigits]; exact List.mem_cons_self)
  have hfirst : ∃ rest, t.numeric = digit :: rest := by
    rw [numeric, components]
    simp only [List.map_cons, hdigits]
    exact ⟨_, rfl⟩
  obtain ⟨rest, hrest⟩ := hfirst
  rw [text]
  cases t.v with
  | true => rfl
  | false =>
    have hne : some digit ≠ some 'v' := by
      intro heq
      rw [Option.some.inj heq] at hhead
      exact absurd hhead (by decide)
    rw [hrest]
    exact if_neg hne

end Tag

/-! ### What is read of a tag -/

section Parse

variable {lib : Library} (hlib : lib.Lawful) {t : Tag}

/-- The place of what is read with a suffix. -/
theorem key_applySuffix (hlib : lib.Lawful) (t : Tag) (major minor patch : ℕ) :
    (applySuffix lib ⟨major, minor, patch, lib.empty⟩ t.suffix).key =
      toLex (major, toLex (minor, toLex (patch, precedence t.readPre))) := by
  rw [applySuffix, Tag.readPre]
  cases hsuffix : t.suffix with
  | none => rw [Option.bind_none, Version.key, hlib.text_empty]
  | some s =>
    rw [Option.bind_some]
    by_cases hs : s = [] ∨ IsPrerelease s
    · obtain ⟨pre, hpre⟩ := Option.isSome_iff_exists.mp ((hlib.new_isSome s).mpr hs)
      rw [hpre, Version.key, hlib.text_new s pre hpre]
      rcases hs with rfl | hs
      · simp
      · dsimp only
        rw [if_pos hs]
    · have hnone : lib.new s = none := Option.not_isSome_iff_eq_none.mp fun h => hs ((hlib.new_isSome s).mp h)
      dsimp only
      rw [hnone, Version.key, hlib.text_empty, if_neg fun h => hs (.inr h)]

/-- All numbers are read, or none. -/
theorem mapM_parseComponent (ns : List Numeral) : (ns.map (·.1)).mapM parseComponent =
    if ∀ n ∈ ns, n.value < 2 ^ 64 then some (ns.map Numeral.value) else none := by
  induction ns with
  | nil => simp
  | cons n ns ih =>
    have hall := List.forall_mem_cons (p := fun n : Numeral => n.value < 2 ^ 64) (a := n) (l := ns)
    rw [List.map_cons, List.mapM_cons, parseComponent_numeral, ih]
    by_cases hn : n.value < 2 ^ 64
    · by_cases hns : ∀ n ∈ ns, n.value < 2 ^ 64
      · rw [if_pos hn, if_pos hns, if_pos (hall.mpr ⟨hn, hns⟩)]
        rfl
      · rw [if_pos hn, if_neg hns, if_neg fun h => hns (hall.mp h).2]
        rfl
    · rw [if_neg hn, if_neg fun h => hn (hall.mp h).1]
      rfl

/-- The numbers of a tag are read, or none. -/
theorem parseReleaseTag_eq (t : Tag) : parseReleaseTag lib t.text =
    if ∀ n ∈ t.components, n.value < 2 ^ 64 then
      match t.patch with
      | none => .ok (some (applySuffix lib ⟨t.major.value, t.minor.value, 0, lib.empty⟩ t.suffix))
      | some (c, none) => (Checked.mul (2 ^ 64) c.value 10000).map fun packed =>
          some (applySuffix lib ⟨t.major.value, t.minor.value, packed, lib.empty⟩ t.suffix)
      | some (c, some d) => ((Checked.mul (2 ^ 64) c.value 10000).bind fun high =>
          Checked.add (2 ^ 64) high d.value).map fun packed =>
          some (applySuffix lib ⟨t.major.value, t.minor.value, packed, lib.empty⟩ t.suffix)
    else .ok none := by
  rw [parseReleaseTag, t.strip_text, t.splitSuffix_text]
  dsimp only
  rw [t.splitOn_numeric, mapM_parseComponent]
  by_cases hall : ∀ n ∈ t.components, n.value < 2 ^ 64
  · rw [if_pos hall, if_pos hall, Tag.components]
    rcases t.patch with _ | ⟨c, _ | d⟩
    · rfl
    · simp only [List.map_cons, List.map_nil]
      cases Checked.mul (2 ^ 64) c.value 10000 with
      | error stop => rfl
      | ok packed => rfl
    · simp only [List.map_cons, List.map_nil]
      cases Checked.mul (2 ^ 64) c.value 10000 with
      | error stop => rfl
      | ok high =>
        dsimp only [bind, Except.bind]
        cases Checked.add (2 ^ 64) high d.value with
        | error stop => rfl
        | ok packed => rfl
  · rw [if_neg hall, if_neg hall]
    rfl

namespace Tag

/-- The numbers of a tag that fits are read. -/
theorem Fits.components (h : t.Fits) : ∀ n ∈ t.components, n.value < 2 ^ 64 := by
  obtain ⟨hmajor, hminor, hpacked⟩ := h
  rw [third, fourth] at hpacked
  rw [Tag.components]
  generalize t.patch = patch at hpacked ⊢
  intro n hn
  rcases List.mem_cons.mp hn with rfl | hn
  · exact hmajor
  · rcases List.mem_cons.mp hn with rfl | hn
    · exact hminor
    · rcases patch with _ | ⟨c, _ | d⟩
      · exact absurd hn List.not_mem_nil
      · rw [List.mem_singleton.mp hn]
        simp only [Option.map_some, Option.getD_some] at hpacked
        omega
      · simp only [Option.map_some, Option.getD_some, Option.bind_some] at hpacked
        rcases List.mem_pair.mp hn with rfl | rfl
        · omega
        · omega

end Tag

/-- **What is read of a tag that fits.** -/
theorem parseReleaseTag_text (hlib : lib.Lawful) (hfits : t.Fits) :
    ∃ v, parseReleaseTag lib t.text = .ok (some v) ∧
      v.key = toLex (t.major.value, toLex (t.minor.value, toLex (t.third * 10000 + t.fourth, precedence t.readPre))) := by
  have hpacked := hfits.2.2
  have hkey := key_applySuffix hlib t t.major.value t.minor.value
  rw [parseReleaseTag_eq, if_pos hfits.components]
  rw [Tag.third, Tag.fourth] at hpacked ⊢
  generalize t.patch = patch at hpacked ⊢
  rcases patch with _ | ⟨c, _ | d⟩
  · exact ⟨_, rfl, hkey 0⟩
  · -- there is no fourth number
    simp only [Option.map_some, Option.getD_some, Option.bind_some, Option.map_none, Option.getD_none,
      Nat.add_zero] at hpacked ⊢
    rw [Checked.mul_of_lt hpacked]
    exact ⟨_, rfl, hkey _⟩
  · simp only [Option.map_some, Option.getD_some, Option.bind_some] at hpacked ⊢
    rw [Checked.mul_of_lt (Nat.lt_of_le_of_lt (Nat.le_add_right _ _) hpacked), Except.bind,
      Checked.add_of_lt hpacked]
    exact ⟨_, rfl, hkey _⟩

/-- **What is read fits.** -/
theorem fits_of_parse {v : Version lib} (h : parseReleaseTag lib t.text = .ok (some v)) : t.Fits := by
  rw [parseReleaseTag_eq] at h
  split at h
  · next hall =>
    rw [Tag.components] at hall
    refine ⟨hall _ List.mem_cons_self, hall _ (List.mem_cons_of_mem _ List.mem_cons_self), ?_⟩
    rw [Tag.third, Tag.fourth]
    generalize t.patch = patch at h ⊢
    rcases patch with _ | ⟨c, _ | d⟩
    · decide
    · dsimp only at h
      cases hmul : Checked.mul (2 ^ 64) c.value 10000 with
      | error stop =>
        rw [hmul] at h
        cases h
      | ok packed => simpa using (Checked.mul_eq_ok_iff.mp hmul).1
    · dsimp only at h
      cases hmul : Checked.mul (2 ^ 64) c.value 10000 with
      | error stop =>
        rw [hmul] at h
        cases h
      | ok high =>
        rw [hmul, Except.bind] at h
        cases hadd : Checked.add (2 ^ 64) high d.value with
        | error stop =>
          rw [hadd] at h
          cases h
        | ok packed =>
          rw [← (Checked.mul_eq_ok_iff.mp hmul).2] at hadd
          exact (Checked.add_eq_ok_iff.mp hadd).1
  · cases h

end Parse

/-! ### The order of tags -/

/-- What is read of two tags is ordered as they are. -/
def Agree (lib : Library) (t u : Tag) : Prop :=
  ∃ v w, parseReleaseTag lib t.text = .ok (some v) ∧ parseReleaseTag lib u.text = .ok (some w) ∧
    v.cmp w = compare t.key u.key

theorem plus_notMem {text : List Char} (h : IsPrerelease text) : '+' ∉ text := by
  intro hmem
  have hjoin : ['.'].intercalate (text.splitOn '.') = text := List.intercalate_splitOn '.'
  rw [← hjoin] at hmem
  rcases List.mem_intercalate hmem with heq | ⟨piece, hpiece, hc⟩
  · exact absurd heq (by decide)
  · exact absurd ((h piece hpiece).1.2 _ hc) (by decide)

theorem ne_nil_of_isPrerelease {text : List Char} (h : IsPrerelease text) : text ≠ [] := by
  rintro rfl
  exact absurd h (by decide)

theorem compare_eq_compare {α β : Type*} [LinearOrder α] [LinearOrder β] {a b : α} {a' b' : β}
    (hlt : a < b ↔ a' < b') (hgt : b < a ↔ b' < a') : compare a b = compare a' b' := by
  rcases lt_trichotomy a b with h | rfl | h
  · rw [compare_lt_iff_lt.mpr h, compare_lt_iff_lt.mpr (hlt.mp h)]
  · have heq : a' = b' := le_antisymm (not_lt.mp fun h => lt_irrefl _ (hgt.mpr h))
      (not_lt.mp fun h => lt_irrefl _ (hlt.mpr h))
    rw [heq, compare_eq_iff_eq.mpr rfl, compare_eq_iff_eq.mpr rfl]
  · rw [compare_gt_iff_gt.mpr h, compare_gt_iff_gt.mpr (hgt.mp h)]

/-- **Packing keeps the order** where the fourth number does not reach the third one. -/
theorem packed_lt_iff {c d c' d' : ℕ} {p p' : Precedence} (hd : d < 10000) (hd' : d' < 10000) :
    toLex (c * 10000 + d, p) < toLex (c' * 10000 + d', p') ↔
      toLex (c, toLex (d, p)) < toLex (c', toLex (d', p')) := by
  rw [Prod.Lex.toLex_lt_toLex, Prod.Lex.toLex_lt_toLex, Prod.Lex.toLex_lt_toLex]
  dsimp only
  constructor
  · intro h
    rcases h with h | ⟨h, hp⟩
    · rcases Nat.lt_trichotomy c c' with hc | rfl | hc
      · exact .inl hc
      · exact .inr ⟨rfl, .inl (by omega)⟩
      · omega
    · exact .inr ⟨by omega, .inr ⟨by omega, hp⟩⟩
  · intro h
    rcases h with hc | ⟨rfl, hd | ⟨rfl, hp⟩⟩
    · exact .inl (by omega)
    · exact .inl (by omega)
    · exact .inr ⟨rfl, hp⟩

theorem toLex_lt_iff {α β γ : Type*} [LinearOrder α] [LinearOrder β] [LinearOrder γ] {a a' : α} {b b' : β}
    {c c' : γ} (h : b < b' ↔ c < c') : toLex (a, b) < toLex (a', b') ↔ toLex (a, c) < toLex (a', c') := by
  rw [Prod.Lex.toLex_lt_toLex, Prod.Lex.toLex_lt_toLex, h]

section Order

variable {lib : Library} {t u : Tag}

namespace Tag

/-- Of a sound tag the prerelease is read. -/
theorem Sound.readPre_eq (h : t.Sound) : t.readPre = t.preText := by
  have hbuild := h.build
  rw [readPre, preText, suffix]
  cases hpre : t.pre with
  | none =>
    cases hb : t.build with
    | none => rfl
    | some b =>
      dsimp only
      rw [if_neg (hbuild b hb).2]
      rfl
  | some p =>
    cases hb : t.build with
    | none =>
      dsimp only
      rw [if_pos p.2]
      rfl
    | some b =>
      rw [hpre] at hbuild
      cases (hbuild b hb).1

end Tag

/-- **Sound tags are ordered as what is read of them.** -/
theorem compare_key (hlib : lib.Lawful) (ht : t.Sound) (hu : u.Sound) : Agree lib t u := by
  obtain ⟨v, hv, hvkey⟩ := parseReleaseTag_text hlib ht.fits
  obtain ⟨w, hw, hwkey⟩ := parseReleaseTag_text hlib hu.fits
  refine ⟨v, w, hv, hw, ?_⟩
  rw [cmp_eq_compare hlib, hvkey, hwkey, ht.readPre_eq, hu.readPre_eq, Tag.key, Tag.key]
  exact compare_eq_compare (toLex_lt_iff (toLex_lt_iff (packed_lt_iff ht.fourth hu.fourth)))
    (toLex_lt_iff (toLex_lt_iff (packed_lt_iff hu.fourth ht.fourth)))

/-- The digits of a number. -/
def Numeral.ofNat (n : ℕ) : Numeral :=
  ⟨Nat.toDigits 10 n, Nat.toDigits_ne_nil, fun _ hc => Decimal.isDigit_of_mem hc⟩

theorem Numeral.value_ofNat (n : ℕ) : (Numeral.ofNat n).value = n := Nat.ofDigitChars_ten_toDigits

/-- The first prerelease of the version with the next third number. -/
def Tag.next (t : Tag) : Tag :=
  { t with patch := some (.ofNat (t.third + 1), none), pre := some ⟨['0'], by decide⟩, build := none }

/-- A fourth number that reaches the third one. -/
theorem carry {c d : ℕ} (h : ¬ d < 10000) :
    (c + 1) * 10000 + 0 < c * 10000 + d ∨ (c + 1) * 10000 + 0 = c * 10000 + d := by
  omega

/-- **Where the fourth number reaches the third one**, the tag is read as one that is not before the next one. -/
theorem fourth_of_agree (hlib : lib.Lawful) (hfits : t.Fits) (h : ∀ u, Tag.Sound u → Agree lib t u) :
    t.fourth < 10000 := by
  by_contra hnot
  have hthird : t.next.third = t.third + 1 := Numeral.value_ofNat _
  have hfourth : t.next.fourth = 0 := rfl
  have hpacked := hfits.2.2
  have hsound : t.next.Sound := by
    refine ⟨⟨hfits.1, hfits.2.1, ?_⟩, by rw [hfourth]; decide, fun b hb => nomatch hb⟩
    rw [hthird, hfourth]
    exact Nat.lt_of_le_of_lt (Nat.le_iff_lt_or_eq.mpr (carry hnot)) hpacked
  obtain ⟨v, w, hv, hw, hcmp⟩ := h t.next hsound
  obtain ⟨v', hv', hvkey⟩ := parseReleaseTag_text hlib hfits
  obtain ⟨w', hw', hwkey⟩ := parseReleaseTag_text hlib hsound.fits
  obtain rfl : v = v' := by simpa using hv.symm.trans hv'
  obtain rfl : w = w' := by simpa using hw.symm.trans hw'
  have hlt : t.key < t.next.key := by
    rw [Tag.key, Tag.key, hthird]
    exact Prod.Lex.toLex_lt_toLex.mpr (.inr ⟨rfl, Prod.Lex.toLex_lt_toLex.mpr (.inr ⟨rfl,
      Prod.Lex.toLex_lt_toLex.mpr (.inl (Nat.lt_succ_self _))⟩)⟩)
  rw [compare_lt_iff_lt.mpr hlt, cmp_eq_compare hlib, compare_lt_iff_lt, hvkey, hwkey, hthird, hfourth,
    hsound.readPre_eq] at hcmp
  refine absurd hcmp (not_lt.mpr ?_)
  refine Prod.Lex.toLex_le_toLex.mpr (.inr ⟨rfl, Prod.Lex.toLex_le_toLex.mpr (.inr ⟨rfl, ?_⟩)⟩)
  rw [Prod.Lex.toLex_le_toLex]
  rcases carry hnot with hlt | heq
  · exact .inl hlt
  · exact .inr ⟨heq, precedence_zero_le _⟩

/-- **Build metadata that is read** makes the tag another one. -/
theorem build_of_agree (hlib : lib.Lawful) (hfits : t.Fits) (hfourth : t.fourth < 10000)
    (h : ∀ u, Tag.Sound u → Agree lib t u) : ∀ b, t.build = some b → t.pre = none ∧ ¬ IsPrerelease b.1 := by
  intro b hb
  have hsound : Tag.Sound { t with build := none } := ⟨hfits, hfourth, fun b hb => nomatch hb⟩
  obtain ⟨v, w, hv, hw, hcmp⟩ := h _ hsound
  obtain ⟨v', hv', hvkey⟩ := parseReleaseTag_text hlib hfits
  obtain ⟨w', hw', hwkey⟩ := parseReleaseTag_text hlib hsound.fits
  obtain rfl : v = v' := by simpa using hv.symm.trans hv'
  obtain rfl : w = w' := by simpa using hw.symm.trans hw'
  have hsame : Tag.key { t with build := none } = t.key := rfl
  rw [hsame, compare_eq_iff_eq.mpr rfl, cmp_eq_compare hlib, compare_eq_iff_eq, hvkey, hwkey,
    hsound.readPre_eq] at hcmp
  have hread : precedence t.readPre = precedence t.preText := by
    have hpair := congrArg (fun k => (ofLex (ofLex (ofLex k).2).2).2) hcmp
    exact hpair
  rw [Tag.readPre, Tag.preText, Tag.suffix, hb] at hread
  cases hpre : t.pre with
  | none =>
    refine ⟨rfl, fun hbuild => ?_⟩
    rw [hpre] at hread
    dsimp only at hread
    rw [if_pos hbuild] at hread
    exact precedence_ne_top (ne_nil_of_isPrerelease hbuild) hread
  | some p =>
    rw [hpre] at hread
    dsimp only at hread
    rw [if_neg fun hboth => plus_notMem hboth (by simp)] at hread
    exact absurd hread.symm (precedence_ne_top (ne_nil_of_isPrerelease p.2))

/-- **Only sound tags** are ordered with all sound tags as what is read of them. -/
theorem sound_iff (hlib : lib.Lawful) (t : Tag) : t.Sound ↔
    (∃ v, parseReleaseTag lib t.text = .ok (some v)) ∧ ∀ u, Tag.Sound u → Agree lib t u := by
  constructor
  · intro ht
    obtain ⟨v, hv, -⟩ := parseReleaseTag_text hlib ht.fits
    exact ⟨⟨v, hv⟩, fun u hu => compare_key hlib ht hu⟩
  · intro h
    obtain ⟨⟨v, hv⟩, hagree⟩ := h
    have hfits := fits_of_parse hv
    have hfourth := fourth_of_agree hlib hfits hagree
    exact ⟨hfits, hfourth, build_of_agree hlib hfits hfourth hagree⟩

end Order
end StreamServer.Updater

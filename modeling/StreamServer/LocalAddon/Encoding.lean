import StreamServer.LocalAddon.Checked

/-!
# Written values

`encode` writes a value in the canonical way: numbers without a plus sign or zeros in front, and the
entries of a dictionary in the order of their keys.  The parser reads what is written, and nothing behind
it.

## Main definitions

* `encode` — how a value is written.
* `BValue.WellFormed` — integers of 64 bits, and dictionaries whose keys differ and are in order.

## Main results

* `parses_encode` — what is written is read as the value.
* `parseBencode_encode` — **reading undoes writing**, whatever comes behind.

## References

`server/src/local_addon/torrent.rs`, `BValue` and `parse_bencode`.
-/

namespace StreamServer.LocalAddon

open Checked

/-! ### Writing -/

/-- A number in decimal. -/
def digitsOf (n : ℕ) : Bytes := (Nat.toDigits 10 n).map fun c => UInt8.ofNat c.toNat

/-- The digits of a number, behind its sign. -/
def encodeInt : ℤ → Bytes
  | .ofNat n => digitsOf n
  | .negSucc n => 45 :: digitsOf (n + 1)

/-- The bytes, behind their length. -/
def encodeStr (bytes : Bytes) : Bytes := digitsOf bytes.length ++ 58 :: bytes

mutual

/-- How a value is written. -/
def encode : BValue → Bytes
  | .int i => 105 :: (encodeInt i ++ [101])
  | .str bytes => encodeStr bytes
  | .list vals => 108 :: (encodeList vals ++ [101])
  | .dict entries => 100 :: (encodeEntries entries ++ [101])

/-- The values of a list in a row. -/
def encodeList : List BValue → Bytes
  | [] => []
  | val :: vals => encode val ++ encodeList vals

/-- The entries of a dictionary in a row. -/
def encodeEntries : List (Bytes × BValue) → Bytes
  | [] => []
  | (key, val) :: entries => encodeStr key ++ encode val ++ encodeEntries entries

end

/-- The keys of a tree, which stand in order. -/
def InOrder (entries : List (Bytes × BValue)) : Prop :=
  (entries.map (·.1)).Pairwise (· < ·)

mutual

/-- Integers fit into 64 bits, and the keys of dictionaries differ and stand in order. -/
def BValue.WellFormed : BValue → Prop
  | .int i => -2 ^ 63 ≤ i ∧ i < 2 ^ 63
  | .str _ => True
  | .list vals => wellFormedList vals
  | .dict entries => InOrder entries ∧ wellFormedEntries entries

/-- Every value of the list is well formed. -/
def wellFormedList : List BValue → Prop
  | [] => True
  | val :: vals => val.WellFormed ∧ wellFormedList vals

/-- Every value of the dictionary is well formed. -/
def wellFormedEntries : List (Bytes × BValue) → Prop
  | [] => True
  | (_, val) :: entries => val.WellFormed ∧ wellFormedEntries entries

end

/-! ### Numbers -/

theorem isDigit_toNat {c : Char} (h : c.isDigit = true) : 48 ≤ c.toNat ∧ c.toNat ≤ 57 := by
  simp only [Char.isDigit, Bool.and_eq_true, decide_eq_true_eq] at h
  exact h

/-- The byte of a digit. -/
theorem isDigit_ofNat {c : Char} (h : c.isDigit = true) :
    (UInt8.ofNat c.toNat).toNat = c.toNat ∧ isDigit (UInt8.ofNat c.toNat) = true := by
  obtain ⟨hlow, hhigh⟩ := isDigit_toNat h
  have hnat : (UInt8.ofNat c.toNat).toNat = c.toNat := by
    rw [UInt8.toNat_ofNat', Nat.mod_eq_of_lt (by omega)]
  refine ⟨hnat, ?_⟩
  simp only [isDigit, Bool.and_eq_true, decide_eq_true_eq, UInt8.le_iff_toNat_le, hnat]
  exact ⟨hlow, hhigh⟩

theorem isDigit_of_mem_digitsOf {b : UInt8} {n : ℕ} (h : b ∈ digitsOf n) : isDigit b = true := by
  obtain ⟨c, hc, rfl⟩ := List.mem_map.mp h
  exact (isDigit_ofNat (Nat.isDigit_of_mem_toDigits (by decide) (by decide) hc)).2

theorem readDigits_map {chars : List Char} (h : ∀ c ∈ chars, c.isDigit = true) (value : ℕ) :
    readDigits value (chars.map fun c => UInt8.ofNat c.toNat) =
      some (Nat.ofDigitChars 10 chars value) := by
  induction chars generalizing value with
  | nil => rfl
  | cons c chars ih =>
    obtain ⟨hnat, hdigit⟩ := isDigit_ofNat (h c List.mem_cons_self)
    rw [List.map_cons, readDigits, if_pos hdigit, hnat, Nat.ofDigitChars_cons, Nat.mul_comm]
    exact ih (fun c' hc' => h c' (List.mem_cons_of_mem c hc')) _

/-- **The digits of a number are read as the number.** -/
theorem readNat_digitsOf (n : ℕ) : readNat (digitsOf n) = some n := by
  have hne : digitsOf n ≠ [] := by
    rw [digitsOf, Ne, List.map_eq_nil_iff]
    exact Nat.toDigits_ne_nil
  rw [readNat, if_neg hne, digitsOf,
    readDigits_map fun c hc => Nat.isDigit_of_mem_toDigits (by decide) (by decide) hc,
    Nat.ofDigitChars_ten_toDigits]

theorem digitsOf_eq_cons (n : ℕ) : ∃ c digits, digitsOf n = c :: digits ∧ isDigit c = true ∧
    ∀ b ∈ digits, isDigit b = true := by
  have hne : digitsOf n ≠ [] := by
    rw [digitsOf, Ne, List.map_eq_nil_iff]
    exact Nat.toDigits_ne_nil
  obtain ⟨c, digits, heq⟩ := List.exists_cons_of_ne_nil hne
  refine ⟨c, digits, heq, ?_, fun b hb => ?_⟩
  · exact isDigit_of_mem_digitsOf (heq ▸ List.mem_cons_self)
  · exact isDigit_of_mem_digitsOf (heq ▸ List.mem_cons_of_mem c hb)

/-- A number does not begin with a sign. -/
theorem digitsOf_head (n : ℕ) (rest : Bytes) : digitsOf n ≠ 43 :: rest ∧ digitsOf n ≠ 45 :: rest := by
  obtain ⟨c, digits, heq, hc, -⟩ := digitsOf_eq_cons n
  rw [heq]
  constructor
  · intro h
    rw [(List.cons_eq_cons.mp h).1] at hc
    exact absurd hc (by decide)
  · intro h
    rw [(List.cons_eq_cons.mp h).1] at hc
    exact absurd hc (by decide)

theorem parseUsize_digitsOf {n : ℕ} (h : n < 2 ^ 64) : parseUsize (digitsOf n) = some n := by
  unfold parseUsize
  split
  · next rest heq => exact absurd heq (digitsOf_head n rest).1
  · rw [readNat_digitsOf, Option.filter_some, decide_eq_true h, if_pos rfl]

/-- **An integer is read from what is written for it.** -/
theorem parseI64_encodeInt {i : ℤ} (h : -2 ^ 63 ≤ i ∧ i < 2 ^ 63) :
    parseI64 (encodeInt i) = some i := by
  cases i with
  | ofNat n =>
    have hlt : n < 2 ^ 63 := by
      have := h.2
      rw [Int.ofNat_eq_natCast] at this
      omega
    rw [encodeInt]
    unfold parseI64
    split
    · next rest heq => exact absurd heq (digitsOf_head n rest).2
    · next rest heq => exact absurd heq (digitsOf_head n rest).1
    · rw [readNat_digitsOf, Option.filter_some, decide_eq_true hlt, if_pos rfl]
      rfl
  | negSucc n =>
    have hle : n + 1 ≤ 2 ^ 63 := by
      have := h.1
      omega
    rw [encodeInt, parseI64, readNat_digitsOf, Option.filter_some, decide_eq_true hle, if_pos rfl]
    rfl

theorem notMem_encodeInt (i : ℤ) : 101 ∉ encodeInt i := by
  have hdigits : ∀ n, 101 ∉ digitsOf n := fun n hmem =>
    absurd (isDigit_of_mem_digitsOf hmem) (by decide)
  cases i with
  | ofNat n => exact hdigits n
  | negSucc n =>
    intro hmem
    rcases List.mem_cons.mp hmem with heq | hmem
    · exact absurd heq (by decide)
    · exact hdigits (n + 1) hmem

/-! ### Values -/

theorem parses_encodeStr (bytes : Bytes) : Parses (encodeStr bytes) (.str bytes) := by
  obtain ⟨c, digits, heq, hc, hdigits⟩ := digitsOf_eq_cons bytes.length
  have hcolon : 58 ∉ digits := fun hmem => absurd (hdigits 58 hmem) (by decide)
  by_cases hlength : bytes.length < 2 ^ 64
  · have hlen := parseUsize_digitsOf hlength
    rw [heq] at hlen
    rw [encodeStr, heq]
    exact parses_str hc hcolon hlen
  · -- no input is as long as that
    refine ⟨⟨c, digits ++ 58 :: bytes, by rw [encodeStr, heq]; rfl, (isDigit_ne hc).2.2.2.1⟩, ?_⟩
    intro fuel rest _ hshort
    rw [encodeStr, List.length_append, List.length_append, List.length_cons] at hshort
    omega

theorem treeInsert_last {key : Bytes} (val : BValue) {map : List (Bytes × BValue)}
    (h : ∀ entry ∈ map, entry.1 < key) : treeInsert key val map = map ++ [(key, val)] := by
  induction map with
  | nil => rfl
  | cons entry map ih =>
    have hlt := h entry List.mem_cons_self
    rw [treeInsert, if_neg (List.lt_asymm hlt), if_pos hlt,
      ih fun entry' hentry' => h entry' (List.mem_cons_of_mem _ hentry')]
    rfl

/-- Entries in order are kept as they are. -/
theorem insertAll_inOrder {map entries : List (Bytes × BValue)} (h : InOrder (map ++ entries)) :
    insertAll map entries = map ++ entries := by
  induction entries generalizing map with
  | nil => simp [insertAll]
  | cons entry entries ih =>
    have hbefore : ∀ entry' ∈ map, entry'.1 < entry.1 := by
      intro entry' hentry'
      rw [InOrder, List.map_append, List.pairwise_append] at h
      exact h.2.2 entry'.1 (List.mem_map_of_mem hentry') entry.1 (by simp)
    have hsplit : map ++ entry :: entries = (map ++ [entry]) ++ entries := by simp
    rw [hsplit] at h ⊢
    rw [← ih h, insertAll, List.foldl_cons, treeInsert_last entry.2 hbefore]
    rfl

theorem encodeList_eq (vals : List BValue) : encodeList vals = (vals.map encode).flatten := by
  induction vals with
  | nil => rfl
  | cons val vals ih => rw [encodeList, ih, List.map_cons, List.flatten_cons]

theorem encodeEntries_eq (entries : List (Bytes × BValue)) : encodeEntries entries =
    joined (entries.map fun entry => (encodeStr entry.1, encode entry.2)) := by
  induction entries with
  | nil => rfl
  | cons entry entries ih =>
    rw [encodeEntries, ih]
    simp [joined]

mutual

/-- **What is written is read as the value.** -/
theorem parses_encode : ∀ val : BValue, val.WellFormed → Parses (encode val) val
  | .int i, h => by
    rw [BValue.WellFormed] at h
    exact parses_int (notMem_encodeInt i) (parseI64_encodeInt h)
  | .str bytes, _ => parses_encodeStr bytes
  | .list vals, h => by
    rw [BValue.WellFormed] at h
    rw [encode, encodeList_eq]
    exact parses_list (parses_encodeList vals h)
  | .dict entries, h => by
    rw [BValue.WellFormed] at h
    have hmap : insertAll [] entries = entries := by
      rw [insertAll_inOrder (by simpa using h.1), List.nil_append]
    have hparses := parses_dict (parses_encodeEntries entries h.2)
    rw [hmap, ← encodeEntries_eq] at hparses
    exact hparses

theorem parses_encodeList : ∀ vals : List BValue, wellFormedList vals →
    List.Forall₂ Parses (vals.map encode) vals
  | [], _ => List.Forall₂.nil
  | val :: vals, h => by
    rw [wellFormedList] at h
    exact List.Forall₂.cons (parses_encode val h.1) (parses_encodeList vals h.2)

theorem parses_encodeEntries : ∀ entries : List (Bytes × BValue), wellFormedEntries entries →
    List.Forall₂ ParsesEntry (entries.map fun entry => (encodeStr entry.1, encode entry.2)) entries
  | [], _ => List.Forall₂.nil
  | (key, val) :: entries, h => by
    rw [wellFormedEntries] at h
    exact List.Forall₂.cons ⟨parses_encodeStr key, parses_encode val h.1⟩
      (parses_encodeEntries entries h.2)

end

/-- **Reading undoes writing**: the value is read with the length of what is written for it, whatever
comes behind. -/
theorem parseBencode_encode {val : BValue} {rest : Bytes} (hval : val.WellFormed)
    (hlength : (encode val ++ rest).length < 2 ^ 63) :
    parseBencodeChecked (encode val ++ rest) = .ok (val, (encode val).length) :=
  (parses_encode val hval).reads _ rest (Nat.le_refl _) hlength

/-- A dictionary with a list in it, and an `e` behind it. -/
theorem parseBencode_sample : parseBencodeChecked
    (encode (.dict [([97], .list [.int (-3), .str [101]]), ([98], .int 0)]) ++ [101]) =
      .ok (.dict [([97], .list [.int (-3), .str [101]]), ([98], .int 0)],
        (encode (.dict [([97], .list [.int (-3), .str [101]]), ([98], .int 0)])).length) := by
  refine parseBencode_encode ?_ (by decide)
  simp only [BValue.WellFormed, wellFormedEntries, wellFormedList, InOrder]
  decide

end StreamServer.LocalAddon

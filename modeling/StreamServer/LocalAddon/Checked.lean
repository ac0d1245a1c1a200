import StreamServer.Lib.Checked
import StreamServer.LocalAddon.Torrent

/-!
# Bencoded values with checks

The parser again, with each sum and each slice checked, and with the loops over the offset that the
source has.  A dictionary is a tree there, which keeps its keys in order.  `Sorted` has what both parsers
read.

What a value is written as does not depend on the parser: an integer, a string with its length in front,
or a row of values.  Where the parser gets to in an input is said with that, too.

## Main definitions

* `parseChecked` — the parser.
* `IsValue` — what is written for a value.
* `Reached` — where a value is looked for in an input.
* `Overlong` — a string is announced that does not end below `2 ^ 64`.
* `Outcome` — what there is to say about the outcome of the parser.

## Main results

* `parses_value` — **what is written for a value is read**, and no byte behind it.
* `outcome_spec` — the parser ends; it reads what is written for a value, or fails, or panics where it
  gets to a string that is too long.

## References

`server/src/local_addon/torrent.rs`, `parse_bencode` and `extract_info_bytes`.
-/

namespace StreamServer.LocalAddon

open Checked

/-! ### The parser -/

/-- A tree keeps one value for each key, in the order of the keys. -/
def treeInsert (key : Bytes) (val : BValue) : List (Bytes × BValue) → List (Bytes × BValue)
  | [] => [(key, val)]
  | (key', val') :: map =>
      if key < key' then (key, val) :: (key', val') :: map
      else if key' < key then (key', val') :: treeInsert key val map
      else (key, val) :: map

/-- `parse_int`, with its panics. -/
def parseIntChecked (bytes : Bytes) : Run (BValue × ℕ) := do
  let end_ ← okOr (bytes.idxOf? 101)
  let s ← slice bytes 1 end_
  let i ← okOr (parseI64 s)
  let len ← add (2 ^ 64) end_ 1
  pure (.int i, len)

/-- `parse_str`, with its panics. -/
def parseStrChecked (bytes : Bytes) : Run (BValue × ℕ) := do
  let colon ← okOr (bytes.idxOf? 58)
  let lenStr ← slice bytes 0 colon
  let len ← okOr (parseUsize lenStr)
  let start ← add (2 ^ 64) colon 1
  let stop ← add (2 ^ 64) start len
  if bytes.length < stop then .error .fail
  else do
    let body ← slice bytes start stop
    pure (.str body, stop)

/-- What comes behind the loop over a list or a dictionary. -/
def close (bytes : Bytes) (value : BValue) (offset : ℕ) : Run (BValue × ℕ) :=
  if bytes.length ≤ offset then .error .fail
  else do
    let len ← add (2 ^ 64) offset 1
    pure (value, len)

mutual

/-- `parse_bencode`, with fuel. -/
def parseChecked : ℕ → Bytes → Run (BValue × ℕ)
  | 0, _ => .error .stuck
  | _ + 1, [] => .error .fail
  | fuel + 1, c :: rest =>
      if c = 105 then parseIntChecked (c :: rest)
      else if c = 108 then do
        let (list, offset) ← listFrom fuel (c :: rest) [] 1
        close (c :: rest) (.list list) offset
      else if c = 100 then do
        let (map, offset) ← dictFrom fuel (c :: rest) [] 1
        close (c :: rest) (.dict map) offset
      else if isDigit c then parseStrChecked (c :: rest)
      else .error .fail

/-- The loop over a list, up to an `e` or the end. -/
def listFrom : ℕ → Bytes → List BValue → ℕ → Run (List BValue × ℕ)
  | 0, _, _, _ => .error .stuck
  | fuel + 1, bytes, list, offset =>
      if offset < bytes.length ∧ bytes[offset]? ≠ some 101 then do
        let rest ← slice bytes offset bytes.length
        let (val, len) ← parseChecked fuel rest
        let offset ← add (2 ^ 64) offset len
        listFrom fuel bytes (list ++ [val]) offset
      else .ok (list, offset)

/-- The loop over a dictionary, up to an `e` or the end. -/
def dictFrom : ℕ → Bytes → List (Bytes × BValue) → ℕ → Run (List (Bytes × BValue) × ℕ)
  | 0, _, _, _ => .error .stuck
  | fuel + 1, bytes, map, offset =>
      if offset < bytes.length ∧ bytes[offset]? ≠ some 101 then do
        let rest ← slice bytes offset bytes.length
        let (keyVal, keyLen) ← parseChecked fuel rest
        let offset ← add (2 ^ 64) offset keyLen
        let key ← okOr keyVal.asBytes
        let rest ← slice bytes offset bytes.length
        let (val, valLen) ← parseChecked fuel rest
        let offset ← add (2 ^ 64) offset valLen
        dictFrom fuel bytes (treeInsert key val map) offset
      else .ok (map, offset)

end

/-- **The parser.** -/
def parseBencodeChecked (bytes : Bytes) : Run (BValue × ℕ) :=
  parseChecked (2 * bytes.length + 1) bytes

/-- The text that is hashed. -/
def extractInfoBytesChecked (bytes : Bytes) : Run Bytes := do
  let position ← okOr (bytes.occurrence? infoPattern)
  let start ← add (2 ^ 64) position infoPattern.length
  let rest ← slice bytes start bytes.length
  let (_, len) ← parseBencodeChecked rest
  let stop ← add (2 ^ 64) start len
  slice bytes start stop

/-! ### What is written -/

/-- `i`, a number and `e`. -/
inductive IsInt : Bytes → Prop
  | mk {s : Bytes} {i : ℤ} (hs : 101 ∉ s) (hi : parseI64 s = some i) : IsInt (105 :: (s ++ [101]))

/-- A length, a colon and so many bytes. -/
inductive IsStr : Bytes → Prop
  | mk {c : UInt8} {digits body : Bytes} (hc : isDigit c = true) (hcolon : 58 ∉ digits)
      (hlen : parseUsize (c :: digits) = some body.length) : IsStr (c :: digits ++ 58 :: body)

/-- Keys and values in a row. -/
def joined (chunks : List (Bytes × Bytes)) : Bytes := chunks.flatMap fun chunk => chunk.1 ++ chunk.2

/-- What is written for a value. -/
inductive IsValue : Bytes → Prop
  | int {chunk : Bytes} (h : IsInt chunk) : IsValue chunk
  | str {chunk : Bytes} (h : IsStr chunk) : IsValue chunk
  | list {chunks : List Bytes} (h : ∀ chunk ∈ chunks, IsValue chunk) :
      IsValue (108 :: (chunks.flatten ++ [101]))
  | dict {chunks : List (Bytes × Bytes)} (hkeys : ∀ chunk ∈ chunks, IsStr chunk.1)
      (hvals : ∀ chunk ∈ chunks, IsValue chunk.2) :
      IsValue (100 :: (joined chunks ++ [101]))

/-- A value is looked for in this rest of the input. -/
inductive Reached : Bytes → Bytes → Prop
  | here (bytes : Bytes) : Reached bytes bytes
  | item {chunks : List Bytes} {rest sub : Bytes} (h : ∀ chunk ∈ chunks, IsValue chunk)
      (hrest : rest ≠ [] ∧ rest.head? ≠ some 101) (hsub : Reached rest sub) :
      Reached (108 :: (chunks.flatten ++ rest)) sub
  | key {chunks : List (Bytes × Bytes)} {rest sub : Bytes} (hkeys : ∀ chunk ∈ chunks, IsStr chunk.1)
      (hvals : ∀ chunk ∈ chunks, IsValue chunk.2) (hrest : rest ≠ [] ∧ rest.head? ≠ some 101)
      (hsub : Reached rest sub) :
      Reached (100 :: (joined chunks ++ rest)) sub
  | value {chunks : List (Bytes × Bytes)} {key rest sub : Bytes}
      (hkeys : ∀ chunk ∈ chunks, IsStr chunk.1) (hvals : ∀ chunk ∈ chunks, IsValue chunk.2)
      (hkey : IsStr key) (hsub : Reached rest sub) :
      Reached (100 :: (joined chunks ++ (key ++ rest))) sub

/-- A string is announced that does not end below `2 ^ 64`. -/
def Overlong (bytes : Bytes) : Prop :=
  ∃ c digits rest n, bytes = c :: digits ++ 58 :: rest ∧ isDigit c = true ∧ 58 ∉ digits ∧
    parseUsize (c :: digits) = some n ∧ 2 ^ 64 ≤ digits.length + 2 + n

/-! ### What is written is read -/

/-- The parser reads this chunk as the value, whatever comes behind it. -/
structure Parses (chunk : Bytes) (val : BValue) : Prop where
  head : ∃ c rest, chunk = c :: rest ∧ c ≠ 101
  reads : ∀ fuel rest, 2 * (chunk ++ rest).length + 1 ≤ fuel → (chunk ++ rest).length < 2 ^ 63 →
    parseChecked fuel (chunk ++ rest) = .ok (val, chunk.length)

/-- A byte is found where it first stands. -/
theorem idxOf?_first {b : UInt8} {s : Bytes} (h : b ∉ s) (rest : Bytes) :
    (s ++ b :: rest).idxOf? b = some s.length := List.idxOf?_append_cons h rest

/-- What the parser does with an integer. -/
theorem parseIntChecked_eq {s rest : Bytes} (hs : 101 ∉ s)
    (hlength : (105 :: (s ++ 101 :: rest)).length < 2 ^ 63) :
    parseIntChecked (105 :: (s ++ 101 :: rest)) =
      (okOr (parseI64 s) >>= fun i => .ok (.int i, s.length + 2)) := by
  have hnot : 101 ∉ 105 :: s := by
    intro hmem
    rcases List.mem_cons.mp hmem with heq | hmem
    · exact absurd heq (by decide)
    · exact hs hmem
  have hslice : slice (105 :: s ++ 101 :: rest) 1 (s.length + 1) = .ok s := by
    rw [slice_of_le (by omega) (by simp)]
    simp
  rw [List.length_cons, List.length_append] at hlength
  rw [← List.cons_append, parseIntChecked, idxOf?_first hnot, okOr_some, ok_bind, List.length_cons,
    hslice, ok_bind, add_of_lt (by omega)]
  rfl

theorem parses_int {s : Bytes} {i : ℤ} (hs : 101 ∉ s) (hi : parseI64 s = some i) :
    Parses (105 :: (s ++ [101])) (.int i) where
  head := ⟨105, s ++ [101], rfl, by decide⟩
  reads := by
    intro fuel rest hfuel hlength
    obtain ⟨fuel, rfl⟩ := Nat.exists_eq_succ_of_ne_zero (by omega : fuel ≠ 0)
    have hbytes : 105 :: (s ++ [101]) ++ rest = 105 :: (s ++ 101 :: rest) := by simp
    rw [hbytes] at hlength ⊢
    rw [parseChecked, if_pos rfl, parseIntChecked_eq hs hlength, hi, okOr_some, ok_bind]
    simp

theorem isDigit_ne {c : UInt8} (h : isDigit c = true) :
    c ≠ 105 ∧ c ≠ 108 ∧ c ≠ 100 ∧ c ≠ 101 ∧ c ≠ 58 := by
  simp only [isDigit, Bool.and_eq_true, decide_eq_true_eq, UInt8.le_iff_toNat_le] at h
  refine ⟨?_, ?_, ?_, ?_, ?_⟩ <;>
  · rintro rfl
    exact absurd h.2 (by decide)

/-- What the parser does with a digit. -/
theorem parseChecked_digit {c : UInt8} (hc : isDigit c = true) (fuel : ℕ) (rest : Bytes) :
    parseChecked (fuel + 1) (c :: rest) = parseStrChecked (c :: rest) := by
  obtain ⟨hi, hl, hd, -, -⟩ := isDigit_ne hc
  rw [parseChecked, if_neg hi, if_neg hl, if_neg hd, if_pos hc]

/-- What the parser does with a string. -/
theorem parseStrChecked_eq {c : UInt8} {digits rest : Bytes} (hc : isDigit c = true)
    (hcolon : 58 ∉ digits) (hlength : (c :: digits ++ 58 :: rest).length < 2 ^ 63) :
    parseStrChecked (c :: digits ++ 58 :: rest) = (okOr (parseUsize (c :: digits)) >>= fun n =>
      if 2 ^ 64 ≤ digits.length + 2 + n then .error .panic
      else if rest.length < n then .error .fail
      else .ok (.str (rest.take n), digits.length + 2 + n)) := by
  have hnot : 58 ∉ c :: digits := by
    intro hmem
    rcases List.mem_cons.mp hmem with heq | hmem
    · exact (isDigit_ne hc).2.2.2.2 heq.symm
    · exact hcolon hmem
  have hslice : slice (c :: digits ++ 58 :: rest) 0 (digits.length + 1) = .ok (c :: digits) := by
    rw [slice_of_le (Nat.zero_le _) (by simp)]
    simp
  rw [List.length_append, List.length_cons, List.length_cons] at hlength
  rw [parseStrChecked, idxOf?_first hnot, okOr_some, ok_bind, List.length_cons, hslice, ok_bind,
    add_of_lt (by omega)]
  congr 1
  funext n
  rw [ok_bind]
  by_cases hover : 2 ^ 64 ≤ digits.length + 2 + n
  · rw [if_pos hover, add_eq_panic_iff.mpr hover, error_bind]
  · rw [if_neg hover, add_of_lt (Nat.lt_of_not_le hover), ok_bind]
    by_cases hshort : rest.length < n
    · rw [if_pos hshort, if_pos]
      rw [List.length_append, List.length_cons, List.length_cons]
      omega
    · have hlong : ¬ (c :: digits ++ 58 :: rest).length < digits.length + 1 + 1 + n := by
        rw [List.length_append, List.length_cons, List.length_cons]
        omega
      rw [if_neg hshort, if_neg hlong, slice_of_le (by omega) (Nat.le_of_not_lt hlong), ok_bind]
      have hbody : ((c :: digits ++ 58 :: rest).take (digits.length + 1 + 1 + n)).drop
          (digits.length + 1 + 1) = rest.take n := by
        have hsplit : c :: digits ++ 58 :: rest = (c :: digits ++ [58]) ++ rest := by simp
        have hfront : (c :: digits ++ [58]).length = digits.length + 1 + 1 := by simp
        rw [hsplit, ← hfront, List.take_length_add_append, List.drop_left]
      rw [hbody]
      rfl

theorem parses_str {c : UInt8} {digits body : Bytes} (hc : isDigit c = true) (hcolon : 58 ∉ digits)
    (hlen : parseUsize (c :: digits) = some body.length) :
    Parses (c :: digits ++ 58 :: body) (.str body) where
  head := ⟨c, digits ++ 58 :: body, rfl, (isDigit_ne hc).2.2.2.1⟩
  reads := by
    intro fuel rest hfuel hlength
    obtain ⟨fuel, rfl⟩ := Nat.exists_eq_succ_of_ne_zero (by omega : fuel ≠ 0)
    have hbytes : c :: digits ++ 58 :: body ++ rest = c :: digits ++ 58 :: (body ++ rest) := by simp
    rw [hbytes] at hlength ⊢
    rw [List.cons_append, parseChecked_digit hc, ← List.cons_append,
      parseStrChecked_eq hc hcolon hlength, hlen, okOr_some, ok_bind]
    rw [List.length_append, List.length_cons, List.length_cons, List.length_append] at hlength
    rw [if_neg (by omega), if_neg (by rw [List.length_append]; omega), List.take_left]
    simp only [List.length_append, List.length_cons, Except.ok.injEq, Prod.mk.injEq, true_and]
    omega

/-! ### The loops -/

/-- The loop goes on: what is left begins with no `e`. -/
theorem loop_goes_on {before rest : Bytes} (hrest : rest ≠ [] ∧ rest.head? ≠ some 101) :
    before.length < (before ++ rest).length ∧ (before ++ rest)[before.length]? ≠ some 101 := by
  constructor
  · have hpos := List.length_pos_of_ne_nil hrest.1
    rw [List.length_append]
    omega
  · rw [List.getElem?_append_right (Nat.le_refl _), Nat.sub_self, ← List.head?_eq_getElem?]
    exact hrest.2

/-- The loop ends: nothing is left, or an `e`. -/
theorem loop_ends {before rest : Bytes} (hrest : rest = [] ∨ rest.head? = some 101) :
    ¬(before.length < (before ++ rest).length ∧ (before ++ rest)[before.length]? ≠ some 101) := by
  intro h
  rcases hrest with rfl | hhead
  · rw [List.append_nil] at h
    exact Nat.lt_irrefl _ h.1
  · rw [List.getElem?_append_right (Nat.le_refl _), Nat.sub_self, ← List.head?_eq_getElem?] at h
    exact h.2 hhead

theorem slice_rest (before rest : Bytes) :
    slice (before ++ rest) before.length (before ++ rest).length = .ok rest := by
  rw [slice_end (by simp), List.drop_left]

theorem Parses.goes_on {chunk : Bytes} {val : BValue} (h : Parses chunk val) (rest : Bytes) :
    chunk ++ rest ≠ [] ∧ (chunk ++ rest).head? ≠ some 101 := by
  obtain ⟨c, chunk, rfl, hc⟩ := h.head
  exact ⟨List.cons_ne_nil _ _, fun heq => hc (Option.some.inj heq)⟩

theorem Parses.length_pos {chunk : Bytes} {val : BValue} (h : Parses chunk val) :
    0 < chunk.length := by
  obtain ⟨c, chunk, rfl, -⟩ := h.head
  exact Nat.succ_pos _

/-- A turn of the loop over a list. -/
theorem listFrom_step {fuel : ℕ} {before chunk rest : Bytes} {val : BValue} (list : List BValue)
    (h : Parses chunk val) (hfuel : 2 * (chunk ++ rest).length + 2 ≤ fuel + 1)
    (hlength : (before ++ (chunk ++ rest)).length < 2 ^ 63) :
    listFrom (fuel + 1) (before ++ (chunk ++ rest)) list before.length =
      listFrom fuel ((before ++ chunk) ++ rest) (list ++ [val]) (before ++ chunk).length := by
  have hlength' := hlength
  rw [List.length_append] at hlength'
  have hsum : before.length + chunk.length < 2 ^ 64 := by
    rw [List.length_append] at hlength'
    omega
  rw [listFrom, if_pos (loop_goes_on (h.goes_on rest)), slice_rest, ok_bind,
    h.reads fuel rest (by omega) (by omega), ok_bind]
  dsimp only
  rw [add_of_lt hsum, ok_bind, List.length_append, List.append_assoc]

/-- **The loop over a list** reads values that stand in a row. -/
theorem listFrom_chunks {chunks : List Bytes} {vals : List BValue}
    (h : List.Forall₂ Parses chunks vals) (fuel : ℕ) (before rest : Bytes) (list : List BValue)
    (hfuel : 2 * (chunks.flatten ++ rest).length + 2 ≤ fuel)
    (hlength : (before ++ (chunks.flatten ++ rest)).length < 2 ^ 63) :
    ∃ fuel', 2 * rest.length + 2 ≤ fuel' ∧
      listFrom fuel (before ++ (chunks.flatten ++ rest)) list before.length =
        listFrom fuel' ((before ++ chunks.flatten) ++ rest) (list ++ vals)
          (before ++ chunks.flatten).length := by
  induction h generalizing fuel before list with
  | nil => exact ⟨fuel, by simpa using hfuel, by simp⟩
  | @cons chunk val chunks vals hchunk hchunks ih =>
    obtain ⟨fuel, rfl⟩ := Nat.exists_eq_succ_of_ne_zero (by omega : fuel ≠ 0)
    have hpos := hchunk.length_pos
    rw [List.flatten_cons, List.append_assoc] at hfuel hlength
    have hstep := listFrom_step list hchunk hfuel hlength
    rw [List.length_append] at hfuel
    rw [← List.append_assoc before] at hlength
    obtain ⟨fuel', hfuel', heq⟩ := ih fuel (before ++ chunk) (list ++ [val]) (by omega) hlength
    refine ⟨fuel', hfuel', ?_⟩
    rw [List.flatten_cons, List.append_assoc, hstep, heq]
    simp only [List.append_assoc, List.singleton_append]

/-- A turn of the loop over a dictionary. -/
theorem dictFrom_step {fuel : ℕ} {before keyChunk chunk rest key : Bytes} {val : BValue}
    (map : List (Bytes × BValue)) (hkey : Parses keyChunk (.str key)) (h : Parses chunk val)
    (hfuel : 2 * (keyChunk ++ (chunk ++ rest)).length + 2 ≤ fuel + 1)
    (hlength : (before ++ (keyChunk ++ (chunk ++ rest))).length < 2 ^ 63) :
    dictFrom (fuel + 1) (before ++ (keyChunk ++ (chunk ++ rest))) map before.length =
      dictFrom fuel ((before ++ (keyChunk ++ chunk)) ++ rest) (treeInsert key val map)
        (before ++ (keyChunk ++ chunk)).length := by
  have hlength' := hlength
  simp only [List.length_append] at hlength' hfuel
  have hbefore : before ++ (keyChunk ++ (chunk ++ rest)) = (before ++ keyChunk) ++ (chunk ++ rest) := by
    rw [List.append_assoc]
  have hslice := slice_rest (before ++ keyChunk) (chunk ++ rest)
  rw [← hbefore, List.length_append] at hslice
  rw [dictFrom, if_pos (loop_goes_on (hkey.goes_on _)), slice_rest, ok_bind,
    hkey.reads fuel _ (by simp only [List.length_append]; omega)
      (by simp only [List.length_append]; omega), ok_bind]
  dsimp only
  rw [add_of_lt (by omega), ok_bind, BValue.asBytes, okOr_some, ok_bind, hslice, ok_bind,
    h.reads fuel _ (by simp only [List.length_append]; omega)
      (by simp only [List.length_append]; omega), ok_bind]
  dsimp only
  rw [add_of_lt (by omega), ok_bind]
  simp only [List.length_append, List.append_assoc, Nat.add_assoc]

/-- The chunks of an entry are read as its key and its value. -/
def ParsesEntry (chunk : Bytes × Bytes) (entry : Bytes × BValue) : Prop :=
  Parses chunk.1 (.str entry.1) ∧ Parses chunk.2 entry.2

/-- The map with the entries inserted in turn. -/
def insertAll (map entries : List (Bytes × BValue)) : List (Bytes × BValue) :=
  entries.foldl (fun map entry => treeInsert entry.1 entry.2 map) map

/-- **The loop over a dictionary** reads entries that stand in a row. -/
theorem dictFrom_chunks {chunks : List (Bytes × Bytes)} {entries : List (Bytes × BValue)}
    (h : List.Forall₂ ParsesEntry chunks entries) (fuel : ℕ) (before rest : Bytes)
    (map : List (Bytes × BValue)) (hfuel : 2 * (joined chunks ++ rest).length + 2 ≤ fuel)
    (hlength : (before ++ (joined chunks ++ rest)).length < 2 ^ 63) :
    ∃ fuel', 2 * rest.length + 2 ≤ fuel' ∧
      dictFrom fuel (before ++ (joined chunks ++ rest)) map before.length =
        dictFrom fuel' ((before ++ joined chunks) ++ rest) (insertAll map entries)
          (before ++ joined chunks).length := by
  induction h generalizing fuel before map with
  | nil => exact ⟨fuel, by simpa [joined] using hfuel, by simp [joined, insertAll]⟩
  | @cons chunk entry chunks entries hchunk hchunks ih =>
    obtain ⟨fuel, rfl⟩ := Nat.exists_eq_succ_of_ne_zero (by omega : fuel ≠ 0)
    obtain ⟨hkey, hval⟩ := hchunk
    have hpos := hkey.length_pos
    have hjoined : joined (chunk :: chunks) ++ rest =
        chunk.1 ++ (chunk.2 ++ (joined chunks ++ rest)) := by
      simp [joined]
    rw [hjoined] at hfuel hlength
    have hstep := dictFrom_step map hkey hval hfuel hlength
    rw [List.length_append, List.length_append] at hfuel
    rw [← List.append_assoc chunk.1, ← List.append_assoc before] at hlength
    obtain ⟨fuel', hfuel', heq⟩ := ih fuel (before ++ (chunk.1 ++ chunk.2))
      (treeInsert entry.1 entry.2 map) (by omega) hlength
    refine ⟨fuel', hfuel', ?_⟩
    rw [hjoined, hstep, heq]
    simp only [joined, insertAll, List.flatMap_cons, List.append_assoc, List.foldl_cons]

/-- What comes behind a loop that has found an `e`. -/
theorem close_end {before rest : Bytes} (val : BValue)
    (hlength : (before ++ 101 :: rest).length < 2 ^ 63) :
    close (before ++ 101 :: rest) val before.length = .ok (val, before.length + 1) := by
  rw [List.length_append, List.length_cons] at hlength
  rw [close, if_neg (by simp), add_of_lt (by omega), ok_bind]
  rfl

theorem listFrom_end {fuel : ℕ} {before rest : Bytes} (list : List BValue)
    (hrest : rest = [] ∨ rest.head? = some 101) :
    listFrom (fuel + 1) (before ++ rest) list before.length = .ok (list, before.length) := by
  rw [listFrom, if_neg (loop_ends hrest)]

theorem dictFrom_end {fuel : ℕ} {before rest : Bytes} (map : List (Bytes × BValue))
    (hrest : rest = [] ∨ rest.head? = some 101) :
    dictFrom (fuel + 1) (before ++ rest) map before.length = .ok (map, before.length) := by
  rw [dictFrom, if_neg (loop_ends hrest)]

/-- What the parser does with an `l`. -/
theorem parseChecked_list (fuel : ℕ) (rest : Bytes) : parseChecked (fuel + 1) (108 :: rest) =
    listFrom fuel (108 :: rest) [] 1 >>= fun r => close (108 :: rest) (.list r.1) r.2 := by
  rw [parseChecked, if_neg (by decide), if_pos rfl]

/-- What the parser does with a `d`. -/
theorem parseChecked_dict (fuel : ℕ) (rest : Bytes) : parseChecked (fuel + 1) (100 :: rest) =
    dictFrom fuel (100 :: rest) [] 1 >>= fun r => close (100 :: rest) (.dict r.1) r.2 := by
  rw [parseChecked, if_neg (by decide), if_neg (by decide), if_pos rfl]

theorem parses_list {chunks : List Bytes} {vals : List BValue} (h : List.Forall₂ Parses chunks vals) :
    Parses (108 :: (chunks.flatten ++ [101])) (.list vals) where
  head := ⟨108, chunks.flatten ++ [101], rfl, by decide⟩
  reads := by
    intro fuel rest hfuel hlength
    obtain ⟨fuel, rfl⟩ := Nat.exists_eq_succ_of_ne_zero (by omega : fuel ≠ 0)
    have hbytes : 108 :: (chunks.flatten ++ [101]) ++ rest =
        [108] ++ (chunks.flatten ++ 101 :: rest) := by simp
    rw [hbytes] at hfuel hlength ⊢
    rw [List.length_append, List.length_singleton] at hfuel
    obtain ⟨fuel', hfuel', hloop⟩ := listFrom_chunks h fuel [108] (101 :: rest) [] (by omega) hlength
    obtain ⟨fuel', rfl⟩ := Nat.exists_eq_succ_of_ne_zero (by omega : fuel' ≠ 0)
    rw [listFrom_end _ (Or.inr rfl)] at hloop
    rw [← List.append_assoc] at hlength
    have hclose := close_end (.list vals) hlength
    rw [List.append_assoc] at hclose
    rw [List.singleton_append] at hloop hclose ⊢
    rw [parseChecked_list, ← List.length_singleton (a := (108 : UInt8)), hloop, ok_bind]
    dsimp only
    rw [List.nil_append, hclose]
    simp

theorem parses_dict {chunks : List (Bytes × Bytes)} {entries : List (Bytes × BValue)}
    (h : List.Forall₂ ParsesEntry chunks entries) :
    Parses (100 :: (joined chunks ++ [101])) (.dict (insertAll [] entries)) where
  head := ⟨100, joined chunks ++ [101], rfl, by decide⟩
  reads := by
    intro fuel rest hfuel hlength
    obtain ⟨fuel, rfl⟩ := Nat.exists_eq_succ_of_ne_zero (by omega : fuel ≠ 0)
    have hbytes : 100 :: (joined chunks ++ [101]) ++ rest =
        [100] ++ (joined chunks ++ 101 :: rest) := by simp
    rw [hbytes] at hfuel hlength ⊢
    rw [List.length_append, List.length_singleton] at hfuel
    obtain ⟨fuel', hfuel', hloop⟩ := dictFrom_chunks h fuel [100] (101 :: rest) [] (by omega) hlength
    obtain ⟨fuel', rfl⟩ := Nat.exists_eq_succ_of_ne_zero (by omega : fuel' ≠ 0)
    rw [dictFrom_end _ (Or.inr rfl)] at hloop
    rw [← List.append_assoc] at hlength
    have hclose := close_end (.dict (insertAll [] entries)) hlength
    rw [List.append_assoc] at hclose
    rw [List.singleton_append] at hloop hclose ⊢
    rw [parseChecked_dict, ← List.length_singleton (a := (100 : UInt8)), hloop, ok_bind]
    dsimp only
    rw [hclose]
    simp

/-- If each has a partner, there is a list of partners. -/
theorem exists_forall₂ {α β : Type} {R : α → β → Prop} {list : List α}
    (h : ∀ a ∈ list, ∃ b, R a b) : ∃ list', List.Forall₂ R list list' := by
  induction list with
  | nil => exact ⟨[], List.Forall₂.nil⟩
  | cons a list ih =>
    obtain ⟨b, hb⟩ := h a List.mem_cons_self
    obtain ⟨list', hlist'⟩ := ih fun a ha => h a (List.mem_cons_of_mem _ ha)
    exact ⟨b :: list', List.Forall₂.cons hb hlist'⟩

theorem parses_isStr {chunk : Bytes} (h : IsStr chunk) : ∃ key, Parses chunk (.str key) := by
  cases h with
  | mk hc hcolon hlen => exact ⟨_, parses_str hc hcolon hlen⟩

theorem parses_joined {chunks : List (Bytes × Bytes)} (hkeys : ∀ chunk ∈ chunks, IsStr chunk.1)
    (hvals : ∀ chunk ∈ chunks, ∃ val, Parses chunk.2 val) :
    ∃ entries, List.Forall₂ ParsesEntry chunks entries := by
  refine exists_forall₂ fun chunk hchunk => ?_
  obtain ⟨key, hkey⟩ := parses_isStr (hkeys chunk hchunk)
  obtain ⟨val, hval⟩ := hvals chunk hchunk
  exact ⟨(key, val), hkey, hval⟩

/-- **What is written for a value is read**, and no byte behind it. -/
theorem parses_value {chunk : Bytes} (h : IsValue chunk) : ∃ val, Parses chunk val := by
  induction h with
  | int h =>
    cases h with
    | mk hs hi => exact ⟨_, parses_int hs hi⟩
  | str h =>
    obtain ⟨key, hkey⟩ := parses_isStr h
    exact ⟨_, hkey⟩
  | list h ih =>
    obtain ⟨vals, hvals⟩ := exists_forall₂ ih
    exact ⟨_, parses_list hvals⟩
  | dict hkeys hvals ih =>
    obtain ⟨entries, hentries⟩ := parses_joined hkeys ih
    exact ⟨_, parses_dict hentries⟩

/-- Entries that stand in a row are read. -/
theorem parses_entries {chunks : List (Bytes × Bytes)} (hkeys : ∀ chunk ∈ chunks, IsStr chunk.1)
    (hvals : ∀ chunk ∈ chunks, IsValue chunk.2) :
    ∃ entries, List.Forall₂ ParsesEntry chunks entries :=
  parses_joined hkeys fun chunk hchunk => parses_value (hvals chunk hchunk)

/-! ### Every outcome -/

/-- What there is to say about the outcome of the parser. -/
def Outcome (bytes : Bytes) : Run (BValue × ℕ) → Prop
  | .ok (val, len) => 1 ≤ len ∧ len ≤ bytes.length ∧ IsValue (bytes.take len) ∧
      ∀ key, val = .str key → IsStr (bytes.take len)
  | .error .panic => ∃ sub, Reached bytes sub ∧ Overlong sub
  | .error .fail => True
  | .error .stuck => False

/-- What there is to say about the outcome of a loop, behind a front like this. -/
def LoopOutcome {α : Type} (Front : Bytes → Prop) (bytes : Bytes) : Run (α × ℕ) → Prop
  | .ok (_, offset) => ∃ before rest, bytes = before ++ rest ∧ Front before ∧
      offset = before.length ∧ (rest = [] ∨ rest.head? = some 101)
  | .error .panic => ∃ sub, Reached bytes sub ∧ Overlong sub
  | .error .fail => True
  | .error .stuck => False

/-- The beginning of a list. -/
def ListFront (before : Bytes) : Prop :=
  ∃ chunks : List Bytes, (∀ chunk ∈ chunks, IsValue chunk) ∧ before = 108 :: chunks.flatten

/-- The beginning of a dictionary. -/
def DictFront (before : Bytes) : Prop :=
  ∃ chunks, (∀ chunk ∈ chunks, IsStr chunk.1) ∧ (∀ chunk ∈ chunks, IsValue chunk.2) ∧
    before = 100 :: joined chunks

theorem ListFront.step {before chunk : Bytes} (h : ListFront before) (hchunk : IsValue chunk) :
    ListFront (before ++ chunk) := by
  obtain ⟨chunks, hchunks, rfl⟩ := h
  refine ⟨chunks ++ [chunk], ?_, by simp⟩
  intro c hc
  rcases List.mem_append.mp hc with hc | hc
  · exact hchunks c hc
  · rwa [List.mem_singleton.mp hc]

theorem ListFront.reached {before rest sub : Bytes} (h : ListFront before)
    (hrest : rest ≠ [] ∧ rest.head? ≠ some 101) (hsub : Reached rest sub) :
    Reached (before ++ rest) sub := by
  obtain ⟨chunks, hchunks, rfl⟩ := h
  exact Reached.item hchunks hrest hsub

theorem DictFront.step {before key chunk : Bytes} (h : DictFront before) (hkey : IsStr key)
    (hchunk : IsValue chunk) : DictFront (before ++ (key ++ chunk)) := by
  obtain ⟨chunks, hkeys, hvals, rfl⟩ := h
  refine ⟨chunks ++ [(key, chunk)], ?_, ?_, by simp [joined]⟩
  · intro c hc
    rcases List.mem_append.mp hc with hc | hc
    · exact hkeys c hc
    · rwa [List.mem_singleton.mp hc]
  · intro c hc
    rcases List.mem_append.mp hc with hc | hc
    · exact hvals c hc
    · rwa [List.mem_singleton.mp hc]

theorem DictFront.reached_key {before rest sub : Bytes} (h : DictFront before)
    (hrest : rest ≠ [] ∧ rest.head? ≠ some 101) (hsub : Reached rest sub) :
    Reached (before ++ rest) sub := by
  obtain ⟨chunks, hkeys, hvals, rfl⟩ := h
  exact Reached.key hkeys hvals hrest hsub

theorem DictFront.reached_value {before key rest sub : Bytes} (h : DictFront before)
    (hkey : IsStr key) (hsub : Reached rest sub) : Reached (before ++ (key ++ rest)) sub := by
  obtain ⟨chunks, hkeys, hvals, rfl⟩ := h
  exact Reached.value hkeys hvals hkey hsub

theorem outcome_int {rest : Bytes} (hlength : (105 :: rest).length < 2 ^ 63) :
    Outcome (105 :: rest) (parseIntChecked (105 :: rest)) := by
  by_cases hmem : 101 ∈ rest
  · obtain ⟨s, rest, rfl, hs⟩ := List.eq_append_cons_of_mem hmem
    rw [parseIntChecked_eq hs hlength]
    cases hi : parseI64 s with
    | none => exact trivial
    | some i =>
      have htake : (105 :: (s ++ 101 :: rest)).take (s.length + 2) = 105 :: (s ++ [101]) := by
        have hsplit : 105 :: (s ++ 101 :: rest) = (105 :: (s ++ [101])) ++ rest := by simp
        have hfront : (105 :: (s ++ [101])).length = s.length + 2 := by simp
        rw [hsplit, ← hfront, List.take_left]
      refine ⟨by omega, by simp, ?_, fun key heq => by cases heq⟩
      rw [htake]
      exact IsValue.int (IsInt.mk hs hi)
  · have hnone : (105 :: rest).idxOf? 101 = none := by
      rw [List.idxOf?_eq_none_iff]
      simpa using hmem
    rw [parseIntChecked, hnone]
    exact trivial

theorem outcome_str {c : UInt8} {rest : Bytes} (hc : isDigit c = true)
    (hlength : (c :: rest).length < 2 ^ 63) :
    Outcome (c :: rest) (parseStrChecked (c :: rest)) := by
  by_cases hmem : 58 ∈ rest
  · obtain ⟨digits, rest, rfl, hcolon⟩ := List.eq_append_cons_of_mem hmem
    rw [← List.cons_append] at hlength ⊢
    rw [parseStrChecked_eq hc hcolon hlength]
    cases hlen : parseUsize (c :: digits) with
    | none => exact trivial
    | some n =>
      rw [okOr_some, ok_bind]
      split_ifs with hover hshort
      · exact ⟨_, Reached.here _, c, digits, rest, n, rfl, hc, hcolon, hlen, hover⟩
      · exact trivial
      · have htake : (c :: digits ++ 58 :: rest).take (digits.length + 2 + n) =
            c :: digits ++ 58 :: rest.take n := by
          have hsplit : c :: digits ++ 58 :: rest = (c :: digits ++ [58]) ++ rest := by simp
          have hfront : (c :: digits ++ [58]).length = digits.length + 2 := by simp
          rw [hsplit, ← hfront, List.take_length_add_append]
          simp
        have hbody : parseUsize (c :: digits) = some (rest.take n).length := by
          rw [hlen, List.length_take, Nat.min_eq_left (Nat.le_of_not_lt hshort)]
        have hstr := IsStr.mk hc hcolon hbody
        refine ⟨by omega, ?_, ?_, fun key _ => ?_⟩
        · rw [List.length_append, List.length_cons, List.length_cons]
          omega
        · rw [htake]
          exact IsValue.str hstr
        · rw [htake]
          exact hstr
  · have hnone : (c :: rest).idxOf? 58 = none := by
      rw [List.idxOf?_eq_none_iff]
      intro h
      rcases List.mem_cons.mp h with heq | h
      · exact (isDigit_ne hc).2.2.2.2 heq.symm
      · exact hmem h
    rw [parseStrChecked, hnone]
    exact trivial

/-- A front with an `e` behind it is a value. -/
structure Closes (Front : Bytes → Prop) : Prop where
  pos : ∀ before, Front before → 1 ≤ before.length
  value : ∀ before, Front before → IsValue (before ++ [101])

theorem closes_list : Closes ListFront where
  pos := by
    intro before h
    obtain ⟨chunks, -, rfl⟩ := h
    exact Nat.succ_pos _
  value := by
    intro before h
    obtain ⟨chunks, hchunks, rfl⟩ := h
    exact IsValue.list hchunks

theorem closes_dict : Closes DictFront where
  pos := by
    intro before h
    obtain ⟨chunks, -, -, rfl⟩ := h
    exact Nat.succ_pos _
  value := by
    intro before h
    obtain ⟨chunks, hkeys, hvals, rfl⟩ := h
    exact IsValue.dict hkeys hvals

/-- What comes behind a loop. -/
theorem outcome_close {α : Type} {Front : Bytes → Prop} {bytes : Bytes} {loop : Run (α × ℕ)}
    {val : α → BValue} (hfront : Closes Front) (hval : ∀ a key, val a ≠ .str key)
    (hlength : bytes.length < 2 ^ 63) (h : LoopOutcome Front bytes loop) :
    Outcome bytes (loop >>= fun r => close bytes (val r.1) r.2) := by
  cases loop with
  | error stop =>
    cases stop with
    | panic => exact h
    | fail => exact trivial
    | stuck => exact h
  | ok r =>
    obtain ⟨a, offset⟩ := r
    obtain ⟨before, rest, rfl, hbefore, rfl, hrest⟩ := h
    rw [ok_bind]
    dsimp only
    rcases hrest with rfl | hhead
    · rw [close, if_pos (by simp)]
      exact trivial
    · obtain ⟨rest, rfl⟩ := List.head?_eq_some_iff.mp hhead
      rw [close_end _ hlength]
      have htake : (before ++ 101 :: rest).take (before.length + 1) = before ++ [101] := by
        rw [List.take_length_add_append]
        rfl
      refine ⟨by omega, by simp, ?_, fun key heq => absurd heq (hval a key)⟩
      rw [htake]
      exact hfront.value before hbefore

/-- A turn of the loop over a list keeps its outcome. -/
theorem outcome_listFrom {fuel : ℕ} {before rest : Bytes} (list : List BValue)
    (hparse : ∀ bytes, 2 * bytes.length + 1 ≤ fuel → bytes.length < 2 ^ 63 →
      Outcome bytes (parseChecked fuel bytes))
    (hlist : ∀ before rest list, ListFront before → 2 * rest.length + 2 ≤ fuel →
      (before ++ rest).length < 2 ^ 63 →
        LoopOutcome ListFront (before ++ rest) (listFrom fuel (before ++ rest) list before.length))
    (hfront : ListFront before) (hfuel : 2 * rest.length + 2 ≤ fuel + 1)
    (hlength : (before ++ rest).length < 2 ^ 63) : LoopOutcome ListFront (before ++ rest)
      (listFrom (fuel + 1) (before ++ rest) list before.length) := by
  by_cases hrest : rest ≠ [] ∧ rest.head? ≠ some 101
  · have hlength' := hlength
    rw [List.length_append] at hlength'
    have hval := hparse rest (by omega) (by omega)
    rw [listFrom, if_pos (loop_goes_on hrest), slice_rest, ok_bind]
    cases hrun : parseChecked fuel rest with
    | error stop =>
      rw [hrun] at hval
      cases stop with
      | panic =>
        obtain ⟨sub, hsub, hover⟩ := hval
        exact ⟨sub, hfront.reached hrest hsub, hover⟩
      | fail => exact trivial
      | stuck => exact hval
    | ok r =>
      obtain ⟨val, len⟩ := r
      rw [hrun] at hval
      obtain ⟨hpos, hin, hchunk, -⟩ := hval
      have hsplit : before ++ rest = (before ++ rest.take len) ++ rest.drop len := by
        rw [List.append_assoc, List.take_append_drop]
      have hoffset : before.length + len = (before ++ rest.take len).length := by
        rw [List.length_append, List.length_take, Nat.min_eq_left hin]
      rw [ok_bind]
      dsimp only
      rw [add_of_lt (by omega), ok_bind, hoffset, hsplit]
      rw [hsplit] at hlength
      refine hlist _ _ _ (hfront.step hchunk) ?_ hlength
      rw [List.length_drop]
      omega
  · have hend : rest = [] ∨ rest.head? = some 101 := by
      rw [not_and_or, not_not, not_not] at hrest
      exact hrest
    rw [listFrom_end list hend]
    exact ⟨before, rest, rfl, hfront, rfl, hend⟩

/-- A turn of the loop over a dictionary keeps its outcome. -/
theorem outcome_dictFrom {fuel : ℕ} {before rest : Bytes} (map : List (Bytes × BValue))
    (hparse : ∀ bytes, 2 * bytes.length + 1 ≤ fuel → bytes.length < 2 ^ 63 →
      Outcome bytes (parseChecked fuel bytes))
    (hdict : ∀ before rest map, DictFront before → 2 * rest.length + 2 ≤ fuel →
      (before ++ rest).length < 2 ^ 63 →
        LoopOutcome DictFront (before ++ rest) (dictFrom fuel (before ++ rest) map before.length))
    (hfront : DictFront before) (hfuel : 2 * rest.length + 2 ≤ fuel + 1)
    (hlength : (before ++ rest).length < 2 ^ 63) : LoopOutcome DictFront (before ++ rest)
      (dictFrom (fuel + 1) (before ++ rest) map before.length) := by
  by_cases hrest : rest ≠ [] ∧ rest.head? ≠ some 101
  · have hlength' := hlength
    rw [List.length_append] at hlength'
    -- the key: a panic in it is reached behind the entries before
    have hkeyVal := hparse rest (by omega) (by omega)
    rw [dictFrom, if_pos (loop_goes_on hrest), slice_rest, ok_bind]
    cases hrun : parseChecked fuel rest with
    | error stop =>
      rw [hrun] at hkeyVal
      cases stop with
      | panic =>
        obtain ⟨sub, hsub, hover⟩ := hkeyVal
        exact ⟨sub, hfront.reached_key hrest hsub, hover⟩
      | fail => exact trivial
      | stuck => exact hkeyVal
    | ok r =>
      obtain ⟨keyVal, keyLen⟩ := r
      rw [hrun] at hkeyVal
      obtain ⟨hpos, hin, -, hstr⟩ := hkeyVal
      rw [ok_bind]
      dsimp only
      rw [add_of_lt (by omega), ok_bind]
      cases keyVal with
      -- only a string is a key, anything else is an error
      | int _ | list _ | dict _ => exact trivial
      | str key =>
        have hkey := hstr key rfl
        have hoffset : before.length + keyLen = (before ++ rest.take keyLen).length := by
          rw [List.length_append, List.length_take, Nat.min_eq_left hin]
        have hsplit : before ++ rest = (before ++ rest.take keyLen) ++ rest.drop keyLen := by
          rw [List.append_assoc, List.take_append_drop]
        have hslice := slice_rest (before ++ rest.take keyLen) (rest.drop keyLen)
        rw [← hsplit, ← hoffset] at hslice
        have hdrop : (rest.drop keyLen).length = rest.length - keyLen := List.length_drop
        -- the value begins where the key ends
        have hval := hparse (rest.drop keyLen) (by omega) (by omega)
        rw [BValue.asBytes, okOr_some, ok_bind, hslice, ok_bind]
        cases hrun' : parseChecked fuel (rest.drop keyLen) with
        | error stop =>
          rw [hrun'] at hval
          cases stop with
          | panic =>
            obtain ⟨sub, hsub, hover⟩ := hval
            have hreached := hfront.reached_value hkey hsub
            rw [List.take_append_drop] at hreached
            exact ⟨sub, hreached, hover⟩
          | fail => exact trivial
          | stuck => exact hval
        | ok r =>
          obtain ⟨val, valLen⟩ := r
          rw [hrun'] at hval
          obtain ⟨hpos', hin', hchunk, -⟩ := hval
          -- the loop goes on behind the entry, with one entry more in front of it
          have hsplit' : before ++ rest = (before ++ (rest.take keyLen ++
              (rest.drop keyLen).take valLen)) ++ (rest.drop keyLen).drop valLen := by
            simp only [List.append_assoc, List.take_append_drop]
          have hoffset' : before.length + keyLen + valLen =
              (before ++ (rest.take keyLen ++ (rest.drop keyLen).take valLen)).length := by
            rw [List.length_append, List.length_append, List.length_take, List.length_take,
              Nat.min_eq_left hin, Nat.min_eq_left hin', Nat.add_assoc]
          rw [ok_bind]
          dsimp only
          rw [add_of_lt (by omega), ok_bind, hoffset', hsplit']
          rw [hsplit'] at hlength
          refine hdict _ _ _ (hfront.step hkey hchunk) ?_ hlength
          rw [List.length_drop]
          omega
  · have hend : rest = [] ∨ rest.head? = some 101 := by
      rw [not_and_or, not_not, not_not] at hrest
      exact hrest
    rw [dictFrom_end map hend]
    exact ⟨before, rest, rfl, hfront, rfl, hend⟩

/-- The parser keeps its outcome if the loops do. -/
theorem outcome_parse {fuel : ℕ} {bytes : Bytes}
    (hlist : ∀ before rest list, ListFront before → 2 * rest.length + 2 ≤ fuel →
      (before ++ rest).length < 2 ^ 63 →
        LoopOutcome ListFront (before ++ rest) (listFrom fuel (before ++ rest) list before.length))
    (hdict : ∀ before rest map, DictFront before → 2 * rest.length + 2 ≤ fuel →
      (before ++ rest).length < 2 ^ 63 →
        LoopOutcome DictFront (before ++ rest) (dictFrom fuel (before ++ rest) map before.length))
    (hfuel : 2 * bytes.length + 1 ≤ fuel + 1) (hlength : bytes.length < 2 ^ 63) :
    Outcome bytes (parseChecked (fuel + 1) bytes) := by
  cases bytes with
  | nil => exact trivial
  | cons c rest =>
    have hfuel' : 2 * rest.length + 2 ≤ fuel := by
      rw [List.length_cons] at hfuel
      omega
    by_cases hi : c = 105
    · rw [parseChecked, if_pos hi, hi]
      rw [hi] at hlength
      exact outcome_int hlength
    by_cases hl : c = 108
    · rw [hl] at hlength ⊢
      rw [parseChecked_list]
      exact outcome_close closes_list (fun a key heq => by cases heq) hlength
        (hlist [108] rest [] ⟨[], by simp, rfl⟩ hfuel' hlength)
    by_cases hd : c = 100
    · rw [hd] at hlength ⊢
      rw [parseChecked_dict]
      exact outcome_close closes_dict (fun a key heq => by cases heq) hlength
        (hdict [100] rest [] ⟨[], by simp, by simp, rfl⟩ hfuel' hlength)
    by_cases hdigit : isDigit c = true
    · rw [parseChecked_digit hdigit]
      exact outcome_str hdigit hlength
    · rw [parseChecked, if_neg hi, if_neg hl, if_neg hd, if_neg hdigit]
      exact trivial

theorem outcome (fuel : ℕ) :
    (∀ bytes, 2 * bytes.length + 1 ≤ fuel → bytes.length < 2 ^ 63 →
      Outcome bytes (parseChecked fuel bytes)) ∧
    (∀ before rest list, ListFront before → 2 * rest.length + 2 ≤ fuel →
      (before ++ rest).length < 2 ^ 63 →
        LoopOutcome ListFront (before ++ rest)
          (listFrom fuel (before ++ rest) list before.length)) ∧
    ∀ before rest map, DictFront before → 2 * rest.length + 2 ≤ fuel →
      (before ++ rest).length < 2 ^ 63 →
        LoopOutcome DictFront (before ++ rest)
          (dictFrom fuel (before ++ rest) map before.length) := by
  induction fuel with
  | zero =>
    refine ⟨fun bytes hfuel => ?_, fun before rest list _ hfuel => ?_,
      fun before rest map _ hfuel => ?_⟩
    · omega
    · omega
    · omega
  | succ fuel ih =>
    obtain ⟨hparse, hlist, hdict⟩ := ih
    exact ⟨fun bytes => outcome_parse hlist hdict,
      fun before rest list => outcome_listFrom list hparse hlist,
      fun before rest map => outcome_dictFrom map hparse hdict⟩

/-- **What there is to say about the parser.** -/
theorem outcome_spec {bytes : Bytes} (hlength : bytes.length < 2 ^ 63) :
    Outcome bytes (parseBencodeChecked bytes) :=
  (outcome _).1 bytes (Nat.le_refl _) hlength

end StreamServer.LocalAddon

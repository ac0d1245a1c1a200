import Mathlib.Algebra.Ring.Nat
import Mathlib.Data.List.TakeDrop
import StreamServer.Lib.Occurrence

/-!
# Bencoded values

A value begins with a byte that says what it is: an integer up to an `e`, a list or a dictionary up
to an `e`, or a string with its length in front.  The parser returns a value together with the number
of bytes it has read, and ignores what comes behind.

The parser calls itself on what is left of the input, so it has fuel; twice the length of the input is
enough, and with more it says the same.

## Main definitions

* `BValue` — the values.
* `parseBencode` — the parser.
* `Entry` — what the loop over a dictionary reads in a turn.

## Main results

* `settled` — a value lies inside the input, and more fuel does not change it.
* `infoPattern_of_parse` — the key `info` is written `4:info`, but for zeros in front.

## References

`server/src/local_addon/torrent.rs`, `parse_bencode`.
-/

namespace StreamServer.LocalAddon

/-- What is parsed. -/
abbrev Bytes := List UInt8

/-- `BValue`; the entries of a dictionary are in the order they are read. -/
inductive BValue
  | int (i : ℤ)
  | str (bytes : Bytes)
  | list (values : List BValue)
  | dict (entries : List (Bytes × BValue))

namespace BValue

/-- `as_bytes()`. -/
def asBytes : BValue → Option Bytes
  | .str bytes => some bytes
  | _ => none

/-- The entries, if the value is a dictionary. -/
def getDict : BValue → Option (List (Bytes × BValue))
  | .dict entries => some entries
  | _ => none

/-- The values, if the value is a list. -/
def getList : BValue → Option (List BValue)
  | .list values => some values
  | _ => none

/-- The number, if the value is one. -/
def getInt : BValue → Option ℤ
  | .int i => some i
  | _ => none

end BValue

/-- A map keeps the last value of a key. -/
def insert (map : List (Bytes × BValue)) (key : Bytes) (val : BValue) : List (Bytes × BValue) :=
  (key, val) :: map.filter fun entry => entry.1 != key

/-! ### Numbers -/

/-- `is_ascii_digit()`. -/
def isDigit (b : UInt8) : Bool := 48 ≤ b && b ≤ 57

/-- The digits are read from the left. -/
def readDigits (value : ℕ) : Bytes → Option ℕ
  | [] => some value
  | b :: digits => if isDigit b then readDigits (value * 10 + (b.toNat - 48)) digits else none

/-- The number of a text of digits that is not empty. -/
def readNat (digits : Bytes) : Option ℕ := if digits = [] then none else readDigits 0 digits

/-- `parse::<usize>`. -/
def parseUsize (s : Bytes) : Option ℕ :=
  (match s with
    | 43 :: digits => readNat digits
    | digits => readNat digits).filter (· < 2 ^ 64)

/-- `parse::<i64>`. -/
def parseI64 (s : Bytes) : Option ℤ :=
  match s with
  | 45 :: digits => ((readNat digits).filter (· ≤ 2 ^ 63)).map fun n => -(n : ℤ)
  | 43 :: digits => ((readNat digits).filter (· < 2 ^ 63)).map fun n => (n : ℤ)
  | digits => ((readNat digits).filter (· < 2 ^ 63)).map fun n => (n : ℤ)

/-! ### The parser -/

/-- An integer stands between `i` and `e`. -/
def parseInt (bytes : Bytes) : Option (BValue × ℕ) := do
  let end_ ← bytes.idxOf? 101
  let i ← parseI64 ((bytes.take end_).drop 1)
  pure (.int i, end_ + 1)

/-- The length of a string stands in front of a colon. -/
def parseStr (bytes : Bytes) : Option (BValue × ℕ) := do
  let colon ← bytes.idxOf? 58
  let len ← parseUsize (bytes.take colon)
  let start := colon + 1
  if bytes.length < start + len then none
  else pure (.str ((bytes.drop start).take len), start + len)

/-- What is read in a turn of the loop over a dictionary, and how long it is. -/
structure Entry where
  key : Bytes
  keyLen : ℕ
  val : BValue
  valLen : ℕ

/-- All entries are inserted, in order. -/
def toMap (entries : List Entry) : List (Bytes × BValue) :=
  entries.foldl (fun map entry => insert map entry.key entry.val) []

mutual

/-- `parse_bencode`, with fuel. -/
def parse : ℕ → Bytes → Option (BValue × ℕ)
  | 0, _ => none
  | _ + 1, [] => none
  | fuel + 1, c :: rest =>
      if c = 105 then parseInt (c :: rest)
      else if c = 108 then do
        let (list, len) ← listLoop fuel rest
        pure (.list list, len + 1)
      else if c = 100 then do
        let (entries, len) ← dictLoop fuel rest
        pure (.dict (toMap entries), len + 1)
      else if isDigit c then parseStr (c :: rest)
      else none

/-- The loop over a list, up to and with the `e`. -/
def listLoop : ℕ → Bytes → Option (List BValue × ℕ)
  | 0, _ => none
  | _ + 1, [] => none
  | fuel + 1, c :: rest =>
      if c = 101 then some ([], 1)
      else do
        let (val, len) ← parse fuel (c :: rest)
        let (list, more) ← listLoop fuel ((c :: rest).drop len)
        pure (val :: list, len + more)

/-- The loop over a dictionary, up to and with the `e`. -/
def dictLoop : ℕ → Bytes → Option (List Entry × ℕ)
  | 0, _ => none
  | _ + 1, [] => none
  | fuel + 1, c :: rest =>
      if c = 101 then some ([], 1)
      else do
        let (keyVal, keyLen) ← parse fuel (c :: rest)
        let key ← keyVal.asBytes
        let (val, valLen) ← parse fuel ((c :: rest).drop keyLen)
        let (entries, more) ← dictLoop fuel ((c :: rest).drop (keyLen + valLen))
        pure (⟨key, keyLen, val, valLen⟩ :: entries, keyLen + valLen + more)

end

/-- **The parser.** -/
def parseBencode (bytes : Bytes) : Option (BValue × ℕ) := parse (2 * bytes.length) bytes

/-! ### What is read lies in the input -/

theorem parseInt_le {bytes : Bytes} {r : BValue × ℕ} (h : parseInt bytes = some r) :
    1 ≤ r.2 ∧ r.2 ≤ bytes.length := by
  simp only [parseInt, Option.bind_eq_bind, Option.bind_eq_some_iff, Option.pure_def,
    Option.some.injEq] at h
  obtain ⟨end_, hend, i, -, rfl⟩ := h
  obtain ⟨hlt, -⟩ := List.idxOf?_eq_some_iff.mp hend
  exact ⟨Nat.le_add_left 1 end_, hlt⟩

theorem parseStr_eq {bytes : Bytes} {r : BValue × ℕ} (h : parseStr bytes = some r) :
    ∃ colon len, bytes.idxOf? 58 = some colon ∧ parseUsize (bytes.take colon) = some len ∧
      colon + 1 + len ≤ bytes.length ∧ r = (.str ((bytes.drop (colon + 1)).take len), colon + 1 + len) := by
  simp only [parseStr, Option.bind_eq_bind, Option.bind_eq_some_iff, Option.pure_def] at h
  obtain ⟨colon, hcolon, len, hlen, h⟩ := h
  split at h
  · cases h
  · next hle => exact ⟨colon, len, hcolon, hlen, Nat.le_of_not_lt hle, (Option.some.inj h).symm⟩

/-- What has been read lies inside the input, and is read with any fuel above the bound. -/
structure Settled {α : Type} (loop : ℕ → Bytes → Option (α × ℕ)) (bound : ℕ) (bytes : Bytes)
    (r : α × ℕ) : Prop where
  pos : 1 ≤ r.2
  inside : r.2 ≤ bytes.length
  again : ∀ fuel, bound ≤ fuel → loop fuel bytes = some r

/-- A value is settled if what it holds is. -/
theorem settled_parse {fuel : ℕ} {bytes : Bytes} {r : BValue × ℕ}
    (hlist : ∀ bytes r, listLoop fuel bytes = some r → Settled listLoop (2 * bytes.length + 1) bytes r)
    (hdict : ∀ bytes r, dictLoop fuel bytes = some r → Settled dictLoop (2 * bytes.length + 1) bytes r)
    (h : parse (fuel + 1) bytes = some r) : Settled parse (2 * bytes.length) bytes r := by
  cases bytes with
  | nil =>
    rw [parse] at h
    cases h
  | cons c rest =>
    -- the first byte takes one unit of fuel, and leaves enough for the others
    have hfuel : ∀ {fuel'}, 2 * (c :: rest).length ≤ fuel' →
        ∃ fuel'', fuel' = fuel'' + 1 ∧ 2 * rest.length + 1 ≤ fuel'' := by
      intro fuel' hle
      rw [List.length_cons] at hle
      exact ⟨fuel' - 1, by omega, by omega⟩
    rw [parse] at h
    split at h
    · next hi =>
      obtain ⟨hpos, hin⟩ := parseInt_le h
      refine ⟨hpos, hin, fun fuel' hle => ?_⟩
      obtain ⟨fuel'', rfl, -⟩ := hfuel hle
      rw [parse, if_pos hi, h]
    next hi =>
    split at h
    · next hl =>
      simp only [Option.bind_eq_bind, Option.bind_eq_some_iff, Option.pure_def,
        Option.some.injEq] at h
      obtain ⟨⟨values, len⟩, hloop, rfl⟩ := h
      have hsettled := hlist _ _ hloop
      refine ⟨Nat.le_add_left 1 len, Nat.succ_le_succ hsettled.inside, fun fuel' hle => ?_⟩
      obtain ⟨fuel'', rfl, hmore⟩ := hfuel hle
      rw [parse, if_neg hi, if_pos hl, hsettled.again fuel'' hmore]
      rfl
    next hl =>
    split at h
    · next hd =>
      simp only [Option.bind_eq_bind, Option.bind_eq_some_iff, Option.pure_def,
        Option.some.injEq] at h
      obtain ⟨⟨entries, len⟩, hloop, rfl⟩ := h
      have hsettled := hdict _ _ hloop
      refine ⟨Nat.le_add_left 1 len, Nat.succ_le_succ hsettled.inside, fun fuel' hle => ?_⟩
      obtain ⟨fuel'', rfl, hmore⟩ := hfuel hle
      rw [parse, if_neg hi, if_neg hl, if_pos hd, hsettled.again fuel'' hmore]
      rfl
    next hd =>
    split at h
    · next hdigit =>
      obtain ⟨colon, len, -, -, hin, rfl⟩ := parseStr_eq h
      refine ⟨by dsimp only; omega, hin, fun fuel' hle => ?_⟩
      obtain ⟨fuel'', rfl, -⟩ := hfuel hle
      rw [parse, if_neg hi, if_neg hl, if_neg hd, if_pos hdigit, h]
    · cases h

theorem settled_listLoop {fuel : ℕ} {bytes : Bytes} {r : List BValue × ℕ}
    (hparse : ∀ bytes r, parse fuel bytes = some r → Settled parse (2 * bytes.length) bytes r)
    (hlist : ∀ bytes r, listLoop fuel bytes = some r → Settled listLoop (2 * bytes.length + 1) bytes r)
    (h : listLoop (fuel + 1) bytes = some r) : Settled listLoop (2 * bytes.length + 1) bytes r := by
  cases bytes with
  | nil =>
    rw [listLoop] at h
    cases h
  | cons c rest =>
    have hfuel : ∀ {fuel'}, 2 * (c :: rest).length + 1 ≤ fuel' →
        ∃ fuel'', fuel' = fuel'' + 1 ∧ 2 * (c :: rest).length ≤ fuel'' := by
      intro fuel' hle
      exact ⟨fuel' - 1, by omega, by omega⟩
    rw [listLoop] at h
    split at h
    · next hend =>
      obtain rfl := Option.some.inj h
      refine ⟨Nat.le_refl 1, Nat.le_add_left 1 _, fun fuel' hle => ?_⟩
      obtain ⟨fuel'', rfl, -⟩ := hfuel hle
      rw [listLoop, if_pos hend]
    · next hend =>
      simp only [Option.bind_eq_bind, Option.bind_eq_some_iff, Option.pure_def,
        Option.some.injEq] at h
      obtain ⟨⟨val, len⟩, hval, ⟨values, more⟩, hmore, rfl⟩ := h
      obtain ⟨hpos, hin, hagain⟩ := hparse _ _ hval
      obtain ⟨-, hinside, hagain'⟩ := hlist _ _ hmore
      dsimp only at hpos hin hinside
      rw [List.length_drop] at hinside hagain'
      refine ⟨by dsimp only; omega, by dsimp only; omega, fun fuel' hle => ?_⟩
      obtain ⟨fuel'', rfl, hmore'⟩ := hfuel hle
      rw [listLoop, if_neg hend, hagain fuel'' hmore']
      dsimp only [Option.bind_eq_bind, Option.bind_some]
      rw [hagain' fuel'' (by omega)]
      rfl

theorem settled_dictLoop {fuel : ℕ} {bytes : Bytes} {r : List Entry × ℕ}
    (hparse : ∀ bytes r, parse fuel bytes = some r → Settled parse (2 * bytes.length) bytes r)
    (hdict : ∀ bytes r, dictLoop fuel bytes = some r → Settled dictLoop (2 * bytes.length + 1) bytes r)
    (h : dictLoop (fuel + 1) bytes = some r) : Settled dictLoop (2 * bytes.length + 1) bytes r := by
  cases bytes with
  | nil =>
    rw [dictLoop] at h
    cases h
  | cons c rest =>
    -- one unit for the loop, the rest for the entry and for what follows it
    have hfuel : ∀ {fuel'}, 2 * (c :: rest).length + 1 ≤ fuel' →
        ∃ fuel'', fuel' = fuel'' + 1 ∧ 2 * (c :: rest).length ≤ fuel'' := by
      intro fuel' hle
      exact ⟨fuel' - 1, by omega, by omega⟩
    rw [dictLoop] at h
    split at h
    · next hend =>
      obtain rfl := Option.some.inj h
      refine ⟨Nat.le_refl 1, Nat.le_add_left 1 _, fun fuel' hle => ?_⟩
      obtain ⟨fuel'', rfl, -⟩ := hfuel hle
      rw [dictLoop, if_pos hend]
    · next hend =>
      simp only [Option.bind_eq_bind, Option.bind_eq_some_iff, Option.pure_def,
        Option.some.injEq] at h
      obtain ⟨⟨keyVal, keyLen⟩, hkeyVal, key, hkey, ⟨val, valLen⟩, hval, ⟨entries, more⟩, hmore,
        rfl⟩ := h
      obtain ⟨hpos, hin, hagain⟩ := hparse _ _ hkeyVal
      obtain ⟨hpos', hin', hagain'⟩ := hparse _ _ hval
      obtain ⟨-, hinside, hagain''⟩ := hdict _ _ hmore
      dsimp only at hpos hin hpos' hin' hinside
      rw [List.length_drop] at hin' hagain' hinside hagain''
      refine ⟨by dsimp only; omega, by dsimp only; omega, fun fuel' hle => ?_⟩
      obtain ⟨fuel'', rfl, hmore'⟩ := hfuel hle
      rw [dictLoop, if_neg hend, hagain fuel'' hmore']
      dsimp only [Option.bind_eq_bind, Option.bind_some]
      rw [hkey]
      dsimp only [Option.bind_some]
      rw [hagain' fuel'' (by omega)]
      dsimp only [Option.bind_some]
      rw [hagain'' fuel'' (by omega)]
      rfl

theorem settled (fuel : ℕ) :
    (∀ bytes r, parse fuel bytes = some r → Settled parse (2 * bytes.length) bytes r) ∧
    (∀ bytes r, listLoop fuel bytes = some r → Settled listLoop (2 * bytes.length + 1) bytes r) ∧
    ∀ bytes r, dictLoop fuel bytes = some r → Settled dictLoop (2 * bytes.length + 1) bytes r := by
  induction fuel with
  | zero =>
    refine ⟨fun bytes r h => ?_, fun bytes r h => ?_, fun bytes r h => ?_⟩
    · rw [parse] at h
      cases h
    · rw [listLoop] at h
      cases h
    · rw [dictLoop] at h
      cases h
  | succ fuel ih =>
    obtain ⟨hparse, hlist, hdict⟩ := ih
    exact ⟨fun bytes r => settled_parse hlist hdict, fun bytes r => settled_listLoop hparse hlist,
      fun bytes r => settled_dictLoop hparse hdict⟩

/-- **With whatever fuel a value is read, the parser reads it.** -/
theorem parseBencode_of_parse {fuel : ℕ} {bytes : Bytes} {r : BValue × ℕ}
    (h : parse fuel bytes = some r) : parseBencode bytes = some r :=
  ((settled fuel).1 bytes r h).again _ (Nat.le_refl _)

/-- A dictionary is what the loop has read behind the `d`. -/
theorem parse_dict {fuel : ℕ} {bytes : Bytes} {map : List (Bytes × BValue)} {len : ℕ}
    (h : parse fuel bytes = some (.dict map, len)) : ∃ rest entries more, bytes = 100 :: rest ∧
      dictLoop (2 * rest.length + 1) rest = some (entries, more) ∧ map = toMap entries := by
  cases fuel with
  | zero =>
    rw [parse] at h
    cases h
  | succ fuel =>
    cases bytes with
    | nil =>
      rw [parse] at h
      cases h
    | cons c rest =>
      rw [parse] at h
      split at h
      · simp [parseInt, Option.bind_eq_some_iff] at h
      split at h
      · simp [Option.bind_eq_some_iff] at h
      split at h
      · next hd =>
        simp only [Option.bind_eq_bind, Option.bind_eq_some_iff, Option.pure_def, Option.some.injEq,
          Prod.mk.injEq, BValue.dict.injEq] at h
        obtain ⟨⟨entries, more⟩, hloop, rfl, -⟩ := h
        have hagain := ((settled fuel).2.2 _ _ hloop).again _ (Nat.le_refl _)
        exact ⟨rest, entries, more, by rw [hd], hagain, rfl⟩
      split at h
      · obtain ⟨colon, n, -, -, -, heq⟩ := parseStr_eq h
        cases heq
      · cases h

/-- What the loop over a dictionary reads first. -/
theorem dictLoop_cons {fuel : ℕ} {bytes : Bytes} {entry : Entry} {entries : List Entry} {len : ℕ}
    (h : dictLoop fuel bytes = some (entry :: entries, len)) :
    ∃ fuel', parse fuel' bytes = some (.str entry.key, entry.keyLen) ∧
      parse fuel' (bytes.drop entry.keyLen) = some (entry.val, entry.valLen) ∧
      ∃ more, dictLoop fuel' (bytes.drop (entry.keyLen + entry.valLen)) = some (entries, more) := by
  cases fuel with
  | zero =>
    rw [dictLoop] at h
    cases h
  | succ fuel =>
    cases bytes with
    | nil =>
      rw [dictLoop] at h
      cases h
    | cons c rest =>
      rw [dictLoop] at h
      split at h
      · simp at h
      · simp only [Option.bind_eq_bind, Option.bind_eq_some_iff, Option.pure_def,
          Option.some.injEq, Prod.mk.injEq, List.cons.injEq] at h
        obtain ⟨⟨keyVal, keyLen⟩, hkeyVal, key, hkey, ⟨val, valLen⟩, hval, ⟨entries', more⟩, hmore,
          ⟨rfl, rfl⟩, -⟩ := h
        obtain rfl : keyVal = .str key := by
          cases keyVal with
          | str bytes => exact congrArg BValue.str (Option.some.inj hkey)
          | int _ | list _ | dict _ => cases hkey
        exact ⟨fuel, hkeyVal, hval, more, hmore⟩

/-! ### Keys -/

theorem readDigits_concat (value : ℕ) (digits : Bytes) (b : UInt8) :
    readDigits value (digits ++ [b]) = (readDigits value digits).bind fun v =>
      if isDigit b then some (v * 10 + (b.toNat - 48)) else none := by
  induction digits generalizing value with
  | nil => simp [readDigits]
  | cons c digits ih =>
    rw [List.cons_append, readDigits, readDigits]
    split
    · exact ih _
    · rfl

/-- The last digit of a number below ten. -/
theorem readNat_last {digits : Bytes} {n : ℕ} (hn : n < 10) (h : readNat digits = some n) :
    ∃ init b, digits = init ++ [b] ∧ b.toNat = 48 + n := by
  rw [readNat] at h
  split at h
  · cases h
  · next hne =>
    refine ⟨digits.dropLast, digits.getLast hne, (List.dropLast_append_getLast hne).symm, ?_⟩
    rw [← List.dropLast_append_getLast hne, readDigits_concat, Option.bind_eq_some_iff] at h
    obtain ⟨v, -, hlast⟩ := h
    split at hlast
    · next hdigit =>
      have hvalue := Option.some.inj hlast
      simp only [isDigit, Bool.and_eq_true, decide_eq_true_eq, UInt8.le_iff_toNat_le] at hdigit
      have hlow : (48 : UInt8).toNat = 48 := rfl
      omega
    · cases hlast

theorem parseUsize_last {s : Bytes} {n : ℕ} (hn : n < 10) (h : parseUsize s = some n) :
    ∃ init b, s = init ++ [b] ∧ b.toNat = 48 + n := by
  unfold parseUsize at h
  rw [Option.filter_eq_some_iff] at h
  split at h
  · obtain ⟨init, b, rfl, hb⟩ := readNat_last hn h.1
    exact ⟨43 :: init, b, rfl, hb⟩
  · exact readNat_last hn h.1

/-- `4:info`. -/
def infoPattern : Bytes := [52, 58, 105, 110, 102, 111]

/-- `info`. -/
def infoKey : Bytes := [105, 110, 102, 111]

/-- **The key `info` is written `4:info`**, but for zeros in front. -/
theorem infoPattern_of_parse {fuel : ℕ} {bytes : Bytes} {len : ℕ}
    (h : parse fuel bytes = some (.str infoKey, len)) :
    6 ≤ len ∧ infoPattern <+: bytes.drop (len - 6) := by
  have hstr : parseStr bytes = some (.str infoKey, len) := by
    cases fuel with
    | zero =>
      rw [parse] at h
      cases h
    | succ fuel =>
      cases bytes with
      | nil =>
        rw [parse] at h
        cases h
      | cons c rest =>
        rw [parse] at h
        (repeat' split at h) <;> first
          | exact h
          | simp [parseInt, Option.bind_eq_some_iff] at h
  obtain ⟨colon, n, hcolon, hn, hin, heq⟩ := parseStr_eq hstr
  obtain ⟨hkey, rfl⟩ : infoKey = (bytes.drop (colon + 1)).take n ∧ len = colon + 1 + n := by
    simpa using heq
  -- the four bytes of the key make the last digit of its length a 4
  have hfour : n = 4 := by
    have hlen := congrArg List.length hkey
    rw [List.length_take, List.length_drop] at hlen
    have hinfo : infoKey.length = 4 := rfl
    omega
  subst hfour
  obtain ⟨init, b, hinit, hb⟩ := parseUsize_last (by decide) hn
  obtain ⟨hlt, hat, -⟩ := List.idxOf?_eq_some_iff.mp hcolon
  obtain rfl : b = 52 := UInt8.toNat_inj.mp hb
  have hlength : init.length + 1 = colon := by
    have hlen := congrArg List.length hinit
    rw [List.length_take, Nat.min_eq_left (Nat.le_of_lt hlt)] at hlen
    simpa using hlen.symm
  -- the pattern begins with this digit, whatever stands in front of it
  have hbytes : bytes = init ++ (infoPattern ++ (bytes.drop (colon + 1)).drop 4) := by
    calc bytes
        = bytes.take colon ++ bytes.drop colon := (List.take_append_drop colon bytes).symm
      _ = init ++ [52] ++ 58 :: bytes.drop (colon + 1) := by
          rw [hinit, List.drop_eq_getElem_cons hlt, hat]
      _ = init ++ [52] ++ 58 :: (infoKey ++ (bytes.drop (colon + 1)).drop 4) := by
          rw [hkey, List.take_append_drop]
      _ = init ++ (infoPattern ++ (bytes.drop (colon + 1)).drop 4) := by
          simp [infoPattern, infoKey]
  refine ⟨by omega, ?_⟩
  have hdrop : colon + 1 + 4 - 6 = init.length := by omega
  rw [hdrop, hbytes, List.drop_left]
  exact List.prefix_append _ _

end StreamServer.LocalAddon

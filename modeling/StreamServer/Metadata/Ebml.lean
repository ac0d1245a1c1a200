import Mathlib.Algebra.Ring.Nat
import Mathlib.Data.List.Basic
import Mathlib.Data.Nat.Log

/-!
# EBML elements

A Matroska file is made of elements: an id, the size of the payload, and the payload.  Ids
and sizes are numbers of variable length; the leading zeros of the first byte say how many
bytes follow it.

## Main definitions

* `parseVint`, `parseEbmlElementHeader` — how the code reads a number and a header.
* `Vint`, `Header`, `Element` — well-formed ones.

## Main results

* `parseVint_bytes`, `parseEbmlElementHeader_bytes` — what is well formed is read, whatever
  follows it.

## References

`enginefs/src/backend/metadata.rs`, `parse_vint`, `parse_ebml_element_header`.
-/

namespace StreamServer.Metadata

/-! ### Reading -/

/-- `value = (value << 8) | byte`, byte by byte. -/
def bigEndian (value : ℕ) (bytes : List UInt8) : ℕ :=
  bytes.foldl (fun value byte => value * 256 + byte.toNat) value

/-- `leading_zeros()` of a byte. -/
def leadingZeros (byte : UInt8) : ℕ := if byte = 0 then 8 else 7 - Nat.log2 byte.toNat

/-- The value and the length of a number: `(1 << (8 - len)) - 1` masks the first byte. -/
def parseVint : List UInt8 → Option (ℕ × ℕ)
  | [] => none
  | first :: rest =>
      let len := leadingZeros first + 1
      if 8 < len ∨ rest.length + 1 < len then none
      else some (bigEndian (first.toNat % 2 ^ (8 - len)) (rest.take (len - 1)), len)

/-- The size of the payload, and the length of the header. -/
def parseEbmlElementHeader (data : List UInt8) : Option (ℕ × ℕ) :=
  match parseVint data with
  | none => none
  | some (_, idLen) =>
      match parseVint (data.drop idLen) with
      | none => none
      | some (size, sizeLen) => some (size, idLen + sizeLen)

theorem bigEndian_lt (bytes : List UInt8) (value : ℕ) :
    bigEndian value bytes < (value + 1) * 256 ^ bytes.length := by
  induction bytes generalizing value with
  | nil => simp [bigEndian]
  | cons byte bytes ih =>
    have hbyte := byte.toNat_lt
    calc bigEndian value (byte :: bytes)
        = bigEndian (value * 256 + byte.toNat) bytes := by simp [bigEndian]
      _ < (value * 256 + byte.toNat + 1) * 256 ^ bytes.length := ih _
      _ ≤ (value + 1) * 256 * 256 ^ bytes.length := Nat.mul_le_mul_right _ (by omega)
      _ = (value + 1) * 256 ^ (byte :: bytes).length := by
        rw [List.length_cons, Nat.pow_succ, Nat.mul_assoc, Nat.mul_comm 256]

/-- What fits into `k` bytes is not cut off. -/
theorem bigEndian_mod {bytes : List UInt8} {k : ℕ} (h : bytes.length ≤ k) :
    bigEndian 0 bytes % 256 ^ k = bigEndian 0 bytes := by
  refine Nat.mod_eq_of_lt ?_
  have hlt := bigEndian_lt bytes 0
  rw [Nat.zero_add, Nat.one_mul] at hlt
  exact hlt.trans_le (Nat.pow_le_pow_right (by omega) h)

theorem parseVint_append {data : List UInt8} {r : ℕ × ℕ} (h : parseVint data = some r)
    (ys : List UInt8) : parseVint (data ++ ys) = some r ∧ r.2 ≤ data.length := by
  cases data with
  | nil => cases h
  | cons first rest =>
    rw [parseVint] at h
    rw [List.cons_append, parseVint]
    by_cases hshort : 8 < leadingZeros first + 1 ∨ rest.length + 1 < leadingZeros first + 1
    · rw [if_pos hshort] at h
      cases h
    · rw [if_neg hshort] at h
      cases h
      have htake : (rest ++ ys).take (leadingZeros first + 1 - 1) =
          rest.take (leadingZeros first + 1 - 1) :=
        List.take_append_of_le_length (by omega)
      refine ⟨?_, by simp only [List.length_cons]; omega⟩
      rw [if_neg (by rw [List.length_append]; omega), htake]

/-- A header that has been read stands there, whatever follows. -/
theorem parseEbmlElementHeader_append {data : List UInt8} {r : ℕ × ℕ}
    (h : parseEbmlElementHeader data = some r) (ys : List UInt8) :
    parseEbmlElementHeader (data ++ ys) = some r ∧ r.2 ≤ data.length := by
  unfold parseEbmlElementHeader at h ⊢
  cases hid : parseVint data with
  | none =>
    rw [hid] at h
    cases h
  | some id =>
    obtain ⟨hid', hidLen⟩ := parseVint_append hid ys
    rw [hid] at h
    dsimp only at h
    cases hsize : parseVint (data.drop id.2) with
    | none =>
      rw [hsize] at h
      cases h
    | some size =>
      obtain ⟨hsize', hsizeLen⟩ := parseVint_append hsize ys
      rw [hsize] at h
      cases h
      rw [List.length_drop] at hsizeLen
      rw [hid']
      dsimp only
      rw [List.drop_append_of_le_length hidLen, hsize']
      exact ⟨rfl, by omega⟩

/-! ### Well-formed elements -/

/-- A number of variable length, as it stands in a file. -/
structure Vint where
  first : UInt8
  rest : List UInt8
  first_spec : leadingZeros first = rest.length
  rest_lt : rest.length < 8

namespace Vint

variable (v : Vint)

/-- The integer as it is written. -/
def bytes : List UInt8 := v.first :: v.rest

/-- The number without the marker bit. -/
def value : ℕ := bigEndian (v.first.toNat % 2 ^ (7 - v.rest.length)) v.rest

theorem length_bytes : v.bytes.length = v.rest.length + 1 := by simp [bytes]

theorem leadingZeros_short : ∀ n : Fin 128, leadingZeros (UInt8.ofNat (128 + n)) = 0 := by decide

theorem leadingZeros_two : ∀ n : Fin 64, leadingZeros (UInt8.ofNat (64 + n)) = 1 := by decide

theorem leadingZeros_four : ∀ n : Fin 16, leadingZeros (UInt8.ofNat (16 + n)) = 3 := by decide

theorem short_lt : ([] : List UInt8).length < 8 := by decide

theorem two_lt (b : UInt8) : [b].length < 8 := by simp

theorem four_lt (a b c : UInt8) : [a, b, c].length < 8 := by simp

instance neZero_short : NeZero 128 := ⟨by decide⟩

instance neZero_two : NeZero 64 := ⟨by decide⟩

instance neZero_four : NeZero 16 := ⟨by decide⟩

/-- A number of one byte. -/
def short (n : Fin 128) : Vint := ⟨UInt8.ofNat (128 + n), [], leadingZeros_short n, short_lt⟩

/-- A number of two bytes. -/
def two (n : Fin 64) (b : UInt8) : Vint := ⟨UInt8.ofNat (64 + n), [b], leadingZeros_two n, two_lt b⟩

/-- A number of four bytes. -/
def four (n : Fin 16) (a b c : UInt8) : Vint :=
  ⟨UInt8.ofNat (16 + n), [a, b, c], leadingZeros_four n, four_lt a b c⟩

end Vint

/-- A number is read, whatever follows it. -/
theorem parseVint_bytes (v : Vint) (ys : List UInt8) :
    parseVint (v.bytes ++ ys) = some (v.value, v.bytes.length) := by
  have hfirst := v.first_spec
  have hrest := v.rest_lt
  rw [Vint.bytes, List.cons_append, parseVint]
  rw [hfirst, if_neg (by simp only [List.length_append]; omega), Nat.add_sub_cancel,
    List.take_left' rfl, show 8 - (v.rest.length + 1) = 7 - v.rest.length by omega]
  simp [Vint.value]

/-- The header of an element. -/
structure Header where
  id : Vint
  size : Vint

/-- The id, then the size. -/
def Header.bytes (h : Header) : List UInt8 := h.id.bytes ++ h.size.bytes

theorem Header.two_le_length (h : Header) : 2 ≤ h.bytes.length := by
  simp only [Header.bytes, List.length_append, Vint.length_bytes]
  omega

/-- A header is read, whatever follows it. -/
theorem parseEbmlElementHeader_bytes (h : Header) (ys : List UInt8) :
    parseEbmlElementHeader (h.bytes ++ ys) = some (h.size.value, h.bytes.length) := by
  unfold parseEbmlElementHeader Header.bytes
  rw [List.append_assoc, parseVint_bytes]
  dsimp only
  rw [List.drop_left' rfl, parseVint_bytes]
  simp

/-- An element whose size is known. -/
structure Element extends Header where
  payload : List UInt8
  size_eq : size.value = payload.length

namespace Element

variable (e : Element)

/-- The header, then the payload. -/
def bytes : List UInt8 := e.toHeader.bytes ++ e.payload

theorem length_bytes : e.bytes.length = e.toHeader.bytes.length + e.payload.length := by
  simp [bytes]

theorem bytes_ne_nil : e.bytes ≠ [] := by
  have := e.toHeader.two_le_length
  intro hnil
  have hlength := e.length_bytes
  rw [hnil, List.length_nil] at hlength
  omega

theorem parse_bytes (ys : List UInt8) :
    parseEbmlElementHeader (e.bytes ++ ys) = some (e.payload.length, e.toHeader.bytes.length) := by
  rw [bytes, List.append_assoc, parseEbmlElementHeader_bytes, e.size_eq]

/-- What stands behind the header. -/
theorem drop_header (ys : List UInt8) :
    (e.bytes ++ ys).drop e.toHeader.bytes.length = e.payload ++ ys := by
  rw [bytes, List.append_assoc, List.drop_left' rfl]

/-- The element begins with its id. -/
theorem take_id (ys : List UInt8) : (e.bytes ++ ys).take e.id.bytes.length = e.id.bytes := by
  rw [bytes, Header.bytes, List.append_assoc, List.append_assoc, List.take_left' rfl]

end Element

end StreamServer.Metadata

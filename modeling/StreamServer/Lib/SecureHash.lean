import Mathlib.Algebra.Ring.Nat
import Mathlib.Data.List.Basic
import Mathlib.Data.Nat.Notation
import Mathlib.Tactic.Ring

/-!
# The secure hash of the standard

The hash of 160 bits that FIPS 180-4 defines, over strings of bits as the standard has it: the message is
padded to blocks of 512 bits, each block gives a schedule of 80 words, and 80 steps over five words take it in.

## Main definitions

* `bits`, `value` — a number as a string of bits, and back; the most significant bit comes first.
* `pad`, `blocks` — the padded message and its blocks.
* `schedule`, `step`, `rounds`, `compress` — what a block does to the hash value.
* `sha1` — the hash.
* `ofBytes` — the bits of a byte string.

## Main results

* `bits_append`, `value_append`, `value_bits` — strings of bits and numbers.
* `bits_word`, `value_bytes` — words and their bytes.
* `zeros_least` — the padding is the shortest one.
* `take_ofBytes`, `drop_ofBytes` — pieces of whole bytes.
-/

namespace SecureHash

/-! ### Numbers and strings of bits -/

/-- The last bits of a number, the most significant one first. -/
def bits (width n : ℕ) : List Bool := (List.range width).map fun i => n.testBit (width - 1 - i)

/-- The number that a string of bits stands for. -/
def value (s : List Bool) : ℕ := s.foldl (fun n b => 2 * n + b.toNat) 0

@[simp] theorem length_bits (width n : ℕ) : (bits width n).length = width := by simp [bits]

/-- The bits of a number are those of its upper part and those of its lower part. -/
theorem bits_append (v w n : ℕ) : bits (v + w) n = bits v (n / 2 ^ w) ++ bits w n := by
  refine List.ext_getElem (by simp) fun i hi _ => ?_
  rw [length_bits] at hi
  rw [List.getElem_append]
  split
  · next hlt =>
    rw [length_bits] at hlt
    simp only [bits, List.getElem_map, List.getElem_range, Nat.testBit_div_two_pow]
    congr 1
    omega
  · next hge =>
    rw [length_bits] at hge
    simp only [bits, List.getElem_map, List.getElem_range, List.length_map, List.length_range]
    congr 1
    omega

/-- Only the last bits count. -/
theorem bits_mod (w n : ℕ) : bits w (n % 2 ^ w) = bits w n := by
  refine List.map_congr_left fun i hi => ?_
  rw [List.mem_range] at hi
  rw [Nat.testBit_mod_two_pow, decide_eq_true (by omega), Bool.true_and]

theorem bits_zero (w : ℕ) : bits w 0 = List.replicate w false := by
  rw [List.eq_replicate_iff]
  simp [bits]

theorem value_foldl (s : List Bool) (n : ℕ) :
    s.foldl (fun n b => 2 * n + b.toNat) n = n * 2 ^ s.length + value s := by
  induction s generalizing n with
  | nil => simp [value]
  | cons b s ih =>
    rw [value, List.foldl_cons, List.foldl_cons, ih, ih (2 * 0 + b.toNat), List.length_cons, Nat.pow_succ']
    ring

theorem value_append (s t : List Bool) : value (s ++ t) = value s * 2 ^ t.length + value t := by
  rw [value, List.foldl_append, value_foldl]
  rfl

/-- The bits of a number stand for what they leave of it. -/
theorem value_bits (w n : ℕ) : value (bits w n) = n % 2 ^ w := by
  induction w generalizing n with
  | zero => simp [bits, value, Nat.mod_one]
  | succ w ih =>
    have hlast : bits 1 n = [n.testBit 0] := rfl
    rw [bits_append, value_append, ih, hlast, Nat.pow_succ' (n := w), Nat.mod_mul]
    simp only [value, List.foldl_cons, List.foldl_nil, List.length_singleton, Nat.testBit_zero, Nat.pow_one]
    rcases Nat.mod_two_eq_zero_or_one n with h | h
    · simp [h]
      ring
    · simp [h]
      ring

/-! ### The message -/

/-- How many zeros the padding has. -/
def zeros (length : ℕ) : ℕ := (447 + 512 - length % 512) % 512

/-- A one, zeros, and the length of the message in 64 bits. -/
def pad (message : List Bool) : List Bool :=
  message ++ true :: List.replicate (zeros message.length) false ++ bits 64 message.length

/-- They are the fewest with which 64 bits are missing to the end of a block. -/
theorem zeros_least (length : ℕ) : (length + 1 + zeros length) % 512 = 448 ∧
    ∀ k, (length + 1 + k) % 512 = 448 → zeros length ≤ k := by
  refine ⟨?_, fun k hk => ?_⟩ <;> rw [zeros] <;> omega

/-- The blocks of a padded message. -/
def blocks (message : List Bool) : List (List Bool) :=
  (List.range (message.length / 512)).map fun i => (message.drop (512 * i)).take 512

/-! ### The words -/

/-- The word that 32 bits stand for. -/
def word (s : List Bool) : BitVec 32 := BitVec.ofNat 32 (value s)

/-- A word of a block. -/
def blockWord (block : List Bool) (t : ℕ) : BitVec 32 := word ((block.drop (32 * t)).take 32)

/-- `Ch` of the standard. -/
def ch (x y z : BitVec 32) : BitVec 32 := (x &&& y) ^^^ (~~~x &&& z)

/-- `Parity` of the standard. -/
def parity (x y z : BitVec 32) : BitVec 32 := x ^^^ y ^^^ z

/-- `Maj` of the standard. -/
def maj (x y z : BitVec 32) : BitVec 32 := (x &&& y) ^^^ (x &&& z) ^^^ (y &&& z)

/-- The function of a step. -/
def logical (t : ℕ) : BitVec 32 → BitVec 32 → BitVec 32 → BitVec 32 :=
  if t ≤ 19 then ch else if t ≤ 39 then parity else if t ≤ 59 then maj else parity

/-- The constant of a step. -/
def constant (t : ℕ) : BitVec 32 :=
  if t ≤ 19 then 0x5a827999 else if t ≤ 39 then 0x6ed9eba1 else if t ≤ 59 then 0x8f1bbcdc else 0xca62c1d6

/-- The message schedule of a block. -/
def schedule (block : List Bool) (t : ℕ) : BitVec 32 :=
  if 16 ≤ t then
    (schedule block (t - 3) ^^^ schedule block (t - 8) ^^^ schedule block (t - 14) ^^^
      schedule block (t - 16)).rotateLeft 1
  else blockWord block t
termination_by t

/-- Five words: the working variables, and the hash value. -/
structure Value where
  a : BitVec 32
  b : BitVec 32
  c : BitVec 32
  d : BitVec 32
  e : BitVec 32
  deriving DecidableEq, Repr

/-- The hash value at the beginning. -/
def initial : Value := ⟨0x67452301, 0xefcdab89, 0x98badcfe, 0x10325476, 0xc3d2e1f0⟩

/-- One step over the working variables. -/
def step (w : ℕ → BitVec 32) (v : Value) (t : ℕ) : Value :=
  ⟨v.a.rotateLeft 5 + logical t v.b v.c v.d + v.e + constant t + w t, v.a, v.b.rotateLeft 30, v.c, v.d⟩

/-- The working variables after so many steps. -/
def rounds (w : ℕ → BitVec 32) (v : Value) : ℕ → Value
  | 0 => v
  | t + 1 => step w (rounds w v t) t

/-- What a block makes of the hash value. -/
def compress (h : Value) (block : List Bool) : Value :=
  let v := rounds (schedule block) h 80
  ⟨v.a + h.a, v.b + h.b, v.c + h.c, v.d + h.d, v.e + h.e⟩

/-- The hash of a message. -/
def sha1 (message : List Bool) : List Bool :=
  let h := (blocks (pad message)).foldl compress initial
  bits 32 h.a.toNat ++ bits 32 h.b.toNat ++ bits 32 h.c.toNat ++ bits 32 h.d.toNat ++ bits 32 h.e.toNat

/-- The steps as a pass over their numbers. -/
theorem rounds_eq_foldl (w : ℕ → BitVec 32) (v : Value) (n : ℕ) :
    rounds w v n = (List.range n).foldl (step w) v := by
  induction n with
  | zero => rfl
  | succ n ih => rw [rounds, ih, List.range_succ, List.foldl_append, List.foldl_cons, List.foldl_nil]

theorem schedule_of_lt (block : List Bool) {t : ℕ} (h : t < 16) :
    schedule block t = blockWord block t := by
  rw [schedule, if_neg (by omega)]

theorem schedule_add (block : List Bool) (t : ℕ) :
    schedule block (t + 16) = (schedule block (t + 13) ^^^ schedule block (t + 8) ^^^
      schedule block (t + 2) ^^^ schedule block t).rotateLeft 1 := by
  rw [schedule, if_pos (by omega)]
  rfl

/-! ### Byte strings -/

/-- The bits of a byte string. -/
def ofBytes (bytes : List UInt8) : List Bool := bytes.flatMap fun b => bits 8 b.toNat

@[simp] theorem ofBytes_append (s t : List UInt8) : ofBytes (s ++ t) = ofBytes s ++ ofBytes t :=
  List.flatMap_append

@[simp] theorem ofBytes_nil : ofBytes [] = [] := rfl

@[simp] theorem ofBytes_cons (b : UInt8) (s : List UInt8) : ofBytes (b :: s) = bits 8 b.toNat ++ ofBytes s :=
  List.flatMap_cons

@[simp] theorem length_ofBytes (bytes : List UInt8) : (ofBytes bytes).length = 8 * bytes.length := by
  induction bytes with
  | nil => rfl
  | cons b bytes ih =>
    rw [ofBytes_cons, List.length_append, length_bits, ih, List.length_cons]
    omega

theorem drop_ofBytes (bytes : List UInt8) (n : ℕ) :
    (ofBytes bytes).drop (8 * n) = ofBytes (bytes.drop n) := by
  induction bytes generalizing n with
  | nil => simp
  | cons b bytes ih =>
    cases n with
    | zero => simp
    | succ n =>
      rw [List.drop_succ_cons, ← ih, ofBytes_cons, Nat.mul_succ, Nat.add_comm, ← List.drop_drop,
        List.drop_left' (length_bits 8 _)]

theorem take_ofBytes (bytes : List UInt8) (n : ℕ) :
    (ofBytes bytes).take (8 * n) = ofBytes (bytes.take n) := by
  induction bytes generalizing n with
  | nil => simp
  | cons b bytes ih =>
    cases n with
    | zero => simp
    | succ n =>
      rw [List.take_succ_cons, ofBytes_cons, ofBytes_cons, ← ih, Nat.mul_succ, Nat.add_comm,
        List.take_append, length_bits, Nat.add_sub_cancel_left,
        List.take_of_length_le (by rw [length_bits]; omega)]

theorem ofBytes_zeros (n : ℕ) : ofBytes (List.replicate n 0) = List.replicate (8 * n) false := by
  induction n with
  | zero => rfl
  | succ n ih =>
    rw [List.replicate_succ, ofBytes_cons, ih, Nat.mul_succ, Nat.add_comm, List.replicate_add]
    rfl

/-- A word is its four bytes. -/
theorem value_bytes (a b c d : UInt8) :
    value (ofBytes [a, b, c, d]) = ((a.toNat * 2 ^ 8 + b.toNat) * 2 ^ 8 + c.toNat) * 2 ^ 8 + d.toNat := by
  have hbyte : ∀ b : UInt8, value (bits 8 b.toNat) = b.toNat := fun b => by
    rw [value_bits, Nat.mod_eq_of_lt b.toNat_lt]
  simp only [ofBytes_cons, ofBytes_nil, List.append_nil, value_append, hbyte, List.length_append, length_bits]
  ring

/-- Its four bytes are those of a word. -/
theorem bits_word (n : ℕ) : bits 32 n = bits 8 (n / 2 ^ 24) ++ bits 8 (n / 2 ^ 16) ++ bits 8 (n / 2 ^ 8) ++
    bits 8 n := by
  rw [bits_append 24 8, bits_append 16 8, bits_append 8 8]
  simp only [Nat.div_div_eq_div_mul, ← Nat.pow_add]

end SecureHash

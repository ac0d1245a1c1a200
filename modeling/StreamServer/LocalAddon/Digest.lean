import StreamServer.LocalAddon.Sha1
import StreamServer.Lib.SecureHash

/-!
# The hash is the standard's

`Sha1` is written out by hand in the server.  Its words are those of the standard: the bytes of a message are
its bits, eight at a time, and every piece of the code does to words what the standard does.

## Main definitions

* `Sha1.value` — the hash value of a state.

## Main results

* `padLoop_eq` — what the loop does that fills up the last chunk.
* `ofBytes_padded` — the padding, whatever the length leaves of a chunk.
* `value_round`, `map_extend`, `value_processChunk` — a round, the schedule, and a chunk.
* `ofBytes_sha1Digest` — **the digest is the hash of the standard.**

## References

`server/src/local_addon/torrent.rs`, `Sha1`.
-/

namespace StreamServer.LocalAddon

open SecureHash (ofBytes)

/-! ### The padding -/

/-- The loop stops when the last chunk is full but for eight bytes. -/
theorem padLoop_eq {rounds : ℕ} {padded : Bytes}
    (h : (64 - (padded.length + 8) % 64) % 64 ≤ rounds) : padLoop rounds padded =
      padded ++ List.replicate ((64 - (padded.length + 8) % 64) % 64) 0 := by
  induction rounds generalizing padded with
  | zero =>
    rw [Nat.le_zero.mp h, List.replicate_zero, List.append_nil]
    rfl
  | succ rounds ih =>
    rw [padLoop]
    split
    · next hopen =>
      have hcount : (64 - (padded.length + 8) % 64) % 64 =
          (64 - ((padded ++ [0]).length + 8) % 64) % 64 + 1 := by
        rw [List.length_append, List.length_singleton]
        omega
      rw [ih (by omega), hcount, List.append_assoc]
      rfl
    · next hfull =>
      rw [not_not.mp hfull]
      simp

theorem ofBytes_toBeBytes (x : UInt32) : ofBytes (toBeBytes x) = SecureHash.bits 32 x.toNat := by
  have hbyte : ∀ n, SecureHash.bits 8 (n % 256) = SecureHash.bits 8 n := SecureHash.bits_mod 8
  rw [SecureHash.bits_word]
  simp [toBeBytes, Nat.shiftRight_eq_div_pow, hbyte]

/-- **The padding is that of the standard.** -/
theorem ofBytes_padded (data : Bytes) : ofBytes (padded data) = SecureHash.pad (ofBytes data) := by
  have hzeros : SecureHash.zeros (8 * data.length) = 7 + 8 * ((64 - (data.length + 9) % 64) % 64) := by
    rw [SecureHash.zeros]
    omega
  have hlength : SecureHash.bits 64 (8 * data.length) =
      SecureHash.bits 32 (data.length * 8 / 2 ^ 32) ++ SecureHash.bits 32 (data.length * 8) := by
    rw [Nat.mul_comm]
    exact SecureHash.bits_append 32 32 _
  have hone : ofBytes [0x80] = true :: List.replicate 7 false := by decide
  have hloop : padLoop 63 (data ++ [0x80]) =
      data ++ [0x80] ++ List.replicate ((64 - (data.length + 9) % 64) % 64) 0 := by
    rw [padLoop_eq (Nat.le_of_lt_succ (Nat.mod_lt _ (by decide))), List.length_append,
      List.length_singleton]
  rw [SecureHash.pad, SecureHash.length_ofBytes, hzeros, hlength, padded, hloop]
  rw [SecureHash.ofBytes_append, SecureHash.ofBytes_append, SecureHash.ofBytes_append, SecureHash.ofBytes_append,
    hone, SecureHash.ofBytes_zeros, ofBytes_toBeBytes, ofBytes_toBeBytes, UInt32.toNat_ofNat', UInt32.toNat_ofNat',
    SecureHash.bits_mod, SecureHash.bits_mod]
  simp only [List.replicate_add, List.append_assoc, List.cons_append]

/-! ### Words -/

theorem ch_eq (x y z : BitVec 32) : (x &&& y) ||| (~~~x &&& z) = SecureHash.ch x y z := by
  refine BitVec.eq_of_getLsbD_eq fun i hi => ?_
  simp only [SecureHash.ch, BitVec.getLsbD_or, BitVec.getLsbD_and, BitVec.getLsbD_xor, BitVec.getLsbD_not]
  cases x.getLsbD i <;> simp

theorem maj_eq (x y z : BitVec 32) : (x &&& y) ||| (x &&& z) ||| (y &&& z) = SecureHash.maj x y z := by
  refine BitVec.eq_of_getLsbD_eq fun i _ => ?_
  simp only [SecureHash.maj, BitVec.getLsbD_or, BitVec.getLsbD_and, BitVec.getLsbD_xor]
  cases x.getLsbD i <;> cases y.getLsbD i <;> simp

theorem toBitVec_rotateLeft (x n : UInt32) (hn : 0 < n.toNat) (hlt : n.toNat < 32) :
    (rotateLeft x n).toBitVec = x.toBitVec.rotateLeft n.toNat := by
  have hle : n ≤ 32 := UInt32.le_iff_toNat_le.mpr (Nat.le_of_lt hlt)
  have hback : ((32 - n).toBitVec % 32).toNat = 32 - n.toNat := by
    have hsub : (32 - n).toNat = 32 - n.toNat := UInt32.toNat_sub_of_le 32 n hle
    have hmod : ((32 - n).toBitVec % 32).toNat = (32 - n).toNat % 32 := rfl
    rw [hmod, hsub]
    omega
  have hsame : (n.toBitVec % 32).toNat = n.toNat := Nat.mod_eq_of_lt hlt
  rw [rotateLeft, UInt32.toBitVec_or, UInt32.toBitVec_shiftLeft, UInt32.toBitVec_shiftRight,
    BitVec.rotateLeft_def, Nat.mod_eq_of_lt hlt, BitVec.shiftLeft_eq', BitVec.ushiftRight_eq', hback, hsame]

/-- One more byte behind a word that has room for it. -/
theorem shift_or {x : ℕ} {b : UInt8} (h : x < 2 ^ 24) :
    x <<< 8 % 2 ^ 32 ||| b.toNat = x * 2 ^ 8 + b.toNat := by
  rw [Nat.mod_eq_of_lt (by rw [Nat.shiftLeft_eq]; omega), ← Nat.shiftLeft_add_eq_or_of_lt b.toNat_lt,
    Nat.shiftLeft_eq]

theorem toBitVec_fromBeBytes (a b c d : UInt8) :
    (fromBeBytes [a, b, c, d]).toBitVec = SecureHash.word (ofBytes [a, b, c, d]) := by
  have ha := a.toNat_lt
  have hb := b.toNat_lt
  have hc := c.toNat_lt
  have hd := d.toNat_lt
  have hfold : (fromBeBytes [a, b, c, d]).toNat =
      ((a.toNat <<< 8 % 2 ^ 32 ||| b.toNat) <<< 8 % 2 ^ 32 ||| c.toNat) <<< 8 % 2 ^ 32 ||| d.toNat := by
    simp [fromBeBytes]
  have hab := shift_or (b := b) (show a.toNat < 2 ^ 24 by omega)
  have habc := shift_or (b := c) (show a.toNat * 2 ^ 8 + b.toNat < 2 ^ 24 by omega)
  rw [hab, habc, shift_or (by omega)] at hfold
  rw [SecureHash.word, SecureHash.value_bytes, ← hfold, UInt32.toNat, BitVec.ofNat_toNat, BitVec.setWidth_eq]

/-! ### Chunks -/

/-- A chunk of the bytes is a piece of the bits. -/
theorem ofBytes_piece (bytes : Bytes) (size i : ℕ) :
    ofBytes ((bytes.drop (size * i)).take size) = ((ofBytes bytes).drop (8 * size * i)).take (8 * size) := by
  rw [← SecureHash.take_ofBytes, ← SecureHash.drop_ofBytes, Nat.mul_assoc]

theorem map_asChunks (bytes : Bytes) :
    (asChunks 64 bytes).map ofBytes = SecureHash.blocks (ofBytes bytes) := by
  rw [asChunks, SecureHash.blocks, List.map_map, SecureHash.length_ofBytes,
    Nat.mul_div_mul_left bytes.length 64 (show 0 < 8 by decide)]
  exact List.map_congr_left fun i _ => ofBytes_piece bytes 64 i

/-- The first words of the schedule are those of the chunk. -/
theorem toBitVec_words {chunk : Bytes} (hchunk : chunk.length = 64) :
    ((asChunks 4 chunk).map fromBeBytes).map UInt32.toBitVec =
      (List.range 16).map (SecureHash.schedule (ofBytes chunk)) := by
  rw [asChunks, hchunk, List.map_map, List.map_map]
  refine List.map_congr_left fun i hi => ?_
  have hlt : i < 16 := List.mem_range.mp hi
  have hlen : ((chunk.drop (4 * i)).take 4).length = 4 := by
    rw [List.length_take, List.length_drop]
    omega
  rw [SecureHash.schedule_of_lt _ hlt, SecureHash.blockWord, ← ofBytes_piece chunk 4 i]
  obtain ⟨a, b, c, d, hword⟩ := List.length_eq_four.mp hlen
  rw [Function.comp_apply, Function.comp_apply, hword]
  exact toBitVec_fromBeBytes a b c d

namespace Sha1

/-- The hash value of a state. -/
def value (s : Sha1) : SecureHash.Value :=
  ⟨s.a.toBitVec, s.b.toBitVec, s.c.toBitVec, s.d.toBitVec, s.e.toBitVec⟩

@[simp] theorem value_new : new.value = SecureHash.initial := rfl

/-- **A round is a step of the standard.** -/
theorem value_round (w : ℕ → BitVec 32) (s : Sha1) {x : UInt32} {t : ℕ} (hx : x.toBitVec = w t) :
    (s.round (x, t)).value = SecureHash.step w s.value t := by
  have hmix : (s.mix t).1.toBitVec = SecureHash.logical t s.b.toBitVec s.c.toBitVec s.d.toBitVec ∧
      (s.mix t).2.toBitVec = SecureHash.constant t := by
    rw [mix, SecureHash.logical, SecureHash.constant]
    simp only [← Nat.lt_succ_iff]
    split
    · exact ⟨ch_eq _ _ _, rfl⟩
    · split
      · exact ⟨rfl, rfl⟩
      · split
        · exact ⟨maj_eq _ _ _, rfl⟩
        · exact ⟨rfl, rfl⟩
  rw [round, value, SecureHash.step]
  simp only [UInt32.toBitVec_add, toBitVec_rotateLeft _ 5 (by decide) (by decide),
    toBitVec_rotateLeft _ 30 (by decide) (by decide), hmix.1, hmix.2, hx]
  rfl

/-- **The words behind the first ones are those of the schedule.** -/
theorem map_extend (block : List Bool) (n t : ℕ) {w : List UInt32}
    (hw : w.map UInt32.toBitVec = ((List.range (t + 16)).map (SecureHash.schedule block)).reverse) :
    (extend n w).map UInt32.toBitVec =
      ((List.range (t + 16 + n)).map (SecureHash.schedule block)).reverse := by
  induction n generalizing t w with
  | zero => exact hw
  | succ n ih =>
    have hget : ∀ i, i < 16 → (w.getD i 0).toBitVec = SecureHash.schedule block (t + 15 - i) := fun i hi => by
      have hsome : (w.map UInt32.toBitVec)[i]? = some (SecureHash.schedule block (t + 15 - i)) := by
        rw [hw, List.getElem?_reverse (by simp; omega), List.length_map, List.length_range, List.getElem?_map,
          List.getElem?_range (by omega), Option.map_some]
        congr 2
      rw [List.getElem?_map] at hsome
      obtain ⟨x, hx, heq⟩ := Option.map_eq_some_iff.mp hsome
      rw [List.getD_eq_getElem?_getD, hx]
      exact heq
    rw [extend, Nat.add_succ, ← Nat.succ_add]
    refine ih (t + 1) ?_
    rw [List.map_cons, hw, Nat.add_right_comm t 1 16, List.range_succ (n := t + 16), List.map_append, List.reverse_append,
      List.map_singleton, List.reverse_singleton, List.singleton_append, SecureHash.schedule_add,
      toBitVec_rotateLeft _ 1 (by decide) (by decide), UInt32.toBitVec_xor, UInt32.toBitVec_xor,
      UInt32.toBitVec_xor, hget 2 (by decide), hget 7 (by decide), hget 13 (by decide), hget 15 (by decide)]
    rfl

/-- The words of a chunk, as the rounds take them. -/
theorem map_words {chunk : Bytes} (hchunk : chunk.length = 64) :
    (extend 64 ((asChunks 4 chunk).map fromBeBytes).reverse).reverse.map UInt32.toBitVec =
      (List.range 80).map (SecureHash.schedule (ofBytes chunk)) := by
  have hfirst : (((asChunks 4 chunk).map fromBeBytes).reverse).map UInt32.toBitVec =
      ((List.range (0 + 16)).map (SecureHash.schedule (ofBytes chunk))).reverse := by
    rw [List.map_reverse, toBitVec_words hchunk]
  rw [List.map_reverse, map_extend _ 64 0 hfirst, List.reverse_reverse]

/-- The rounds, one for each word. -/
theorem value_foldl (w : ℕ → BitVec 32) (s : Sha1) (words : List UInt32) (n : ℕ)
    (hwords : words.map UInt32.toBitVec = (List.range' n words.length).map w) :
    ((words.zipIdx n).foldl round s).value = (List.range' n words.length).foldl (SecureHash.step w) s.value := by
  induction words generalizing s n with
  | nil => rfl
  | cons x words ih =>
    rw [List.length_cons, List.range'_succ, List.map_cons, List.map_cons, List.cons.injEq] at hwords
    rw [List.zipIdx_cons, List.foldl_cons, ih _ _ hwords.2, value_round w s hwords.1, List.length_cons,
      List.range'_succ, List.foldl_cons]

/-- **A chunk does to the state what its block does to the hash value.** -/
theorem value_processChunk (s : Sha1) {chunk : Bytes} (hchunk : chunk.length = 64) :
    (s.processChunk chunk).value = SecureHash.compress s.value (ofBytes chunk) := by
  have hwords := map_words hchunk
  rw [processChunk, SecureHash.compress]
  generalize (extend 64 ((asChunks 4 chunk).map fromBeBytes).reverse).reverse = words at hwords ⊢
  have hlen : words.length = 80 := by simpa using congrArg List.length hwords
  have hrounds := value_foldl (SecureHash.schedule (ofBytes chunk)) s words 0
    (by rw [hwords, hlen, List.range_eq_range'])
  rw [hlen, ← List.range_eq_range', ← SecureHash.rounds_eq_foldl] at hrounds
  rw [← hrounds]
  simp only [value, UInt32.toBitVec_add, BitVec.add_comm]

theorem value_update (s : Sha1) (data : Bytes) :
    (s.update data).value = (SecureHash.blocks (ofBytes data)).foldl SecureHash.compress s.value := by
  have hchunks : ∀ chunk ∈ asChunks 64 data, List.length chunk = 64 := by
    intro chunk hchunk
    obtain ⟨i, hi, rfl⟩ := List.mem_map.mp hchunk
    rw [List.mem_range] at hi
    rw [List.length_take, List.length_drop]
    omega
  rw [update, ← map_asChunks]
  generalize asChunks 64 data = chunks at hchunks ⊢
  induction chunks generalizing s with
  | nil => rfl
  | cons chunk chunks ih =>
    rw [List.foldl_cons, List.map_cons, List.foldl_cons, ih _ fun c hc => hchunks c (List.mem_cons_of_mem _ hc),
      value_processChunk s (hchunks chunk List.mem_cons_self)]

end Sha1

/-- **The digest is the hash of the standard**, for every message whose length in bits fits into 64 bits. -/
theorem ofBytes_sha1Digest {data : Bytes} (h : data.length < 2 ^ 61) :
    data.length * 8 < 2 ^ 64 ∧ ofBytes (sha1Digest data) = SecureHash.sha1 (ofBytes data) := by
  refine ⟨by omega, ?_⟩
  have hvalue := Sha1.value_update .new (padded data)
  rw [ofBytes_padded, Sha1.value_new] at hvalue
  rw [sha1Digest, SecureHash.sha1, ← hvalue]
  simp only [SecureHash.ofBytes_append, ofBytes_toBeBytes]
  rfl

/-- The digest of three bytes. -/
theorem abc_sha1Digest : 3 * 8 < 2 ^ 64 ∧
    ofBytes (sha1Digest [0x61, 0x62, 0x63]) = SecureHash.sha1 (ofBytes [0x61, 0x62, 0x63]) :=
  @ofBytes_sha1Digest [0x61, 0x62, 0x63] (show 3 < 2 ^ 61 by decide)

end StreamServer.LocalAddon

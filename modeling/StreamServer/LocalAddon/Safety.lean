import StreamServer.LocalAddon.Checked

/-!
# Safe parsing

A string may announce a length that does not fit with its position into 64 bits.  The sum that says where
it ends overflows then, and nothing else does: an input is parsed safely if the parser gets to no such
string.

## Main definitions

* `ParsesSafely` — nothing overflows, and what is read is not empty and lies in the input.
* `ReachesOverlong` — the parser gets to a string that is too long.

## Main results

* `reached_panics` — a string that is too long makes the parser panic wherever it gets to it.
* `parsesSafely_iff` — **an input is parsed safely exactly if the parser gets to no overlong string.**

## References

`server/src/local_addon/torrent.rs`, `parse_bencode` and `extract_info_bytes`.
-/

namespace StreamServer.LocalAddon

open Checked

variable {bytes sub : Bytes}

/-- The parser gets to a string that is too long. -/
def ReachesOverlong (bytes : Bytes) : Prop := ∃ sub, Reached bytes sub ∧ Overlong sub

/-- Nothing overflows and no slice lies outside, the parser ends, and what it reads from the input or from
a rest of it is not empty and lies there. -/
structure ParsesSafely (bytes : Bytes) : Prop where
  parse : parseBencodeChecked bytes ≠ .error .panic
  extract : extractInfoBytesChecked bytes ≠ .error .panic
  ends : parseBencodeChecked bytes ≠ .error .stuck ∧ extractInfoBytesChecked bytes ≠ .error .stuck
  consumed : ∀ sub, sub <:+ bytes → ∀ val len, parseBencodeChecked sub = .ok (val, len) →
    1 ≤ len ∧ len ≤ sub.length

theorem overlong_panics {fuel : ℕ} (h : Overlong bytes) (hlength : bytes.length < 2 ^ 63) :
    parseChecked (fuel + 1) bytes = .error .panic := by
  obtain ⟨c, digits, rest, n, rfl, hc, hcolon, hlen, hover⟩ := h
  rw [List.cons_append, parseChecked_digit hc, ← List.cons_append,
    parseStrChecked_eq hc hcolon hlength, hlen, okOr_some, ok_bind, if_pos hover]

/-- **A string that is too long makes the parser panic**, wherever it gets to it. -/
theorem reached_panics (h : Reached bytes sub) (hover : Overlong sub) (fuel : ℕ)
    (hfuel : 2 * bytes.length + 1 ≤ fuel) (hlength : bytes.length < 2 ^ 63) :
    parseChecked fuel bytes = .error .panic := by
  -- by induction on the way to the length that is too long: all that stands before it is parsed
  induction h generalizing fuel with
  | here bytes =>
    obtain ⟨fuel, rfl⟩ := Nat.exists_eq_succ_of_ne_zero (by omega : fuel ≠ 0)
    exact overlong_panics hover hlength
  | @item chunks rest sub h hrest hsub ih =>
    obtain ⟨fuel, rfl⟩ := Nat.exists_eq_succ_of_ne_zero (by omega : fuel ≠ 0)
    obtain ⟨vals, hvals⟩ := exists_forall₂ fun chunk hchunk => parses_value (h chunk hchunk)
    rw [List.length_cons] at hfuel
    obtain ⟨fuel', hfuel', hloop⟩ := listFrom_chunks hvals fuel [108] rest [] (by omega) hlength
    obtain ⟨fuel', rfl⟩ := Nat.exists_eq_succ_of_ne_zero (by omega : fuel' ≠ 0)
    have hrun := ih hover fuel' (by omega) (by
      rw [List.length_cons, List.length_append] at hlength
      omega)
    rw [listFrom, if_pos (loop_goes_on hrest), slice_rest, ok_bind, hrun, error_bind] at hloop
    rw [parseChecked_list]
    exact congrArg (· >>= _) hloop
  | @key chunks rest sub hkeys hvals hrest hsub ih =>
    obtain ⟨fuel, rfl⟩ := Nat.exists_eq_succ_of_ne_zero (by omega : fuel ≠ 0)
    obtain ⟨entries, hentries⟩ := parses_entries hkeys hvals
    rw [List.length_cons] at hfuel
    obtain ⟨fuel', hfuel', hloop⟩ := dictFrom_chunks hentries fuel [100] rest [] (by omega) hlength
    obtain ⟨fuel', rfl⟩ := Nat.exists_eq_succ_of_ne_zero (by omega : fuel' ≠ 0)
    have hrun := ih hover fuel' (by omega) (by
      rw [List.length_cons, List.length_append] at hlength
      omega)
    rw [dictFrom, if_pos (loop_goes_on hrest), slice_rest, ok_bind, hrun, error_bind] at hloop
    rw [parseChecked_dict]
    exact congrArg (· >>= _) hloop
  | @value chunks key rest sub hkeys hvals hkey hsub ih =>
    obtain ⟨fuel, rfl⟩ := Nat.exists_eq_succ_of_ne_zero (by omega : fuel ≠ 0)
    obtain ⟨entries, hentries⟩ := parses_entries hkeys hvals
    obtain ⟨name, hname⟩ := parses_isStr hkey
    rw [List.length_cons] at hfuel
    obtain ⟨fuel', hfuel', hloop⟩ :=
      dictFrom_chunks hentries fuel [100] (key ++ rest) [] (by omega) hlength
    obtain ⟨fuel', rfl⟩ := Nat.exists_eq_succ_of_ne_zero (by omega : fuel' ≠ 0)
    have hlength' := hlength
    rw [List.length_cons, List.length_append, List.length_append] at hlength'
    have hlength'' : (key ++ rest).length = key.length + rest.length := List.length_append
    have hrun := ih hover fuel' (by omega) (by omega)
    have hslice := slice_rest ([100] ++ joined chunks ++ key) rest
    rw [List.append_assoc _ key, List.length_append] at hslice
    rw [dictFrom, if_pos (loop_goes_on (hname.goes_on rest)), slice_rest, ok_bind,
      hname.reads fuel' rest (by omega) (by omega), ok_bind] at hloop
    dsimp only at hloop
    rw [add_of_lt (by simp only [List.length_append, List.length_singleton]; omega), ok_bind,
      BValue.asBytes, okOr_some, ok_bind, hslice, ok_bind, hrun, error_bind] at hloop
    rw [parseChecked_dict]
    exact congrArg (· >>= _) hloop

/-- The parser panics exactly if it gets to a string that is too long. -/
theorem panics_iff (hlength : bytes.length < 2 ^ 63) :
    parseBencodeChecked bytes = .error .panic ↔ ReachesOverlong bytes := by
  constructor
  · intro h
    have hspec := outcome_spec hlength
    rw [h] at hspec
    exact hspec
  · intro h
    obtain ⟨sub, hsub, hover⟩ := h
    exact reached_panics hsub hover _ (Nat.le_refl _) hlength

theorem parse_ne_stuck (hlength : bytes.length < 2 ^ 63) :
    parseBencodeChecked bytes ≠ .error .stuck := by
  intro h
  have hspec := outcome_spec hlength
  rw [h] at hspec
  exact hspec

theorem parse_consumed (hlength : bytes.length < 2 ^ 63) {val : BValue} {len : ℕ}
    (h : parseBencodeChecked bytes = .ok (val, len)) : 1 ≤ len ∧ len ≤ bytes.length := by
  have hspec := outcome_spec hlength
  rw [h] at hspec
  exact ⟨hspec.1, hspec.2.1⟩

/-- What stands behind the pattern. -/
theorem length_infoPattern {position : ℕ} (h : bytes.occurrence? infoPattern = some position) :
    position + 6 ≤ bytes.length := by
  obtain ⟨hle, hpre, -⟩ := List.occurrence?_eq_some_iff.mp h
  have hlength := hpre.length_le
  rw [List.length_drop] at hlength
  have hsix : infoPattern.length = 6 := rfl
  omega

/-- The text that is hashed is cut out where the parser reads a value behind the pattern. -/
theorem extract_eq {position : ℕ} (hlength : bytes.length < 2 ^ 63)
    (h : bytes.occurrence? infoPattern = some position) :
    extractInfoBytesChecked bytes =
      (parseBencodeChecked (bytes.drop (position + 6)) >>= fun r =>
        .ok ((bytes.drop (position + 6)).take r.2)) := by
  have hin := length_infoPattern h
  have hsix : infoPattern.length = 6 := rfl
  rw [extractInfoBytesChecked, h, okOr_some, ok_bind, hsix, add_of_lt (by omega), ok_bind,
    slice_end hin, ok_bind]
  have hrest : (bytes.drop (position + 6)).length = bytes.length - (position + 6) :=
    List.length_drop
  cases hrun : parseBencodeChecked (bytes.drop (position + 6)) with
  | error stop => rfl
  | ok r =>
    obtain ⟨val, len⟩ := r
    have hconsumed := parse_consumed (by omega) hrun
    rw [ok_bind, ok_bind]
    dsimp only
    rw [add_of_lt (by omega), ok_bind, slice_of_le (by omega) (by omega), List.drop_take]
    congr 2
    omega

theorem extract_error_iff {stop : Stop} (hlength : bytes.length < 2 ^ 63) (hstop : stop ≠ .fail) :
    extractInfoBytesChecked bytes = .error stop ↔ ∃ position,
      bytes.occurrence? infoPattern = some position ∧
        parseBencodeChecked (bytes.drop (position + 6)) = .error stop := by
  cases hposition : bytes.occurrence? infoPattern with
  | none =>
    rw [extractInfoBytesChecked, hposition, okOr_none, error_bind]
    simp [hstop.symm]
  | some position =>
    rw [extract_eq hlength hposition, bind_error_iff]
    simp

/-- **An input is parsed safely exactly if the parser gets to no overlong string**, at the beginning or
behind the pattern. -/
theorem parsesSafely_iff (hlength : bytes.length < 2 ^ 63) : ParsesSafely bytes ↔
    ¬ ReachesOverlong bytes ∧ ∀ position, bytes.occurrence? infoPattern = some position →
      ¬ ReachesOverlong (bytes.drop (position + 6)) := by
  have hrest : ∀ position, (bytes.drop (position + 6)).length < 2 ^ 63 := by
    intro position
    rw [List.length_drop]
    omega
  constructor
  · intro h
    refine ⟨fun hover => h.parse ((panics_iff hlength).mpr hover), fun position hposition hover => ?_⟩
    exact h.extract ((extract_error_iff hlength (by decide)).mpr
      ⟨position, hposition, (panics_iff (hrest position)).mpr hover⟩)
  · intro h
    obtain ⟨htop, hinfo⟩ := h
    refine ⟨fun hpanic => htop ((panics_iff hlength).mp hpanic), fun hpanic => ?_,
      ⟨parse_ne_stuck hlength, fun hstuck => ?_⟩, fun sub hsub val len hrun => ?_⟩
    · obtain ⟨position, hposition, hpanic⟩ := (extract_error_iff hlength (by decide)).mp hpanic
      exact hinfo position hposition ((panics_iff (hrest position)).mp hpanic)
    · obtain ⟨position, -, hstuck⟩ := (extract_error_iff hlength (by decide)).mp hstuck
      exact parse_ne_stuck (hrest position) hstuck
    · exact parse_consumed (Nat.lt_of_le_of_lt hsub.length_le hlength) hrun

/-- `d4:infod1:ai5eee`. -/
def nestedInput : Bytes := [100, 52, 58, 105, 110, 102, 111, 100, 49, 58, 97, 105, 53, 101, 101, 101]

/-- A dictionary in the `info` entry of another is parsed safely. -/
theorem parsesSafely_nested : ParsesSafely nestedInput := by
  have hparse : parseBencodeChecked nestedInput =
      .ok (.dict [([105, 110, 102, 111], .dict [([97], .int 5)])], 16) := by rfl
  have hposition : nestedInput.occurrence? infoPattern = some 1 := by decide
  have hinfo : parseBencodeChecked (nestedInput.drop 7) = .ok (.dict [([97], .int 5)], 8) := by rfl
  refine (parsesSafely_iff (by decide)).mpr ⟨fun hover => ?_, fun position h hover => ?_⟩
  · rw [← panics_iff (by decide), hparse] at hover
    cases hover
  · obtain rfl : position = 1 := by simpa [hposition, eq_comm] using h
    rw [← panics_iff (by decide), hinfo] at hover
    cases hover

/-- `18446744073709551615:`, a string whose end does not fit into 64 bits. -/
def overlongInput : Bytes :=
  [49, 56, 52, 52, 54, 55, 52, 52, 48, 55, 51, 55, 48, 57, 53, 53, 49, 54, 49, 53, 58]

theorem overlongInput_not_safe : ¬ ParsesSafely overlongInput := by
  intro h
  have hover : Overlong overlongInput :=
    ⟨49, [56, 52, 52, 54, 55, 52, 52, 48, 55, 51, 55, 48, 57, 53, 53, 49, 54, 49, 53], [],
      18446744073709551615, rfl, by decide, by decide, by decide, by decide⟩
  exact h.parse (overlong_panics hover (by decide))

end StreamServer.LocalAddon

import Mathlib.Algebra.Ring.Nat
import StreamServer.Lib.Checked
import StreamServer.Lib.Pattern

/-!
# Texts with their matches replaced

All matches of a pattern in a text, one behind the other, are replaced by what a computation makes of their
parts; the text comes to nothing if one of these computations does.

* `Pattern.replaceAll` — the text with its matches replaced.
* `Pattern.NeverEmpty` — a pattern that takes one character at least.
* `matchAt_append_stop`, `replaceAll_append_stop` — **no match reaches over a character** that the pattern does not
  take, so a text is cut there.
* `count_replaceAll` — such a character is as often in the text as before.
* `replaceAll_eq_self_iff` — **a text stays as it is exactly if** each match does, where no match gets shorter.
-/

/-- **A text is cut at a character in one way**, with so many of these characters in front. -/
theorem List.append_cons_inj_of_count {α : Type*} [DecidableEq α] {c : α} {front front' back back' : List α}
    (hcount : front.count c = front'.count c) (h : front ++ c :: back = front' ++ c :: back') :
    front = front' ∧ back = back' := by
  induction front generalizing front' with
  | nil =>
    cases front' with
    | nil => exact ⟨rfl, (List.cons.inj h).2⟩
    | cons d front' =>
      rw [← (List.cons.inj h).1, List.count_nil, List.count_cons_self] at hcount
      omega
  | cons d front ih =>
    cases front' with
    | nil =>
      rw [(List.cons.inj h).1, List.count_nil, List.count_cons_self] at hcount
      omega
    | cons e front' =>
      obtain ⟨rfl, hrest⟩ := List.cons.inj h
      rw [List.count_cons, List.count_cons] at hcount
      obtain ⟨rfl, hback⟩ := ih (by omega) hrest
      exact ⟨rfl, hback⟩

/-- Such as none. -/
theorem List.append_cons_inj_of_not_mem {α : Type*} [DecidableEq α] {c : α} {front front' back back' : List α}
    (hfront : c ∉ front) (hfront' : c ∉ front') (h : front ++ c :: back = front' ++ c :: back') :
    front = front' ∧ back = back' := by
  refine List.append_cons_inj_of_count ?_ h
  rw [List.count_eq_zero.mpr hfront, List.count_eq_zero.mpr hfront']

namespace Pattern

open Checked (Run)

/-- A text with the matches in it replaced, when so many characters are passed over. -/
@[grind =] def replaceAll (pattern : List Piece) (replace : List (List Char) → Run (List Char)) :
    ℕ → List Char → Run (List Char)
  | _, [] => .ok []
  | skip + 1, _ :: rest => replaceAll pattern replace skip rest
  | 0, c :: rest =>
      match matchAt pattern (c :: rest) with
      | some parts => do
          let new ← replace parts
          let rest' ← replaceAll pattern replace (parts.flatten.length - 1) rest
          .ok (new ++ rest')
      | none => do
          let rest' ← replaceAll pattern replace 0 rest
          .ok (c :: rest')

variable {pattern : List Piece} {replace : List (List Char) → Run (List Char)} {text rest : List Char} {c : Char}

/-! ### One character -/

theorem replaceAll_none (h : matchAt pattern (c :: rest) = none) :
    replaceAll pattern replace 0 (c :: rest) =
      (replaceAll pattern replace 0 rest >>= fun rest' => .ok (c :: rest')) := by
  rw [replaceAll, h]

theorem replaceAll_some {parts : List (List Char)} (h : matchAt pattern (c :: rest) = some parts) :
    replaceAll pattern replace 0 (c :: rest) =
      (replace parts >>= fun new =>
        replaceAll pattern replace (parts.flatten.length - 1) rest >>= fun rest' => .ok (new ++ rest')) := by
  rw [replaceAll, h]

theorem replaceAll_skip (skip : ℕ) (text : List Char) :
    replaceAll pattern replace skip text = replaceAll pattern replace 0 (text.drop skip) := by
  induction text generalizing skip with
  | nil => rw [List.drop_nil, replaceAll, replaceAll]
  | cons c text ih =>
    cases skip with
    | zero => rfl
    | succ skip => exact ih skip

/-- A text in which the pattern nowhere matches. -/
theorem replaceAll_of_none (h : ∀ tail, tail <:+ text → matchAt pattern tail = none) :
    replaceAll pattern replace 0 text = .ok text := by
  induction text with
  | nil => rw [replaceAll]
  | cons c text ih =>
    rw [replaceAll_none (h _ List.suffix_rfl), ih fun tail htail => h tail (htail.trans (List.suffix_cons c text))]
    rfl

/-- A match ends where the text does, or before. -/
theorem length_le_of_matchAt {parts : List (List Char)} (h : matchAt pattern (c :: rest) = some parts) :
    parts.flatten.length - 1 ≤ rest.length := by
  have hle := (flatten_prefix_of_matchAt h).length_le
  rw [List.length_cons] at hle
  omega

/-! ### Where no match gets over -/

/-- No match is empty. -/
def NeverEmpty (pattern : List Piece) : Prop := ∀ text parts, matchAt pattern text = some parts → parts.flatten ≠ []

theorem NeverEmpty.matchAt_nil (h : NeverEmpty pattern) : matchAt pattern [] = none := by
  cases hmatch : matchAt pattern [] with
  | none => rfl
  | some parts => exact absurd (List.prefix_nil.mp (flatten_prefix_of_matchAt hmatch)) (h [] parts hmatch)

/-- A match, and what is behind it. -/
theorem NeverEmpty.eq_append (h : NeverEmpty pattern) {parts : List (List Char)}
    (hmatch : matchAt pattern (c :: rest) = some parts) :
    c :: rest = parts.flatten ++ rest.drop (parts.flatten.length - 1) := by
  have hprefix := List.prefix_iff_eq_take.mp (flatten_prefix_of_matchAt hmatch)
  have hpos := List.length_pos_of_ne_nil (h _ parts hmatch)
  obtain ⟨n, hn⟩ : ∃ n, parts.flatten.length = n + 1 := ⟨parts.flatten.length - 1, by omega⟩
  have hsplit := List.take_append_drop parts.flatten.length (c :: rest)
  rw [← hprefix, hn, List.drop_succ_cons] at hsplit
  rw [hn, Nat.add_sub_cancel, hsplit]

section Stop

variable (hstop : ∀ piece ∈ pattern, piece.accepts c = false)

include hstop

/-- A match does not have such a character. -/
theorem notMem_of_matchAt {parts : List (List Char)} (h : matchAt pattern text = some parts) :
    c ∉ parts.flatten := by
  induction pattern generalizing text parts with
  | nil =>
    cases h
    exact List.not_mem_nil
  | cons piece pieces ih =>
    rw [matchAt] at h
    obtain ⟨less, -, hless⟩ := List.exists_of_findSome?_eq_some h
    obtain ⟨later, hlater, rfl⟩ := Option.map_eq_some_iff.mp hless
    have hreach : piece.reach text - less ≤ (text.takeWhile piece.accepts).length := by
      refine Nat.le_trans (Nat.sub_le _ _) ?_
      rw [Piece.reach]
      split
      · exact Nat.le_refl _
      · exact Nat.min_le_left _ _
    have htake : text.take (piece.reach text - less) <+: text.takeWhile piece.accepts :=
      List.prefix_of_prefix_length_le (List.take_prefix _ _) (List.takeWhile_prefix _)
        (Nat.le_trans (List.length_take_le _ _) hreach)
    rw [List.flatten_cons, List.mem_append, not_or]
    refine ⟨fun hmem => ?_, ih (fun piece' hmem => hstop piece' (List.mem_cons_of_mem piece hmem)) hlater⟩
    have haccepts := List.mem_takeWhile_imp (htake.subset hmem)
    rw [hstop piece List.mem_cons_self] at haccepts
    cases haccepts

/-- **No match reaches over** such a character. -/
theorem matchAt_append_stop (text rest : List Char) :
    matchAt pattern (text ++ c :: rest) = matchAt pattern text := by
  induction pattern generalizing text with
  | nil => rfl
  | cons piece pieces ih =>
    have htake : ∀ text : List Char, (text ++ c :: rest).takeWhile piece.accepts = text.takeWhile piece.accepts := by
      intro text
      induction text with
      | nil => exact List.takeWhile_cons_of_neg (by simp [hstop piece List.mem_cons_self])
      | cons d text ihtext => rw [List.cons_append, List.takeWhile_cons, List.takeWhile_cons, ihtext]
    have hreach : piece.reach (text ++ c :: rest) = piece.reach text := by
      rw [Piece.reach, Piece.reach, htake]
    have hle : piece.reach text ≤ text.length := by
      have hprefix : (text.takeWhile piece.accepts).length ≤ text.length := (List.takeWhile_prefix _).length_le
      rw [Piece.reach]
      split
      · exact hprefix
      · exact Nat.le_trans (Nat.min_le_left _ _) hprefix
    rw [matchAt, matchAt, hreach]
    refine congrArg (fun f => List.findSome? f _) (funext fun less => ?_)
    have hless : piece.reach text - less ≤ text.length := Nat.le_trans (Nat.sub_le _ _) hle
    rw [List.drop_append_of_le_length hless, List.take_append_of_le_length hless,
      ih (fun piece' hmem => hstop piece' (List.mem_cons_of_mem piece hmem))]

theorem replaceAll_append_stop_skip (hempty : NeverEmpty pattern) (text rest : List Char) {skip : ℕ}
    (hskip : skip ≤ text.length) : replaceAll pattern replace skip (text ++ c :: rest) =
      (replaceAll pattern replace skip text >>= fun text' =>
        replaceAll pattern replace 0 rest >>= fun rest' => .ok (text' ++ c :: rest')) := by
  induction text generalizing skip with
  | nil =>
    rw [List.length_nil, Nat.le_zero] at hskip
    have hnone := matchAt_append_stop hstop [] rest
    rw [hempty.matchAt_nil] at hnone
    rw [hskip]
    exact replaceAll_none hnone
  | cons d text ih =>
    rw [List.length_cons] at hskip
    cases skip with
    | succ skip => exact ih (Nat.le_of_succ_le_succ hskip)
    | zero =>
      have hsame := matchAt_append_stop hstop (d :: text) rest
      rw [List.cons_append] at hsame ⊢
      cases hmatch : matchAt pattern (d :: text) with
      | none =>
        rw [replaceAll_none (hsame.trans hmatch), replaceAll_none hmatch, ih (Nat.zero_le _)]
        simp only [bind_assoc, Checked.ok_bind, List.cons_append]
      | some parts =>
        rw [replaceAll_some (hsame.trans hmatch), replaceAll_some hmatch, ih (length_le_of_matchAt hmatch)]
        simp only [bind_assoc, Checked.ok_bind, List.append_assoc]

/-- **The text is cut** at such a character. -/
theorem replaceAll_append_stop (hempty : NeverEmpty pattern) (text rest : List Char) :
    replaceAll pattern replace 0 (text ++ c :: rest) =
      (replaceAll pattern replace 0 text >>= fun text' =>
        replaceAll pattern replace 0 rest >>= fun rest' => .ok (text' ++ c :: rest')) :=
  replaceAll_append_stop_skip hstop hempty text rest (Nat.zero_le _)

/-- **Such a character is as often** in the text as before. -/
theorem count_replaceAll (hempty : NeverEmpty pattern)
    (hreplace : ∀ text parts new, matchAt pattern text = some parts → replace parts = .ok new → c ∉ new) {skip : ℕ} {out : List Char}
    (h : replaceAll pattern replace skip text = .ok out) : out.count c = (text.drop skip).count c := by
  induction text generalizing skip out with
  | nil =>
    rw [replaceAll] at h
    rw [← Except.ok.inj h, List.drop_nil]
  | cons d text ih =>
    cases skip with
    | succ skip => exact ih h
    | zero =>
      cases hmatch : matchAt pattern (d :: text) with
      | none =>
        rw [replaceAll_none hmatch, Checked.bind_ok_iff] at h
        obtain ⟨rest', hrest, hout⟩ := h
        rw [← Except.ok.inj hout, List.count_cons, ih hrest, List.drop_zero, List.drop_zero, List.count_cons]
      | some parts =>
        rw [replaceAll_some hmatch, Checked.bind_ok_iff] at h
        obtain ⟨new, hnew, h⟩ := h
        obtain ⟨rest', hrest, hout⟩ := Checked.bind_ok_iff.mp h
        have hall := hempty.eq_append hmatch
        have hnew' := List.count_eq_zero.mpr (hreplace _ parts new hmatch hnew)
        have hparts := List.count_eq_zero.mpr (notMem_of_matchAt hstop hmatch)
        rw [← Except.ok.inj hout, List.count_append, ih hrest, hnew', List.drop_zero, hall, List.count_append, hparts]

end Stop

/-! ### What stays as it is -/

theorem exists_matchAt_of_mem_findAll {skip : ℕ} {parts : List (List Char)} (h : parts ∈ findAll pattern skip text) :
    ∃ tail, matchAt pattern tail = some parts := by
  induction text generalizing skip with
  | nil =>
    rw [findAll] at h
    cases h
  | cons c text ih =>
    cases skip with
    | succ skip => exact ih h
    | zero =>
      rw [findAll] at h
      cases hmatch : matchAt pattern (c :: text) with
      | none =>
        simp only [hmatch] at h
        exact ih h
      | some parts' =>
        simp only [hmatch, List.mem_cons] at h
        cases h with
        | inl h => exact ⟨c :: text, h ▸ hmatch⟩
        | inr h => exact ih h

section Same

variable (hempty : NeverEmpty pattern)
  (hgrows : ∀ text parts new, matchAt pattern text = some parts → replace parts = .ok new →
    parts.flatten.length ≤ new.length)

include hempty hgrows

theorem length_le_replaceAll {skip : ℕ} {out : List Char} (h : replaceAll pattern replace skip text = .ok out) :
    (text.drop skip).length ≤ out.length := by
  induction text generalizing skip out with
  | nil =>
    rw [replaceAll] at h
    rw [← Except.ok.inj h, List.drop_nil]
  | cons d text ih =>
    cases skip with
    | succ skip => exact ih h
    | zero =>
      cases hmatch : matchAt pattern (d :: text) with
      | none =>
        rw [replaceAll_none hmatch, Checked.bind_ok_iff] at h
        obtain ⟨rest', hrest, hout⟩ := h
        have hle := ih hrest
        rw [← Except.ok.inj hout, List.drop_zero, List.length_cons, List.length_cons]
        rw [List.drop_zero] at hle
        omega
      | some parts =>
        rw [replaceAll_some hmatch, Checked.bind_ok_iff] at h
        obtain ⟨new, hnew, h⟩ := h
        obtain ⟨rest', hrest, hout⟩ := Checked.bind_ok_iff.mp h
        have hnew' := hgrows _ parts new hmatch hnew
        have hle := ih hrest
        rw [← Except.ok.inj hout, List.drop_zero, hempty.eq_append hmatch, List.length_append, List.length_append]
        omega

/-- **A text stays as it is exactly if** each match in it does. -/
theorem replaceAll_eq_self_iff (skip : ℕ) : replaceAll pattern replace skip text = .ok (text.drop skip) ↔
    ∀ parts ∈ findAll pattern skip text, replace parts = .ok parts.flatten := by
  induction text generalizing skip with
  | nil => simp [replaceAll, findAll]
  | cons d text ih =>
    cases skip with
    | succ skip => exact ih skip
    | zero =>
      rw [findAll, List.drop_zero]
      cases hmatch : matchAt pattern (d :: text) with
      | none =>
        have hrest := ih 0
        rw [List.drop_zero] at hrest
        rw [replaceAll_none hmatch, Checked.bind_ok_iff, ← hrest]
        constructor
        · intro h
          obtain ⟨rest', hrest', hout⟩ := h
          rw [hrest', (List.cons.inj (Except.ok.inj hout)).2]
        · exact fun h => ⟨text, h, rfl⟩
      | some parts =>
        have hall := hempty.eq_append hmatch
        simp only [List.forall_mem_cons]
        rw [replaceAll_some hmatch, Checked.bind_ok_iff, ← ih]
        constructor
        · intro h
          obtain ⟨new, hnew, h⟩ := h
          obtain ⟨rest', hrest, hout⟩ := Checked.bind_ok_iff.mp h
          -- Nothing gets shorter, so nothing gets longer.
          have hlength := hgrows _ parts new hmatch hnew
          have hlength' := length_le_replaceAll hempty hgrows hrest
          have hboth := (Except.ok.inj hout).trans hall
          have htotal := congrArg List.length hboth
          rw [List.length_append, List.length_append] at htotal
          obtain ⟨rfl, rfl⟩ := List.append_inj hboth (by omega)
          exact ⟨hnew, hrest⟩
        · intro h
          refine ⟨parts.flatten, h.1, ?_⟩
          rw [h.2, Checked.ok_bind, ← hall]

end Same

end Pattern

import StreamServer.Lib.Checked
import StreamServer.Lib.Scan

/-!
# Loops over an index

A loop that looks at a buffer from an index on, and moves the index forward, is a scan of what is left of
the buffer.

* `Checked.elem`, `Checked.standsAt` — an element of a buffer, and whether a pattern stands in it, with
  the index checked.
* `Checked.indexLoop` — the loop.
* `Checked.firstOf` — the loop over some indices that returns at the first that says so.
* `indexLoop_eq_scan` — **the loop is a scan**; in particular it ends, and nothing in it panics.
-/

namespace Checked

variable {α σ τ β : Type}

/-- An element of a buffer. -/
def elem (data : List α) (i : ℕ) : Run α :=
  match data[i]? with
  | some a => .ok a
  | none => .error .panic

/-- Whether a pattern stands in a buffer; only as far as it does, the buffer is looked at. -/
def standsAt [DecidableEq α] (data : List α) : List α → ℕ → Run Bool
  | [], _ => .ok true
  | a :: pattern, pos => do
      let b ← elem data pos
      if b = a then standsAt data pattern (pos + 1) else .ok false

/-- A loop whose body looks from an index on, and says how far to go or stops. -/
def indexLoop (body : τ → ℕ → Run (ScanStep τ β)) : ℕ → τ → ℕ → Run β
  | 0, _, _ => .error .stuck
  | fuel + 1, t, pos => do
      match ← body t pos with
      | .stop result => .ok result
      | .advance t' skip => do
          let next ← add (2 ^ 64) pos (skip + 1)
          indexLoop body fuel t' next

/-- A loop over indices, up to the first that has a result. -/
def firstOf (f : ℕ → Run (Option β)) : List ℕ → Run (Option β)
  | [] => .ok none
  | i :: is => do
      match ← f i with
      | some result => .ok (some result)
      | none => firstOf f is

theorem firstOf_eq {f : ℕ → Run (Option β)} {g : ℕ → Option β} {is : List ℕ}
    (h : ∀ i ∈ is, f i = .ok (g i)) : firstOf f is = .ok (is.findSome? g) := by
  induction is with
  | nil => rfl
  | cons i is ih =>
    rw [firstOf, h i List.mem_cons_self, ok_bind, List.findSome?_cons]
    cases g i with
    | some result => rfl
    | none => exact ih fun i' hi' => h i' (List.mem_cons_of_mem _ hi')

theorem elem_of_lt {data : List α} {i : ℕ} (h : i < data.length) : elem data i = .ok data[i] := by
  rw [elem, List.getElem?_eq_getElem h]

theorem standsAt_eq [DecidableEq α] {data pattern : List α} {pos : ℕ}
    (h : pos + pattern.length ≤ data.length) :
    standsAt data pattern pos = .ok (decide ((data.drop pos).take pattern.length = pattern)) := by
  induction pattern generalizing pos with
  | nil => simp [standsAt]
  | cons a pattern ih =>
    rw [List.length_cons] at h
    have hlt : pos < data.length := by omega
    rw [standsAt, elem_of_lt hlt, ok_bind, List.drop_eq_getElem_cons hlt, List.length_cons,
      List.take_succ_cons]
    by_cases heq : data[pos] = a
    · rw [if_pos heq, ih (by omega)]
      simp [heq]
    · rw [if_neg heq]
      simp [heq]

/-- A turn of the loop is one of the scan, where the state of the scan is found from that of the loop and
the index; it does not go too far. -/
def Matches (bound : ℕ) (state : τ → ℕ → σ) (pos : ℕ) :
    ScanStep τ β → ScanStep σ β → Prop
  | .stop result, look => look = .stop result
  | .advance t skip, look => skip + 1 ≤ bound ∧ look = .advance (state t (pos + (skip + 1))) skip

/-- **The loop is a scan.** -/
theorem indexLoop_eq_scan {body : τ → ℕ → Run (ScanStep τ β)} {look : σ → List α → ScanStep σ β}
    {final : σ → β} (state : τ → ℕ → σ) (bound : ℕ) {data : List α}
    (hbound : data.length + bound ≤ 2 ^ 64)
    (hinside : ∀ t pos, pos < data.length → ∃ step, body t pos = .ok step ∧
      Matches bound state pos step (look (state t pos) (data.drop pos)))
    (hend : ∀ t pos, data.length ≤ pos → pos ≤ data.length + bound →
      body t pos = .ok (.stop (final (state t pos))))
    {fuel : ℕ} (t : τ) {pos : ℕ} (hpos : pos ≤ data.length + bound)
    (hfuel : data.length < fuel + pos) (hone : 1 ≤ fuel) :
    indexLoop body fuel t pos = .ok (scan look final 0 (state t pos) (data.drop pos)) := by
  induction fuel generalizing t pos with
  | zero => omega
  | succ fuel ih =>
    rw [indexLoop]
    by_cases hlt : pos < data.length
    · obtain ⟨step, hbody, hstep⟩ := hinside t pos hlt
      rw [hbody, ok_bind, List.drop_eq_getElem_cons hlt, scan, ← List.drop_eq_getElem_cons hlt]
      cases step with
      | stop result =>
        have hlook : look (state t pos) (data.drop pos) = .stop result := hstep
        rw [hlook]
      | advance t' skip =>
        obtain ⟨hskip, hlook⟩ := hstep
        rw [hlook]
        dsimp only
        rw [add_of_lt (by omega), ok_bind, scan_drop, List.drop_drop,
          ih t' (by omega) (by omega) (by omega)]
        congr 3
        omega
    · rw [hend t pos (by omega) hpos, ok_bind, List.drop_eq_nil_of_le (by omega), scan_nil]

end Checked

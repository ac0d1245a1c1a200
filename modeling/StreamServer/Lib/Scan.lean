import Mathlib.Data.List.Basic

/-!
# Scanning a list for what is in it

A scan looks at what is left of a list, and moves on by one value or, past something that
it has recognised, by more; it keeps a state, and may stop with a result.  Index loops
over a buffer are such scans, with the rest of the buffer in place of the index.

* `scan` — what a scan comes to.
* `scan_noise` — a scan goes through values that say nothing to it.
* `scan_drop` — what is to be skipped can be taken away before.
* `scan_map` — the result of a scan may be changed where it stops.
* `scan_pass_or_stop` — a scan goes through such values, or stops early with the same result.
* `scan_jump` — it jumps over what it recognises.
* `scan_stop` — or stops there.
* `scan_rest` — and it comes to its end through what says nothing.
* `scan_items` — a run of such things, one after the other.
* `scan_eq_some` — what a scan returns it has found somewhere.
* `Avoids` — a pattern does not occur before the place where it is expected.
-/

section Scan

variable {α σ β ι : Type*}

/-- What a scan does where it looks: it moves on past this value and some more, or stops. -/
inductive ScanStep (σ β : Type*)
  | advance (state : σ) (skip : ℕ)
  | stop (result : β)

variable (look : σ → List α → ScanStep σ β) (final : σ → β)

/-- The scan of a list, the first values of which are to be skipped. -/
def scan : ℕ → σ → List α → β
  | _, s, [] => final s
  | skip + 1, s, _ :: rest => scan skip s rest
  | 0, s, a :: rest =>
      match look s (a :: rest) with
      | .stop result => result
      | .advance s' skip => scan skip s' rest

variable {look final} {s s' : σ} {xs ys noise : List α}

theorem scan_nil (skip : ℕ) : scan look final skip s [] = final s := by
  cases skip <;> simp [scan]

theorem scan_skip (xs ys : List α) :
    scan look final xs.length s (xs ++ ys) = scan look final 0 s ys := by
  induction xs with
  | nil => simp
  | cons x xs ih => simpa [scan] using ih

/-- What is to be skipped can be taken away before. -/
theorem scan_drop (skip : ℕ) (xs : List α) :
    scan look final skip s xs = scan look final 0 s (xs.drop skip) := by
  induction skip generalizing xs with
  | zero => rfl
  | succ skip ih =>
    cases xs with
    | nil => rfl
    | cons x xs => exact ih xs

/-- A step with another result. -/
def ScanStep.mapResult {γ : Type*} (f : β → γ) : ScanStep σ β → ScanStep σ γ
  | .advance s skip => .advance s skip
  | .stop result => .stop (f result)

/-- The result of a scan may be changed where it stops. -/
theorem scan_map {γ : Type*} (f : β → γ) (skip : ℕ) (s : σ) (xs : List α) :
    scan (fun s xs => (look s xs).mapResult f) (fun s => f (final s)) skip s xs =
      f (scan look final skip s xs) := by
  induction xs generalizing skip s with
  | nil => rw [scan_nil, scan_nil]
  | cons x xs ih =>
    cases skip with
    | succ skip => exact ih skip s
    | zero =>
      rw [scan, scan]
      cases look s (x :: xs) with
      | stop result => rfl
      | advance s' skip => exact ih skip s'

/-- Values that are passed one by one, while the state goes through `t`. -/
theorem scan_pass (t : ℕ → σ) (noise ys : List α)
    (h : ∀ k < noise.length, look (t k) ((noise ++ ys).drop k) = .advance (t (k + 1)) 0) :
    scan look final 0 (t 0) (noise ++ ys) = scan look final 0 (t noise.length) ys := by
  induction noise generalizing t with
  | nil => simp
  | cons x noise ih =>
    have hfirst := h 0 (by simp)
    rw [List.drop_zero, List.cons_append] at hfirst
    rw [List.cons_append, scan, hfirst]
    dsimp only
    rw [ih (fun k => t (k + 1)) fun k hk => by simpa using h (k + 1) (by simpa using hk)]
    simp

/-- **Noise.**  Values that say nothing are passed. -/
theorem scan_noise (h : ∀ k < noise.length, look s ((noise ++ ys).drop k) = .advance s 0) :
    scan look final 0 s (noise ++ ys) = scan look final 0 s ys :=
  scan_pass (fun _ => s) noise ys h

/-- Values that say nothing, among which the scan may stop with what it would come to. -/
theorem scan_pass_or_stop {result : β} (hrest : scan look final 0 s ys = result)
    (h : ∀ k < noise.length, look s ((noise ++ ys).drop k) = .advance s 0 ∨
      look s ((noise ++ ys).drop k) = .stop result) :
    scan look final 0 s (noise ++ ys) = result := by
  induction noise with
  | nil => exact hrest
  | cons x noise ih =>
    have hfirst := h 0 (by simp)
    rw [List.drop_zero, List.cons_append] at hfirst
    rw [List.cons_append]
    rcases hfirst with hadvance | hstop
    · rw [scan, hadvance]
      exact ih fun k hk => by simpa using h (k + 1) (by simpa using hk)
    · rw [scan, hstop]

/-- **Jump.**  What is recognised is passed as a whole. -/
theorem scan_jump (hxs : xs ≠ []) (h : look s (xs ++ ys) = .advance s' (xs.length - 1)) :
    scan look final 0 s (xs ++ ys) = scan look final 0 s' ys := by
  cases xs with
  | nil => exact absurd rfl hxs
  | cons x xs =>
    rw [List.cons_append] at h ⊢
    rw [scan, h]
    exact scan_skip xs ys

/-- **Stop.** -/
theorem scan_stop {result : β} (hxs : xs ≠ []) (h : look s xs = .stop result) :
    scan look final 0 s xs = result := by
  cases xs with
  | nil => exact absurd rfl hxs
  | cons x xs => rw [scan, h]

/-- **The rest.**  A scan that finds nothing more comes to its end, or stops before with the
same result. -/
theorem scan_rest (h : ∀ k < noise.length, look s (noise.drop k) = .advance s 0 ∨
    look s (noise.drop k) = .stop (final s)) : scan look final 0 s noise = final s := by
  induction noise with
  | nil => exact scan_nil 0
  | cons x noise ih =>
    have hfirst := h 0 (by simp)
    rw [List.drop_zero] at hfirst
    rcases hfirst with hadvance | hstop
    · rw [scan, hadvance]
      exact ih fun k hk => by simpa using h (k + 1) (by simpa using hk)
    · rw [scan, hstop]

/-- **A run of items**, each of which the scan passes on its own. -/
theorem scan_items (bytes : ι → List α) (update : σ → ι → σ) (items : List ι) (ys : List α)
    (h : ∀ item ∈ items, ∀ s ys, scan look final 0 s (bytes item ++ ys) =
      scan look final 0 (update s item) ys) (s : σ) :
    scan look final 0 s (items.flatMap bytes ++ ys) =
      scan look final 0 (items.foldl update s) ys := by
  induction items generalizing s with
  | nil => simp
  | cons item items ih =>
    rw [List.flatMap_cons, List.append_assoc, h item (by simp), List.foldl_cons]
    exact ih (fun item' hitem => h item' (by simp [hitem])) _

/-- **Found somewhere.**  A scan that has nothing to return at its end has stopped before. -/
theorem scan_eq_some {γ : Type*} {look : σ → List α → ScanStep σ (Option γ)} {c : γ} {skip : ℕ}
    (h : scan look (fun _ => none) skip s xs = some c) :
    ∃ t ys, ys <:+ xs ∧ look t ys = .stop (some c) := by
  induction xs generalizing skip s with
  | nil =>
    rw [scan_nil] at h
    cases h
  | cons x xs ih =>
    have hlater : ∀ {skip s}, scan look (fun _ => none) skip s xs = some c →
        ∃ t ys, ys <:+ x :: xs ∧ look t ys = .stop (some c) := by
      intro skip s h
      obtain ⟨t, ys, hys, hstop⟩ := ih h
      exact ⟨t, ys, hys.trans (List.suffix_cons x xs), hstop⟩
    cases skip with
    | succ skip => exact hlater h
    | zero =>
      cases hlook : look s (x :: xs) with
      | stop result =>
        rw [scan, hlook] at h
        exact ⟨s, x :: xs, List.suffix_rfl, hlook.trans (congrArg _ h)⟩
      | advance s' skip =>
        rw [scan, hlook] at h
        exact hlater h

/-! ### Patterns -/

/-- A pattern does not begin in the noise that stands before something. -/
def Avoids (pattern noise next : List α) : Prop :=
  ∀ k < noise.length, ((noise ++ next).drop k).take pattern.length ≠ pattern

instance [DecidableEq α] (pattern noise next : List α) : Decidable (Avoids pattern noise next) :=
  inferInstanceAs (Decidable (∀ k < noise.length, _))

/-- What comes further behind does not matter. -/
theorem Avoids.append {pattern next : List α} (h : Avoids pattern noise next)
    (hnext : pattern.length ≤ next.length + 1) (ys : List α) {k : ℕ} (hk : k < noise.length) :
    ((noise ++ (next ++ ys)).drop k).take pattern.length ≠ pattern := by
  have heq : ((noise ++ (next ++ ys)).drop k).take pattern.length =
      ((noise ++ next).drop k).take pattern.length := by
    rw [← List.append_assoc, List.drop_append_of_le_length (by simp; omega),
      List.take_append_of_le_length (by simp; omega)]
  rw [heq]
  exact h k hk

end Scan

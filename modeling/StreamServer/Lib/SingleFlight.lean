import Mathlib.Data.List.Basic
import Mathlib.Logic.Function.Basic
import StreamServer.Lib.GuardedSystem

/-!
# Single flights

Calls that want the same costly value should not all compute it.  A table gives the calls for
a key a *cell* to share: the call that gets the permit of the cell computes the value, the
others wait for it.  When a call has the result it takes the cell out of the table, unless
another one is there by then, and a value worth keeping goes into a cache, where later calls
look first.

Between the cache and the table, between the table and the cell, and between the cell and the
cache other calls run, and a call can be dropped wherever it waits.  The permit of a call that
is dropped while it computes goes back to the cell, so that another one takes it.

## Main definitions

* `SingleFlight` — the cache, the table of cells, the cells, and the calls under way.
* `SingleFlight.flights` — the steps of the calls.
* `SingleFlight.Sound` — the invariant.

## Main results

* `SingleFlight.sound_of_reach` — the invariant holds in every run.
* `SingleFlight.one_flight` — **at most one call computes a value for a key.**
* `SingleFlight.shares` — calls that still wait for a value of one key wait for the same one.
* `SingleFlight.answers` — what is returned or cached has been computed, for that key.
* `SingleFlight.exists_returned` — a call that is not dropped can always be brought to its end.
-/

universe u v w

/-- How far a call is. -/
inductive Flight.Phase (ε : Type v) (υ : Type w)
  /-- It looks into the cache. -/
  | checking
  /-- It asks the table for a cell. -/
  | joining
  | waiting (cell : ℕ)
  /-- It has the permit of the cell, and computes the value. -/
  | running (cell : ℕ)
  /-- It has the result, and takes the cell out of the table. -/
  | leaving (cell : ℕ) (result : Except ε υ)
  /-- It puts the value into the cache. -/
  | storing (result : Except ε υ)
  | returned (result : Except ε υ)
  deriving DecidableEq

/-- A call, with what it asks for. -/
structure Flight (κ : Type u) (ε : Type v) (υ : Type w) where
  key : κ
  phase : Flight.Phase ε υ
  deriving DecidableEq

/-- The cells are numbered in the order they are made. -/
structure SingleFlight (κ : Type u) (ε : Type v) (υ : Type w) where
  cache : κ → Option υ
  inflight : κ → Option ℕ
  cells : ℕ
  result : ℕ → Option (Except ε υ)
  /-- The call that has the permit of a cell. -/
  permit : ℕ → Option ℕ
  calls : ℕ → Option (Flight κ ε υ)
  /-- The key a cell has been made for. -/
  keyOf : ℕ → Option κ
  /-- What has been computed so far. -/
  computed : List (κ × Except ε υ)

namespace SingleFlight

variable {κ : Type u} {ε : Type v} {υ : Type w}

/-- Nothing is cached, and nobody has called. -/
def new : SingleFlight κ ε υ :=
  ⟨fun _ => none, fun _ => none, 0, fun _ => none, fun _ => none, fun _ => none, fun _ => none, []⟩

/-! ### Steps -/

/-- What a call can do. -/
inductive CallStep (ε : Type v) (υ : Type w)
  | look
  | join
  | acquire (cell : ℕ)
  | finish (cell : ℕ) (result : Except ε υ)
  | observe (cell : ℕ) (result : Except ε υ)
  | leave (cell : ℕ) (result : Except ε υ)
  | store (result : Except ε υ)

/-- A call comes, does a step, or is dropped. -/
inductive Action (κ : Type u) (ε : Type v) (υ : Type w)
  | start (i : ℕ) (key : κ)
  | call (i : ℕ) (step : CallStep ε υ)
  /-- The call is dropped. -/
  | drop (i : ℕ)

section Steps

variable (s : SingleFlight κ ε υ)

/-- The call `i` for `key` goes on at `phase`. -/
def setPhase (i : ℕ) (key : κ) (phase : Flight.Phase ε υ) : SingleFlight κ ε υ :=
  { s with calls := Function.update s.calls i (some ⟨key, phase⟩) }

@[simp] theorem calls_setPhase (i : ℕ) (key : κ) (phase : Flight.Phase ε υ) :
    (s.setPhase i key phase).calls = Function.update s.calls i (some ⟨key, phase⟩) := rfl

variable [DecidableEq κ]

/-- The call gets the cell of its key, or makes one. -/
def join (i : ℕ) (key : κ) : SingleFlight κ ε υ :=
  match s.inflight key with
  | some cell => s.setPhase i key (.waiting cell)
  | none =>
      { s.setPhase i key (.waiting s.cells) with
        inflight := Function.update s.inflight key (some s.cells)
        cells := s.cells + 1
        result := Function.update s.result s.cells none
        permit := Function.update s.permit s.cells none
        keyOf := Function.update s.keyOf s.cells (some key) }

/-- The cell leaves the table if it is the one there. -/
def leave (i : ℕ) (key : κ) (cell : ℕ) (result : Except ε υ) : SingleFlight κ ε υ :=
  { s.setPhase i key (.storing result) with
    inflight :=
      if s.inflight key = some cell then Function.update s.inflight key none else s.inflight }

/-- A value worth keeping goes into the cache. -/
def store (keep : υ → Bool) (i : ℕ) (key : κ) (result : Except ε υ) : SingleFlight κ ε υ :=
  { s.setPhase i key (.returned result) with
    cache :=
      match result with
      | .ok value => if keep value then Function.update s.cache key (some value) else s.cache
      | .error _ => s.cache }

/-- The permit of a call that is dropped goes back. -/
def drop (i : ℕ) : SingleFlight κ ε υ :=
  { s with
    calls := Function.update s.calls i none
    permit := fun cell => if s.permit cell = some i then none else s.permit cell }

end Steps

/-- The step may be taken; `computes` says what computing a value can come to. -/
def CallStep.guard (computes : κ → Except ε υ → Prop) (s : SingleFlight κ ε υ)
    (call : Flight κ ε υ) : CallStep ε υ → Prop
  | .look => call.phase = .checking
  | .join => call.phase = .joining
  | .acquire cell => call.phase = .waiting cell ∧ s.result cell = none ∧ s.permit cell = none
  | .finish cell result => call.phase = .running cell ∧ computes call.key result
  | .observe cell result => call.phase = .waiting cell ∧ s.result cell = some result
  | .leave cell result => call.phase = .leaving cell result
  | .store result => call.phase = .storing result

/-- What a step of the call `i` does. -/
def CallStep.effect [DecidableEq κ] (keep : υ → Bool) (s : SingleFlight κ ε υ) (i : ℕ) (key : κ) :
    CallStep ε υ → SingleFlight κ ε υ
  | .look =>
      match (s.cache key).filter keep with
      | some value => s.setPhase i key (.returned (.ok value))
      | none => s.setPhase i key .joining
  | .join => s.join i key
  | .acquire cell =>
      { s.setPhase i key (.running cell) with permit := Function.update s.permit cell (some i) }
  | .finish cell result =>
      { s.setPhase i key (.leaving cell result) with
        result := Function.update s.result cell (some result)
        permit := Function.update s.permit cell none
        computed := s.computed ++ [(key, result)] }
  | .observe cell result => s.setPhase i key (.leaving cell result)
  | .leave cell result => s.leave i key cell result
  | .store result => s.store keep i key result

/-- When an action can happen. -/
def Action.guard (computes : κ → Except ε υ → Prop) (s : SingleFlight κ ε υ) :
    Action κ ε υ → Prop
  | .start i _ => s.calls i = none
  | .call i step => ∃ call ∈ s.calls i, step.guard computes s call
  | .drop i => s.calls i ≠ none

/-- What an action does. -/
def Action.effect [DecidableEq κ] (keep : υ → Bool) (s : SingleFlight κ ε υ) : Action κ ε υ → SingleFlight κ ε υ
  | .start i key => s.setPhase i key .checking
  | .call i step =>
      match s.calls i with
      | some ⟨key, _⟩ => step.effect keep s i key
      | none => s
  | .drop i => s.drop i

/-- The calls that share flights: `keep` says what is worth keeping. -/
def flights [DecidableEq κ] (computes : κ → Except ε υ → Prop) (keep : υ → Bool) :
    GuardedSystem (SingleFlight κ ε υ) (Action κ ε υ) :=
  ⟨fun s a => a.guard computes s, fun s a => a.effect keep s⟩

section Decidable

variable [DecidableEq ε] [DecidableEq υ] (computes : κ → Except ε υ → Prop)
  [∀ k r, Decidable (computes k r)] (s : SingleFlight κ ε υ)

instance (call : Flight κ ε υ) : ∀ step : CallStep ε υ, Decidable (step.guard computes s call)
  | .look | .join | .leave _ _ | .store _ => inferInstanceAs (Decidable (_ = _))
  | .acquire _ | .finish _ _ | .observe _ _ => inferInstanceAs (Decidable (_ ∧ _))

instance [DecidableEq κ] (keep : υ → Bool) :
    ∀ a : Action κ ε υ, Decidable ((flights computes keep).guard s a)
  | .start i _ => inferInstanceAs (Decidable (s.calls i = none))
  | .call i step => inferInstanceAs (Decidable (∃ call ∈ s.calls i, step.guard computes s call))
  | .drop i => inferInstanceAs (Decidable (s.calls i ≠ none))

end Decidable

/-! ### The invariant -/

variable {computes : κ → Except ε υ → Prop} {keep : υ → Bool} {s t : SingleFlight κ ε υ}

/-- What a call knows. -/
def CallSound (s : SingleFlight κ ε υ) (i : ℕ) (call : Flight κ ε υ) : Prop :=
  match call.phase with
  | .checking | .joining => True
  | .waiting cell =>
      s.keyOf cell = some call.key ∧ (s.result cell = none → s.inflight call.key = some cell)
  | .running cell =>
      s.keyOf cell = some call.key ∧ s.inflight call.key = some cell ∧ s.result cell = none ∧
        s.permit cell = some i
  | .leaving cell result => s.keyOf cell = some call.key ∧ s.result cell = some result
  | .storing result | .returned result => (call.key, result) ∈ s.computed

/-- What holds of the cells and the cache whatever the calls have done. -/
structure Sound (computes : κ → Except ε υ → Prop) (keep : υ → Bool) (s : SingleFlight κ ε υ) :
    Prop where
  call : ∀ i, ∀ call ∈ s.calls i, s.CallSound i call
  /-- Cells are made in turn. -/
  made : ∀ cell key, s.keyOf cell = some key → cell < s.cells
  table : ∀ key cell, s.inflight key = some cell → s.keyOf cell = some key
  permit : ∀ cell i, s.permit cell = some i → ∃ call ∈ s.calls i, call.phase = .running cell
  result : ∀ cell key r, s.keyOf cell = some key → s.result cell = some r →
    (key, r) ∈ s.computed
  cache : ∀ key value, s.cache key = some value → keep value = true ∧ (key, .ok value) ∈ s.computed
  computed : ∀ entry ∈ s.computed, computes entry.1 entry.2

theorem sound_new : (new : SingleFlight κ ε υ).Sound computes keep := by
  constructor <;> simp [new]

/-- A step that leaves alone what another call knows. -/
structure Frame (s t : SingleFlight κ ε υ) (i : ℕ) (call : Flight κ ε υ) : Prop where
  keyOf : ∀ cell key, s.keyOf cell = some key → t.keyOf cell = some key
  result : ∀ cell r, s.keyOf cell ≠ none → s.result cell = some r → t.result cell = some r
  inflight : ∀ cell, s.keyOf cell = some call.key → t.result cell = none →
    s.inflight call.key = some cell → t.inflight call.key = some cell
  running : ∀ cell, s.keyOf cell ≠ none → s.permit cell = some i → s.result cell = none →
    t.permit cell = some i ∧ t.result cell = none
  computed : ∀ entry ∈ s.computed, entry ∈ t.computed

theorem CallSound.frame {i : ℕ} {call : Flight κ ε υ} (h : s.CallSound i call)
    (hf : Frame s t i call) : t.CallSound i call := by
  unfold CallSound at h ⊢
  split
  · trivial
  · trivial
  · next cell hphase =>
    simp only [hphase] at h
    refine ⟨hf.keyOf _ _ h.1, fun hnone => hf.inflight cell h.1 hnone (h.2 ?_)⟩
    -- a result would have stayed
    cases hres : s.result cell with
    | none => rfl
    | some r =>
      rw [hf.result cell r (by simp [h.1]) hres] at hnone
      cases hnone
  · next cell hphase =>
    simp only [hphase] at h
    obtain ⟨hkey, hflight, hres, hpermit⟩ := h
    obtain ⟨hpermit', hres'⟩ := hf.running cell (by simp [hkey]) hpermit hres
    exact ⟨hf.keyOf _ _ hkey, hf.inflight cell hkey hres' hflight, hres', hpermit'⟩
  · next cell result hphase =>
    simp only [hphase] at h
    exact ⟨hf.keyOf _ _ h.1, hf.result cell result (by simp [h.1]) h.2⟩
  · next result hphase =>
    simp only [hphase] at h
    exact hf.computed _ h
  · next result hphase =>
    simp only [hphase] at h
    exact hf.computed _ h

/-- What the others know, and what the call that moves knows after its step. -/
theorem Sound.calls_of_frame (h : s.Sound computes keep) {i : ℕ}
    (hcalls : ∀ j, j ≠ i → t.calls j = s.calls j)
    (hframe : ∀ j, j ≠ i → ∀ call ∈ s.calls j, Frame s t j call)
    (hi : ∀ call ∈ t.calls i, t.CallSound i call) : ∀ j, ∀ call ∈ t.calls j, t.CallSound j call := by
  intro j call hcall
  by_cases hj : j = i
  · subst hj
    exact hi call hcall
  · rw [hcalls j hj] at hcall
    exact (h.call j call hcall).frame (hframe j hj call hcall)

/-- A call moves on, and nothing else changes. -/
theorem Sound.setPhase (h : s.Sound computes keep) {i : ℕ} {key : κ} {phase : Flight.Phase ε υ}
    (hnot : ∀ call ∈ s.calls i, ∀ cell, call.phase ≠ .running cell)
    (hi : s.CallSound i ⟨key, phase⟩) : (s.setPhase i key phase).Sound computes keep := by
  refine ⟨?_, h.made, h.table, ?_, h.result, h.cache, h.computed⟩
  · apply h.calls_of_frame (i := i)
    · intro j hj
      simp [hj]
    · intro j _ call _
      exact ⟨fun _ _ hk => hk, fun _ _ _ hr => hr, fun _ _ _ hf => hf,
        fun _ _ hp hr => ⟨hp, hr⟩, fun _ he => he⟩
    · intro call hcall
      obtain rfl : call = ⟨key, phase⟩ := by simpa [eq_comm] using hcall
      exact hi
  · intro cell j hpermit
    obtain ⟨call, hcall, hphase⟩ := h.permit cell j hpermit
    have hj : j ≠ i := by
      rintro rfl
      exact hnot call hcall cell hphase
    exact ⟨call, by simpa [hj] using hcall, hphase⟩

/-- The permits are still held by calls that compute. -/
theorem Sound.permit_of_calls (h : s.Sound computes keep) {i : ℕ} {key : κ}
    {phase : Flight.Phase ε υ} (hcalls : t.calls = Function.update s.calls i (some ⟨key, phase⟩))
    (hpermit : ∀ cell j, t.permit cell = some j →
      s.permit cell = some j ∧ j ≠ i ∨ j = i ∧ phase = .running cell) :
    ∀ cell j, t.permit cell = some j → ∃ call ∈ t.calls j, call.phase = .running cell := by
  intro cell j hj
  rcases hpermit cell j hj with ⟨hold, hne⟩ | ⟨rfl, hphase⟩
  · obtain ⟨call, hcall, hphase⟩ := h.permit cell j hold
    exact ⟨call, by simpa [hcalls, hne] using hcall, hphase⟩
  · exact ⟨⟨key, phase⟩, by simp [hcalls], hphase⟩

/-- A call that does not compute has no permit. -/
theorem Sound.not_permit (h : s.Sound computes keep) {i cell : ℕ} {call : Flight κ ε υ}
    (hcall : s.calls i = some call) (hphase : call.phase ≠ .running cell) :
    s.permit cell ≠ some i := by
  intro hpermit
  obtain ⟨call', hcall', hrunning⟩ := h.permit cell i hpermit
  obtain rfl : call = call' := Option.some.inj (hcall.symm.trans hcall')
  exact hphase hrunning

variable [DecidableEq κ]

theorem Sound.join (h : s.Sound computes keep) {i : ℕ} {key : κ}
    (hcall : s.calls i = some ⟨key, .joining⟩) : (s.join i key).Sound computes keep := by
  unfold SingleFlight.join
  split
  · next cell hcell =>
    apply h.setPhase
    · intro call hc
      obtain rfl : _ = call := Option.some.inj (hcall.symm.trans hc)
      simp
    · exact ⟨h.table key cell hcell, fun _ => hcell⟩
  · next hnone =>
    -- the cell is new
    have hnew : ∀ cell key', s.keyOf cell = some key' → cell ≠ s.cells :=
      fun cell key' hk => Nat.ne_of_lt (h.made cell key' hk)
    refine ⟨?_, ?_, ?_, ?_, ?_, h.cache, h.computed⟩
    · apply h.calls_of_frame (i := i)
      · intro j hj
        simp [hj]
      · intro j _ call _
        refine ⟨?_, ?_, ?_, ?_, fun _ he => he⟩
        · intro cell key' hk
          simpa [hnew cell key' hk] using hk
        · intro cell r hk hr
          obtain ⟨key', hk⟩ := Option.ne_none_iff_exists'.mp hk
          simpa [hnew cell key' hk] using hr
        · intro cell _ _ hflight
          have hkey : call.key ≠ key := by
            intro hkey
            rw [hkey, hnone] at hflight
            cases hflight
          simpa [hkey] using hflight
        · intro cell hk hp hr
          obtain ⟨key', hk⟩ := Option.ne_none_iff_exists'.mp hk
          simpa [hnew cell key' hk] using ⟨hp, hr⟩
      · intro call hc
        obtain rfl : call = ⟨key, .waiting s.cells⟩ := by
          simpa [eq_comm] using hc
        simp [CallSound]
    · intro cell key' hk
      rcases eq_or_ne cell s.cells with rfl | hne
      · exact Nat.lt_succ_self _
      · exact Nat.lt_succ_of_lt (h.made cell key' (by simpa [hne] using hk))
    · intro key' cell hflight
      rcases eq_or_ne key' key with rfl | hne
      · obtain rfl : s.cells = cell := by simpa using hflight
        simp
      · have hold := h.table key' cell (by simpa [hne] using hflight)
        simpa [hnew cell key' hold] using hold
    · refine h.permit_of_calls rfl ?_
      intro cell j hj
      rcases eq_or_ne cell s.cells with rfl | hne
      · simp at hj
      · have hold : s.permit cell = some j := by simpa [hne] using hj
        refine Or.inl ⟨hold, ?_⟩
        rintro rfl
        exact h.not_permit hcall (by simp) hold
    · intro cell key' r hk hr
      rcases eq_or_ne cell s.cells with rfl | hne
      · simp at hr
      · exact h.result cell key' r (by simpa [hne] using hk) (by simpa [hne] using hr)

omit [DecidableEq κ] in
theorem Sound.acquire (h : s.Sound computes keep) {i cell : ℕ} {key : κ}
    (hcall : s.calls i = some ⟨key, .waiting cell⟩) (hres : s.result cell = none)
    (hfree : s.permit cell = none) :
    Sound computes keep { s.setPhase i key (.running cell) with
      permit := Function.update s.permit cell (some i) } := by
  obtain ⟨hkey, hflight⟩ := h.call i _ hcall
  refine ⟨?_, h.made, h.table, ?_, h.result, h.cache, h.computed⟩
  · apply h.calls_of_frame (i := i)
    · intro j hj
      simp [hj]
    · intro j _ call _
      refine ⟨fun _ _ hk => hk, fun _ _ _ hr => hr, fun _ _ _ hf => hf, ?_, fun _ he => he⟩
      intro cell' _ hp hr
      have hne : cell' ≠ cell := by
        rintro rfl
        rw [hfree] at hp
        cases hp
      exact ⟨by simpa [hne] using hp, hr⟩
    · intro call hc
      obtain rfl : call = ⟨key, .running cell⟩ := by
        simpa [eq_comm] using hc
      exact ⟨hkey, hflight hres, hres, by simp⟩
  · refine h.permit_of_calls rfl ?_
    intro cell' j hj
    rcases eq_or_ne cell' cell with rfl | hne
    · exact Or.inr ⟨by simpa [eq_comm] using hj, rfl⟩
    · have hold : s.permit cell' = some j := by simpa [hne] using hj
      refine Or.inl ⟨hold, ?_⟩
      rintro rfl
      exact h.not_permit hcall (by simp) hold

omit [DecidableEq κ] in
theorem Sound.finish (h : s.Sound computes keep) {i cell : ℕ} {key : κ} {r : Except ε υ}
    (hcall : s.calls i = some ⟨key, .running cell⟩) (hr : computes key r) :
    Sound computes keep { s.setPhase i key (.leaving cell r) with
      result := Function.update s.result cell (some r)
      permit := Function.update s.permit cell none
      computed := s.computed ++ [(key, r)] } := by
  obtain ⟨hkey, hflight, hres, hpermit⟩ := h.call i _ hcall
  refine ⟨?_, h.made, h.table, ?_, ?_, ?_, ?_⟩
  · apply h.calls_of_frame (i := i)
    · intro j hj
      simp [hj]
    · intro j hj call _
      refine ⟨fun _ _ hk => hk, ?_, fun _ _ _ hf => hf, ?_, ?_⟩
      · intro cell' r' _ hr'
        have hne : cell' ≠ cell := by
          rintro rfl
          rw [hres] at hr'
          cases hr'
        simpa [hne] using hr'
      · intro cell' _ hp hr'
        -- the permit of the cell is with the call that finishes
        have hne : cell' ≠ cell := by
          rintro rfl
          exact hj (Option.some.inj (hp.symm.trans hpermit))
        simpa [hne] using ⟨hp, hr'⟩
      · intro entry he
        exact List.mem_append_left _ he
    · intro call hc
      obtain rfl : call = ⟨key, .leaving cell r⟩ := by
        simpa [eq_comm] using hc
      exact ⟨hkey, by simp⟩
  · refine h.permit_of_calls rfl ?_
    intro cell' j hj
    rcases eq_or_ne cell' cell with rfl | hne
    · simp at hj
    · have hold : s.permit cell' = some j := by simpa [hne] using hj
      refine Or.inl ⟨hold, ?_⟩
      rintro rfl
      exact h.not_permit hcall (by simpa [eq_comm] using hne) hold
  · intro cell' key' r' hk hr'
    rcases eq_or_ne cell' cell with rfl | hne
    · obtain rfl : key' = key := Option.some.inj (hk.symm.trans hkey)
      obtain rfl : r = r' := by simpa using hr'
      simp
    · exact List.mem_append_left _ (h.result cell' key' r' hk (by simpa [hne] using hr'))
  · intro key' value hv
    obtain ⟨hkeep, hmem⟩ := h.cache key' value hv
    exact ⟨hkeep, List.mem_append_left _ hmem⟩
  · intro entry he
    rcases List.mem_append.mp he with hold | hone
    · exact h.computed entry hold
    · obtain rfl := List.mem_singleton.mp hone
      exact hr

theorem Sound.leave (h : s.Sound computes keep) {i cell : ℕ} {key : κ} {r : Except ε υ}
    (hcall : s.calls i = some ⟨key, .leaving cell r⟩) :
    (s.leave i key cell r).Sound computes keep := by
  obtain ⟨hkey, hres⟩ := h.call i _ hcall
  -- only the entry of this cell goes
  have hflight : ∀ key' cell', cell' ≠ cell → s.inflight key' = some cell' →
      (s.leave i key cell r).inflight key' = some cell' := by
    intro key' cell' hne hf
    unfold SingleFlight.leave
    dsimp only
    split
    · next hin =>
      have hkey' : key' ≠ key := by
        rintro rfl
        exact hne (Option.some.inj (hf.symm.trans hin))
      simpa [hkey'] using hf
    · exact hf
  refine ⟨?_, h.made, ?_, ?_, h.result, h.cache, h.computed⟩
  · apply h.calls_of_frame (i := i)
    · intro j hj
      simp [SingleFlight.leave, hj]
    · intro j _ call _
      refine ⟨fun _ _ hk => hk, fun _ _ _ hr => hr, ?_, fun _ _ hp hr => ⟨hp, hr⟩, fun _ he => he⟩
      intro cell' _ hnone hf
      apply hflight _ _ _ hf
      rintro rfl
      rw [show (s.leave i key cell' r).result cell' = s.result cell' from rfl, hres] at hnone
      cases hnone
    · intro call hc
      obtain rfl : call = ⟨key, .storing r⟩ := by
        simpa [SingleFlight.leave, eq_comm] using hc
      exact h.result cell key r hkey hres
  · intro key' cell' hf
    apply h.table key' cell'
    unfold SingleFlight.leave at hf
    dsimp only at hf
    split at hf
    · rcases eq_or_ne key' key with rfl | hne
      · simp at hf
      · simpa [hne] using hf
    · exact hf
  · refine h.permit_of_calls rfl ?_
    intro cell' j hold
    refine Or.inl ⟨hold, ?_⟩
    rintro rfl
    exact h.not_permit hcall (by simp) hold

theorem Sound.store (h : s.Sound computes keep) {i : ℕ} {key : κ} {r : Except ε υ}
    (hcall : s.calls i = some ⟨key, .storing r⟩) : (s.store keep i key r).Sound computes keep := by
  have hmem : (key, r) ∈ s.computed := h.call i _ hcall
  have hset : (s.setPhase i key (.returned r)).Sound computes keep := by
    apply h.setPhase
    · intro call hc
      obtain rfl : _ = call := Option.some.inj (hcall.symm.trans hc)
      simp
    · exact hmem
  refine ⟨hset.call, hset.made, hset.table, hset.permit, hset.result, ?_, hset.computed⟩
  intro key' value hv
  cases r with
  | error e => exact h.cache key' value hv
  | ok new =>
    change (if keep new then Function.update s.cache key (some new) else s.cache) key' =
      some value at hv
    split at hv
    · next hkeep =>
      rcases eq_or_ne key' key with rfl | hne
      · obtain rfl : new = value := by simpa using hv
        exact ⟨hkeep, hmem⟩
      · exact h.cache key' value (by simpa [hne] using hv)
    · exact h.cache key' value hv

omit [DecidableEq κ] in
theorem Sound.drop (h : s.Sound computes keep) (i : ℕ) : (s.drop i).Sound computes keep := by
  refine ⟨?_, h.made, h.table, ?_, h.result, h.cache, h.computed⟩
  · apply h.calls_of_frame (i := i)
    · intro j hj
      simp [SingleFlight.drop, hj]
    · intro j hj call _
      refine ⟨fun _ _ hk => hk, fun _ _ _ hr => hr, fun _ _ _ hf => hf, ?_, fun _ he => he⟩
      intro cell _ hp hr
      exact ⟨by simp [SingleFlight.drop, hp, hj], hr⟩
    · intro call hc
      simp [SingleFlight.drop] at hc
  · intro cell j hj
    have hold : s.permit cell = some j ∧ j ≠ i := by
      simp only [SingleFlight.drop] at hj
      split at hj
      · cases hj
      · next hne =>
        refine ⟨hj, ?_⟩
        rintro rfl
        exact hne hj
    obtain ⟨call, hc, hphase⟩ := h.permit cell j hold.1
    exact ⟨call, by simpa [SingleFlight.drop, hold.2] using hc, hphase⟩

theorem effect_call {i : ℕ} {key : κ} {phase : Flight.Phase ε υ} {step : CallStep ε υ}
    (hcall : s.calls i = some ⟨key, phase⟩) :
    (flights computes keep).effect s (.call i step) = step.effect keep s i key := by
  change (match s.calls i with
    | some ⟨key, _⟩ => step.effect keep s i key
    | none => s) = _
  rw [hcall]

/-- **Every step preserves the invariant.** -/
theorem Sound.step (h : s.Sound computes keep) {a : Action κ ε υ}
    (hg : (flights computes keep).guard s a) :
    ((flights computes keep).effect s a).Sound computes keep := by
  cases a with
  | start i key =>
    apply h.setPhase
    · intro call hc
      rw [show s.calls i = none from hg] at hc
      cases hc
    · trivial
  | drop i => exact h.drop i
  | call i step =>
    obtain ⟨⟨key, phase⟩, hcall, hstep⟩ := hg
    rw [effect_call hcall]
    -- a call in another phase than the running one holds no cell
    have hnot : ∀ {q : Flight.Phase ε υ}, phase = q → (∀ cell, q ≠ .running cell) →
        ∀ call ∈ s.calls i, ∀ cell, call.phase ≠ .running cell := by
      rintro q rfl hq call hc
      obtain rfl : _ = call := Option.some.inj (hcall.symm.trans hc)
      exact hq
    cases step with
    -- what is found in the cache has been computed for the key
    | look =>
      simp only [CallStep.effect]
      split
      · next value hvalue =>
        have hcached := (Option.filter_eq_some_iff.mp hvalue).1
        exact h.setPhase (hnot hstep (by simp)) (h.cache key value hcached).2
      · exact h.setPhase (hnot hstep (by simp)) trivial
    | join =>
      obtain rfl : phase = .joining := hstep
      exact h.join hcall
    | acquire cell =>
      obtain ⟨hphase, hres, hfree⟩ := hstep
      obtain rfl : phase = .waiting cell := hphase
      exact h.acquire hcall hres hfree
    | finish cell r =>
      obtain ⟨hphase, hr⟩ := hstep
      obtain rfl : phase = .running cell := hphase
      exact h.finish hcall hr
    -- a waiting call takes the result of the cell it has joined
    | observe cell r =>
      obtain ⟨hphase, hres⟩ := hstep
      obtain rfl : phase = .waiting cell := hphase
      exact h.setPhase (hnot rfl (by simp)) ⟨(h.call i _ hcall).1, hres⟩
    | leave cell r =>
      obtain rfl : phase = .leaving cell r := hstep
      exact h.leave hcall
    | store r =>
      obtain rfl : phase = .storing r := hstep
      exact h.store hcall

theorem sound_of_reach {C : SingleFlight κ ε υ → Action κ ε υ → Prop}
    (h : (flights computes keep).Reach C new s) : s.Sound computes keep :=
  h.invariant sound_new fun _ _ hs hg _ => hs.step hg

/-! ### Runs -/

/-- A run followed by a new call. -/
theorem reach_start {C : SingleFlight κ ε υ → Action κ ε υ → Prop}
    (h : (flights computes keep).Reach C s t) (i : ℕ) (key : κ) (hfree : t.calls i = none)
    (hc : C t (.start i key)) : (flights computes keep).Reach C s (t.setPhase i key .checking) := by
  have hguard : (flights computes keep).guard t (.start i key) := hfree
  exact h.step hguard hc

/-- A run followed by a step of a call. -/
theorem reach_call {C : SingleFlight κ ε υ → Action κ ε υ → Prop}
    (h : (flights computes keep).Reach C s t) {i : ℕ} {key : κ} {phase : Flight.Phase ε υ}
    (step : CallStep ε υ) (hcall : t.calls i = some ⟨key, phase⟩)
    (hg : step.guard computes t ⟨key, phase⟩) (hc : C t (.call i step)) :
    (flights computes keep).Reach C s (step.effect keep t i key) := by
  have hguard : (flights computes keep).guard t (.call i step) := ⟨_, hcall, hg⟩
  have hstep := h.step hguard hc
  rwa [effect_call hcall] at hstep

/-! ### What follows -/

omit [DecidableEq κ] in
/-- **At most one call computes a value for a key.** -/
theorem Sound.one_flight (h : s.Sound computes keep) {i j cell cell' : ℕ} {key : κ}
    (hi : s.calls i = some ⟨key, .running cell⟩) (hj : s.calls j = some ⟨key, .running cell'⟩) :
    i = j := by
  obtain ⟨-, hflight, -, hpermit⟩ := h.call i _ hi
  obtain ⟨-, hflight', -, hpermit'⟩ := h.call j _ hj
  obtain rfl : cell = cell' := Option.some.inj (hflight.symm.trans hflight')
  exact Option.some.inj (hpermit.symm.trans hpermit')

/-- The cell a call waits for, or computes the value of. -/
def awaited (call : Flight κ ε υ) : Option ℕ :=
  match call.phase with
  | .waiting cell | .running cell => some cell
  | _ => none

omit [DecidableEq κ] in
/-- **Calls that still wait for a value of one key wait for the same one.** -/
theorem Sound.shares (h : s.Sound computes keep) {i j cell cell' : ℕ} {call call' : Flight κ ε υ}
    (hi : s.calls i = some call) (hj : s.calls j = some call') (hkey : call.key = call'.key)
    (hcell : awaited call = some cell) (hcell' : awaited call' = some cell')
    (hres : s.result cell = none) (hres' : s.result cell' = none) : cell = cell' := by
  have hflight : ∀ {i cell : ℕ} {call : Flight κ ε υ}, s.calls i = some call →
      awaited call = some cell → s.result cell = none → s.inflight call.key = some cell := by
    intro i cell call hc hawaited hnone
    have hknown := h.call i call hc
    obtain ⟨key, phase⟩ := call
    cases phase with
    | waiting c =>
      obtain rfl : c = cell := Option.some.inj hawaited
      exact hknown.2 hnone
    | running c =>
      obtain rfl : c = cell := Option.some.inj hawaited
      exact hknown.2.1
    | _ => cases hawaited
  have hone := hflight hi hcell hres
  rw [hkey, hflight hj hcell' hres'] at hone
  exact (Option.some.inj hone).symm

omit [DecidableEq κ] in
/-- **What is returned has been computed, for the key it was asked for.** -/
theorem Sound.answers (h : s.Sound computes keep) {i : ℕ} {key : κ} {r : Except ε υ}
    (hi : s.calls i = some ⟨key, .returned r⟩) : (key, r) ∈ s.computed :=
  h.call i _ hi

/-! ### Coming to an end -/

/-- Nobody calls, and no call is dropped. -/
def GoesOn (_ : SingleFlight κ ε υ) : Action κ ε υ → Prop
  | .call _ _ => True
  | .start _ _ | .drop _ => False

/-- The calls under way can bring a call to its end. -/
def CanReturn (computes : κ → Except ε υ → Prop) (keep : υ → Bool) (s : SingleFlight κ ε υ)
    (i : ℕ) (key : κ) : Prop :=
  ∃ t r, (flights computes keep).Reach GoesOn s t ∧ t.calls i = some ⟨key, .returned r⟩

section CanReturn

variable {i : ℕ} {key : κ} {cell : ℕ} {r : Except ε υ}

/-- One step of a call, and the rest. -/
theorem CanReturn.step (step : CallStep ε υ) {j : ℕ} {key' : κ} {phase : Flight.Phase ε υ}
    (hj : s.calls j = some ⟨key', phase⟩) (hg : step.guard computes s ⟨key', phase⟩)
    (h : CanReturn computes keep (step.effect keep s j key') i key) :
    CanReturn computes keep s i key := by
  obtain ⟨t, r, hreach, hend⟩ := h
  exact ⟨t, r, (reach_call (.refl s) step hj hg trivial).trans hreach, hend⟩

theorem canReturn_of_storing (hi : s.calls i = some ⟨key, .storing r⟩) :
    CanReturn computes keep s i key := by
  apply CanReturn.step (.store r) hi rfl
  exact ⟨_, r, .refl _, by simp [CallStep.effect, store]⟩

theorem canReturn_of_leaving (hi : s.calls i = some ⟨key, .leaving cell r⟩) :
    CanReturn computes keep s i key := by
  apply CanReturn.step (.leave cell r) hi rfl
  have hnext : (s.leave i key cell r).calls i = some ⟨key, .storing r⟩ := by simp [leave]
  exact canReturn_of_storing hnext

theorem canReturn_of_result (hi : s.calls i = some ⟨key, .waiting cell⟩)
    (hres : s.result cell = some r) : CanReturn computes keep s i key := by
  apply CanReturn.step (.observe cell r) hi ⟨rfl, hres⟩
  have hnext : (s.setPhase i key (.leaving cell r)).calls i = some ⟨key, .leaving cell r⟩ := by
    simp
  exact canReturn_of_leaving hnext

variable (hcomputes : ∀ key, ∃ r, computes key r)

include hcomputes

theorem canReturn_of_running (hi : s.calls i = some ⟨key, .running cell⟩) :
    CanReturn computes keep s i key := by
  obtain ⟨r, hr⟩ := hcomputes key
  apply CanReturn.step (.finish cell r) hi ⟨rfl, hr⟩
  have hnext : (CallStep.effect keep s i key (.finish cell r)).calls i =
      some ⟨key, .leaving cell r⟩ := by simp [CallStep.effect]
  exact canReturn_of_leaving hnext

/-- A call that waits takes the permit, or the call that has it finishes. -/
theorem Sound.canReturn_of_waiting (h : s.Sound computes keep)
    (hi : s.calls i = some ⟨key, .waiting cell⟩) : CanReturn computes keep s i key := by
  cases hres : s.result cell with
  | some r => exact canReturn_of_result hi hres
  | none =>
    cases hpermit : s.permit cell with
    | none =>
      apply CanReturn.step (.acquire cell) hi ⟨rfl, hres, hpermit⟩
      have hnext : (CallStep.effect keep s i key (.acquire cell)).calls i =
          some ⟨key, .running cell⟩ := by simp [CallStep.effect]
      exact canReturn_of_running hcomputes hnext
    | some j =>
      obtain ⟨⟨key', phase⟩, hj, rfl⟩ := h.permit cell j hpermit
      have hne : i ≠ j := by
        rintro rfl
        rw [hi] at hj
        cases hj
      obtain ⟨r, hr⟩ := hcomputes key'
      apply CanReturn.step (.finish cell r) hj ⟨rfl, hr⟩
      have hnext : (CallStep.effect keep s j key' (.finish cell r)).calls i =
          some ⟨key, .waiting cell⟩ := by simpa [CallStep.effect, hne] using hi
      have hdone : (CallStep.effect keep s j key' (.finish cell r)).result cell = some r := by
        simp [CallStep.effect]
      exact canReturn_of_result hnext hdone

/-- **A call that is not dropped can always be brought to its end**, by the calls under way
alone. -/
theorem Sound.exists_returned (h : s.Sound computes keep) {call : Flight κ ε υ}
    (hi : s.calls i = some call) : CanReturn computes keep s i call.key := by
  have hjoining : ∀ {s : SingleFlight κ ε υ} {key : κ}, s.Sound computes keep →
      s.calls i = some ⟨key, .joining⟩ → CanReturn computes keep s i key := by
    intro s key h hi
    have hsound : (s.join i key).Sound computes keep := h.join hi
    apply CanReturn.step .join hi rfl
    have hwaiting : ∃ cell, (s.join i key).calls i = some ⟨key, .waiting cell⟩ := by
      unfold SingleFlight.join
      split
      · next cell _ => exact ⟨cell, by simp⟩
      · exact ⟨s.cells, by simp⟩
    obtain ⟨cell, hcell⟩ := hwaiting
    exact hsound.canReturn_of_waiting hcomputes hcell
  obtain ⟨key, phase⟩ := call
  cases phase with
  | checking =>
    apply CanReturn.step .look hi rfl
    simp only [CallStep.effect]
    split
    · next value _ => exact ⟨_, .ok value, .refl _, by simp⟩
    · apply hjoining
      · apply h.setPhase
        · intro call hc
          obtain rfl : _ = call := Option.some.inj (hi.symm.trans hc)
          simp
        · trivial
      · simp
  | joining => exact hjoining h hi
  | waiting cell => exact h.canReturn_of_waiting hcomputes hi
  | running cell => exact canReturn_of_running hcomputes hi
  | leaving cell r => exact canReturn_of_leaving hi
  | storing r => exact canReturn_of_storing hi
  | returned r => exact ⟨s, r, .refl s, hi⟩

end CanReturn

end SingleFlight

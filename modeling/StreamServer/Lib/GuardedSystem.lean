import Mathlib.Logic.Relation

/-!
# Guarded transition systems

A system is a set of actions, each with a *guard* saying when it may be taken
and an *effect* saying what it does to the state.  Concurrent programs are
described this way: one action for each stretch of code that runs without
interruption, its guard saying that some thread of control is about to run it.

Many laws of such programs hold only along runs that avoid certain steps, so
runs are taken relative to a side condition on the step: the state before it and
the action.  Taking the condition `fun _ _ => True` gives back plain
reachability.

## Main definitions

* `GuardedSystem` — guards and effects.
* `GuardedSystem.Path S C s as t` — the actions `as`, each meeting the side condition
  `C` where it is taken, lead from `s` to `t`.
* `GuardedSystem.Reach S C s t` — some such list of actions leads from `s` to `t`.
* `GuardedSystem.exec` — the state a list of actions leads to, if every guard holds.

## Main results

* `GuardedSystem.Reach.invariant` — **the invariant rule**: what holds initially and is
  preserved by every admitted step holds in every state reached.
* `GuardedSystem.Reach.invariant_of` — the same rule on top of an invariant already
  established.
* `GuardedSystem.Path.mono_of` — one side condition in place of another along an invariant.
* `GuardedSystem.Path.meets_or_not` — a side condition that decides where a run ends.
* `GuardedSystem.Path.meets_of_history` — a side condition that looks back and ahead.
* `GuardedSystem.path_of_exec`, `exists_reach_of_exec` — an evaluated run is a run.
-/

universe u v

/-- A transition system given by guarded actions. -/
structure GuardedSystem (σ : Type u) (α : Type v) where
  /-- When an action may be taken. -/
  guard : σ → α → Prop
  /-- What an action does to the state. -/
  effect : σ → α → σ

namespace GuardedSystem

variable {σ : Type u} {α : Type v} (S : GuardedSystem σ α) {C D : σ → α → Prop}

/-- The actions `as` lead from the first state to the second, and each of them
meets the side condition `C` in the state it is taken in. -/
inductive Path (C : σ → α → Prop) : σ → List α → σ → Prop
  /-- The empty run. -/
  | nil (s : σ) : Path C s [] s
  /-- One more step in front of a run. -/
  | cons {s : σ} {a : α} {as : List α} {t : σ} (hg : S.guard s a) (hc : C s a)
      (hp : Path C (S.effect s a) as t) : Path C s (a :: as) t

/-- Some run whose steps all meet the side condition leads from `s` to `t`. -/
def Reach (C : σ → α → Prop) (s t : σ) : Prop := ∃ as, S.Path C s as t

/-- The side condition that admits every step. -/
def anyStep : σ → α → Prop := fun _ _ => True

instance (s : σ) (a : α) : Decidable (anyStep s a) := inferInstanceAs (Decidable True)

variable {S}

theorem Path.append {s t u : σ} {as bs : List α} (h₁ : S.Path C s as t)
    (h₂ : S.Path C t bs u) : S.Path C s (as ++ bs) u := by
  induction h₁ with
  | nil s => exact h₂
  | cons hg hc _ ih => exact .cons hg hc (ih h₂)

theorem Reach.refl (s : σ) : S.Reach C s s := ⟨[], .nil s⟩

/-- A run followed by one more step. -/
theorem Reach.step {s t : σ} {a : α} (h : S.Reach C s t) (hg : S.guard t a) (hc : C t a) :
    S.Reach C s (S.effect t a) := by
  obtain ⟨as, hp⟩ := h
  exact ⟨as ++ [a], hp.append (.cons hg hc (.nil _))⟩

theorem Reach.trans {s t u : σ} (h₁ : S.Reach C s t) (h₂ : S.Reach C t u) : S.Reach C s u := by
  obtain ⟨as, ha⟩ := h₁
  obtain ⟨bs, hb⟩ := h₂
  exact ⟨as ++ bs, ha.append hb⟩

/-- A run under a side condition is a run under any weaker one. -/
theorem Path.mono (hCD : ∀ s a, C s a → D s a) {s t : σ} {as : List α}
    (h : S.Path C s as t) : S.Path D s as t := by
  induction h with
  | nil s => exact .nil s
  | cons hg hc _ ih => exact .cons hg (hCD _ _ hc) ih

theorem Reach.mono (hCD : ∀ s a, C s a → D s a) {s t : σ} (h : S.Reach C s t) :
    S.Reach D s t := by
  obtain ⟨as, hp⟩ := h
  exact ⟨as, hp.mono hCD⟩

/-- Along a run from a state where an invariant holds, a side condition may be replaced by one
that follows from it and the invariant. -/
theorem Path.mono_of (Known : σ → Prop)
    (hstep : ∀ s a, Known s → S.guard s a → C s a → Known (S.effect s a))
    (hCD : ∀ s a, Known s → S.guard s a → C s a → D s a) {s t : σ} {as : List α}
    (h : S.Path C s as t) (hs : Known s) : S.Path D s as t := by
  induction h with
  | nil s => exact .nil s
  | cons hg hc _ ih => exact .cons hg (hCD _ _ hs hg hc) (ih (hstep _ _ hs hg hc))

/-- What every admitted step preserves, a whole run preserves. -/
theorem Path.invariant {Inv : σ → Prop}
    (hstep : ∀ s a, Inv s → S.guard s a → C s a → Inv (S.effect s a))
    {s t : σ} {as : List α} (h : S.Path C s as t) (hs : Inv s) : Inv t := by
  induction h with
  | nil s => exact hs
  | cons hg hc _ ih => exact ih (hstep _ _ hs hg hc)

/-- **The invariant rule.** -/
theorem Reach.invariant {Inv : σ → Prop} {s t : σ} (h : S.Reach C s t) (hs : Inv s)
    (hstep : ∀ s a, Inv s → S.guard s a → C s a → Inv (S.effect s a)) : Inv t := by
  obtain ⟨as, hp⟩ := h
  exact hp.invariant hstep hs

/-- **The invariant rule over a known invariant.**  The steps that have to be
considered are those from states where `Known` holds. -/
theorem Reach.invariant_of {Known Inv : σ → Prop} {s t : σ} (h : S.Reach C s t)
    (hk : ∀ u, S.Reach C s u → Known u) (hs : Inv s)
    (hstep : ∀ u a, Known u → Inv u → S.guard u a → C u a → Inv (S.effect u a)) :
    Inv t := by
  have key : (fun u => S.Reach C s u ∧ Inv u) t := by
    apply h.invariant
    · exact ⟨.refl s, hs⟩
    · intro u a hu hg hc
      exact ⟨hu.1.step hg hc, hstep u a (hk u hu.1) hu.2 hg hc⟩
  exact key.2

/-- **The rule for an exact side condition.**  A step that does not meet it leads where every step
stays: then the run meets it throughout and ends among the first states, or it does not and ends among
the others. -/
theorem Path.meets_or_not {Known First Other : σ → Prop}
    (hknown : ∀ s a, Known s → S.guard s a → Known (S.effect s a))
    (hmeets : ∀ s a, Known s → First s → S.guard s a → C s a → First (S.effect s a))
    (hnot : ∀ s a, Known s → First s → S.guard s a → ¬ C s a → Other (S.effect s a))
    (hstay : ∀ s a, Known s → Other s → S.guard s a → Other (S.effect s a))
    {s t : σ} {as : List α} (h : S.Path D s as t) (hs : Known s) (hfirst : First s) :
    (S.Path C s as t ∧ First t) ∨ (¬ S.Path C s as t ∧ Other t) := by
  induction h with
  | nil s => exact Or.inl ⟨.nil s, hfirst⟩
  | @cons s a as t hg _ hp ih =>
    by_cases hc : C s a
    · rcases ih (hknown s a hs hg) (hmeets s a hs hfirst hg hc) with ⟨hpath, ht⟩ | ⟨hpath, ht⟩
      · exact Or.inl ⟨.cons hg hc hpath, ht⟩
      · refine Or.inr ⟨fun hall => ?_, ht⟩
        cases hall with
        | cons _ _ hrest => exact hpath hrest
    · refine Or.inr ⟨fun hall => ?_, ?_⟩
      · cases hall with
        | cons _ hmet _ => exact hc hmet
      · have hstays : (fun u => Known u ∧ Other u) t := by
          apply hp.invariant
          · intro u b hu hg _
            exact ⟨hknown u b hu.1 hg, hstay u b hu.1 hu.2 hg⟩
          · exact ⟨hknown s a hs hg, hnot s a hs hfirst hg hc⟩
        exact hstays.2

/-- **The rule for a side condition on what ran before and what comes after.**  `History xs u` is
known of the actions `xs` that have led to `u`. -/
theorem Path.meets_of_history {History : List α → σ → Prop}
    (hstep : ∀ xs s a, History xs s → S.guard s a → History (xs ++ [a]) (S.effect s a))
    {s t : σ} {as : List α} (h : S.Path D s as t) {xs : List α} (hs : History xs s)
    (hmeets : ∀ ys a zs u, as = ys ++ a :: zs → History (xs ++ ys) u → S.guard u a →
      S.Path D (S.effect u a) zs t → C u a) : S.Path C s as t := by
  induction h generalizing xs with
  | nil s => exact .nil s
  | @cons s a as t hg hd hp ih =>
    refine .cons hg (hmeets [] a as s rfl (by simpa using hs) hg hp) ?_
    refine ih (hstep xs s a hs hg) fun ys b zs u has hu => ?_
    exact hmeets (a :: ys) b zs u (by rw [has, List.cons_append]) (by simpa using hu)

/-! ### Evaluating a run -/

section Exec

variable (S) (C) [∀ s a, Decidable (S.guard s a)] [∀ s a, Decidable (C s a)]

/-- Run a list of actions, stopping at the first one that may not be taken or does
not meet the side condition. -/
def exec : σ → List α → Option σ
  | s, [] => some s
  | s, a :: as => if S.guard s a ∧ C s a then exec (S.effect s a) as else none

variable {S C}

/-- **An evaluated run is a run.** -/
theorem path_of_exec {s t : σ} {as : List α} (h : S.exec C s as = some t) : S.Path C s as t := by
  induction as generalizing s with
  | nil =>
    rw [exec, Option.some.injEq] at h
    exact h ▸ .nil s
  | cons a as ih =>
    rw [exec] at h
    split at h
    · next hga => exact .cons hga.1 hga.2 (ih h)
    · cases h

/-- A run can be evaluated to find a reachable state with a decidable property. -/
theorem exists_reach_of_exec {P : σ → Prop} [DecidablePred P] {s : σ} (as : List α)
    (h : (S.exec C s as).any (fun t => decide (P t)) = true) : ∃ t, S.Reach C s t ∧ P t := by
  rw [Option.any_eq_true] at h
  obtain ⟨t, ht, hP⟩ := h
  exact ⟨t, ⟨as, path_of_exec ht⟩, of_decide_eq_true hP⟩

end Exec

end GuardedSystem

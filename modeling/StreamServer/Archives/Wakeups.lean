import StreamServer.Archives.Cache

/-!
# Readers that wait for the writer

A reader that has caught up with the writer asks to be notified: its poll makes a future,
polls it once, which registers the task, and returns.  The future belongs to the poll, so
it goes out of scope when the poll returns, and the registration with it.  The task is
woken only if the writer has notified in between; otherwise nobody remembers it, and
whatever the writer does later, it stays asleep.

## Main definitions

* `World.Forgotten` — a reader's poll is pending, and nothing will wake its task.
* `NotifiedFirst` — the condition: a poll returns only after the future it has polled was
  notified.

## Main results

* `World.waitersLinked_of_reach` — who is registered, and who has been woken.
* `nobody_forgotten` — nobody is forgotten exactly as long as the condition is met.
* `World.Forgotten.stays` — a forgotten reader is never woken again.

## References

`server/src/archives/cache.rs`, `ProgressiveReader::poll_read`.
-/

namespace StreamServer.Archives

open Readers

namespace World

/-- The last poll of the reader is pending because it had caught up, its task has not been
woken since, and is not registered either. -/
def Forgotten (s : World) (k : ℕ) : Prop :=
  (s.processes k).parked = true ∧ (s.processes k).woken = false ∧ k ∉ s.notify.waiters

instance (s : World) (k : ℕ) : Decidable (s.Forgotten k) :=
  inferInstanceAs (Decidable (_ ∧ _ ∧ _))

end World

/-- **The condition.**  A poll that waits returns only after the writer has notified the
future it has polled. -/
def NotifiedFirst (s : World) : Action → Prop
  | .reader k (.park _) => k ∉ s.notify.waiters
  | _ => True

instance (s : World) : ∀ a : Action, Decidable (NotifiedFirst s a)
  | .reader _ (.park _) => inferInstanceAs (Decidable (¬ _))
  | .writer _ => inferInstanceAs (Decidable True)
  | .reader _ (.startSeek _) | .reader _ (.pollComplete _) | .reader _ (.pollRead _)
  | .reader _ (.look _) | .reader _ (.attempt ..) | .reader _ (.notified _)
  | .reader _ (.pollNotified ..) => inferInstanceAs (Decidable True)

/-! ### Who is registered -/

/-- A poll is under way that has not registered its task. -/
def Polling.running : Polling → Bool
  | .idle | .registered _ => false
  | _ => true

/-- How the poll of a process goes with whether its task is registered. -/
structure Process.Linked (p : Process) (waiting : Prop) : Prop where
  waits : waiting → (∃ buf, p.polling = .registered buf) ∧ p.woken = false
  registered : ∀ buf, p.polling = .registered buf → waiting ∨ p.woken = true
  running : p.polling.running = true → p.woken = false
  parked : p.parked = true → p.polling = .idle

/-- Every process goes with the futures that are registered. -/
def World.WaitersLinked (s : World) : Prop :=
  ∀ k, (s.processes k).Linked (k ∈ s.notify.waiters)

section Steps

variable {s : World} {k : ℕ} {p : Process}

/-- A process whose poll is not waiting is not registered. -/
theorem Process.Linked.not_waiting {waiting : Prop} (h : p.Linked waiting)
    (hp : ∀ buf, p.polling ≠ .registered buf) : ¬ waiting := by
  intro hw
  obtain ⟨⟨buf, hreg⟩, -⟩ := h.waits hw
  exact hp buf hreg

/-- The poll goes on, and registers nothing. -/
theorem Process.Linked.runs {waiting : Prop} (h : p.Linked waiting)
    (hp : p.polling.running = true) {polling : Polling} (hr : polling.running = true)
    (reader : ProgressiveReader) :
    ({ p with reader := reader, polling := polling } : Process).Linked waiting := by
  have hfresh := h.running hp
  refine ⟨fun hw => absurd hw (h.not_waiting ?_), ?_, fun _ => hfresh, fun hparked => ?_⟩
  · intro buf hreg
    rw [hreg] at hp
    cases hp
  · intro buf hreg
    dsimp only at hreg
    rw [hreg] at hr
    cases hr
  · rw [h.parked hparked] at hp
    cases hp

/-- The poll returns without waiting. -/
theorem Process.Linked.returns {waiting : Prop} (h : p.Linked waiting)
    (hp : p.polling.running = true) (reader : ProgressiveReader) :
    ({ p with reader := reader, polling := .idle } : Process).Linked waiting := by
  refine ⟨fun hw => absurd hw (h.not_waiting ?_), by simp, by simp [Polling.running], by simp⟩
  intro buf hreg
  rw [hreg] at hp
  cases hp

/-- Between two polls. -/
theorem Process.Linked.rests {waiting : Prop} (h : p.Linked waiting) (hp : p.polling = .idle)
    (reader : ProgressiveReader) (seeking : Bool) :
    ({ p with reader := reader, seeking := seeking } : Process).Linked waiting :=
  ⟨h.waits, h.registered, h.running, fun _ => hp⟩

/-- One process changes, and at most its own registration. -/
theorem World.WaitersLinked.setProcess (h : s.WaitersLinked) (notify : Notify)
    (hp : p.Linked (k ∈ notify.waiters))
    (hother : ∀ j ≠ k, j ∈ notify.waiters ↔ j ∈ s.notify.waiters) :
    ({ s.setProcess k p with notify := notify } : World).WaitersLinked := by
  intro j
  by_cases hj : j = k
  · subst hj
    simpa [World.setProcess] using hp
  · simpa [World.setProcess, hj, hother j hj] using h j

theorem waitersLinked_writer (h : s.WaitersLinked) {step : WriterStep} :
    (step.effect s).WaitersLinked := by
  cases step with
  | notifyWaiters =>
    intro k
    have hk := h k
    simp only [WriterStep.effect, World.notifyWaiters]
    split
    · next hw =>
      obtain ⟨⟨buf, hreg⟩, -⟩ := hk.waits hw
      refine ⟨by simp, fun _ _ => Or.inr rfl, fun hrun => ?_, hk.parked⟩
      dsimp only at hrun
      rw [hreg] at hrun
      cases hrun
    · next hw =>
      refine ⟨by simp, fun buf hreg => ?_, hk.running, hk.parked⟩
      exact Or.inr ((hk.registered buf hreg).resolve_left hw)
  | _ => exact h

theorem waitersLinked_reader (h : s.WaitersLinked) {step : ReaderStep}
    (hg : step.guard s (s.processes k)) : (step.effect s k (s.processes k)).WaitersLinked := by
  have hk := h k
  cases step with
  | startSeek position =>
    dsimp only [ReaderStep.effect]
    split
    · exact h.setProcess s.notify (hk.rests hg.1 _ _) fun _ _ => Iff.rfl
    · exact h
  | pollComplete op =>
    dsimp only [ReaderStep.effect]
    split <;> exact h.setProcess s.notify (hk.rests hg.1 _ _) fun _ _ => Iff.rfl
  -- a poll that begins has left the wait of the one before
  | pollRead buf =>
    have hnot := hk.not_waiting (by simp [hg.1])
    refine h.setProcess s.notify ?_ fun _ _ => Iff.rfl
    exact ⟨fun hw => absurd hw hnot, by simp, by simp, by simp⟩
  | look buf =>
    have hpolling : (s.processes k).polling = .looping buf := hg
    exact h.setProcess s.notify (hk.runs (by simp [hpolling, Polling.running]) rfl _)
      fun _ _ => Iff.rfl
  | attempt buf snapshot brought seek read =>
    have hrun : (s.processes k).polling.running = true := by simp [hg.1, Polling.running]
    dsimp only [ReaderStep.effect]
    split
    · exact h.setProcess s.notify (hk.returns hrun _) fun _ _ => Iff.rfl
    · exact h.setProcess s.notify (hk.runs hrun rfl _) fun _ _ => Iff.rfl
  | notified buf =>
    have hpolling : (s.processes k).polling = .waits buf := hg
    exact h.setProcess s.notify (hk.runs (by simp [hpolling, Polling.running]) rfl _)
      fun _ _ => Iff.rfl
  | pollNotified buf calls =>
    have hpolling : (s.processes k).polling = .made buf calls := hg
    have hrun : (s.processes k).polling.running = true := by simp [hpolling, Polling.running]
    dsimp only [ReaderStep.effect]
    split
    · -- the future is registered
      refine h.setProcess _ ?_ fun j hj => by simp [hj]
      refine ⟨fun _ => ⟨⟨buf, rfl⟩, hk.running hrun⟩, fun _ _ => Or.inl ?_, ?_, fun hparked => ?_⟩
      · exact Finset.mem_insert_self k _
      · simp [Polling.running]
      · rw [hk.parked hparked] at hpolling
        cases hpolling
    · exact h.setProcess s.notify (hk.runs hrun rfl _) fun _ _ => Iff.rfl
  | park buf =>
    refine h.setProcess _ ?_ fun j hj => by simp [hj]
    exact ⟨by simp, by simp, by simp [Polling.running], fun _ => rfl⟩

end Steps

theorem World.waitersLinked_new (totalSize : Option ℕ) : (World.new totalSize).WaitersLinked :=
  fun k => ⟨by simp [World.new], by simp [World.new, Process.new],
    by simp [World.new, Process.new], by simp [World.new, Process.new]⟩

theorem World.waitersLinked_of_reach {C : World → Action → Prop} {totalSize : Option ℕ} {s : World}
    (h : progressiveCache.Reach C (.new totalSize) s) : s.WaitersLinked := by
  refine h.invariant (World.waitersLinked_new totalSize) fun u a hu hg _ => ?_
  cases a with
  | writer step => exact waitersLinked_writer hu
  | reader k step => exact waitersLinked_reader hu hg

/-! ### What a step can make of a forgotten reader -/

section Forgetting

variable {s : World} {k j : ℕ}

theorem forgotten_setProcess {p : Process} (hj : j ≠ k) (notify : Notify)
    (hother : j ∈ notify.waiters ↔ j ∈ s.notify.waiters) :
    ({ s.setProcess k p with notify := notify } : World).Forgotten j ↔ s.Forgotten j := by
  simp [World.Forgotten, World.setProcess, hj, hother]

/-- The writer forgets nobody, and remembers nobody. -/
theorem forgotten_writer (step : WriterStep) :
    (step.effect s).Forgotten j ↔ s.Forgotten j := by
  cases step with
  | notifyWaiters =>
    by_cases hw : j ∈ s.notify.waiters
    · simp [World.Forgotten, WriterStep.effect, World.notifyWaiters, hw]
    · simp [World.Forgotten, WriterStep.effect, World.notifyWaiters, hw]
  | _ => exact Iff.rfl

/-- The steps of other readers do not matter to a reader. -/
theorem forgotten_other (hj : j ≠ k) (step : ReaderStep) :
    (step.effect s k (s.processes k)).Forgotten j ↔ s.Forgotten j := by
  cases step with
  | startSeek position =>
    dsimp only [ReaderStep.effect]
    split
    · exact forgotten_setProcess hj s.notify Iff.rfl
    · exact Iff.rfl
  | pollComplete op =>
    dsimp only [ReaderStep.effect]
    split <;> exact forgotten_setProcess hj s.notify Iff.rfl
  | pollRead buf => exact forgotten_setProcess hj s.notify Iff.rfl
  | look buf => exact forgotten_setProcess hj s.notify Iff.rfl
  | attempt buf snapshot brought seek read =>
    dsimp only [ReaderStep.effect]
    split <;> exact forgotten_setProcess hj s.notify Iff.rfl
  | notified buf => exact forgotten_setProcess hj s.notify Iff.rfl
  | pollNotified buf calls =>
    dsimp only [ReaderStep.effect]
    split
    · exact forgotten_setProcess hj _ (by simp [hj])
    · exact forgotten_setProcess hj s.notify Iff.rfl
  | park buf => exact forgotten_setProcess hj _ (by simp [hj])

/-- A reader's own steps: it is forgotten when its poll returns unnotified, and remembered
when it is polled again. -/
theorem forgotten_own (h : s.WaitersLinked) {step : ReaderStep}
    (hg : step.guard s (s.processes k)) :
    (step.effect s k (s.processes k)).Forgotten k ↔
      match step with
      | .pollRead _ => False
      | .park _ => k ∈ s.notify.waiters
      | _ => s.Forgotten k := by
  have hk := h k
  -- a poll that is under way is not parked
  have hpolls : (s.processes k).polling ≠ .idle → (s.processes k).parked = false := by
    intro hbusy
    by_contra hparked
    exact hbusy (hk.parked (eq_true_of_ne_false hparked))
  cases step with
  | startSeek position =>
    dsimp only [ReaderStep.effect]
    split <;> simp [World.Forgotten, World.setProcess]
  | pollComplete op =>
    dsimp only [ReaderStep.effect]
    split <;> simp [World.Forgotten, World.setProcess]
  | pollRead buf => simp [World.Forgotten, World.setProcess, ReaderStep.effect]
  | look buf => simp [World.Forgotten, World.setProcess, ReaderStep.effect]
  | attempt buf snapshot brought seek read =>
    dsimp only [ReaderStep.effect]
    split <;> simp [World.Forgotten, World.setProcess]
  | notified buf => simp [World.Forgotten, World.setProcess, ReaderStep.effect]
  | pollNotified buf calls =>
    have hpolling : (s.processes k).polling = .made buf calls := hg
    have hparked := hpolls (by simp [hpolling])
    dsimp only [ReaderStep.effect]
    split <;> simp [World.Forgotten, World.setProcess, hparked]
  | park buf =>
    have hpolling : (s.processes k).polling = .registered buf := hg
    simp only [World.Forgotten, World.setProcess, ReaderStep.effect, Function.update_self,
      Finset.notMem_erase, not_false_iff, and_true, true_and]
    constructor
    · intro hwoken
      exact (hk.registered buf hpolling).resolve_right (by simp [hwoken])
    · exact fun hw => (hk.waits hw).2

end Forgetting

/-- The task of a reader polls it again. -/
def PollsAgain (k : ℕ) : Action → Prop
  | .reader j (.pollRead _) => j = k
  | _ => False

/-- **A forgotten reader is never woken again**: whatever the writer and the other readers do,
it stays forgotten until its task polls it on some other account. -/
theorem World.Forgotten.stays {totalSize : Option ℕ} {s t : World} {k : ℕ}
    (hs : progressiveCache.Reach GuardedSystem.anyStep (.new totalSize) s) (hk : s.Forgotten k)
    (h : progressiveCache.Reach (fun _ a => ¬ PollsAgain k a) s t) : t.Forgotten k := by
  have hlinked : ∀ u, progressiveCache.Reach (fun _ a => ¬ PollsAgain k a) s u →
      u.WaitersLinked := fun u hu =>
    World.waitersLinked_of_reach (hs.trans (hu.mono fun _ _ _ => trivial))
  apply h.invariant_of hlinked hk
  intro u a hu hi hg hc
  cases a with
  | writer step => exact (forgotten_writer step).mpr hi
  | reader j step =>
    by_cases hj : k = j
    · subst hj
      refine (forgotten_own hu hg).mpr ?_
      cases step with
      | pollRead buf => exact hc rfl
      | park buf =>
        -- it is not waiting, so its poll cannot return
        have hidle := (hu k).parked hi.1
        rw [show (u.processes k).polling = _ from hg] at hidle
        cases hidle
      | _ => exact hi
    · exact (forgotten_other hj step).mpr hi

/-! ### The law -/

/-- **Nobody is forgotten exactly as long as the condition is met.**  In every run of the
cache whose polls return only after their futures have been notified, nobody is forgotten;
and the next step forgets nobody if and only if it meets the condition. -/
theorem nobody_forgotten {totalSize : Option ℕ} {s : World}
    (h : progressiveCache.Reach NotifiedFirst (.new totalSize) s) :
    (∀ k, ¬ s.Forgotten k) ∧
      ∀ a : Action, a.guard s → ((∀ k, ¬ (a.effect s).Forgotten k) ↔ NotifiedFirst s a) := by
  -- what a step makes of a state where nobody is forgotten
  have hstep : ∀ u : World, u.WaitersLinked → (∀ k, ¬ u.Forgotten k) → ∀ a : Action,
      a.guard u → ((∀ k, ¬ (a.effect u).Forgotten k) ↔ NotifiedFirst u a) := by
    intro u hu hnobody a hg
    cases a with
    | writer step =>
      refine iff_of_true (fun k => ?_) trivial
      rw [show (Action.writer step).effect u = step.effect u from rfl, forgotten_writer]
      exact hnobody k
    | reader k step =>
      have hothers : ∀ j ≠ k, ¬ ((Action.reader k step).effect u).Forgotten j := by
        intro j hj
        rw [show (Action.reader k step).effect u = step.effect u k (u.processes k) from rfl,
          forgotten_other hj]
        exact hnobody j
      have hself : (∀ j, ¬ ((Action.reader k step).effect u).Forgotten j) ↔
          ¬ (step.effect u k (u.processes k)).Forgotten k := by
        refine ⟨fun hall => hall k, fun hk j => ?_⟩
        by_cases hj : j = k
        · subst hj
          exact hk
        · exact hothers j hj
      rw [hself, forgotten_own hu hg]
      cases step with
      | park buf => exact Iff.rfl
      | pollRead buf => simp [NotifiedFirst]
      | _ => simpa [NotifiedFirst] using hnobody k
  have hnobody : ∀ k, ¬ s.Forgotten k := by
    refine h.invariant_of (fun u hu => World.waitersLinked_of_reach hu) ?_
      fun u a hk hi hg hc => (hstep u hk hi a hg).mpr hc
    simp [World.Forgotten, World.new, Process.new]
  exact ⟨hnobody, hstep s (World.waitersLinked_of_reach h) hnobody⟩

/-- A reader polls an empty cache up to where it waits. -/
def pollEmpty : List Action :=
  [.reader 0 (.pollRead ⟨4, []⟩), .reader 0 (.look ⟨4, []⟩),
    .reader 0 (.attempt ⟨4, []⟩ ⟨0, false, none⟩ 0 .done .done), .reader 0 (.notified ⟨4, []⟩),
    .reader 0 (.pollNotified ⟨4, []⟩ 0)]

/-- The writer finishes and notifies just before the poll returns. -/
theorem nobody_forgotten_notified :
    ∃ s, progressiveCache.Reach NotifiedFirst (.new none) s ∧
      (s.processes 0).parked = true ∧ ¬ s.Forgotten 0 := by
  obtain ⟨s, hs, hparked⟩ :
      ∃ s, progressiveCache.Reach NotifiedFirst (.new none) s ∧
        (s.processes 0).parked = true :=
    GuardedSystem.exists_reach_of_exec
      (pollEmpty ++ [Action.writer .finish, .writer .notifyWaiters, .reader 0 (.park ⟨4, []⟩)])
      (by decide)
  exact ⟨s, hs, hparked, (nobody_forgotten hs).1 0⟩

/-- The poll returns before the writer writes: the byte that is written, published and
notified of afterwards wakes nobody. -/
theorem reader_forgotten :
    ∃ s, progressiveCache.Reach GuardedSystem.anyStep (.new none) s ∧
      (s.Forgotten 0 ∧ s.snapshot.writtenBytes = 1 ∧ s.writer = .idle) :=
  GuardedSystem.exists_reach_of_exec
    (pollEmpty ++ [Action.reader 0 (.park ⟨4, []⟩), .writer (.write [7]), .writer (.publish 1),
      .writer .notifyWaiters])
    (by decide)

end StreamServer.Archives

import Mathlib.Data.List.Basic
import Mathlib.Data.List.Count
import StreamServer.Lib.GuardedSystem

/-!
# Tasks that share a state

An asynchronous program consists of tasks that run one at a time, each until it has to wait.
A task is the stack of the stretches of code it has yet to run, the next one on top.  A
stretch changes the shared state, puts others in its place and may start further tasks; what
it meets outside the program is an answer.  Calls come from outside, and a task can be
dropped while it waits: then what it owns is released.

What can happen next is a matter of what is pending in some stack, so laws about such programs
count it: the count of a kind of stretch changes only by the stretch that runs and by what
this puts on stacks.

## Main definitions

* `TaskSystem` — the stretches of a program, the calls, and what dropping releases.
* `TaskSystem.World`, `TaskSystem.system` — the states and the steps.
* `TaskSystem.World.pending` — how often a kind of stretch is on a stack.

## Main results

* `pending_run`, `pending_arrive`, `pending_drop` — what the steps do to it.
* `forall_run`, `forall_arrive`, `forall_drop` — what holds of everything on a stack.
-/

universe u v w x

/-- What a stretch does: the shared state it leaves, what is put in its place, and the tasks it
starts. -/
structure TaskOutcome (σ : Type u) (ι : Type v) where
  shared : σ
  next : List ι
  spawned : List (List ι)

/-- A program of tasks. -/
structure TaskSystem (σ : Type u) (ι : Type v) (β : Type w) (γ : Type x) where
  /-- The stretch may run, and meet this answer. -/
  ready : σ → ι → β → Prop
  run : σ → ι → β → TaskOutcome σ ι
  /-- The call may come. -/
  accepts : σ → γ → Prop
  arrive : σ → γ → σ × List (List ι)
  /-- The task may be dropped. -/
  droppable : List ι → Prop
  release : σ → List ι → σ × List (List ι)

namespace TaskSystem

variable {σ : Type u} {ι : Type v} {β : Type w} {γ : Type x}

/-- The shared state, and the stacks of the tasks. -/
structure World (σ : Type u) (ι : Type v) where
  shared : σ
  tasks : List (List ι)

/-- What can happen to a system of tasks. -/
inductive Action (ι : Type v) (β : Type w) (γ : Type x)
  /-- The stretch on top of a stack runs. -/
  | run (i : ℕ) (k : ι) (answer : β)
  | arrive (call : γ)
  | drop (i : ℕ)

namespace World

variable (s : World σ ι)

/-- Everything on a stack. -/
def stacked : List ι := s.tasks.flatten

/-- How often something of the kind is on a stack. -/
def pending (p : ι → Bool) : ℕ := s.stacked.countP p

/-- The task whose turn it is, behind the stretch that runs. -/
def rest (i : ℕ) : List ι := ((s.tasks[i]?).getD []).tail

end World

variable (S : TaskSystem σ ι β γ)

/-- The program as a transition system. -/
def system : GuardedSystem (World σ ι) (Action ι β γ) where
  guard s
    | .run i k answer => (s.tasks[i]?).bind List.head? = some k ∧ S.ready s.shared k answer
    | .arrive call => S.accepts s.shared call
    | .drop i => ∃ stack ∈ s.tasks[i]?, S.droppable stack
  effect s
    | .run i k answer =>
        let outcome := S.run s.shared k answer
        ⟨outcome.shared, s.tasks.set i (outcome.next ++ s.rest i) ++ outcome.spawned⟩
    | .arrive call =>
        let outcome := S.arrive s.shared call
        ⟨outcome.1, s.tasks ++ outcome.2⟩
    | .drop i =>
        let outcome := S.release s.shared ((s.tasks[i]?).getD [])
        ⟨outcome.1, s.tasks.set i [] ++ outcome.2⟩

/-! ### What is on the stacks -/

section Stacked

variable {S} {s : World σ ι}

/-- The stack of a task that runs. -/
theorem getElem?_of_head {i : ℕ} {k : ι} (h : (s.tasks[i]?).bind List.head? = some k) :
    s.tasks[i]? = some (k :: s.rest i) := by
  obtain ⟨stack, hstack, hhead⟩ := Option.bind_eq_some_iff.mp h
  cases stack with
  | nil => cases hhead
  | cons k' stack =>
    obtain rfl : k' = k := Option.some.inj hhead
    rw [World.rest, hstack]
    rfl

theorem countP_set (p : ι → Bool) {tasks : List (List ι)} {i : ℕ} {old : List ι}
    (h : tasks[i]? = some old) (new : List ι) :
    (tasks.set i new).flatten.countP p + old.countP p =
      tasks.flatten.countP p + new.countP p := by
  induction tasks generalizing i with
  | nil => simp at h
  | cons task tasks ih =>
    cases i with
    | zero =>
      obtain rfl : task = old := by simpa using h
      simp only [List.set_cons_zero, List.flatten_cons, List.countP_append]
      omega
    | succ i =>
      have hlater := ih (by simpa using h)
      simp only [List.set_cons_succ, List.flatten_cons, List.countP_append]
      omega

theorem mem_set {tasks : List (List ι)} {i : ℕ} {new : List ι} {k : ι}
    (h : k ∈ (tasks.set i new).flatten) : k ∈ tasks.flatten ∨ k ∈ new := by
  obtain ⟨stack, hstack, hk⟩ := List.mem_flatten.mp h
  rcases List.mem_or_eq_of_mem_set hstack with hold | rfl
  · exact Or.inl (List.mem_flatten.mpr ⟨stack, hold, hk⟩)
  · exact Or.inr hk

/-- What runs was on a stack. -/
theorem mem_of_run {i : ℕ} {k : ι} {answer : β} (hg : S.system.guard s (.run i k answer)) :
    k ∈ s.stacked :=
  List.mem_flatten.mpr
    ⟨_, List.mem_of_getElem? (getElem?_of_head hg.1), List.mem_cons_self⟩

/-- **Counting, when a stretch runs.** -/
theorem pending_run {i : ℕ} {k : ι} {answer : β} (hg : S.system.guard s (.run i k answer))
    (p : ι → Bool) :
    (S.system.effect s (.run i k answer)).pending p + (p k).toNat =
      s.pending p + (S.run s.shared k answer).next.countP p +
        (S.run s.shared k answer).spawned.flatten.countP p := by
  have hset := countP_set p (getElem?_of_head hg.1)
    ((S.run s.shared k answer).next ++ s.rest i)
  simp only [List.countP_cons, List.countP_append] at hset
  simp only [World.pending, World.stacked, system, List.flatten_append, List.countP_append]
  cases hp : p k with
  | false =>
    simp only [hp, Bool.false_eq_true, if_false, Bool.toNat_false] at hset ⊢
    omega
  | true =>
    simp only [hp, if_true, Bool.toNat_true] at hset ⊢
    omega

/-- A stretch that neither is of the kind nor leads to it. -/
theorem pending_run_same {i : ℕ} {k : ι} {answer : β} {p : ι → Bool}
    (hg : S.system.guard s (.run i k answer)) (hk : p k = false)
    (hnext : (S.run s.shared k answer).next.countP p = 0)
    (hspawned : (S.run s.shared k answer).spawned.flatten.countP p = 0) :
    (S.system.effect s (.run i k answer)).pending p = s.pending p := by
  have hcount := pending_run hg p
  rw [hk, hnext, hspawned, Bool.toNat_false] at hcount
  omega

/-- **Counting, when a call comes.** -/
theorem pending_arrive (call : γ) (p : ι → Bool) :
    (S.system.effect s (.arrive call)).pending p =
      s.pending p + (S.arrive s.shared call).2.flatten.countP p := by
  simp only [World.pending, World.stacked, system, List.flatten_append, List.countP_append]

/-- **Counting, when a task is dropped.** -/
theorem pending_drop {i : ℕ} {stack : List ι} (h : s.tasks[i]? = some stack) (p : ι → Bool) :
    (S.system.effect s (.drop i)).pending p + stack.countP p =
      s.pending p + (S.release s.shared stack).2.flatten.countP p := by
  have hset := countP_set p h []
  simp only [World.pending, World.stacked, system, h, Option.getD_some, List.flatten_append,
    List.countP_append, List.countP_nil, Nat.add_zero] at hset ⊢
  omega

/-- **What holds of everything on a stack**, when a stretch runs. -/
theorem forall_run {P : ι → Prop} {i : ℕ} {k : ι} {answer : β} (h : ∀ k' ∈ s.stacked, P k')
    (hnext : ∀ k' ∈ (S.run s.shared k answer).next, P k')
    (hspawned : ∀ k' ∈ (S.run s.shared k answer).spawned.flatten, P k') :
    ∀ k' ∈ (S.system.effect s (.run i k answer)).stacked, P k' := by
  intro k' hk'
  simp only [World.stacked, system, List.flatten_append, List.mem_append] at hk'
  rcases hk' with hset | hnew
  · rcases mem_set hset with hold | hfirst
    · exact h k' hold
    · rcases List.mem_append.mp hfirst with hfirst | hrest
      · exact hnext k' hfirst
      · apply h k'
        -- what lies below was there
        rw [World.rest] at hrest
        cases hstack : s.tasks[i]? with
        | none => simp [hstack] at hrest
        | some stack =>
          rw [hstack, Option.getD_some] at hrest
          exact List.mem_flatten.mpr ⟨stack, List.mem_of_getElem? hstack, List.mem_of_mem_tail hrest⟩
  · exact hspawned k' hnew

theorem forall_arrive {P : ι → Prop} {call : γ} (h : ∀ k' ∈ s.stacked, P k')
    (hspawned : ∀ k' ∈ (S.arrive s.shared call).2.flatten, P k') :
    ∀ k' ∈ (S.system.effect s (.arrive call)).stacked, P k' := by
  intro k' hk'
  simp only [World.stacked, system, List.flatten_append, List.mem_append] at hk'
  exact hk'.elim (h k') (hspawned k')

theorem forall_drop {P : ι → Prop} {i : ℕ} (h : ∀ k' ∈ s.stacked, P k')
    (hspawned : ∀ k' ∈ (S.release s.shared ((s.tasks[i]?).getD [])).2.flatten, P k') :
    ∀ k' ∈ (S.system.effect s (.drop i)).stacked, P k' := by
  intro k' hk'
  simp only [World.stacked, system, List.flatten_append, List.mem_append] at hk'
  rcases hk' with hset | hnew
  · rcases mem_set hset with hold | hnil
    · exact h k' hold
    · cases hnil
  · exact hspawned k' hnew

/-- What runs is counted. -/
theorem pending_pos {p : ι → Bool} {i : ℕ} {k : ι} {answer : β}
    (hg : S.system.guard s (.run i k answer)) (hp : p k = true) : 0 < s.pending p :=
  List.countP_pos_iff.mpr ⟨k, mem_of_run hg, hp⟩

end Stacked

instance [DecidableEq ι] [∀ s k b, Decidable (S.ready s k b)] [∀ s c, Decidable (S.accepts s c)]
    [∀ stack, Decidable (S.droppable stack)] (s : World σ ι) :
    ∀ a : Action ι β γ, Decidable (S.system.guard s a)
  | .run _ _ _ => inferInstanceAs (Decidable (_ ∧ _))
  | .arrive call => inferInstanceAs (Decidable (S.accepts s.shared call))
  | .drop i => inferInstanceAs (Decidable (∃ stack ∈ s.tasks[i]?, S.droppable stack))

end TaskSystem

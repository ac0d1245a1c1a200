import Mathlib.Data.List.Perm.Basic
import StreamServer.EngineFs.Flow

/-!
# Where a stream is

A stream goes from stage to stage: it is requested, started, counted on the torrent and on the
file, watched by a guard, and ended on the torrent and on the file.  In each stage there is a
stretch about it on a stack, except while it is only open: then it is in the list of the open
streams.  How many streams there are in each stage, a step changes in one way only, which
depends on the stretch that runs and on nothing else.

## Main definitions

* `Stage`, `Instr.stage` — the stages, and the stage a stretch stands for.
* `Instr.followed` — the stages that come of a stretch.
* `World.staged` — how many streams of a kind are in a stage.

## Main results

* `followed_run` — what a stretch puts on stacks, by stages.
* `staged_run`, `staged_arrive`, `staged_drop` — the numbers after a step.
-/

namespace StreamServer.EngineFs

open TaskSystem

/-- The stages of a stream. -/
inductive Stage
  | requested
  | starting
  | counting
  | countingFile
  | unguarded
  | guarded
  | ending
  | endingFile
  deriving DecidableEq, Repr

namespace Instr

/-- The stage the stretch stands for. -/
def stage : Instr → Option (Stage × OpenStream)
  | .validate x _ => some (.requested, x)
  | .startStream x => some (.starting, x)
  | .countStream x => some (.counting, x)
  | .countFile x => some (.countingFile, x)
  | .makeGuard x => some (.unguarded, x)
  | .dropGuard x => some (.guarded, x)
  | .endStream x => some (.ending, x)
  | .endFile x _ => some (.endingFile, x)
  | _ => none

/-- The stages that come of the stretch. -/
def followed (ok : Bool) : Instr → List (Stage × OpenStream)
  | .validate x _ => if ok then [(.starting, x), (.unguarded, x)] else []
  | .startStream x => [(.counting, x)]
  | .countStream x => [(.countingFile, x)]
  | .makeGuard x => [(.guarded, x)]
  | .dropGuard x => [(.ending, x)]
  | .endStream x => [(.endingFile, x)]
  | _ => []

variable {k : Instr} (s : Shared) (b : Answer)

theorem stage_leadsTo {k' : Instr} (hk : k.stage = none) (h : k.leadsTo k' = true) :
    k'.stage = none := by
  cases k' with
  | validate _ _ | startStream _ | countStream _ | countFile _ | makeGuard _ | dropGuard _
  | endStream _ | endFile _ _ =>
    cases k <;> first
      | exact absurd h Bool.false_ne_true
      | exact absurd hk (Option.some_ne_none _)
  | _ => rfl

theorem stage_starts {k' : Instr} (hk : k.stage = none) (h : k.starts k' = true) :
    k'.stage = none := by
  cases k' with
  | endStream _ =>
    cases k <;> first
      | exact absurd h Bool.false_ne_true
      | exact absurd hk (Option.some_ne_none _)
  | _ => cases k <;> first | rfl | exact absurd h Bool.false_ne_true

theorem followed_none {ok : Bool} (hk : k.stage = none) : k.followed ok = [] := by
  cases k <;> first | rfl | cases hk

/-- **What a stretch puts on stacks**, by stages. -/
theorem followed_run :
    ((k.run s b).next ++ (k.run s b).spawned.flatten).filterMap stage = k.followed b.ok := by
  cases hk : k.stage with
  | none =>
    rw [followed_none hk, List.filterMap_eq_nil_iff]
    intro k' hk'
    rcases List.mem_append.mp hk' with hnext | hspawned
    · exact stage_leadsTo hk (mem_next s b hnext)
    · exact stage_starts hk (mem_spawned s b hspawned)
  | some e =>
    cases k with
    | validate x hls =>
      simp only [run, runValidate, followed]
      cases b.ok <;> cases hls <;> cases s.native <;> rfl
    | startStream x =>
      simp only [run, runStartStream, followed]
      cases s.managed x.infoHash <;> rfl
    | countStream _ | countFile _ | makeGuard _ | dropGuard _ | endStream _ | endFile _ _ => rfl
    | _ => cases hk

end Instr

/-! ### How many there are -/

/-- The streams of the kind that are in the stage. -/
def inStage (st : Stage) (q : OpenStream → Bool) (e : Stage × OpenStream) : Bool :=
  decide (e.1 = st) && q e.2

/-- The stretch stands for a stream of the kind in the stage. -/
def Instr.at (st : Stage) (q : OpenStream → Bool) (k : Instr) : Bool :=
  (k.stage.map (inStage st q)).getD false

/-- How many streams of the kind are in the stage. -/
def World.staged (w : World) (st : Stage) (q : OpenStream → Bool) : ℕ :=
  TaskSystem.World.pending w (Instr.at st q)

section Steps

variable {drops : Bool} {w : World} {i : ℕ} {k : Instr} {b : Answer} (st : Stage)
  (q : OpenStream → Bool)

theorem staged_run (hg : (engineFs drops).system.guard w (.run i k b)) :
    World.staged ((engineFs drops).system.effect w (.run i k b)) st q +
        (Instr.at st q k).toNat =
      w.staged st q + (k.followed b.ok).countP (inStage st q) := by
  have hcount := counted_run hg (Instr.at st q)
  rw [World.staged, World.staged, hcount, ← Instr.followed_run w.shared b, List.countP_filterMap,
    List.countP_append, Nat.add_assoc]
  rfl

theorem staged_arrive (call : Call) :
    World.staged ((engineFs drops).system.effect w (.arrive call)) st q =
      w.staged st q + ((call.arrive w.shared).2.flatten.filterMap Instr.stage).countP (inStage st q) := by
  rw [World.staged, counted_arrive, List.countP_filterMap]
  rfl

/-- What a stack owns is guarded. -/
theorem countP_guards (stack : List Instr) (q : OpenStream → Bool) :
    (stack.filterMap Instr.guard?).countP q = stack.countP (Instr.at .guarded q) := by
  have hguards : ∀ k : Instr, (k.guard?.map q).getD false = Instr.at .guarded q k := by
    intro k
    cases k <;> rfl
  rw [List.countP_filterMap, funext hguards]

/-- The guards of a stack that is dropped tell of the ends. -/
theorem staged_drop {stack : List Instr} (h : w.tasks[i]? = some stack) :
    World.staged ((engineFs drops).system.effect w (.drop i)) st q + stack.countP (Instr.at st q) =
      w.staged st q + if st = .ending then stack.countP (Instr.at .guarded q) else 0 := by
  have hspawned : ∀ guards : List OpenStream,
      (guards.map fun x => [Instr.endStream x]).flatten.countP (Instr.at st q) =
        if st = .ending then guards.countP q else 0 := by
    intro guards
    induction guards with
    | nil => simp
    | cons x guards ih =>
      rw [List.map_cons, List.flatten_cons, List.countP_append, ih]
      by_cases hst : st = .ending
      · simp [hst, Instr.at, Instr.stage, inStage, List.countP_cons, Nat.add_comm]
      · simp [hst, Instr.at, Instr.stage, inStage, Ne.symm hst]
  have hcount := TaskSystem.pending_drop (S := engineFs drops) h (Instr.at st q)
  rw [World.staged, World.staged, hcount]
  congr 1
  show (List.map _ _).flatten.countP _ = _
  rw [hspawned, countP_guards]

end Steps

/-! ### The order on a stack -/

/-- A start is under way. -/
def Stage.isStart : Stage → Bool
  | .starting | .counting | .countingFile => true
  | _ => false

/-- The guard of a request is made when its start is through. -/
def Ordered : List Instr → Prop
  | [] => True
  | k :: rest =>
      (∀ st x, k.stage = some (st, x) → st.isStart = true → x.guarded = true → .makeGuard x ∈ rest) ∧
        Ordered rest

theorem Ordered.append {stack : List Instr} (h : Ordered stack) {l : List Instr}
    (hl : ∀ k ∈ l, k.stage = none) : Ordered (l ++ stack) := by
  induction l with
  | nil => exact h
  | cons k l ih =>
    refine ⟨?_, ih fun k' hk' => hl k' (List.mem_cons_of_mem _ hk')⟩
    intro st x hk
    rw [hl k List.mem_cons_self] at hk
    cases hk

theorem Ordered.cons {stack : List Instr} (h : Ordered stack) {k : Instr}
    (hk : ∀ st x, k.stage = some (st, x) → st.isStart = true → x.guarded = true → .makeGuard x ∈ stack) :
    Ordered (k :: stack) := ⟨hk, h⟩

theorem Ordered.mem {stack : List Instr} (h : Ordered stack) {k : Instr} (hk : k ∈ stack)
    {st : Stage} {x : OpenStream} (hstage : k.stage = some (st, x)) (hstart : st.isStart = true)
    (hx : x.guarded = true) : .makeGuard x ∈ stack := by
  induction stack with
  | nil => cases hk
  | cons k' stack ih =>
    rcases List.mem_cons.mp hk with rfl | hk
    · exact List.mem_cons_of_mem _ (h.1 st x hstage hstart hx)
    · exact List.mem_cons_of_mem _ (ih h.2 hk)

theorem Ordered.of_no_start {stack : List Instr}
    (h : ∀ k ∈ stack, ∀ st x, k.stage = some (st, x) → st.isStart = false) : Ordered stack := by
  induction stack with
  | nil => exact trivial
  | cons k stack ih =>
    refine Ordered.cons (ih fun k' hk' => h k' (List.mem_cons_of_mem _ hk')) ?_
    intro st x hstage hstart
    rw [h k List.mem_cons_self st x hstage] at hstart
    cases hstart

/-- No task is started with a start of a stream. -/
theorem Instr.isStart_of_starts {k k' : Instr} (h : k.starts k' = true) {st : Stage} {x : OpenStream}
    (hst : k'.stage = some (st, x)) : st.isStart = false := by
  cases k' with
  | startStream _ | countStream _ | countFile _ =>
    cases k <;> exact absurd h Bool.false_ne_true
  | validate _ _ | makeGuard _ | dropGuard _ | endStream _ | endFile _ _ =>
    cases hst
    rfl
  | _ => cases hst

theorem Ordered.run {k : Instr} {rest : List Instr} (h : Ordered (k :: rest)) (s : Shared) (b : Answer) :
    Ordered ((k.run s b).next ++ rest) := by
  cases hk : k.stage with
  | none =>
    exact h.2.append fun k' hk' => Instr.stage_leadsTo hk (Instr.mem_next s b hk')
  | some e =>
    cases k with
    -- the instructions put in front of the guard are about no stream
    | validate x hls =>
      have hguard : Ordered (.makeGuard x :: rest) := by
        refine h.2.cons ?_
        intro st y hstage hstart
        cases hstage
        cases hstart
      simp only [Instr.run, Instr.runValidate]
      split
      · simp only [goOn, List.cons_append, List.append_assoc, List.nil_append]
        refine Ordered.cons (Ordered.append (Ordered.append hguard ?_) ?_) ?_
        · split <;> simp [Instr.stage]
        · split <;> simp [Instr.stage]
        · intro st y hstage _ _
          cases hstage
          simp
      · exact h.2
    -- the stages of a stream follow each other: the next one is put where this one stood
    | startStream x =>
      have hcount : Ordered (.countStream x :: rest) := by
        refine h.2.cons ?_
        intro st y hstage hstart hy
        cases hstage
        exact h.1 .starting x rfl rfl hy
      simp only [Instr.run, Instr.runStartStream]
      split
      · exact hcount.append (l := [_, _]) (by simp [Instr.stage])
      · exact hcount.append (l := [_]) (by simp [Instr.stage])
    | countStream x =>
      refine h.2.cons ?_
      intro st y hstage hstart hy
      cases hstage
      exact h.1 .counting x rfl rfl hy
    | makeGuard x => 
      refine Ordered.append (l := [_]) (h.2.cons ?_) (by simp [Instr.stage])
      intro st y hstage hstart
      cases hstage
      cases hstart
    | endStream x =>
      refine h.2.cons ?_
      intro st y hstage hstart
      cases hstage
      cases hstart
    | endFile x hashLeft => exact h.2.append (l := [_]) (by simp [Instr.stage])
    | countFile x => exact h.2
    | dropGuard x => exact h.2
    | _ => cases hk

/-! ### Ends are told by tasks of their own -/

/-- The stretch takes counts back. -/
def Instr.ends : Instr → Bool
  | .endStream _ | .endFile _ _ => true
  | _ => false

/-- A request takes no counts back itself. -/
def Apart (stack : List Instr) : Prop :=
  (∃ k ∈ stack, k.ofRequest = true) → ∀ k ∈ stack, k.ends = false

theorem Instr.ends_leadsTo {k k' : Instr} (hk : k.ends = false) (h : k.leadsTo k' = true) :
    k'.ends = false := by
  cases k' with
  | endStream _ | endFile _ _ =>
    cases k <;> first
      | exact absurd h Bool.false_ne_true
      | exact absurd hk.symm Bool.false_ne_true
  | _ => rfl

theorem Instr.ofRequest_leadsTo {k k' : Instr} (hk' : k'.ofRequest = true) (h : k.leadsTo k' = true) :
    k.ofRequest = true := by
  cases k' with
  | validate _ _ | makeGuard _ | dropGuard _ =>
    cases k <;> first
      | rfl
      | exact absurd h Bool.false_ne_true
  | _ => cases hk'

theorem Instr.ofRequest_starts {k k' : Instr} (h : k.starts k' = true) : k'.ofRequest = false := by
  cases k' with
  | validate _ _ | makeGuard _ | dropGuard _ => cases k <;> exact absurd h Bool.false_ne_true
  | _ => rfl

theorem Apart.run {k : Instr} {rest : List Instr} (h : Apart (k :: rest)) (s : Shared) (b : Answer) :
    Apart ((k.run s b).next ++ rest) := by
  intro ⟨k₁, hin₁, hrequest⟩
  have hold : ∀ k' ∈ k :: rest, k'.ends = false := by
    apply h
    rcases List.mem_append.mp hin₁ with hnext | hrest
    · exact ⟨k, List.mem_cons_self, Instr.ofRequest_leadsTo hrequest (Instr.mem_next s b hnext)⟩
    · exact ⟨k₁, List.mem_cons_of_mem _ hrest, hrequest⟩
  intro k' hin
  rcases List.mem_append.mp hin with hnext | hrest
  · exact Instr.ends_leadsTo (hold k List.mem_cons_self) (Instr.mem_next s b hnext)
  · exact hold k' (List.mem_cons_of_mem _ hrest)

theorem Apart.of_no_request {stack : List Instr} (h : ∀ k ∈ stack, k.ofRequest = false) : Apart stack := by
  intro ⟨k, hk, hrequest⟩
  rw [h k hk] at hrequest
  cases hrequest

/-! ### Every stream is in one place -/

/-- How often the stream is in the stage. -/
def World.stagedOf (w : World) (st : Stage) (x : OpenStream) : ℕ := w.staged st (· == x)

/-- How often a stream can be in each stage, and how often among the open ones. -/
structure Placed (n : Stage → ℕ) (o : ℕ) (guarded : Bool) : Prop where
  /-- It is started once. -/
  one : n .requested + n .starting + n .counting + n .countingFile + o ≤ 1
  /-- A request makes one guard. -/
  holder : n .requested + n .unguarded + n .guarded ≤ 1
  /-- While it is started or open, its guard is made or will be. -/
  guards : guarded = true →
    n .unguarded + n .guarded = n .starting + n .counting + n .countingFile + o
  /-- Only requests make guards. -/
  calls : guarded = false → n .requested + n .unguarded + n .guarded = 0

/-- Where the streams are. -/
structure Tracked (w : World) : Prop where
  /-- A stream that has not been named is nowhere. -/
  fresh : ∀ x : OpenStream, w.shared.newStream ≤ x.id →
    (∀ st, w.stagedOf st x = 0) ∧ w.shared.streams.count x = 0
  placed : ∀ x : OpenStream, Placed (w.stagedOf · x) (w.shared.streams.count x) x.guarded
  ordered : ∀ stack ∈ w.tasks, Ordered stack
  apart : ∀ stack ∈ w.tasks, Apart stack

/-- **A request is not dropped between the first count of its stream and the making of its
guard.** -/
def KeepsCount (w : World) : Action → Prop
  | .drop i => ∀ stack ∈ w.tasks[i]?, ∀ x, .countFile x ∉ stack ∧
      (.makeGuard x ∈ stack → .startStream x ∈ stack ∨ .countStream x ∈ stack)
  | _ => True

section Tracked

variable {drops : Bool} {w : World} {i : ℕ} {k : Instr} {b : Answer}

theorem Instr.at_eq (st : Stage) (x : OpenStream) :
    Instr.at st (· == x) k = decide (k.stage = some (st, x)) := by
  rw [Instr.at]
  cases hk : k.stage with
  | none => simp
  | some e =>
    obtain ⟨st', y⟩ := e
    by_cases h : st' = st <;> by_cases hy : y = x <;> simp [inStage, h, hy]

/-- What is on a stack counts. -/
theorem World.stagedOf_pos {stack : List Instr} (hstack : stack ∈ w.tasks) (hk : k ∈ stack)
    {st : Stage} {x : OpenStream} (hstage : k.stage = some (st, x)) : 0 < w.stagedOf st x := by
  refine List.countP_pos_iff.mpr ⟨k, List.mem_flatten.mpr ⟨stack, hstack, hk⟩, ?_⟩
  rw [Instr.at_eq, hstage, decide_eq_true rfl]

theorem World.exists_of_stagedOf {st : Stage} {x : OpenStream} (h : 0 < w.stagedOf st x) :
    ∃ stack ∈ w.tasks, ∃ k ∈ stack, k.stage = some (st, x) := by
  obtain ⟨k, hk, hat⟩ := List.countP_pos_iff.mp h
  obtain ⟨stack, hstack, hk⟩ := List.mem_flatten.mp hk
  rw [Instr.at_eq] at hat
  exact ⟨stack, hstack, k, hk, of_decide_eq_true hat⟩

/-- While a stream is started for a request, its guard is not made. -/
theorem Tracked.unguarded_pos (hw : Tracked w) {st : Stage} {x : OpenStream}
    (hstart : st.isStart = true) (hx : x.guarded = true) (h : 0 < w.stagedOf st x) :
    0 < w.stagedOf .unguarded x := by
  obtain ⟨stack, hstack, k, hk, hstage⟩ := World.exists_of_stagedOf h
  exact World.stagedOf_pos hstack ((hw.ordered stack hstack).mem hk hstage hstart hx) rfl

/-- **What a guard watches is open.** -/
theorem Tracked.open_of_guarded (hw : Tracked w) {x : OpenStream} (h : 0 < w.stagedOf .guarded x) :
    w.stagedOf .guarded x = 1 ∧ w.shared.streams.count x = 1 := by
  have hone := (hw.placed x).one
  have hholder := (hw.placed x).holder
  cases hx : x.guarded with
  | false =>
    have hcalls := (hw.placed x).calls hx
    omega
  | true =>
    have hguards := (hw.placed x).guards hx
    -- a start under way would have a second guard to make
    have hstart : ∀ st : Stage, st.isStart = true → w.stagedOf st x = 0 := by
      intro st hst
      by_contra hne
      have hpos := hw.unguarded_pos hst hx (Nat.pos_of_ne_zero hne)
      omega
    have hstarting := hstart .starting rfl
    have hcounting := hstart .counting rfl
    have hcountingFile := hstart .countingFile rfl
    omega

theorem inStage_eq (st : Stage) (x : OpenStream) : inStage st (· == x) = (· == (st, x)) := by
  funext e
  obtain ⟨st', y⟩ := e
  by_cases h : st' = st <;> by_cases hy : y = x <;> simp [inStage, h, hy]

theorem stagedOf_run (hg : (engineFs drops).system.guard w (.run i k b)) (st : Stage) (x : OpenStream) :
    World.stagedOf ((engineFs drops).system.effect w (.run i k b)) st x +
        (decide (k.stage = some (st, x))).toNat =
      w.stagedOf st x + (k.followed b.ok).count (st, x) := by
  have hcount := staged_run st (· == x) hg
  rw [Instr.at_eq] at hcount
  rw [World.stagedOf, World.stagedOf, hcount, List.count, inStage_eq]

/-- What comes of a stretch is about its stream. -/
theorem Instr.stage_of_followed {ok : Bool} {st : Stage} {x : OpenStream} (h : (st, x) ∈ k.followed ok) :
    ∃ st', k.stage = some (st', x) := by
  cases k with
  | validate y hls =>
    rw [followed] at h
    split at h
    · simp at h
      rcases h with ⟨-, rfl⟩ | ⟨-, rfl⟩ <;> exact ⟨_, rfl⟩
    · cases h
  | startStream y | countStream y | makeGuard y | dropGuard y | endStream y =>
    simp [followed] at h
    obtain ⟨-, rfl⟩ := h
    exact ⟨_, rfl⟩
  | _ => cases h

/-- A stretch that runs on the top of a stack leaves the stacks in order. -/
theorem Tracked.ordered_run (hw : Tracked w) (hg : (engineFs drops).system.guard w (.run i k b)) :
    ∀ stack ∈ ((engineFs drops).system.effect w (.run i k b)).tasks, Ordered stack := by
  have hstack := TaskSystem.getElem?_of_head hg.1
  intro stack hin
  rcases List.mem_append.mp hin with hset | hspawned
  · rcases List.mem_or_eq_of_mem_set hset with hold | rfl
    · exact hw.ordered stack hold
    · exact (hw.ordered _ (List.mem_of_getElem? hstack)).run w.shared b
  · refine Ordered.of_no_start fun k' hk' st x hst => ?_
    exact Instr.isStart_of_starts (Instr.mem_spawned w.shared b (List.mem_flatten.mpr ⟨stack, hspawned, hk'⟩)) hst

theorem Tracked.apart_run (hw : Tracked w) (hg : (engineFs drops).system.guard w (.run i k b)) :
    ∀ stack ∈ ((engineFs drops).system.effect w (.run i k b)).tasks, Apart stack := by
  have hstack := TaskSystem.getElem?_of_head hg.1
  intro stack hin
  rcases List.mem_append.mp hin with hset | hspawned
  · rcases List.mem_or_eq_of_mem_set hset with hold | rfl
    · exact hw.apart stack hold
    · exact (hw.apart _ (List.mem_of_getElem? hstack)).run w.shared b
  · exact Apart.of_no_request fun k' hk' => Instr.ofRequest_starts
      (Instr.mem_spawned w.shared b (List.mem_flatten.mpr ⟨stack, hspawned, hk'⟩))

theorem count_streams_run (x : OpenStream) :
    ((k.run w.shared b).shared.streams).count x =
      w.shared.streams.count x - (decide (k = .dropGuard x)).toNat + (decide (k = .countFile x)).toNat := by
  cases k with
  | countFile y =>
    by_cases h : y = x <;> simp [Instr.run, h]
  | dropGuard y =>
    by_cases h : y = x <;> simp [Instr.run, h, List.count_erase]
  | _ => rw [Instr.run_streams _ _ rfl]; simp

/-- A stretch moves its stream from stage to stage. -/
theorem Placed.step {n n' : Stage → ℕ} {o : ℕ} {guarded ok : Bool} {x : OpenStream}
    (h : Placed n o guarded)
    (hn : ∀ st, n' st + (decide (k.stage = some (st, x))).toNat = n st + (k.followed ok).count (st, x))
    (ho : 0 < n .guarded → o = 1) :
    Placed n' (o - (decide (k = .dropGuard x)).toNat + (decide (k = .countFile x)).toNat) guarded := by
  cases hk : k.stage with
  | none =>
    have hsame : n' = n := by
      funext st
      simpa [hk, Instr.followed_none hk] using hn st
    have hdrop : k ≠ .dropGuard x := fun heq => by simp [heq, Instr.stage] at hk
    have hcount : k ≠ .countFile x := fun heq => by simp [heq, Instr.stage] at hk
    simpa [hsame, hdrop, hcount] using h
  | some e =>
    have hrequested := hn .requested
    have hstarting := hn .starting
    have hcounting := hn .counting
    have hcountingFile := hn .countingFile
    have hunguarded := hn .unguarded
    have hguarded := hn .guarded
    obtain ⟨hone, hholder, hguards, hcalls⟩ := h
    clear hn
    cases k with
    | validate y _ =>
      by_cases hyx : y = x <;> cases ok <;>
        simp [Instr.stage, Instr.followed, hyx] at hrequested hstarting hcounting hcountingFile hunguarded hguarded ⊢ <;>
        constructor <;> grind
    | startStream y | countStream y | countFile y | makeGuard y | dropGuard y | endStream y
    | endFile y _ =>
      by_cases hyx : y = x <;>
        simp [Instr.stage, Instr.followed, hyx] at hrequested hstarting hcounting hcountingFile hunguarded hguarded ⊢ <;>
        constructor <;> grind
    | _ => cases hk

theorem Tracked.run (hw : Tracked w) (hg : (engineFs drops).system.guard w (.run i k b)) :
    Tracked ((engineFs drops).system.effect w (.run i k b)) := by
  have hstaged := stagedOf_run hg
  constructor
  · intro x hx
    rw [shared_run, Instr.run_newStream] at hx
    obtain ⟨hstages, hopen⟩ := hw.fresh x hx
    have hnot : ∀ st, k.stage ≠ some (st, x) := by
      intro st hst
      have hpos := World.stagedOf_pos (List.mem_of_getElem? (TaskSystem.getElem?_of_head hg.1))
        List.mem_cons_self hst
      rw [hstages st] at hpos
      omega
    constructor
    · intro st
      have hcount := hstaged st x
      have hnone : (k.followed b.ok).count (st, x) = 0 := by
        rw [List.count_eq_zero]
        intro hin
        obtain ⟨st', hst'⟩ := Instr.stage_of_followed hin
        exact hnot st' hst'
      rw [hnone, hstages st] at hcount
      omega
    · have hcountFile : k ≠ .countFile x := fun heq => hnot .countingFile (by rw [heq]; rfl)
      rw [shared_run, count_streams_run, hopen]
      simp [hcountFile]
  · intro x
    rw [shared_run, count_streams_run]
    exact (hw.placed x).step (fun st => hstaged st x) fun hpos => (hw.open_of_guarded hpos).2
  · exact hw.ordered_run hg
  · exact hw.apart_run hg

theorem stagedOf_arrive (call : Call) (st : Stage) (x : OpenStream) :
    World.stagedOf ((engineFs drops).system.effect w (.arrive call)) st x =
      w.stagedOf st x + ((call.arrive w.shared).2.flatten.filterMap Instr.stage).count (st, x) := by
  rw [World.stagedOf, World.stagedOf, staged_arrive, List.count, inStage_eq]

/-- Nothing happens to streams. -/
theorem Tracked.of_same {w' : World} (hw : Tracked w) (hnew : w'.shared.newStream = w.shared.newStream)
    (hstaged : ∀ st x, w'.stagedOf st x = w.stagedOf st x)
    (hopen : w'.shared.streams = w.shared.streams) (hordered : ∀ stack ∈ w'.tasks, Ordered stack)
    (hapart : ∀ stack ∈ w'.tasks, Apart stack) :
    Tracked w' := by
  constructor
  · intro x hx
    rw [hnew] at hx
    simpa only [hstaged, hopen] using hw.fresh x hx
  · intro x
    simpa only [hstaged, hopen] using hw.placed x
  · exact hordered
  · exact hapart

/-- A call names a stream that is nowhere yet. -/
theorem Tracked.named {w' : World} (hw : Tracked w) {y : OpenStream} {origin : Stage}
    (horigin : origin = .requested ∧ y.guarded = true ∨ origin = .starting ∧ y.guarded = false)
    (hy : y.id = w.shared.newStream) (hnew : w'.shared.newStream = w.shared.newStream + 1)
    (hstaged : ∀ st x, w'.stagedOf st x = w.stagedOf st x + [(origin, y)].count (st, x))
    (hopen : w'.shared.streams = w.shared.streams) (hordered : ∀ stack ∈ w'.tasks, Ordered stack)
    (hapart : ∀ stack ∈ w'.tasks, Apart stack) :
    Tracked w' := by
  constructor
  · intro x hx
    rw [hnew] at hx
    have hne : y ≠ x := by
      intro heq
      rw [heq] at hy
      omega
    simpa [hstaged, hopen, hne] using hw.fresh x (by omega)
  · intro x
    rw [hopen]
    by_cases hyx : y = x
    · subst hyx
      obtain ⟨hstages, hcount⟩ := hw.fresh y (by omega)
      rcases horigin with ⟨rfl, hguarded⟩ | ⟨rfl, hguarded⟩ <;>
        constructor <;> simp [hstaged, hstages, hcount, hguarded]
    · simpa [hstaged, hyx] using hw.placed x
  · exact hordered
  · exact hapart

theorem Tracked.arrive (hw : Tracked w) {call : Call}
    (hg : (engineFs drops).system.guard w (.arrive call)) :
    Tracked ((engineFs drops).system.effect w (.arrive call)) := by
  have hstaged : ∀ st x, World.stagedOf ((engineFs drops).system.effect w (.arrive call)) st x =
      w.stagedOf st x + ((call.arrive w.shared).2.flatten.filterMap Instr.stage).count (st, x) :=
    fun st x => stagedOf_arrive call st x
  have hordered : ∀ stack ∈ ((engineFs drops).system.effect w (.arrive call)).tasks, Ordered stack := by
    intro stack hin
    rcases List.mem_append.mp hin with hold | hnew
    · exact hw.ordered stack hold
    · cases call with
      | tick _ | openReader _ | closeReader _ => cases hnew
      | setSeeding enabled =>
        obtain rfl := Call.stack_setSeeding hnew
        simp [Ordered, Instr.stage]
      | _ =>
        obtain rfl := List.mem_singleton.mp hnew
        simp [Ordered, Instr.stage, Stage.isStart]
  have hapart : ∀ stack ∈ ((engineFs drops).system.effect w (.arrive call)).tasks, Apart stack := by
    intro stack hin
    rcases List.mem_append.mp hin with hold | hnew
    · exact hw.apart stack hold
    · cases call with
      | tick _ | openReader _ | closeReader _ => cases hnew
      | setSeeding enabled =>
        obtain rfl := Call.stack_setSeeding hnew
        simp [Apart, Instr.ofRequest]
      | _ =>
        obtain rfl := List.mem_singleton.mp hnew
        simp [Apart, Instr.ofRequest, Instr.ends]
  cases call with
  | startStream h f =>
    refine hw.named (y := ⟨w.shared.newStream, h, f, false⟩) (Or.inr ⟨rfl, rfl⟩) rfl rfl ?_ rfl hordered hapart
    intro st x
    exact hstaged st x
  | streamVideo h f hls =>
    refine hw.named (y := ⟨w.shared.newStream, h, f, true⟩) (Or.inl ⟨rfl, rfl⟩) rfl rfl ?_ rfl hordered hapart
    intro st x
    exact hstaged st x
  | endStream y =>
    obtain ⟨hin, hguarded⟩ := hg
    have hnot : y.id < w.shared.newStream := by
      by_contra hle
      have hnone := (hw.fresh y (by omega)).2
      exact absurd hin (List.count_eq_zero.mp hnone)
    have hopen : ((engineFs drops).system.effect w (.arrive (.endStream y))).shared.streams =
        w.shared.streams.erase y := rfl
    constructor
    · intro x hx
      have hne : y ≠ x := by
        intro heq
        rw [heq] at hnot
        exact absurd hx (Nat.not_le.mpr hnot)
      obtain ⟨hstages, hnone⟩ := hw.fresh x hx
      constructor
      · intro st
        rw [hstaged, hstages]
        simp [Call.arrive, Instr.stage, hne]
      · rw [hopen, List.count_erase, hnone, Nat.zero_sub]
    · intro x
      have hsame : ∀ st, st ≠ .ending → World.stagedOf ((engineFs drops).system.effect w
          (.arrive (.endStream y))) st x = w.stagedOf st x := by
        intro st hst
        rw [hstaged]
        simp [Call.arrive, Instr.stage, Ne.symm hst]
      have hx := hw.placed x
      have hone := hx.one
      have hholder := hx.holder
      rw [hopen, List.count_erase]
      have hrequested := hsame .requested (by decide)
      have hstarting := hsame .starting (by decide)
      have hcounting := hsame .counting (by decide)
      have hcountingFile := hsame .countingFile (by decide)
      have hunguarded := hsame .unguarded (by decide)
      have hwatched := hsame .guarded (by decide)
      constructor
      · omega
      · omega
      · intro hx'
        -- the stream is another one: no request ends this one
        have hne : (y == x) = false := by
          rw [beq_eq_false_iff_ne]
          intro heq
          rw [heq, hx'] at hguarded
          cases hguarded
        have hguards := hx.guards hx'
        rw [hne, if_neg Bool.false_ne_true]
        omega
      · intro hx'
        have hcalls := hx.calls hx'
        omega
    · exact hordered
    · exact hapart
  | setSeeding enabled =>
    exact hw.of_same rfl (fun st x => by rw [hstaged]; cases enabled <;> rfl) rfl hordered hapart
  | _ => exact hw.of_same rfl (fun st x => by rw [hstaged]; rfl) rfl hordered hapart

/-- How often the stream is in the stage, on a stack. -/
def stagedOn (stack : List Instr) (st : Stage) (x : OpenStream) : ℕ :=
  stack.countP (Instr.at st (· == x))

theorem stagedOn_pos {stack : List Instr} {st : Stage} {x : OpenStream} :
    0 < stagedOn stack st x ↔ ∃ k ∈ stack, k.stage = some (st, x) := by
  rw [stagedOn, List.countP_pos_iff]
  simp only [Instr.at_eq, decide_eq_true_eq]

theorem Tracked.drop (hw : Tracked w) {stack : List Instr} (h : w.tasks[i]? = some stack)
    (hc : KeepsCount w (.drop i)) :
    Tracked ((engineFs drops).system.effect w (.drop i)) := by
  have hstaged : ∀ st x, World.stagedOf ((engineFs drops).system.effect w (.drop i)) st x +
      stagedOn stack st x = w.stagedOf st x + if st = .ending then stagedOn stack .guarded x else 0 :=
    fun st x => staged_drop st (· == x) h
  have hopen : ∀ x, ((engineFs drops).system.effect w (.drop i)).shared.streams.count x =
      w.shared.streams.count x - stagedOn stack .guarded x := by
    intro x
    show (w.shared.streams.diff (((w.tasks[i]?).getD []).filterMap Instr.guard?)).count x = _
    rw [h, Option.getD_some, List.count_diff]
    congr 1
    exact countP_guards stack (· == x)
  have hin := List.mem_of_getElem? h
  have hle : ∀ st x, stagedOn stack st x ≤ w.stagedOf st x := fun st x =>
    (List.sublist_flatten_of_mem hin).countP_le
  constructor
  · intro x hx
    obtain ⟨hstages, hnone⟩ := hw.fresh x hx
    constructor
    · intro st
      have hcount := hstaged st x
      have hguarded := hle .guarded x
      rw [hstages] at hcount hguarded
      split at hcount <;> omega
    · rw [hopen, hnone, Nat.zero_sub]
  · intro x
    rw [hopen]
    have hrequested := hstaged .requested x
    have hstarting := hstaged .starting x
    have hcounting := hstaged .counting x
    have hcountingFile := hstaged .countingFile x
    have hunguarded := hstaged .unguarded x
    have hguarded := hstaged .guarded x
    simp only [reduceCtorEq, if_false, Nat.add_zero] at *
    obtain ⟨hone, hholder, hguards, hcalls⟩ := hw.placed x
    -- a guard that is to be made is dropped with the start, and a guard with the open stream
    have hmade : x.guarded = true → stagedOn stack .unguarded x =
        stagedOn stack .starting x + stagedOn stack .counting x + stagedOn stack .countingFile x := by
      intro hx
      obtain ⟨hcount, hmake⟩ := hc stack h x
      have hnone : stagedOn stack .countingFile x = 0 := by
        by_contra hne
        obtain ⟨k, hk, hstage⟩ := stagedOn_pos.mp (Nat.pos_of_ne_zero hne)
        obtain rfl : k = .countFile x := by
          cases k <;> cases hstage
          rfl
        exact hcount hk
      have hstarts : 0 < stagedOn stack .unguarded x →
          0 < stagedOn stack .starting x ∨ 0 < stagedOn stack .counting x := by
        intro hpos
        obtain ⟨k, hk, hstage⟩ := stagedOn_pos.mp hpos
        obtain rfl : k = .makeGuard x := by
          cases k <;> cases hstage
          rfl
        rcases hmake hk with hstart | hstart
        · exact Or.inl (stagedOn_pos.mpr ⟨_, hstart, rfl⟩)
        · exact Or.inr (stagedOn_pos.mpr ⟨_, hstart, rfl⟩)
      have hguard : ∀ st : Stage, st.isStart = true → 0 < stagedOn stack st x →
          0 < stagedOn stack .unguarded x := by
        intro st hst hpos
        obtain ⟨k, hk, hstage⟩ := stagedOn_pos.mp hpos
        exact stagedOn_pos.mpr ⟨_, (hw.ordered stack hin).mem hk hstage hst hx, rfl⟩
      have h1 := hguard .starting rfl
      have h2 := hguard .counting rfl
      have h3 := hle .starting x
      have h4 := hle .counting x
      have h5 := hle .unguarded x
      omega
    have hwatched : 0 < w.stagedOf .guarded x → w.shared.streams.count x = 1 :=
      fun hpos => (hw.open_of_guarded hpos).2
    constructor
    · omega
    · omega
    · intro hx
      have h1 := hguards hx
      have h2 := hmade hx
      omega
    · intro hx
      have h1 := hcalls hx
      omega
  · intro stack' hin
    rcases List.mem_append.mp hin with hset | hspawned
    · rcases List.mem_or_eq_of_mem_set hset with hold | rfl
      · exact hw.ordered stack' hold
      · trivial
    · obtain ⟨x, -, rfl⟩ := List.mem_map.mp hspawned
      simp [Ordered, Instr.stage, Stage.isStart]
  · intro stack' hin
    rcases List.mem_append.mp hin with hset | hspawned
    · rcases List.mem_or_eq_of_mem_set hset with hold | rfl
      · exact hw.apart stack' hold
      · exact Apart.of_no_request (by simp)
    · obtain ⟨x, -, rfl⟩ := List.mem_map.mp hspawned
      exact Apart.of_no_request (by simp [Instr.ofRequest])

/-- **A step knows where the streams are.** -/
theorem Tracked.step (hw : Tracked w) {a : Action} (hg : (engineFs drops).system.guard w a)
    (hc : KeepsCount w a) : Tracked ((engineFs drops).system.effect w a) := by
  cases a with
  | run i k b => exact hw.run hg
  | arrive call => exact hw.arrive hg
  | drop i =>
    obtain ⟨stack, hstack, -⟩ := hg
    exact hw.drop hstack hc

theorem tracked_new (native : Bool) (restored : List String) : Tracked (World.new native restored) := by
  have hstaged : ∀ st x, World.stagedOf (World.new native restored) st x = 0 := fun _ _ => rfl
  constructor
  · intro x _
    exact ⟨fun st => hstaged st x, rfl⟩
  · intro x
    have hopen : (World.new native restored).shared.streams.count x = 0 := rfl
    constructor <;> simp [hstaged, hopen]
  · intro stack hstack
    obtain rfl := List.mem_singleton.mp hstack
    simp [Ordered, Instr.stage]
  · intro stack hstack
    obtain rfl := List.mem_singleton.mp hstack
    exact Apart.of_no_request (by simp [Instr.ofRequest])

end Tracked

end StreamServer.EngineFs

import StreamServer.EngineFs.Counts

/-!
# The life of a request

A request for a video starts its stream, which counts it, and makes a guard that ends it when
the request is over, in whichever way.  The start and what follows it wait in several places
before there is a guard, and a request can be dropped where it waits.

## Main definitions

* `ran` — how often a stretch has run for a stream.
* `Balanced` — the condition: no request is dropped between the count and the guard.
* `Over` — all requests are over, with what they told.

## Main results

* `ran_step` — how the numbers of a step go together.
* `ran_path` — how those of a run do.
* `ended_once` — **the counts are exact, and a request that is over has taken its own back**.
* `never_ended` — a request that is dropped before it has made its guard never ends its stream.

## References

`server/src/routes/stream.rs`, `stream_video`, `StreamLifecycleGuard`, `StreamGuard`;
`enginefs/src/lib.rs`, `on_stream_start`, `on_stream_end`.
-/

namespace StreamServer.EngineFs

open TaskSystem

/-- The step runs the stretch of the stage for the stream. -/
def runsStage (st : Stage) (x : OpenStream) : Action → Bool
  | .run _ k _ => decide (k.stage = some (st, x))
  | _ => false

/-- How often the stretch of the stage has run for the stream. -/
def ran (st : Stage) (x : OpenStream) (steps : List Action) : ℕ := steps.countP (runsStage st x)

/-- **The condition.**  No request is dropped between the first count of its stream and the making
of its guard, and no activation of a file drops the counts of others. -/
def Balanced (w : World) (a : Action) : Prop := KeepsCount w a ∧ ∀ key, KeepsFile key w a

/-- All requests are over, and so are the streams of calls. -/
def Over (w : World) : Prop :=
  (∀ st x, w.stagedOf st x = 0) ∧ ∀ x ∈ w.shared.streams, x.guarded = true

section Steps

variable {drops : Bool} {w : World} {a : Action}

/-- The stream is not among those that have been named. -/
def unnamed (names : ℕ) (x : OpenStream) : ℕ := if names ≤ x.id then 1 else 0

/-- A new name makes one stream named. -/
theorem unnamed_succ {names : ℕ} {x y : OpenStream} (hy : y.id = names) :
    unnamed (names + 1) x + (if y = x then 1 else 0) ≤ unnamed names x := by
  rw [unnamed, unnamed]
  by_cases hyx : y = x
  · subst hyx
    simp [hy]
  · rw [if_neg hyx]
    split <;> split <;> omega

/-- **How the numbers of a step go together.** -/
structure Steady (w w' : World) (x : OpenStream) (r : Stage → ℕ) : Prop where
  counts : w'.stagedOf .countingFile x + r .countingFile = w.stagedOf .countingFile x + r .counting
  opens : w'.shared.streams.count x + w'.stagedOf .ending x + r .ending =
    w.shared.streams.count x + w.stagedOf .ending x + r .countingFile
  ends : w'.stagedOf .endingFile x + r .endingFile = w.stagedOf .endingFile x + r .ending
  once : w'.stagedOf .requested x + w'.stagedOf .starting x + w'.stagedOf .counting x +
    unnamed w'.shared.newStream x + r .counting ≤
      w.stagedOf .requested x + w.stagedOf .starting x + w.stagedOf .counting x +
        unnamed w.shared.newStream x

theorem Steady.trans {w w' w'' : World} {x : OpenStream} {r r' : Stage → ℕ} (h : Steady w w' x r)
    (h' : Steady w' w'' x r') : Steady w w'' x fun st => r st + r' st := by
  obtain ⟨hcounts, hopens, hends, honce⟩ := h
  obtain ⟨hcounts', hopens', hends', honce'⟩ := h'
  constructor <;> omega

/-- A stream comes to its count once. -/
theorem once_run {i : ℕ} {k : Instr} {b : Answer} (hg : (engineFs drops).system.guard w (.run i k b))
    (x : OpenStream) :
    World.stagedOf ((engineFs drops).system.effect w (.run i k b)) .requested x +
        World.stagedOf ((engineFs drops).system.effect w (.run i k b)) .starting x +
        World.stagedOf ((engineFs drops).system.effect w (.run i k b)) .counting x +
        (decide (k.stage = some (.counting, x))).toNat ≤
      w.stagedOf .requested x + w.stagedOf .starting x + w.stagedOf .counting x := by
  have hrequested := staged_run .requested (· == x) hg
  have hstarting := staged_run .starting (· == x) hg
  have hcounting := staged_run .counting (· == x) hg
  have hle := followed_starting k b.ok (· == x)
  rw [followed_requested] at hrequested
  rw [followed_counting] at hcounting
  simp only [Instr.at_eq] at hrequested hstarting hcounting hle
  simp only [World.stagedOf]
  omega

/-- What a call names has a new name. -/
theorem once_arrive {call : Call} (x : OpenStream) :
    World.stagedOf ((engineFs drops).system.effect w (.arrive call)) .requested x +
        World.stagedOf ((engineFs drops).system.effect w (.arrive call)) .starting x +
        World.stagedOf ((engineFs drops).system.effect w (.arrive call)) .counting x +
        unnamed (call.arrive w.shared).1.newStream x ≤
      w.stagedOf .requested x + w.stagedOf .starting x + w.stagedOf .counting x +
        unnamed w.shared.newStream x := by
  simp only [stagedOf_arrive]
  cases call with
  | startStream h f =>
    have hstage : ((Call.startStream h f).arrive w.shared).2.flatten.filterMap Instr.stage =
        [(.starting, ⟨w.shared.newStream, h, f, false⟩)] := rfl
    have hle := unnamed_succ (x := x) (y := ⟨w.shared.newStream, h, f, false⟩) rfl
    rw [hstage]
    simp only [Call.arrive, List.count_cons, List.count_nil, beq_iff_eq, Prod.mk.injEq, reduceCtorEq,
      false_and, true_and, if_false] at hle ⊢
    omega
  | streamVideo h f hls =>
    have hstage : ((Call.streamVideo h f hls).arrive w.shared).2.flatten.filterMap Instr.stage =
        [(.requested, ⟨w.shared.newStream, h, f, true⟩)] := rfl
    have hle := unnamed_succ (x := x) (y := ⟨w.shared.newStream, h, f, true⟩) rfl
    rw [hstage]
    simp only [Call.arrive, List.count_cons, List.count_nil, beq_iff_eq, Prod.mk.injEq, reduceCtorEq,
      false_and, true_and, if_false] at hle ⊢
    omega
  | endStream y =>
    have hstage : ((Call.endStream y).arrive w.shared).2.flatten.filterMap Instr.stage =
        [(.ending, y)] := rfl
    rw [hstage]
    simp only [Call.arrive, List.count_cons, List.count_nil, beq_iff_eq, Prod.mk.injEq, reduceCtorEq,
      false_and, if_false, Nat.add_zero]
    exact Nat.le_refl _
  | setSeeding enabled => cases enabled <;> exact Nat.le_refl _
  | _ => exact Nat.le_refl _

theorem ran_step (hw : Tracked w) (hg : (engineFs drops).system.guard w a) (hc : KeepsCount w a)
    (x : OpenStream) : Steady w ((engineFs drops).system.effect w a) x
      fun st => (runsStage st x a).toNat := by
  cases a with
  -- what leaves one stage of the stream is in the next one
  | run i k b =>
    have hopen := hw.countP_run hg (· == x)
    have hcountingFile := staged_run .countingFile (· == x) hg
    have hending := staged_run .ending (· == x) hg
    have hendingFile := staged_run .endingFile (· == x) hg
    rw [followed_countingFile] at hcountingFile
    rw [followed_ending] at hending
    rw [followed_endingFile] at hendingFile
    simp only [Instr.at_eq] at hopen hcountingFile hending hendingFile
    constructor
    · exact hcountingFile
    · show (k.run w.shared b).shared.streams.countP (· == x) + World.staged _ .ending (· == x) +
        (decide (k.stage = some (.ending, x))).toNat = w.shared.streams.countP (· == x) + 
          w.staged .ending (· == x) + (decide (k.stage = some (.countingFile, x))).toNat
      omega
    · exact hendingFile
    · have honce := once_run hg x
      simp only [shared_run, Instr.run_newStream, runsStage]
      omega
  | arrive call =>
    obtain ⟨hopen, hcountingFile, hendingFile⟩ := countP_arrive hg (· == x)
    constructor
    · exact hcountingFile
    · exact hopen
    · exact hendingFile
    · exact once_arrive x
  | drop i =>
    have hstack := hg
    obtain ⟨stack, hstack, -, hdrop⟩ := hstack
    obtain ⟨hopen, hcountingFile, hendingFile⟩ :=
      @Tracked.countP_drop drops w i hw stack hstack hdrop hc (· == x)
    constructor
    · exact hcountingFile
    · exact hopen
    · exact hendingFile
    · have hrequested := @staged_drop drops w i .requested (· == x) stack hstack
      have hstarting := @staged_drop drops w i .starting (· == x) stack hstack
      have hcounting := @staged_drop drops w i .counting (· == x) stack hstack
      have hnew : ((engineFs drops).system.effect w (.drop i)).shared.newStream = w.shared.newStream := rfl
      simp only [reduceCtorEq, if_false] at hrequested hstarting hcounting
      simp only [World.stagedOf, runsStage, Bool.toNat_false, hnew]
      omega

/-- **How the numbers of a run go together.** -/
theorem ran_path {w' : World} {steps : List Action} (hrun : (engineFs drops).system.Path KeepsCount w steps w')
    (hw : Tracked w) (x : OpenStream) : Steady w w' x fun st => ran st x steps := by
  induction hrun with
  | nil w =>
    constructor <;> simp [ran]
  | cons hg hc _ ih =>
    have hstep := (ran_step hw hg hc x).trans (ih (hw.step hg hc))
    have hran : ∀ (a : Action) (steps : List Action) (st : Stage),
        ran st x (a :: steps) = (runsStage st x a).toNat + ran st x steps := by
      intro a steps st
      cases h : runsStage st x a <;> simp [ran, h, Nat.add_comm]
    simpa only [hran] using hstep

end Steps

/-! ### Requests that are over -/

/-- What is nowhere is not in a stage. -/
theorem staged_eq_zero {w : World} (h : ∀ st x, w.stagedOf st x = 0) (st : Stage) (q : OpenStream → Bool) :
    w.staged st q = 0 := by
  by_contra hne
  obtain ⟨k, hk, hat⟩ := List.countP_pos_iff.mp (Nat.pos_of_ne_zero hne)
  rw [Instr.at] at hat
  cases hstage : k.stage with
  | none => simp [hstage] at hat
  | some e =>
    obtain ⟨stack, hstack, hk⟩ := List.mem_flatten.mp hk
    have hst : e.1 = st := by
      rw [hstage] at hat
      simp [inStage] at hat
      exact hat.1
    have hpos : 0 < w.stagedOf st e.2 := World.stagedOf_pos hstack hk (by rw [hstage, ← hst])
    rw [h] at hpos
    omega

/-- A request that is over has no open stream. -/
theorem Tracked.count_eq_zero {w : World} (hw : Tracked w) {x : OpenStream} (hx : x.guarded = true)
    (hover : ∀ st, w.stagedOf st x = 0) : w.shared.streams.count x = 0 := by
  have hguards := (hw.placed x).guards hx
  simp only [hover] at hguards
  omega

/-- When all is over, nothing is counted. -/
theorem Over.counts {w : World} (h : Over w) (hw : Counted w) :
    w.shared.activeStreams = [] ∧ w.shared.activeFileStreams = [] := by
  have hnone : w.shared.streams = [] := by
    rw [List.eq_nil_iff_forall_not_mem]
    intro x hx
    exact List.count_eq_zero.mp (hw.tracked.count_eq_zero (h.2 x hx) fun st => h.1 st x) hx
  constructor
  · rw [List.eq_nil_iff_forall_not_mem]
    intro h'
    have hcount := hw.torrents h'
    rw [hnone, staged_eq_zero h.1, staged_eq_zero h.1] at hcount
    exact List.count_eq_zero.mp hcount
  · rw [List.eq_nil_iff_forall_not_mem]
    intro key
    have hcount := hw.files key
    rw [CountedFile, hnone, staged_eq_zero h.1, staged_eq_zero h.1] at hcount
    exact List.count_eq_zero.mp hcount

/-- **The counts are exact, and a request that is over has taken its own back.**  In every state, a torrent
and a file are counted as often as they have streams between their count and their end.  A request that is
over, with what it told, has ended its stream on the torrent and on the file just as often as it has counted
it, and that at most once; when all requests are over, nothing is counted. -/
theorem ended_once {native : Bool} {restored : List String} {w : World} {steps : List Action}
    (hrun : (engineFs true).system.Path Balanced (World.new native restored) steps w) :
    (CountedTorrents w ∧ ∀ key, CountedFile w key) ∧
      (∀ x : OpenStream, x.guarded = true → (∀ st, w.stagedOf st x = 0) →
        ran .counting x steps ≤ 1 ∧ ran .countingFile x steps = ran .counting x steps ∧
          ran .ending x steps = ran .counting x steps ∧
          ran .endingFile x steps = ran .counting x steps) ∧
      (Over w → w.shared.activeStreams = [] ∧ w.shared.activeFileStreams = []) := by
  have hw : Counted w := hrun.invariant (fun u a hu hg hc => hu.step hg hc.1 hc.2)
    (counted_new native restored)
  refine ⟨⟨hw.torrents, hw.files⟩, fun x hx hover => ?_, fun hover => hover.counts hw⟩
  have hsteady := ran_path (hrun.mono fun _ _ hc => hc.1) (tracked_new native restored) x
  have hnew : ∀ st, World.stagedOf (World.new native restored) st x = 0 := fun _ => rfl
  have hunnamed : unnamed (World.new native restored).shared.newStream x = 1 := rfl
  have hopen : (World.new native restored).shared.streams.count x = 0 := rfl
  obtain ⟨hcounts, hopens, hends, honce⟩ := hsteady
  simp only [hover, hnew, hunnamed, hopen, hw.tracked.count_eq_zero hx hover] at hcounts hopens hends honce
  omega

/-- The request, and what it does up to the first count. -/
def video : OpenStream := ⟨0, "a", 0, true⟩

/-- A request for a video up to the count of its stream. -/
def countedRequest : List Action :=
  [.arrive (.streamVideo "a" 0 false), .run 1 (.getOrAdd "a") .fine, .run 1 (.validate video false) .fine,
    .run 1 (.startStream video) .fine, .run 1 (.getEngine "a") .fine,
    .run 1 (.setActiveFile "a" 0) .fine, .run 1 (.countStream video) .fine]

/-- What it does from there to its answer, and the end that is told when its client goes away. -/
def servedRequest : List Action :=
  [.run 1 (.countFile video) .fine, .run 1 (.makeGuard video) .fine, .drop 1,
    .run 2 (.endStream video) .fine, .run 2 (.endFile video false) .fine]

/-- The request is served. -/
theorem ended_once_served : ∃ w, (engineFs true).system.Path Balanced (World.new true ["a"])
      (countedRequest ++ servedRequest) w ∧
    (ran .counting video (countedRequest ++ servedRequest) = 1 ∧
      ran .ending video (countedRequest ++ servedRequest) = 1) ∧ w.shared.activeStreams = [] := by
  obtain ⟨w, hpath, hstacked, hopen⟩ : ∃ w, (engineFs true).system.Path Balanced (World.new true ["a"])
      (countedRequest ++ servedRequest) w ∧ w.stacked = [.loop, .endEngine video false false] ∧
        w.shared.streams = [] := by
    refine ⟨_, .cons trivial ⟨trivial, fun _ => trivial⟩ (.cons (by decide) ⟨trivial, fun _ => id⟩
      (.cons (by decide) ⟨trivial, fun _ => id⟩ (.cons (by decide) ⟨trivial, fun _ => id⟩
      (.cons (by decide) ⟨trivial, fun _ => id⟩ (.cons (by decide) ⟨trivial, fun _ => id⟩
      (.cons (by decide) ⟨trivial, fun _ => id⟩ (.cons (by decide) ⟨trivial, fun _ => id⟩
      (.cons (by decide) ⟨trivial, fun _ => id⟩ (.cons (by decide) ⟨?_, fun _ => trivial⟩
      (.cons (by decide) ⟨trivial, fun _ => id⟩ (.cons (by decide) ⟨trivial, fun _ => id⟩ (.nil _)))))))))))), rfl, rfl⟩
    intro stack hstack x
    have hserved : some stack = some [.serve video, .dropGuard video] := hstack.symm.trans rfl
    obtain rfl := Option.some.inj hserved
    simp
  have hover : Over w := by
    constructor
    · intro st x
      rw [World.stagedOf, World.staged, TaskSystem.World.pending, hstacked]
      rfl
    · rw [hopen]
      exact List.forall_mem_nil _
  obtain ⟨-, hended, hall⟩ := ended_once hpath
  obtain ⟨-, -, hending, -⟩ := hended video rfl fun st => hover.1 st video
  exact ⟨w, hpath, ⟨by decide, hending.trans (by decide)⟩, (hall hover).1⟩

/-- A request that is dropped between the count and the guard: its stream stays counted. -/
theorem never_ended : ∃ w, (engineFs true).system.Path GuardedSystem.anyStep (World.new true ["a"])
      (countedRequest ++ [.drop 1]) w ∧ w.tasks = [[.loop], []] ∧
    ran .counting video (countedRequest ++ [.drop 1]) = 1 ∧
    ran .ending video (countedRequest ++ [.drop 1]) = 0 ∧ w.shared.activeStreams = ["a"] := by
  refine ⟨_, .cons trivial trivial (.cons (by decide) trivial (.cons (by decide) trivial
    (.cons (by decide) trivial (.cons (by decide) trivial (.cons (by decide) trivial
    (.cons (by decide) trivial (.cons (by decide) trivial (.nil _)))))))), rfl, by decide, by decide, rfl⟩

end StreamServer.EngineFs

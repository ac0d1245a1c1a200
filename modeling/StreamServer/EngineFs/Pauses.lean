import StreamServer.EngineFs.Counts
import StreamServer.EngineFs.Session

/-!
# Pauses of idle torrents

On a backend that does not manage playback itself, the registry pauses torrents that are idle and
resumes them when a stream is started.  A pause looks for streams, sets a flag of the engine and then
asks the backend; a resume asks the backend and then takes the flag back.  The stream is counted only when
its torrent has been resumed.

## Main definitions

* `Shared.paused` — the torrent is paused in the session.
* `Instr.pauses`, `Instr.clears` — the second steps.
* `Instr.pausing` — a pause has found no stream, and is not through.
* `late` — a start is past its resume and not through.
* `Sequenced` — the condition: pauses, resumes and starts come one after another.
* `Agreed`, `Unstreamed` — the invariants for an engine and its torrent.

## Main results

* `late_run` — only a resume gets a start past its resume.
* `pausing_run` — only a look that finds no stream brings a pause on.
* `Agreed.run`, `Unstreamed.run` — a step keeps the invariants.
* `idlePaused_iff` — **the flag tells whether the torrent is paused**, and none with a stream is.
* `paused_streaming` — a start between the flag and the pause.

## References

`enginefs/src/lib.rs`, `schedule_torrent_pause_after`, `activate_file`, the idle pause loop,
`on_stream_start`.
-/

namespace StreamServer.EngineFs

open TaskSystem

/-- The torrent is paused in the session. -/
def Shared.paused (s : Shared) (h : String) : Bool := (s.session h).any (·.paused)

/-- The checks are those of a pause. -/
def Goal.ofPause : Goal → Bool
  | .pause | .idle _ => true
  | .remove _ _ => false

namespace Instr

/-- The backend is about to be asked to pause. -/
def pauses (a : ℕ) : Instr → Bool
  | .pauseTorrent _ a' => a' == a
  | _ => false

/-- The backend has been asked to resume, and the flag is to be taken back. -/
def clears (a : ℕ) : Instr → Bool
  | .clearIdle a' => a' == a
  | _ => false

/-- The pause of a torrent has looked for streams and found none, and has not been through the backend. -/
def pausing (h : String) : Instr → Bool
  | .check checks h' _ busy goal => h' == h && !busy && !checks.contains .streams && goal.ofPause
  | .pauseEngine h' | .pauseStats h' _ _ | .pauseTorrent h' _ => h' == h
  | _ => false

/-- The torrent is to be resumed. -/
def resumes (h : String) : Instr → Bool
  | .activateFile h' _ | .activateCount h' _ _ | .resumeTorrent h' _ => h' == h
  | _ => false

/-- A stream on the torrent is counted. -/
def counts (h : String) : Instr → Bool
  | .countStream x | .countFile x => x.infoHash == h
  | _ => false

end Instr

/-- A start is past its resume and not through. -/
def late (h : String) : List Instr → Bool
  | [] => false
  | k :: rest => k.counts h || !k.resumes h && late h rest

/-! ### Starts -/

theorem late_of_append {h : String} {l rest : List Instr} (hl : ∀ k ∈ l, k.counts h = false)
    (hlate : late h (l ++ rest) = true) : late h rest = true := by
  induction l with
  | nil => exact hlate
  | cons k l ih =>
    apply ih fun k' hk' => hl k' (List.mem_cons_of_mem _ hk')
    rw [List.cons_append, late, hl k List.mem_cons_self] at hlate
    simp at hlate
    exact hlate.2

theorem counts_leadsTo {h : String} {k k' : Instr} (hstart : ∀ x, k ≠ .startStream x)
    (hcount : ∀ x, k ≠ .countStream x) (hleads : k.leadsTo k' = true) : k'.counts h = false := by
  cases k' with
  | countStream x =>
    cases k with
    | startStream y => exact absurd rfl (hstart y)
    | _ => exact absurd hleads Bool.false_ne_true
  | countFile x =>
    cases k with
    | countStream y => exact absurd rfl (hcount y)
    | _ => exact absurd hleads Bool.false_ne_true
  | _ => rfl

/-- **Only a resume gets a start past its resume.** -/
theorem late_run {s : Shared} {b : Answer} {h : String} {a : ℕ} {k : Instr} {rest : List Instr}
    (hnative : s.native = false) (hengine : s.engine h = some a) (hk : ∀ a, k ≠ .resumeTorrent h a)
    (hlate : late h ((k.run s b).next ++ rest) = true) : late h (k :: rest) = true := by
  rw [late, Bool.or_eq_true]
  cases hcounts : k.counts h with
  | true => exact Or.inl rfl
  | false =>
    right
    cases k with
    | startStream x =>
      have hmanaged : s.managed x.infoHash = false := by simp [Shared.managed, hnative]
      simp [Instr.run, hmanaged, late, Instr.counts, Instr.resumes] at hlate
      simpa [Instr.resumes] using hlate.2.resolve_left hlate.1
    | countStream x =>
      have hne : (x.infoHash == h) = false := hcounts
      simpa [Instr.run, late, Instr.counts, Instr.resumes, hne] using hlate
    | activateFile h' f =>
      by_cases hh : h' = h
      · simp [Instr.run, hh, hengine, hnative, late, Instr.counts, Instr.resumes] at hlate
      · have hl := late_of_append (fun k' hk' => counts_leadsTo (by simp) (by simp) (Instr.mem_next _ _ hk')) hlate
        simp [Instr.resumes, hh, hl]
    | activateCount h' f a' =>
      by_cases hh : h' = h
      · simp [Instr.run, hh, late, Instr.counts, Instr.resumes] at hlate
      · have hl := late_of_append (fun k' hk' => counts_leadsTo (by simp) (by simp) (Instr.mem_next _ _ hk')) hlate
        simp [Instr.resumes, hh, hl]
    | resumeTorrent h' a' =>
      have hh : h' ≠ h := by
        intro heq
        exact hk a' (by rw [heq])
      have hl := late_of_append (fun k' hk' => counts_leadsTo (by simp) (by simp) (Instr.mem_next _ _ hk')) hlate
      simp [Instr.resumes, hh, hl]
    | _ =>
      exact late_of_append (fun k' hk' => counts_leadsTo (by simp) (by simp) (Instr.mem_next _ _ hk')) hlate

/-! ### What pauses and resumes do -/

/-- The flag is set, and the backend is to be asked. -/
theorem pauseStats_sets {s : Shared} {b : Answer} {h : String} {a : ℕ} (delayed : Bool)
    (hmeta : b.hasMetadata = true) (hidle : (s.arena a).idlePaused = false) :
    ((Instr.pauseStats h a delayed).run s b).next = [.pauseTorrent h a] ∧
      ∀ a', ((((Instr.pauseStats h a delayed).run s b).shared.arena a').idlePaused =
        (decide (a' = a) || (s.arena a').idlePaused)) := by
  have htouch : ∀ a', ((if delayed then s.touch a else s).arena a').idlePaused = (s.arena a').idlePaused := by
    intro a'
    split
    · exact s.touch_idlePaused a a'
    · rfl
  dsimp only [Instr.run, Instr.runPauseStats]
  rw [if_pos hmeta, htouch, hidle, if_neg Bool.false_ne_true]
  refine ⟨rfl, fun a' => ?_⟩
  rcases eq_or_ne a' a with rfl | hne
  · simp [Shared.update]
  · rw [goOn, Shared.update]
    simp [hne, htouch]

/-- The torrent has been paused, or has no metadata. -/
theorem pauseStats_leaves {s : Shared} {b : Answer} {h : String} {a : ℕ} (delayed : Bool)
    (hnot : ¬ (b.hasMetadata = true ∧ (s.arena a).idlePaused = false)) :
    ((Instr.pauseStats h a delayed).run s b).next = [] ∧
      ∀ a', (((Instr.pauseStats h a delayed).run s b).shared.arena a').idlePaused =
        (s.arena a').idlePaused := by
  have htouch : ∀ a', ((if delayed then s.touch a else s).arena a').idlePaused = (s.arena a').idlePaused := by
    intro a'
    split
    · exact s.touch_idlePaused a a'
    · rfl
  dsimp only [Instr.run, Instr.runPauseStats]
  split
  · next hmeta =>
    have hidle : (s.arena a).idlePaused = true := by
      cases hidle : (s.arena a).idlePaused with
      | true => rfl
      | false => exact absurd ⟨hmeta, hidle⟩ hnot
    rw [htouch, hidle, if_pos rfl]
    exact ⟨rfl, htouch⟩
  · exact ⟨rfl, fun _ => rfl⟩

theorem paused_setTorrent (s : Shared) (h h' : String) (f : Torrent → Torrent) :
    (s.setTorrent h' f).paused h = if h = h' then (s.session h).any fun t => (f t).paused else s.paused h := by
  rw [Shared.paused, Shared.setTorrent_session]
  split
  · next heq =>
    subst heq
    rw [Function.update_self, Option.any_map]
  · next hne => rw [Function.update_of_ne hne, Shared.paused]

/-! ### The engines stay -/

/-- The engine a stretch works for is that of its torrent. -/
def Bound (s : Shared) : Instr → Prop
  | .activateCount h _ a | .resumeTorrent h a | .multifileCount h _ a | .pauseStats h a _
  | .pauseTorrent h a => s.engine h = some a
  | .unpaused _ | .resumeAll | .resumeNext _ | .resumeSeeding _ _ | .pausedAgain _ => False
  | _ => True

/-- **The condition.**  A torrent is resumed only while no pause of it has found no stream and is not
through; and a pause finds no stream only while no start on the torrent is past its resume and not through,
and no flag is to be taken back.  The torrents stay, seeding stays disabled, and the backend pauses and
resumes what it is asked to. -/
def Sequenced (w : World) : Action → Prop
  | .run _ (.check checks h now _ goal) _ => checks.head? = some .streams → goal.ofPause = true →
      w.shared.active h now .streams = false →
        (∀ stack ∈ w.tasks, late h stack = false) ∧
          ∀ a ∈ w.shared.engine h, TaskSystem.World.pending w (Instr.clears a) = 0
  | .run _ (.resumeTorrent h _) b =>
      b.ok = true ∧ TaskSystem.World.pending w (Instr.pausing h) = 0
  | .run _ (.pauseTorrent _ _) b => b.ok = true
  | .run _ k _ => k.writesEngines = false ∧ k.writesMembership = false
  | .arrive (.setSeeding enabled) => enabled = false
  | _ => True

/-- The engines are those of the beginning. -/
structure Fixed (w : World) : Prop where
  native : w.shared.native = false
  apart : ∀ h h' a, w.shared.engine h = some a → w.shared.engine h' = some a → h = h'
  bound : ∀ k ∈ w.stacked, Bound w.shared k

section Step

variable {w : World} {i : ℕ} {k : Instr} {b : Answer}

theorem Sequenced.keeps_engines (hc : Sequenced w (.run i k b)) : k.writesEngines = false := by
  cases k with
  | check checks h now busy goal => rfl
  | resumeTorrent h a | pauseTorrent h a => rfl
  | _ => exact hc.1

theorem bound_next (hnative : w.shared.native = false) (hc : Sequenced w (.run i k b))
    (hk : Bound w.shared k) :
    ∀ k' ∈ (k.run w.shared b).next, Bound (k.run w.shared b).shared k' := by
  have hengine : ∀ h, (k.run w.shared b).shared.engine h = w.shared.engine h := by
    intro h
    rw [Shared.engine, Instr.run_engines _ _ hc.keeps_engines, Shared.engine]
  intro k' hin
  have hleads := Instr.mem_next _ _ hin
  cases k' with
  | activateCount h f a =>
    cases k with
    | activateFile h' f' =>
      rw [Bound, hengine]
      dsimp only [Instr.run, Instr.runActivateFile] at hin
      split at hin
      · simp at hin
      · next a' hfound =>
        rw [hnative] at hin
        simp at hin
        obtain ⟨rfl, rfl, rfl⟩ := hin
        exact hfound
    | _ => exact absurd hleads Bool.false_ne_true
  | resumeTorrent h a =>
    cases k with
    | activateCount h' f' a' =>
      rw [Bound, hengine]
      dsimp only [Instr.run, Instr.runActivateCount] at hin
      split at hin <;> simp at hin <;> obtain ⟨rfl, rfl⟩ := hin <;> exact hk
    | multifileCount h' f' a' =>
      rw [Bound, hengine]
      dsimp only [Instr.run, Instr.runMultifileCount] at hin
      split at hin
      · cases hin
      · simp at hin
        obtain ⟨rfl, rfl⟩ := hin
        exact hk
    | _ => exact absurd hleads Bool.false_ne_true
  | multifileCount h f a =>
    cases k with
    | activateMultifile h' f' =>
      rw [Bound, hengine]
      dsimp only [Instr.run, Instr.runActivateMultifile] at hin
      split at hin
      · cases hin
      · next a' hfound =>
        simp at hin
        obtain ⟨rfl, rfl, rfl⟩ := hin
        exact hfound
    | _ => exact absurd hleads Bool.false_ne_true
  | pauseStats h a delayed =>
    cases k with
    | check checks h' now busy goal =>
      rw [Bound, hengine]
      dsimp only [Instr.run, Instr.runCheck, Instr.finishChecks] at hin
      (repeat' split at hin) <;> simp at hin
      all_goals
        obtain ⟨rfl, rfl, -⟩ := hin
        assumption
    | pauseEngine h' =>
      rw [Bound, hengine]
      dsimp only [Instr.run] at hin
      (repeat' split at hin) <;> simp at hin
      obtain ⟨rfl, rfl, -⟩ := hin
      assumption
    | _ => exact absurd hleads Bool.false_ne_true
  | pauseTorrent h a =>
    cases k with
    | pauseStats h' a' delayed =>
      rw [Bound, hengine]
      by_cases hsets : b.hasMetadata = true ∧ (w.shared.arena a').idlePaused = false
      · rw [(pauseStats_sets delayed hsets.1 hsets.2).1] at hin
        simp at hin
        obtain ⟨rfl, rfl⟩ := hin
        exact hk
      · rw [(pauseStats_leaves delayed hsets).1] at hin
        cases hin
    | _ => exact absurd hleads Bool.false_ne_true
  | unpaused a =>
    cases k with
    | pauseTorrent h' a' =>
      have hok : b.ok = true := hc
      simp [Instr.run, hok] at hin
    | _ => exact absurd hleads Bool.false_ne_true
  | resumeAll | resumeNext _ | resumeSeeding _ _ | pausedAgain _ =>
    -- no task that resumes all torrents is there
    cases k with
    | resumeAll | resumeNext _ | resumeSeeding _ _ => exact hk
    | _ => exact absurd hleads Bool.false_ne_true
  | _ => trivial

theorem Fixed.run (hw : Fixed w) (hg : (engineFs false).system.guard w (.run i k b))
    (hc : Sequenced w (.run i k b)) : Fixed ((engineFs false).system.effect w (.run i k b)) := by
  have hengine : ∀ h, (k.run w.shared b).shared.engine h = w.shared.engine h := by
    intro h
    rw [Shared.engine, Instr.run_engines _ _ hc.keeps_engines, Shared.engine]
  have hbound : ∀ k', Bound w.shared k' → Bound (k.run w.shared b).shared k' := by
    intro k' hk'
    cases k' <;> first | trivial | exact (hengine _).trans hk'
  constructor
  · rw [shared_run, Instr.run_native, hw.native]
  · simp only [shared_run, hengine]
    exact hw.apart
  · refine TaskSystem.forall_run (fun k' hk' => hbound k' (hw.bound k' hk'))
      (bound_next hw.native hc (hw.bound k (TaskSystem.mem_of_run hg))) ?_
    intro k' hin
    have hstarts := Instr.mem_spawned _ _ hin
    cases k' with
    | activateCount _ _ _ | resumeTorrent _ _ | multifileCount _ _ _ | pauseStats _ _ _
    | pauseTorrent _ _ | unpaused _ | resumeAll | resumeNext _ | resumeSeeding _ _ | pausedAgain _ =>
      cases k <;> exact absurd hstarts Bool.false_ne_true
    | _ => trivial

theorem Fixed.arrive (hw : Fixed w) {call : Call} (hc : Sequenced w (.arrive call)) : Fixed ((engineFs false).system.effect w (.arrive call)) := by
  have hengine : ∀ h, (call.arrive w.shared).1.engine h = w.shared.engine h := by
    intro h
    cases call <;> rfl
  constructor
  · cases call <;> exact hw.native
  · simp only [shared_arrive, hengine]
    exact hw.apart
  · refine TaskSystem.forall_arrive (fun k hk => ?_) ?_
    · have hold := hw.bound k hk
      cases k <;> first | trivial | exact (hengine _).trans hold
    · intro k hk
      cases call with
      | streamVideo h f hls => rcases List.mem_pair.mp hk with rfl | rfl <;> trivial
      | openReader _ | closeReader _ | tick _ => cases hk
      | setSeeding enabled =>
        obtain rfl : enabled = false := hc
        cases hk
      | _ =>
        obtain rfl := List.mem_singleton.mp hk
        trivial

/-! ### The flag and the session -/

/-- A stream on the torrent is open, or a start is past its resume. -/
def Streamed (w : World) (h : String) : Prop :=
  (∃ x ∈ w.shared.streams, x.infoHash = h) ∨ ∃ stack ∈ w.tasks, late h stack = true

/-- The flag of the engine and the torrent agree, but for what is half done. -/
structure Agreed (w : World) (h : String) (a : ℕ) : Prop where
  pausing : 0 < TaskSystem.World.pending w (Instr.pauses a) →
    (w.shared.arena a).idlePaused = true ∧ TaskSystem.World.pending w (Instr.clears a) = 0
  clearing : 0 < TaskSystem.World.pending w (Instr.clears a) → w.shared.paused h = false
  settled : TaskSystem.World.pending w (Instr.pauses a) = 0 →
    TaskSystem.World.pending w (Instr.clears a) = 0 →
      (w.shared.arena a).idlePaused = w.shared.paused h
  streamed : Streamed w h →
    w.shared.paused h = false ∧ TaskSystem.World.pending w (Instr.pauses a) = 0

theorem Agreed.of_same {w' : World} {h : String} {a : ℕ} (hw : Agreed w h a)
    (hidle : (w'.shared.arena a).idlePaused = (w.shared.arena a).idlePaused)
    (hpaused : w'.shared.paused h = w.shared.paused h)
    (hpauses : TaskSystem.World.pending w' (Instr.pauses a) = TaskSystem.World.pending w (Instr.pauses a))
    (hclears : TaskSystem.World.pending w' (Instr.clears a) = TaskSystem.World.pending w (Instr.clears a))
    (hstreamed : Streamed w' h → Streamed w h) : Agreed w' h a := by
  constructor
  · rw [hidle, hpauses, hclears]
    exact hw.pausing
  · rw [hpaused, hclears]
    exact hw.clearing
  · rw [hidle, hpaused, hpauses, hclears]
    exact hw.settled
  · rw [hpaused, hpauses]
    exact fun h' => hw.streamed (hstreamed h')

/-- A stretch that is not a resume starts nothing on the torrent. -/
theorem streamed_run (hw : Fixed w) {h : String} {a : ℕ} (hengine : w.shared.engine h = some a)
    (hg : (engineFs false).system.guard w (.run i k b)) (hk : ∀ a, k ≠ .resumeTorrent h a)
    (hstreamed : Streamed ((engineFs false).system.effect w (.run i k b)) h) : Streamed w h := by
  have hstack := TaskSystem.getElem?_of_head hg.1
  have hmem := List.mem_of_getElem? hstack
  rcases hstreamed with ⟨x, hx, heq⟩ | ⟨stack, hin, hlate⟩
  · cases k with
    | countFile y =>
      rcases List.mem_cons.mp hx with rfl | hx
      · exact Or.inr ⟨_, hmem, by simp [late, Instr.counts, heq]⟩
      · exact Or.inl ⟨x, hx, heq⟩
    | dropGuard y => exact Or.inl ⟨x, List.mem_of_mem_erase hx, heq⟩
    | _ =>
      rw [shared_run, Instr.run_streams _ _ rfl] at hx
      exact Or.inl ⟨x, hx, heq⟩
  · rcases List.mem_append.mp hin with hset | hspawned
    · rcases List.mem_or_eq_of_mem_set hset with hold | rfl
      · exact Or.inr ⟨stack, hold, hlate⟩
      · exact Or.inr ⟨_, hmem, late_run hw.native hengine hk hlate⟩
    · -- no task starts with a count
      have hnone : ∀ k' ∈ stack, k'.counts h = false := by
        intro k' hk'
        have hstarts := Instr.mem_spawned _ _ (List.mem_flatten.mpr ⟨stack, hspawned, hk'⟩)
        cases k' with
        | countStream _ | countFile _ => cases k <;> exact absurd hstarts Bool.false_ne_true
        | _ => rfl
      have hnil : late h [] = true := late_of_append hnone (by rwa [List.append_nil])
      cases hnil

/-! ### From the look at the streams to the backend -/

/-- What comes of the checks of a torrent. -/
theorem pausing_finishChecks {s : Shared} {h h' : String} {now : ℕ} {busy : Bool} {goal : Goal} {k' : Instr}
    (hin : k' ∈ (Instr.finishChecks s h' now busy goal).next) (hk' : k'.pausing h = true) :
    h' = h ∧ busy = false ∧ goal.ofPause = true := by
  unfold Instr.finishChecks at hin
  split at hin
  · split at hin
    · cases hin
    · next hbusy =>
      obtain rfl := List.mem_singleton.mp hin
      exact ⟨beq_iff_eq.mp hk', eq_false_of_ne_true hbusy, rfl⟩
  · split at hin
    · obtain rfl := List.mem_singleton.mp hin
      cases hk'
    · split at hin
      · obtain rfl := List.mem_singleton.mp hin
        cases hk'
      · next hbusy =>
        rw [Bool.or_eq_true, not_or] at hbusy
        rcases List.mem_pair.mp hin with rfl | rfl
        · exact ⟨beq_iff_eq.mp hk', eq_false_of_ne_true hbusy.1, rfl⟩
        · cases hk'
  · obtain rfl := List.mem_singleton.mp hin
    cases hk'

/-- **Only a look that finds no stream brings a pause on.** -/
theorem pausing_run {s : Shared} {h : String} {k' : Instr} (hin : k' ∈ (k.run s b).next)
    (hk' : k'.pausing h = true) : k.pausing h = true ∨ ∃ checks now busy goal,
      k = .check checks h now busy goal ∧ checks.head? = some .streams ∧ goal.ofPause = true ∧
        s.active h now .streams = false := by
  have hleads := Instr.mem_next _ _ hin
  cases k with
  | pauseEngine h' =>
    dsimp only [Instr.run] at hin
    (repeat' split at hin) <;> simp at hin
    rw [hin] at hk'
    exact Or.inl hk'
  | pauseStats h' a delayed =>
    cases k' with
    | pauseTorrent h'' a' =>
      dsimp only [Instr.run, Instr.runPauseStats] at hin
      (repeat' split at hin) <;> simp at hin
      all_goals
        rw [hin.1] at hk'
        exact Or.inl hk'
    | _ => exact absurd hleads Bool.false_ne_true
  | check checks h' now busy goal =>
    have hchecks : h' = h ∧ goal.ofPause = true ∧ ((busy = false ∧ checks.contains .streams = false) ∨
        (checks.head? = some .streams ∧ s.active h' now .streams = false)) := by
      dsimp only [Instr.run] at hin
      unfold Instr.runCheck at hin
      cases checks with
      | nil =>
        obtain ⟨hh, hbusy, hgoal⟩ := pausing_finishChecks hin hk'
        exact ⟨hh, hgoal, Or.inl ⟨hbusy, rfl⟩⟩
      | cons c checks =>
        dsimp only at hin
        have hrest : h' = h ∧ (busy || s.active h' now c) = false ∧ goal.ofPause = true ∧
            checks.contains .streams = false := by
          split at hin
          · next hnil =>
            obtain ⟨hh, hbusy, hgoal⟩ := pausing_finishChecks hin hk'
            exact ⟨hh, hbusy, hgoal, by rw [hnil]; rfl⟩
          · obtain rfl := List.mem_singleton.mp hin
            simp only [Instr.pausing, Bool.and_eq_true, Bool.not_eq_true', beq_iff_eq] at hk'
            exact ⟨hk'.1.1.1, hk'.1.1.2, hk'.2, hk'.1.2⟩
        obtain ⟨hh, hbusy, hgoal, hnone⟩ := hrest
        rw [Bool.or_eq_false_iff] at hbusy
        refine ⟨hh, hgoal, ?_⟩
        by_cases hc : c = .streams
        · subst hc
          exact Or.inr ⟨rfl, hbusy.2⟩
        · refine Or.inl ⟨hbusy.1, ?_⟩
          rw [List.contains_cons, hnone, beq_eq_false_iff_ne.mpr (Ne.symm hc)]
          rfl
    obtain ⟨rfl, hgoal, ⟨hbusy, hnone⟩ | ⟨hhead, hactive⟩⟩ := hchecks
    · left
      rw [Instr.pausing, hbusy, hnone, hgoal, beq_self_eq_true]
      rfl
    · exact Or.inr ⟨checks, now, busy, goal, rfl, hhead, hgoal, hactive⟩
  | idleNext todo now =>
    -- the checks begin with the look at the streams
    dsimp only [Instr.run] at hin
    unfold Instr.runIdleNext at hin
    (repeat' split at hin) <;> obtain rfl := List.mem_singleton.mp hin <;> simp [Instr.pausing, pauseChecks] at hk'
  | pauseWake h' =>
    dsimp only [Instr.run] at hin
    split at hin <;> simp at hin
    rw [hin] at hk'
    simp [Instr.pausing, pauseChecks] at hk'
  | scanNext todo now removing =>
    cases k' with
    | check checks h' now' busy goal =>
      dsimp only [Instr.run] at hin
      unfold Instr.runScanNext at hin
      (repeat' split at hin) <;> simp at hin
      obtain ⟨rfl, rfl, -, -, rfl⟩ := hin
      simp [Instr.pausing, Goal.ofPause] at hk'
    | pauseEngine _ | pauseStats _ _ _ | pauseTorrent _ _ => exact absurd hleads Bool.false_ne_true
    | _ => cases hk'
  | _ =>
    cases k' with
    | check _ _ _ _ _ | pauseEngine _ | pauseStats _ _ _ | pauseTorrent _ _ =>
      exact absurd hleads Bool.false_ne_true
    | _ => cases hk'

theorem pausing_starts {h : String} {k' : Instr} (hstarts : k.starts k' = true) : k'.pausing h = false := by
  cases k' with
  | check _ _ _ _ _ | pauseEngine _ | pauseStats _ _ _ | pauseTorrent _ _ =>
    cases k <;> exact absurd hstarts Bool.false_ne_true
  | _ => rfl

/-- A pause at the backend has found no stream. -/
theorem pauses_le_pausing (hw : Fixed w) {h : String} {a : ℕ} (hengine : w.shared.engine h = some a) :
    TaskSystem.World.pending w (Instr.pauses a) ≤ TaskSystem.World.pending w (Instr.pausing h) := by
  refine List.countP_mono_left fun k hk hpauses => ?_
  cases k with
  | pauseTorrent h' a' =>
    obtain rfl : a' = a := beq_iff_eq.mp hpauses
    obtain rfl : h' = h := hw.apart h' h a' (hw.bound _ hk) hengine
    exact beq_self_eq_true h'
  | _ => cases hpauses

/-- While the pause of a torrent has found no stream and is not through, there is none, and no flag is to be
taken back. -/
def Unstreamed (w : World) (h : String) (a : ℕ) : Prop :=
  0 < TaskSystem.World.pending w (Instr.pausing h) →
    ¬ Streamed w h ∧ TaskSystem.World.pending w (Instr.clears a) = 0

theorem pauses_leadsTo {a : ℕ} {k' : Instr} (hk : ∀ h a d, k ≠ .pauseStats h a d)
    (hleads : k.leadsTo k' = true) : k'.pauses a = false := by
  cases k' with
  | pauseTorrent _ _ =>
    cases k with
    | pauseStats h a d => exact absurd rfl (hk h a d)
    | _ => exact absurd hleads Bool.false_ne_true
  | _ => rfl

theorem clears_leadsTo {a : ℕ} {k' : Instr} (hk : ∀ h a, k ≠ .resumeTorrent h a)
    (hleads : k.leadsTo k' = true) : k'.clears a = false := by
  cases k' with
  | clearIdle _ =>
    cases k with
    | resumeTorrent h a => exact absurd rfl (hk h a)
    | _ => exact absurd hleads Bool.false_ne_true
  | _ => rfl

theorem pauses_starts {a : ℕ} {k' : Instr} (hstarts : k.starts k' = true) : k'.pauses a = false := by
  cases k' with
  | pauseTorrent _ _ => cases k <;> exact absurd hstarts Bool.false_ne_true
  | _ => rfl

theorem clears_starts {a : ℕ} {k' : Instr} (hstarts : k.starts k' = true) : k'.clears a = false := by
  cases k' with
  | clearIdle _ => cases k <;> exact absurd hstarts Bool.false_ne_true
  | _ => rfl

variable {h : String} {a : ℕ}

/-- **A step keeps this.** -/
theorem Unstreamed.run (hw : Unstreamed w h a) (hfixed : Fixed w) (hcounted : CountedTorrents w)
    (hengine : w.shared.engine h = some a)
    (hg : (engineFs false).system.guard w (.run i k b)) (hc : Sequenced w (.run i k b)) :
    Unstreamed ((engineFs false).system.effect w (.run i k b)) h a := by
  intro hpos
  have hcount := counted_run hg (Instr.pausing h)
  rw [Instr.countP_spawned _ _ fun k' => pausing_starts] at hcount
  by_cases hresume : ∃ a', k = .resumeTorrent h a'
  · obtain ⟨a', rfl⟩ := hresume
    have hnone : ((Instr.resumeTorrent h a').run w.shared b).next.countP (Instr.pausing h) = 0 := by
      simp [Instr.run, hc.1, Instr.pausing]
    have hzero := hc.2
    omega
  · have hresume' : ∀ a', k ≠ .resumeTorrent h a' := fun a' hk => hresume ⟨a', hk⟩
    have hstreamed := streamed_run hfixed hengine hg hresume'
    have hclears : TaskSystem.World.pending ((engineFs false).system.effect w (.run i k b))
        (Instr.clears a) ≤ TaskSystem.World.pending w (Instr.clears a) := by
      have hclears := counted_run hg (Instr.clears a)
      rw [Instr.countP_spawned _ _ fun k' => clears_starts] at hclears
      have hnext : (k.run w.shared b).next.countP (Instr.clears a) = 0 := by
        rw [List.countP_eq_zero]
        intro k' hin hk'
        cases k with
        | resumeTorrent h' a' =>
          -- the flag of another engine
          have hbound : w.shared.engine h' = some a' := hfixed.bound _ (TaskSystem.mem_of_run hg)
          simp only [Instr.run, Instr.runResumeTorrent, hc.1, if_true, goOn, List.mem_singleton] at hin
          obtain rfl := hin
          obtain rfl : a' = a := beq_iff_eq.mp hk'
          exact hresume ⟨a', by rw [hfixed.apart h h' a' hengine hbound]⟩
        | _ =>
          rw [clears_leadsTo (by simp) (Instr.mem_next _ _ hin)] at hk'
          cases hk'
      omega
    have hold : ¬ Streamed w h ∧ TaskSystem.World.pending w (Instr.clears a) = 0 := by
      by_cases hpausing : 0 < TaskSystem.World.pending w (Instr.pausing h)
      · exact hw hpausing
      · obtain ⟨k', hin, hk'⟩ : ∃ k' ∈ (k.run w.shared b).next, k'.pausing h = true :=
          List.countP_pos_iff.mp (by omega)
        rcases pausing_run hin hk' with hbefore | ⟨checks, now, busy, goal, rfl, hhead, hgoal, hactive⟩
        · exact absurd (TaskSystem.pending_pos hg hbefore) hpausing
        · obtain ⟨hlate, hnone⟩ := hc hhead hgoal hactive
          refine ⟨?_, hnone a hengine⟩
          rintro (⟨x, hx, heq⟩ | ⟨stack, hin, hl⟩)
          · -- an open stream is counted, and would have been found
            have hopen : 0 < w.shared.streams.countP (OpenStream.onTorrent h) :=
              List.countP_pos_iff.mpr ⟨x, hx, beq_iff_eq.mpr heq⟩
            have hall := hcounted h
            have hmem : h ∈ w.shared.activeStreams := List.count_pos_iff.mp (by omega)
            rw [Shared.active, List.contains_iff_mem.mpr hmem] at hactive
            cases hactive
          · rw [hlate stack hin] at hl
            cases hl
    exact ⟨fun hs => hold.1 (hstreamed hs), by omega⟩

/-- A stretch that has nothing to do with pauses. -/
theorem Agreed.run_other (hw : Agreed w h a) (hfixed : Fixed w) (hengine : w.shared.engine h = some a)
    (hg : (engineFs false).system.guard w (.run i k b)) (hidle : k.writesIdlePaused = false)
    (hpaused : (k.run w.shared b).shared.paused h = w.shared.paused h)
    (hpause : ∀ h a, k ≠ .pauseTorrent h a) (hresume : ∀ h a, k ≠ .resumeTorrent h a) :
    Agreed ((engineFs false).system.effect w (.run i k b)) h a := by
  refine hw.of_same (Instr.run_idlePaused _ _ hidle a) hpaused ?_ ?_
    (streamed_run hfixed hengine hg (hresume h))
  · refine counted_run_same hg ?_ (fun k' => pauses_leadsTo ?_) (fun k' => pauses_starts)
    · cases k with
      | pauseTorrent h a => exact absurd rfl (hpause h a)
      | _ => rfl
    · intro h a d hk
      rw [hk] at hidle
      cases hidle
  · refine counted_run_same hg ?_ (fun k' => clears_leadsTo hresume) (fun k' => clears_starts)
    cases k with
    | clearIdle a => cases hidle
    | _ => rfl

theorem Agreed.clearIdle {a' : ℕ} (hw : Agreed w h a) (hfixed : Fixed w)
    (hengine : w.shared.engine h = some a)
    (hg : (engineFs false).system.guard w (.run i (.clearIdle a') b)) :
    Agreed ((engineFs false).system.effect w (.run i (.clearIdle a') b)) h a := by
  have hpauses := counted_run_same hg (p := Instr.pauses a) rfl (fun k' => pauses_leadsTo (by simp))
    (fun k' => pauses_starts)
  have hclears := counted_run hg (Instr.clears a)
  have hstreamed := streamed_run hfixed hengine hg (by simp)
  rw [Instr.countP_next _ _ fun k' => clears_leadsTo (by simp),
    Instr.countP_spawned _ _ fun k' => clears_starts] at hclears
  have hpaused : ((engineFs false).system.effect w (.run i (.clearIdle a') b)).shared.paused h =
      w.shared.paused h := rfl
  rcases eq_or_ne a' a with rfl | hne
  · simp only [Instr.clears, beq_self_eq_true, Bool.toNat_true] at hclears
    have hresumed := hw.clearing (by omega)
    have hidle : (((engineFs false).system.effect w (.run i (.clearIdle a') b)).shared.arena a').idlePaused =
        false := by simp [Instr.run, Shared.update]
    have hnone : TaskSystem.World.pending w (Instr.pauses a') = 0 := by
      by_contra hpos
      have halone := (hw.pausing (Nat.pos_of_ne_zero hpos)).2
      omega
    constructor
    · intro hpos
      omega
    · intro _
      rw [hpaused, hresumed]
    · intro _ _
      rw [hidle, hpaused, hresumed]
    · intro hs
      rw [hpaused, hpauses]
      exact hw.streamed (hstreamed hs)
  · refine hw.of_same ?_ hpaused hpauses ?_ hstreamed
    · simp [Instr.run, Shared.update, hne.symm]
    · simpa [Instr.clears, beq_eq_false_iff_ne.mpr hne] using hclears

theorem Agreed.resumeTorrent {h' : String} {a' : ℕ} (hw : Agreed w h a) (hfixed : Fixed w)
    (hengine : w.shared.engine h = some a)
    (hg : (engineFs false).system.guard w (.run i (.resumeTorrent h' a') b)) (hok : b.ok = true)
    (hnone : TaskSystem.World.pending w (Instr.pauses a') = 0) :
    Agreed ((engineFs false).system.effect w (.run i (.resumeTorrent h' a') b)) h a := by
  have hbound : w.shared.engine h' = some a' := hfixed.bound _ (TaskSystem.mem_of_run hg)
  have hpauses := counted_run_same hg (p := Instr.pauses a) rfl (fun k' => pauses_leadsTo (by simp))
    (fun k' => pauses_starts)
  have hclears := counted_run hg (Instr.clears a)
  have hrun : (Instr.resumeTorrent h' a').run w.shared b =
      goOn (w.shared.setTorrent h' fun t => { t with paused := false }) [.clearIdle a'] := by
    simp [Instr.run, hok]
  have hpaused := paused_setTorrent w.shared h h' fun t => { t with paused := false }
  rw [hrun] at hclears
  simp only [goOn, List.countP_cons, List.countP_nil, List.flatten_nil, Instr.clears] at hclears
  -- the torrent of this engine runs, and the flag is taken back by the step that follows
  by_cases heq : h = h'
  · subst heq
    obtain rfl : a' = a := Option.some.inj (hbound.symm.trans hengine)
    simp only [beq_self_eq_true, if_true, Bool.toNat_false] at hclears
    have hresumed : ((engineFs false).system.effect w (.run i (.resumeTorrent h a') b)).shared.paused h =
        false := by
      rw [shared_run, hrun, goOn, hpaused, if_pos rfl]
      cases w.shared.session h <;> rfl
    constructor
    · intro hpos
      omega
    · intro _
      exact hresumed
    · intro _ hzero
      omega
    · intro _
      exact ⟨hresumed, by omega⟩
  · have hne : a' ≠ a := by
      intro ha
      rw [ha] at hbound
      exact heq (hfixed.apart h h' a hengine hbound)
    refine hw.of_same (Instr.run_idlePaused _ _ rfl a) ?_ hpauses ?_
      (streamed_run hfixed hengine hg (by simp [Ne.symm heq]))
    · rw [shared_run, hrun, goOn, hpaused, if_neg heq]
    · simpa [beq_eq_false_iff_ne.mpr hne] using hclears

theorem Agreed.pauseTorrent {h' : String} {a' : ℕ} (hw : Agreed w h a) (hfixed : Fixed w)
    (hengine : w.shared.engine h = some a) (hsession : (w.shared.session h).isSome = true)
    (hg : (engineFs false).system.guard w (.run i (.pauseTorrent h' a') b)) (hok : b.ok = true) :
    Agreed ((engineFs false).system.effect w (.run i (.pauseTorrent h' a') b)) h a := by
  have hbound : w.shared.engine h' = some a' := hfixed.bound _ (TaskSystem.mem_of_run hg)
  have hpauses := counted_run hg (Instr.pauses a)
  rw [Instr.countP_next _ _ fun k' => pauses_leadsTo (by simp),
    Instr.countP_spawned _ _ fun k' => pauses_starts] at hpauses
  have hclears := counted_run_same hg (p := Instr.clears a) rfl (fun k' => clears_leadsTo (by simp))
    (fun k' => clears_starts)
  have hrun : (Instr.pauseTorrent h' a').run w.shared b =
      stop (w.shared.setTorrent h' fun t => { t with paused := true }) := by
    simp [Instr.run, hok]
  have hpaused := paused_setTorrent w.shared h h' fun t => { t with paused := true }
  have hidle : (((engineFs false).system.effect w (.run i (.pauseTorrent h' a') b)).shared.arena a).idlePaused =
      (w.shared.arena a).idlePaused := Instr.run_idlePaused _ _ rfl a
  have hstreamed := streamed_run hfixed hengine hg (by simp)
  -- the torrent of this engine is paused as its flag says, another one does not matter
  by_cases heq : h = h'
  · subst heq
    obtain rfl : a' = a := Option.some.inj (hbound.symm.trans hengine)
    simp only [Instr.pauses, beq_self_eq_true, Bool.toNat_true] at hpauses
    obtain ⟨hset, halone⟩ := hw.pausing (by omega)
    have hpaused' : ((engineFs false).system.effect w (.run i (.pauseTorrent h a') b)).shared.paused h =
        true := by
      rw [shared_run, hrun, stop, hpaused, if_pos rfl]
      cases hsome : w.shared.session h with
      | none => simp [hsome] at hsession
      | some t => rfl
    constructor
    · intro _
      exact ⟨by rw [hidle, hset], by omega⟩
    · intro hpos
      omega
    · intro _ _
      rw [hidle, hset, hpaused']
    · intro hs
      have hnone := (hw.streamed (hstreamed hs)).2
      omega
  · have hne : a' ≠ a := by
      intro ha
      rw [ha] at hbound
      exact heq (hfixed.apart h h' a hengine hbound)
    refine hw.of_same hidle ?_ ?_ hclears hstreamed
    · rw [shared_run, hrun, stop, hpaused, if_neg heq]
    · simpa [Instr.pauses, beq_eq_false_iff_ne.mpr hne] using hpauses

theorem Agreed.pauseStats {h' : String} {a' : ℕ} {delayed : Bool} (hw : Agreed w h a)
    (hnone : Unstreamed w h a) (hfixed : Fixed w) (hengine : w.shared.engine h = some a)
    (hg : (engineFs false).system.guard w (.run i (.pauseStats h' a' delayed) b)) :
    Agreed ((engineFs false).system.effect w (.run i (.pauseStats h' a' delayed) b)) h a := by
  have hbound : w.shared.engine h' = some a' := hfixed.bound _ (TaskSystem.mem_of_run hg)
  have hpauses := counted_run hg (Instr.pauses a)
  have hclears := counted_run_same hg (p := Instr.clears a) rfl (fun k' => clears_leadsTo (by simp))
    (fun k' => clears_starts)
  have hpaused : ((engineFs false).system.effect w (.run i (.pauseStats h' a' delayed) b)).shared.paused h =
      w.shared.paused h := by
    rw [Shared.paused, shared_run, Instr.run_session _ _ rfl, Shared.paused]
  have hstreamed := streamed_run hfixed hengine hg (by simp)
  rw [Instr.countP_spawned _ _ fun k' => pauses_starts] at hpauses
  by_cases hsets : b.hasMetadata = true ∧ (w.shared.arena a').idlePaused = false
  · obtain ⟨hnext, hidle⟩ := pauseStats_sets delayed hsets.1 hsets.2
    rw [hnext] at hpauses
    simp only [List.countP_cons, List.countP_nil, Instr.pauses] at hpauses
    by_cases ha : a' = a
    · subst ha
      obtain rfl : h = h' := hfixed.apart h h' a' hengine hbound
      obtain ⟨hfree, halone⟩ := hnone (TaskSystem.pending_pos hg (beq_self_eq_true h))
      simp only [beq_self_eq_true, if_true, Bool.toNat_false] at hpauses
      constructor
      · intro _
        exact ⟨by rw [shared_run, hidle]; simp, by omega⟩
      · intro hpos
        omega
      · intro hzero
        omega
      · intro hs
        -- nobody plays the torrent
        exact absurd (hstreamed hs) hfree
    · refine hw.of_same ?_ hpaused ?_ hclears hstreamed
      · rw [shared_run, hidle]
        simp [Ne.symm ha]
      · simpa [beq_eq_false_iff_ne.mpr ha] using hpauses
  · obtain ⟨hnext, hidle⟩ := pauseStats_leaves delayed hsets
    rw [hnext] at hpauses
    exact hw.of_same (hidle a) hpaused (by simpa [Instr.pauses] using hpauses) hclears hstreamed

theorem paused_run (hbound : Bound w.shared k) (hc : Sequenced w (.run i k b)) (hpause : ∀ h a, k ≠ .pauseTorrent h a)
    (hresume : ∀ h a, k ≠ .resumeTorrent h a) (h : String) :
    (k.run w.shared b).shared.paused h = w.shared.paused h := by
  cases k with
  | pauseTorrent h' a => exact absurd rfl (hpause h' a)
  | resumeTorrent h' a => exact absurd rfl (hresume h' a)
  | addTorrent h' | removeBackend h' => cases hc.2
  | resumeSeeding h' a => exact hbound.elim
  | reconcileFiles h' wanted =>
    simp only [Instr.run]
    split
    · rw [stop, paused_setTorrent]
      split
      · rfl
      · rfl
    · rfl
  | _ => rw [Shared.paused, Instr.run_session _ _ rfl, Shared.paused]

/-- **A step keeps the invariant.** -/
theorem Agreed.run (hw : Agreed w h a) (hnone : Unstreamed w h a) (hfixed : Fixed w)
    (hengine : w.shared.engine h = some a) (hsession : (w.shared.session h).isSome = true)
    (hg : (engineFs false).system.guard w (.run i k b)) (hc : Sequenced w (.run i k b)) :
    Agreed ((engineFs false).system.effect w (.run i k b)) h a := by
  have hbound := hfixed.bound _ (TaskSystem.mem_of_run hg)
  cases k with
  | clearIdle a' => exact hw.clearIdle hfixed hengine hg
  | resumeTorrent h' a' =>
    have hle := pauses_le_pausing hfixed hbound
    exact hw.resumeTorrent hfixed hengine hg hc.1 (Nat.le_zero.mp (hc.2 ▸ hle))
  | pauseTorrent h' a' => exact hw.pauseTorrent hfixed hengine hsession hg hc
  | pauseStats h' a' delayed => exact hw.pauseStats hnone hfixed hengine hg
  | unpaused a' | resumeNext todo | pausedAgain a' => exact hbound.elim
  | insertEngine h' => cases hc.1
  | _ =>
    exact hw.run_other hfixed hengine hg rfl (paused_run hbound hc (by simp) (by simp) h) (by simp)
      (by simp)

/-- A call starts nothing that is past a resume. -/
theorem streamed_arrive {call : Call}
    (hs : Streamed ((engineFs false).system.effect w (.arrive call)) h) : Streamed w h := by
  rcases hs with ⟨x, hx, heq⟩ | ⟨stack, hin, hlate⟩
  · refine Or.inl ⟨x, ?_, heq⟩
    cases call with
    | endStream y => exact List.mem_of_mem_erase hx
    | _ => exact hx
  · rcases List.mem_append.mp hin with hold | hnew
    · exact Or.inr ⟨stack, hold, hlate⟩
    · exfalso
      cases call with
      | openReader _ | closeReader _ | tick _ => cases hnew
      | setSeeding enabled =>
        obtain rfl := Call.stack_setSeeding hnew
        simp [late, Instr.counts] at hlate
      | _ =>
        obtain rfl := List.mem_singleton.mp hnew
        simp [late, Instr.counts] at hlate

theorem pending_arrive_same {p : Instr → Bool} {call : Call}
    (hp : (call.arrive w.shared).2.flatten.countP p = 0) :
    TaskSystem.World.pending ((engineFs false).system.effect w (.arrive call)) p =
      TaskSystem.World.pending w p := by
  rw [counted_arrive, hp, Nat.add_zero]

/-- A call puts nothing on a stack that belongs to a pause or a resume. -/
theorem countP_arrive_pauses (call : Call) (s : Shared) (h : String) (a : ℕ) :
    (call.arrive s).2.flatten.countP (Instr.pauses a) = 0 ∧
      (call.arrive s).2.flatten.countP (Instr.clears a) = 0 ∧
        (call.arrive s).2.flatten.countP (Instr.pausing h) = 0 := by
  cases call with
  | setSeeding enabled => cases enabled <;> exact ⟨rfl, rfl, rfl⟩
  | _ => exact ⟨rfl, rfl, rfl⟩

theorem Agreed.arrive (hw : Agreed w h a) (call : Call) :
    Agreed ((engineFs false).system.effect w (.arrive call)) h a := by
  obtain ⟨hpauses, hclears, -⟩ := countP_arrive_pauses call w.shared h a
  refine hw.of_same ?_ ?_ (pending_arrive_same hpauses) (pending_arrive_same hclears) streamed_arrive
  · cases call with
    | openReader a' | closeReader a' =>
      show (Function.update w.shared.arena a' _ a).idlePaused = _
      rcases eq_or_ne a a' with rfl | hne
      · rw [Function.update_self]
      · rw [Function.update_of_ne hne]
    | _ => rfl
  · cases call <;> rfl

theorem Unstreamed.arrive (hw : Unstreamed w h a) (call : Call) :
    Unstreamed ((engineFs false).system.effect w (.arrive call)) h a := by
  obtain ⟨-, hclears, hpausing⟩ := countP_arrive_pauses call w.shared h a
  rw [Unstreamed, pending_arrive_same hclears, pending_arrive_same hpausing]
  intro hpos
  exact ⟨fun hs => (hw hpos).1 (streamed_arrive hs), (hw hpos).2⟩

end Step

/-! ### Runs -/

/-- All flags and torrents agree. -/
structure Paired (w : World) : Prop where
  fixed : Fixed w
  tracked : Tracked w
  counted : CountedTorrents w
  session : ∀ h a, w.shared.engine h = some a → (w.shared.session h).isSome = true
  agreed : ∀ h a, w.shared.engine h = some a → Agreed w h a
  unstreamed : ∀ h a, w.shared.engine h = some a → Unstreamed w h a

theorem Paired.step {w : World} {a : Action} (hw : Paired w) (hg : (engineFs false).system.guard w a)
    (hc : Sequenced w a) : Paired ((engineFs false).system.effect w a) := by
  cases a with
  | drop i =>
    obtain ⟨stack, -, hdrops, -⟩ := hg
    cases hdrops
  -- a call that arrives only puts a task on the list
  | arrive call =>
    have hengine : ∀ h, (call.arrive w.shared).1.engine h = w.shared.engine h := by
      intro h
      cases call <;> rfl
    have hsession : (call.arrive w.shared).1.session = w.shared.session := by
      cases call <;> rfl
    constructor
    · exact hw.fixed.arrive hc
    · exact hw.tracked.arrive hg
    · exact hw.counted.step hw.tracked hg trivial
    · intro h a ha
      rw [shared_arrive, hengine] at ha
      rw [shared_arrive, hsession]
      exact hw.session h a ha
    · intro h a ha
      rw [shared_arrive, hengine] at ha
      exact (hw.agreed h a ha).arrive call
    · intro h a ha
      rw [shared_arrive, hengine] at ha
      exact (hw.unstreamed h a ha).arrive call
  | run i k b =>
    have hengine : ∀ h, (k.run w.shared b).shared.engine h = w.shared.engine h := by
      intro h
      rw [Shared.engine, Instr.run_engines _ _ hc.keeps_engines, Shared.engine]
    -- no step that the condition allows adds a torrent to the session or removes one
    have hmember : k.writesMembership = false := by
      cases k with
      | check _ _ _ _ _ | resumeTorrent _ _ | pauseTorrent _ _ => rfl
      | _ => exact hc.2
    constructor
    · exact hw.fixed.run hg hc
    · exact hw.tracked.run hg
    · exact hw.counted.run hw.tracked hg
    · intro h a ha
      rw [shared_run, hengine] at ha
      rw [shared_run, Instr.run_membership _ _ _ hmember]
      exact hw.session h a ha
    · intro h a ha
      rw [shared_run, hengine] at ha
      exact (hw.agreed h a ha).run (hw.unstreamed h a ha) hw.fixed ha (hw.session h a ha) hg hc
    · intro h a ha
      rw [shared_run, hengine] at ha
      exact (hw.unstreamed h a ha).run hw.fixed hw.counted ha hg hc

/-- An engine is numbered by the place of its torrent. -/
theorem engine_new {native : Bool} {restored : List String} {h : String} {a : ℕ}
    (ha : (Shared.new native restored).engine h = some a) : restored[a]? = some h := by
  rw [Shared.engine, Shared.new, List.lookup_eq_some_iff] at ha
  obtain ⟨before, after, heq, -⟩ := ha
  have hzip : restored.zipIdx = before ++ (h, a) :: after := heq
  have hin : (h, a) ∈ restored.zipIdx := by
    rw [hzip]
    simp
  exact List.mem_zipIdx_iff_getElem?.mp hin

theorem paired_new (restored : List String) : Paired (World.new false restored) := by
  have hin : ∀ h a, (Shared.new false restored).engine h = some a → h ∈ restored := fun h a ha =>
    List.mem_of_getElem? (engine_new ha)
  have hsession : ∀ h a, (Shared.new false restored).engine h = some a →
      (Shared.new false restored).session h = some ⟨false, none⟩ := by
    intro h a ha
    simp [Shared.new, hin h a ha]
  refine ⟨⟨rfl, ?_, ?_⟩, tracked_new false restored, fun _ => rfl, ?_, ?_, ?_⟩
  · intro h h' a ha ha'
    exact Option.some.inj ((engine_new ha).symm.trans (engine_new ha'))
  · intro k hk
    obtain rfl : k = .loop := by simpa [World.new, TaskSystem.World.stacked] using hk
    trivial
  · intro h a ha
    have hsome : (World.new false restored).shared.session h = some ⟨false, none⟩ := hsession h a ha
    rw [hsome]
    rfl
  · intro h a ha
    have hsome : (World.new false restored).shared.session h = some ⟨false, none⟩ := hsession h a ha
    have hpaused : (World.new false restored).shared.paused h = false := by
      rw [Shared.paused, hsome]
      rfl
    constructor
    · intro hpos
      cases hpos
    · intro _
      exact hpaused
    · intro _ _
      exact hpaused.symm
    · intro _
      exact ⟨hpaused, rfl⟩
  · intro h a ha hpos
    cases hpos

/-- **In every run that meets the condition**, whenever neither a pause nor a resume is half done, the
flag tells whether the torrent is paused; and no torrent with a stream is paused. -/
theorem idlePaused_iff {restored : List String} {w : World}
    (hrun : (engineFs false).system.Reach Sequenced (World.new false restored) w) {h : String} {a : ℕ}
    (hengine : w.shared.engine h = some a) :
    (TaskSystem.World.pending w (Instr.pauses a) = 0 → TaskSystem.World.pending w (Instr.clears a) = 0 →
      ((w.shared.arena a).idlePaused = true ↔ w.shared.paused h = true)) ∧
      ((∃ x ∈ w.shared.streams, x.infoHash = h) → w.shared.paused h = false) := by
  have hw : Paired w := by
    apply hrun.invariant
    · exact paired_new restored
    · intro u a hu hg hc
      exact hu.step hg hc
  have hagreed := hw.agreed h a hengine
  constructor
  · intro hpauses hclears
    rw [hagreed.settled hpauses hclears]
  · intro hopen
    exact (hagreed.streamed (Or.inl hopen)).1

/-- The loop with seeding disabled, up to the flag of the one engine. -/
def flagged : List Action :=
  [.arrive (.setSeeding false), .run 0 .loop .fine, .run 0 (.sleep 15) .fine, .arrive (.tick 15),
    .run 0 (.sleepUntil 15) .fine, .run 0 .loopWake .fine, .run 0 (.expireLeases 15) .fine,
    .run 0 (.scanLock 15) { Answer.fine with order := ["a"] }, .run 0 (.scanNext ["a"] 15 []) .fine,
    .run 0 (.scanNext [] 15 []) .fine, .run 0 (.idleStart 15) .fine,
    .run 0 (.idleLock 15) { Answer.fine with order := ["a"] }, .run 0 (.idleNext ["a"] 15) .fine,
    .run 0 (.check pauseChecks "a" 15 false (.idle [])) .fine,
    .run 0 (.check [.fileStreams, .leases, .selection] "a" 15 false (.idle [])) .fine,
    .run 0 (.check [.leases, .selection] "a" 15 false (.idle [])) .fine,
    .run 0 (.check [.selection] "a" 15 false (.idle [])) .fine,
    .run 0 (.pauseStats "a" 0 false) .fine]

/-- The pause, and the loop up to its timer. -/
def pausedLoop : List Action :=
  [.run 0 (.pauseTorrent "a" 0) .fine, .run 0 (.idleNext [] 15) .fine, .run 0 .loop .fine,
    .run 0 (.sleep 15) .fine]

/-- An idle torrent is paused. -/
theorem idlePaused_idle : ∃ w, (engineFs false).system.Reach Sequenced (World.new false ["a"]) w ∧
    (w.shared.arena 0).idlePaused = true ∧ w.shared.paused "a" = true := by
  obtain ⟨w, hpath, hengine, hidle, hpauses, hclears⟩ : ∃ w,
      (engineFs false).system.Path Sequenced (World.new false ["a"]) (flagged ++ pausedLoop) w ∧
        w.shared.engine "a" = some 0 ∧ (w.shared.arena 0).idlePaused = true ∧
          TaskSystem.World.pending w (Instr.pauses 0) = 0 ∧
            TaskSystem.World.pending w (Instr.clears 0) = 0 :=
    ⟨_, .cons trivial rfl (.cons (by decide) ⟨rfl, rfl⟩ (.cons (by decide) ⟨rfl, rfl⟩
      (.cons trivial trivial (.cons (by decide) ⟨rfl, rfl⟩ (.cons (by decide) ⟨rfl, rfl⟩
      (.cons (by decide) ⟨rfl, rfl⟩ (.cons (by decide) ⟨rfl, rfl⟩ (.cons (by decide) ⟨rfl, rfl⟩
      (.cons (by decide) ⟨rfl, rfl⟩ (.cons (by decide) ⟨rfl, rfl⟩ (.cons (by decide) ⟨rfl, rfl⟩
      (.cons (by decide) ⟨rfl, rfl⟩ (.cons (by decide) (fun _ _ _ => ⟨by decide, by decide⟩)
      (.cons (by decide) nofun (.cons (by decide) nofun (.cons (by decide) nofun
      (.cons (by decide) ⟨rfl, rfl⟩ (.cons (by decide) rfl
      (.cons (by decide) ⟨rfl, rfl⟩ (.cons (by decide) ⟨rfl, rfl⟩ (.cons (by decide) ⟨rfl, rfl⟩
      (.nil _)))))))))))))))))))))), by decide⟩
  exact ⟨w, ⟨_, hpath⟩, hidle, ((idlePaused_iff ⟨_, hpath⟩ hengine).1 hpauses hclears).mp hidle⟩

/-- The start of a stream on the torrent. -/
def played : OpenStream := ⟨0, "a", 0, false⟩

/-- A stream that is started, up to its response. -/
def playedStream : List Action :=
  [.arrive (.startStream "a" 0), .run 1 (.startStream played) .fine, .run 1 (.activateFile "a" 0) .fine,
    .run 1 (.activateCount "a" 0 0) .fine, .run 1 (.resumeTorrent "a" 0) .fine, .run 1 (.clearIdle 0) .fine,
    .run 1 (.setActiveFile "a" 0) .fine, .run 1 (.countStream played) .fine,
    .run 1 (.countFile played) .fine]

/-- A stream that is started between the flag and the pause: it plays a paused torrent, and the flag
says otherwise. -/
theorem paused_streaming : ∃ w,
    (engineFs false).system.Reach GuardedSystem.anyStep (World.new false ["a"]) w ∧
      (w.tasks = [[.sleepUntil 30, .loopWake], []] ∧ w.shared.engine "a" = some 0 ∧
        (w.shared.arena 0).idlePaused = false ∧ w.shared.paused "a" = true ∧ w.shared.streams = [played]) :=
  GuardedSystem.exists_reach_of_exec (flagged ++ playedStream ++ pausedLoop) (by decide)

end StreamServer.EngineFs

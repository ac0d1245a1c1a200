import Mathlib.Data.Int.Notation
import Mathlib.Logic.Function.Basic
import StreamServer.Lib.TaskSystem

/-!
# Settings in memory, in the engines and on disk

A change of the settings is made under the write lock, told to both engines when the lock is released,
and saved under the read lock.  The trackers that were fetched are put into the settings by a task of
their own, which makes the text under the write lock and writes it later.  So the settings can change
between the change a task made and what the task does about it.

## Main definitions

* `Stretch`, `run` — what the tasks do between two waits.
* `settingsTasks` — the tasks as a system.
* `Converged` — the file holds the settings, and the engines have their seeding flag.
* `LastIsCurrent` — a condition on a step: a value or a text that nobody will replace is that of the
  settings.
* `InOrder` — a condition on the schedule: what a task stores or writes of settings that have been
  changed since is stored or written again later.

## Main results

* `fresh_step`, `stale_step` — what a step keeps.
* `converged_iff` — a run in which all tasks finish converges just if its steps meet the first condition.
* `history_step` — of which settings it is what a task has yet to store or to write.
* `converged_of_inOrder` — a run converges if its schedule meets the second one.

## References

`server/src/routes/system.rs`, `update_settings`; `server/src/state.rs`, `save_settings`,
`save_trackers`.
-/

namespace StreamServer.Settings

variable {ρ Text : Type*}

/-- The settings, where `ρ` are the other fields. -/
structure ServerSettings (ρ : Type*) where
  seedingEnabled : Bool
  cachedTrackers : List String
  trackersLastUpdated : ℤ
  others : ρ

/-- A payload: the seeding flag, if it has one, and what it does to the other fields. -/
structure Payload (ρ : Type*) where
  seedingEnabled : Option Bool
  others : ρ → ρ

/-- The engine for streams and that for downloads. -/
inductive Engine where
  | stream | download
  deriving DecidableEq, Repr

/-- What the tasks share. -/
structure Shared (ρ Text : Type*) where
  settings : ServerSettings ρ
  /-- How many hold the read lock. -/
  readers : ℕ
  file : Option Text
  seeding : Engine → Bool

/-- What a task does between two waits. -/
inductive Stretch (ρ Text : Type*) where
  | merge (payload : Payload ρ)
  | applyTorrentSettings (engine : Engine)
  | storeSeeding (engine : Engine) (enabled : Bool)
  /-- Takes the read lock and makes the text. -/
  | save
  | createDir
  /-- Writes the text and gives the read lock back. -/
  | writeSettings (json : Text)
  | cacheTrackers (trackers : List String) (timestamp : ℤ)
  | write (json : Text)

/-- The calls that change the settings. -/
inductive Call (ρ : Type*) where
  | updateSettings (payload : Payload ρ)
  | saveTrackers (trackers : List String) (timestamp : ℤ)

/-- The first stretch of a call. -/
def Call.start : Call ρ → Stretch ρ Text
  | .updateSettings payload => .merge payload
  | .saveTrackers trackers timestamp => .cacheTrackers trackers timestamp

/-- The settings with the fields that the payload has. -/
def ServerSettings.merge (settings : ServerSettings ρ) (payload : Payload ρ) : ServerSettings ρ :=
  { settings with
    seedingEnabled := payload.seedingEnabled.getD settings.seedingEnabled
    others := payload.others settings.others }

/-- The write lock is taken where nobody reads; it is given back in the same stretch. -/
def Stretch.ready (shared : Shared ρ Text) : Stretch ρ Text → Prop
  | .merge _ | .cacheTrackers _ _ => shared.readers = 0
  | _ => True

section System

variable (serialise : ServerSettings ρ → Text)

/-- What a stretch does. -/
def run (shared : Shared ρ Text) : Stretch ρ Text → TaskOutcome (Shared ρ Text) (Stretch ρ Text)
  | .merge payload =>
    let settings := shared.settings.merge payload
    ⟨{ shared with settings := settings },
      [.applyTorrentSettings .stream, .applyTorrentSettings .download,
        .storeSeeding .stream settings.seedingEnabled,
        .storeSeeding .download settings.seedingEnabled, .save], []⟩
  | .applyTorrentSettings _ => ⟨shared, [], []⟩
  | .storeSeeding engine enabled =>
    ⟨{ shared with seeding := Function.update shared.seeding engine enabled }, [], []⟩
  | .save =>
    ⟨{ shared with readers := shared.readers + 1 },
      [.createDir, .writeSettings (serialise shared.settings)], []⟩
  | .createDir => ⟨shared, [], []⟩
  | .writeSettings json =>
    ⟨{ shared with file := some json, readers := shared.readers - 1 }, [], []⟩
  | .cacheTrackers trackers timestamp =>
    let settings :=
      { shared.settings with cachedTrackers := trackers, trackersLastUpdated := timestamp }
    ⟨{ shared with settings := settings }, [.createDir, .write (serialise settings)], []⟩
  | .write json => ⟨{ shared with file := some json }, [], []⟩

/-- The tasks.  All calls are there from the start: one that comes later has not run yet. -/
def settingsTasks : TaskSystem (Shared ρ Text) (Stretch ρ Text) Unit Empty where
  ready shared k _ := k.ready shared
  run shared k _ := run serialise shared k
  accepts _ _ := False
  arrive shared _ := (shared, [])
  droppable _ := False
  release shared _ := (shared, [])

/-- The settings, memory and file, with the calls that are under way. -/
abbrev World (ρ Text : Type*) := TaskSystem.World (Shared ρ Text) (Stretch ρ Text)

/-- The server has told the engines the settings it starts with. -/
def World.start (settings : ServerSettings ρ) (file : Option Text) (calls : List (Call ρ)) :
    World ρ Text where
  shared := ⟨settings, 0, file, fun _ => settings.seedingEnabled⟩
  tasks := calls.map fun call => [call.start]

/-- All tasks have finished. -/
def Finished (w : World ρ Text) : Prop := w.stacked = []

/-- The file holds the settings and the engines have their seeding flag. -/
def Converged (w : World ρ Text) : Prop :=
  w.shared.file = some (serialise w.shared.settings) ∧
    ∀ engine, w.shared.seeding engine = w.shared.settings.seedingEnabled

/-- A stretch that leads to one more write of the file. -/
def writes : Stretch ρ Text → Bool
  | .merge _ | .save | .writeSettings _ | .cacheTrackers _ _ | .write _ => true
  | _ => false

/-- A stretch that leads to one more store of the flag of an engine. -/
def stores (engine : Engine) : Stretch ρ Text → Bool
  | .merge _ => true
  | .storeSeeding engine' _ => engine' = engine
  | _ => false

/-- What is stored or written last is that of the settings. -/
def LastIsCurrent (w : World ρ Text) : TaskSystem.Action (Stretch ρ Text) Unit Empty → Prop
  | .run _ (.storeSeeding engine enabled) _ =>
    1 < w.pending (stores engine) ∨ enabled = w.shared.settings.seedingEnabled
  | .run _ (.write json) _ => 1 < w.pending writes ∨ json = serialise w.shared.settings
  | _ => True

end System

variable {serialise : ServerSettings ρ → Text} {w : World ρ Text} {i : ℕ} {k : Stretch ρ Text}

/-! ### The read lock -/

/-- The write of `update_settings`, under the lock of the settings. -/
def isLockedWrite : Stretch ρ Text → Bool
  | .writeSettings _ => true
  | _ => false

/-- What is to be written under the read lock is the text of the settings. -/
structure Locked (serialise : ServerSettings ρ → Text) (w : World ρ Text) : Prop where
  readers : w.shared.readers = w.pending isLockedWrite
  current : ∀ k ∈ w.stacked, ∀ json, k = .writeSettings json → json = serialise w.shared.settings

/-- Nobody waits to write under the read lock where a writer has the lock. -/
theorem Locked.not_mem {json : Text} (h : Locked serialise w) (hreaders : w.shared.readers = 0) :
    Stretch.writeSettings json ∉ w.stacked := by
  intro hmem
  have hnone := h.readers.symm.trans hreaders
  rw [TaskSystem.World.pending, List.countP_eq_zero] at hnone
  exact hnone _ hmem rfl

/-- A stretch that leaves the settings, or runs where nobody reads, and puts no old text on a
stack. -/
theorem Locked.current_run (h : Locked serialise w)
    (hsettings : (run serialise w.shared k).shared.settings = w.shared.settings ∨
      w.shared.readers = 0)
    (hnext : ∀ json, Stretch.writeSettings json ∈ (run serialise w.shared k).next →
      json = serialise (run serialise w.shared k).shared.settings)
    (hspawned : (run serialise w.shared k).spawned = []) :
    ∀ k' ∈ ((settingsTasks serialise).system.effect w (.run i k ())).stacked,
      ∀ json, k' = .writeSettings json →
        json = serialise (run serialise w.shared k).shared.settings := by
  refine TaskSystem.forall_run (fun k' hk' json hjson => ?_) (fun k' hk' json hjson => ?_) ?_
  · rcases hsettings with hsame | hreaders
    · rw [hsame]
      exact h.current k' hk' json hjson
    · exact absurd (hjson ▸ hk') (h.not_mem hreaders)
  · exact hnext json (hjson ▸ hk')
  · intro k' hk'
    have hnone : ((settingsTasks serialise).run w.shared k ()).spawned = [] := hspawned
    rw [hnone] at hk'
    cases hk'

theorem locked_run (hg : (settingsTasks serialise).system.guard w (.run i k ()))
    (h : Locked serialise w) :
    Locked serialise ((settingsTasks serialise).system.effect w (.run i k ())) := by
  have hcount := TaskSystem.pending_run hg isLockedWrite
  have hpos := TaskSystem.pending_pos (p := isLockedWrite) hg
  have hready : k.ready w.shared := hg.2
  have hreaders := h.readers
  constructor
  · show (run serialise w.shared k).shared.readers = _
    cases k <;> simp [settingsTasks, run, isLockedWrite] at hcount hpos hready ⊢ <;> omega
  · refine h.current_run ?_ ?_ ?_
    · cases k with
      | merge payload => exact Or.inr hready
      | cacheTrackers trackers timestamp => exact Or.inr hready
      | applyTorrentSettings | storeSeeding | save | createDir | writeSettings | write =>
        exact Or.inl rfl
    · intro json hjson
      cases k <;> simp [run] at hjson
      simpa [run] using hjson
    · cases k <;> rfl

/-! ### Runs -/

/-- What is not that of the settings will be replaced. -/
structure Fresh (serialise : ServerSettings ρ → Text) (w : World ρ Text) : Prop where
  file : w.shared.file = some (serialise w.shared.settings) ∨ 0 < w.pending writes
  seeding : ∀ engine, w.shared.seeding engine = w.shared.settings.seedingEnabled ∨
    0 < w.pending (stores engine)

/-- Something is not that of the settings and will not be replaced. -/
def Stale (serialise : ServerSettings ρ → Text) (w : World ρ Text) : Prop :=
  (w.pending writes = 0 ∧ w.shared.file ≠ some (serialise w.shared.settings)) ∨
    ∃ engine, w.pending (stores engine) = 0 ∧
      w.shared.seeding engine ≠ w.shared.settings.seedingEnabled

/-- The pending stretches of a kind, behind a step. -/
theorem pending_step (hg : (settingsTasks serialise).system.guard w (.run i k ()))
    (p : Stretch ρ Text → Bool) :
    ((settingsTasks serialise).system.effect w (.run i k ())).pending p + (p k).toNat =
      w.pending p + (run serialise w.shared k).next.countP p := by
  have hcount := TaskSystem.pending_run hg p
  have hspawned : ((settingsTasks serialise).run w.shared k ()).spawned = [] := by
    cases k <;> rfl
  rw [hspawned] at hcount
  simpa [settingsTasks] using hcount

/-- What a step shares with the others, behind it. -/
theorem shared_step : ((settingsTasks serialise).system.effect w (.run i k ())).shared =
    (run serialise w.shared k).shared := rfl

theorem fresh_step (hg : (settingsTasks serialise).system.guard w (.run i k ()))
    (hlocked : Locked serialise w) (h : Fresh serialise w)
    (hc : LastIsCurrent serialise w (.run i k ())) :
    Fresh serialise ((settingsTasks serialise).system.effect w (.run i k ())) := by
  obtain ⟨hfile, hseeding⟩ := h
  have hwrites := pending_step hg writes
  have hpos := TaskSystem.pending_pos (p := writes) hg
  constructor
  · rw [shared_step]
    cases k with
    | merge | cacheTrackers | save =>
      -- the write is still to come
      simp [run, writes] at hwrites hpos ⊢
      omega
    | applyTorrentSettings | storeSeeding | createDir =>
      simp [run, writes] at hwrites ⊢
      rwa [hwrites]
    | writeSettings json =>
      left
      rw [hlocked.current _ (TaskSystem.mem_of_run hg) json rfl]
      rfl
    | write json =>
      simp [run, writes] at hwrites ⊢
      rcases hc with hlater | hcurrent
      · omega
      · exact Or.inl hcurrent
  · intro engine
    have hstores := pending_step hg (stores engine)
    have hstoresPos := TaskSystem.pending_pos (p := stores engine) hg
    have hold := hseeding engine
    rw [shared_step]
    cases k with
    | merge payload =>
      have hnext : (run serialise w.shared (.merge payload)).next.countP (stores engine) = 1 := by
        cases engine <;> rfl
      rw [hnext, show (stores engine (.merge payload : Stretch ρ Text)).toNat = 1 from rfl] at hstores
      have := hstoresPos rfl
      omega
    | storeSeeding engine' enabled =>
      by_cases he : engine' = engine
      · subst he
        simp [run, stores] at hstores ⊢
        rcases hc with hlater | hcurrent
        · omega
        · exact Or.inl hcurrent
      · simp [run, stores, he] at hstores ⊢
        rwa [hstores, Function.update_of_ne (Ne.symm he)]
    | applyTorrentSettings | save | createDir | writeSettings | cacheTrackers | write =>
      simp [run, stores] at hstores ⊢
      rwa [hstores]

/-- The last store or write, where it is of something old. -/
theorem stale_of_not (hg : (settingsTasks serialise).system.guard w (.run i k ()))
    (hc : ¬ LastIsCurrent serialise w (.run i k ())) :
    Stale serialise ((settingsTasks serialise).system.effect w (.run i k ())) := by
  cases k with
  | storeSeeding engine enabled =>
    obtain ⟨hlast, hold⟩ := not_or.mp hc
    have hstores := pending_step hg (stores engine)
    have hpos := TaskSystem.pending_pos (p := stores engine) hg (by simp [stores])
    refine Or.inr ⟨engine, ?_, ?_⟩
    · simp [run, stores] at hstores
      omega
    · rw [shared_step]
      simpa [run] using hold
  | write json =>
    obtain ⟨hlast, hold⟩ := not_or.mp hc
    have hwrites := pending_step hg writes
    have hpos := TaskSystem.pending_pos (p := writes) hg rfl
    refine Or.inl ⟨?_, ?_⟩
    · simp [run, writes] at hwrites
      omega
    · rw [shared_step]
      simpa [run] using hold
  | merge | applyTorrentSettings | save | createDir | writeSettings | cacheTrackers =>
    exact absurd trivial hc

/-- Nobody is left to replace it. -/
theorem stale_step (hg : (settingsTasks serialise).system.guard w (.run i k ()))
    (h : Stale serialise w) :
    Stale serialise ((settingsTasks serialise).system.effect w (.run i k ())) := by
  rcases h with ⟨hnone, hold⟩ | ⟨engine, hnone, hold⟩
  · left
    have hwrites := pending_step hg writes
    have hpos := TaskSystem.pending_pos (p := writes) hg
    rw [shared_step]
    cases k with
    | applyTorrentSettings | storeSeeding | createDir =>
      simp [run, writes] at hwrites ⊢
      exact ⟨hwrites.trans hnone, hold⟩
    | merge | save | writeSettings | cacheTrackers | write =>
      have := hpos rfl
      omega
  · right
    have hstores := pending_step hg (stores engine)
    have hpos := TaskSystem.pending_pos (p := stores engine) hg
    refine ⟨engine, ?_⟩
    rw [shared_step]
    cases k with
    | merge payload =>
      have := hpos rfl
      omega
    | storeSeeding engine' enabled =>
      by_cases he : engine' = engine
      · have := hpos (by simp [stores, he])
        omega
      · simp [run, stores, he] at hstores ⊢
        rw [Function.update_of_ne (Ne.symm he)]
        exact ⟨hstores.trans hnone, hold⟩
    | applyTorrentSettings | save | createDir | writeSettings | cacheTrackers | write =>
      simp [run, stores] at hstores ⊢
      exact ⟨hstores.trans hnone, hold⟩

/-! ### Calls -/

theorem stacked_start (settings : ServerSettings ρ) (file : Option Text) (calls : List (Call ρ)) :
    (World.start settings file calls).stacked = calls.map Call.start := by
  simp only [TaskSystem.World.stacked, World.start]
  induction calls with
  | nil => rfl
  | cons call calls ih => simp [ih]

theorem locked_start (settings : ServerSettings ρ) (file : Option Text) (calls : List (Call ρ)) :
    Locked serialise (World.start settings file calls) := by
  have hcall : ∀ k ∈ (World.start settings file calls).stacked, ∀ json : Text,
      k ≠ .writeSettings json := by
    rw [stacked_start]
    rintro k hk json rfl
    obtain ⟨call, -, hstart⟩ := List.mem_map.mp hk
    cases call <;> cases hstart
  refine ⟨?_, fun k hk json hjson => absurd hjson (hcall k hk json)⟩
  symm
  rw [TaskSystem.World.pending, World.start, List.countP_eq_zero]
  intro k hk
  cases k <;> simp [isLockedWrite]
  exact hcall _ hk _ rfl

theorem fresh_start (settings : ServerSettings ρ) (file : Option Text) {calls : List (Call ρ)}
    (hcalls : calls ≠ []) : Fresh serialise (World.start settings file calls) := by
  refine ⟨Or.inr ?_, fun engine => Or.inl rfl⟩
  rw [TaskSystem.World.pending, stacked_start, List.countP_pos_iff]
  obtain ⟨call, rest, rfl⟩ := List.exists_cons_of_ne_nil hcalls
  refine ⟨call.start, by simp, ?_⟩
  cases call <;> rfl

/-- Tasks only run. -/
theorem exists_run {a : TaskSystem.Action (Stretch ρ Text) Unit Empty}
    (hg : (settingsTasks serialise).system.guard w a) : ∃ i k, a = .run i k () := by
  cases a with
  | run i k answer => exact ⟨i, k, rfl⟩
  | arrive call => exact call.elim
  | drop i =>
    obtain ⟨stack, -, hdrop⟩ := hg
    exact hdrop.elim

/-- **A run in which all tasks finish converges just if no store or write that nobody replaces is of
something old.** -/
theorem converged_iff {settings : ServerSettings ρ} {file : Option Text} {calls : List (Call ρ)}
    {as : List (TaskSystem.Action (Stretch ρ Text) Unit Empty)} (hcalls : calls ≠ [])
    (hrun : (settingsTasks serialise).system.Path GuardedSystem.anyStep
      (World.start settings file calls) as w) (hfinished : Finished w) :
    Converged serialise w ↔ (settingsTasks serialise).system.Path (LastIsCurrent serialise)
      (World.start settings file calls) as w := by
  -- fresh until a step breaks the condition, and stale from there on to the end
  have hknown : ∀ u a, Locked serialise u → (settingsTasks serialise).system.guard u a →
      Locked serialise ((settingsTasks serialise).system.effect u a) := by
    intro u a hu hg
    obtain ⟨i, k, rfl⟩ := exists_run hg
    exact locked_run hg hu
  have hmeets : ∀ u a, Locked serialise u → Fresh serialise u →
      (settingsTasks serialise).system.guard u a → LastIsCurrent serialise u a →
      Fresh serialise ((settingsTasks serialise).system.effect u a) := by
    intro u a hu hfresh hg hc
    obtain ⟨i, k, rfl⟩ := exists_run hg
    exact fresh_step hg hu hfresh hc
  have hnot : ∀ u a, Locked serialise u → Fresh serialise u →
      (settingsTasks serialise).system.guard u a → ¬ LastIsCurrent serialise u a →
      Stale serialise ((settingsTasks serialise).system.effect u a) := by
    intro u a _ _ hg hc
    obtain ⟨i, k, rfl⟩ := exists_run hg
    exact stale_of_not hg hc
  have hstay : ∀ u a, Locked serialise u → Stale serialise u →
      (settingsTasks serialise).system.guard u a →
      Stale serialise ((settingsTasks serialise).system.effect u a) := by
    intro u a _ hstale hg
    obtain ⟨i, k, rfl⟩ := exists_run hg
    exact stale_step hg hstale
  have hnone : ∀ p, w.pending p = 0 := by
    intro p
    rw [TaskSystem.World.pending, hfinished, List.countP_nil]
  rcases hrun.meets_or_not hknown hmeets hnot hstay (locked_start settings file calls)
    (fresh_start settings file hcalls) with ⟨hpath, hfresh⟩ | ⟨hpath, hstale⟩
  · refine iff_of_true ⟨?_, fun engine => ?_⟩ hpath
    · exact hfresh.file.resolve_right (by simp [hnone])
    · exact (hfresh.seeding engine).resolve_right (by simp [hnone])
  · refine iff_of_false ?_ hpath
    rintro ⟨hfile, hseeding⟩
    rcases hstale with ⟨-, hold⟩ | ⟨engine, -, hold⟩
    · exact hold hfile
    · exact hold (hseeding engine)

/-! ### Schedules -/

/-- The steps of the tasks. -/
abbrev Step (ρ Text : Type*) := TaskSystem.Action (Stretch ρ Text) Unit Empty

/-- The stretch changes the settings in memory. -/
def changes : Stretch ρ Text → Bool
  | .merge _ | .cacheTrackers _ _ => true
  | _ => false

/-- A change that gives a seeding flag. -/
def givesFlag : Stretch ρ Text → Bool
  | .merge payload => payload.seedingEnabled.isSome
  | _ => false

/-- The stretch merges a payload. -/
def isMerge : Stretch ρ Text → Bool
  | .merge _ => true
  | _ => false

/-- The stretch puts the trackers into the settings. -/
def isCacheTrackers : Stretch ρ Text → Bool
  | .cacheTrackers _ _ => true
  | _ => false

/-- The stretch in which a tracker task writes its text. -/
def isWrite : Stretch ρ Text → Bool
  | .write _ => true
  | _ => false

/-- The stretches in which the file is written. -/
def writesFile : Stretch ρ Text → Bool
  | .writeSettings _ | .write _ => true
  | _ => false

/-- The stretches in which the flag of an engine is stored. -/
def storesFlag (engine : Engine) : Stretch ρ Text → Bool
  | .storeSeeding engine' _ => engine' = engine
  | _ => false

/-- The step is one of a stretch with the property `p`. -/
def isStep (p : Stretch ρ Text → Bool) : Step ρ Text → Bool
  | .run _ k _ => p k
  | _ => false

/-- The steps are those of one task. -/
def sameTask : Step ρ Text → Step ρ Text → Bool
  | .run i _ _, .run j _ _ => i = j
  | _, _ => false

/-- If something `between` runs between the `first` step of a task and its `last` one, then something
`after` runs later. -/
def MadeUp (first between last after : Stretch ρ Text → Bool) (as : List (Step ρ Text)) : Prop :=
  ∀ xs a ys b zs, as = xs ++ a :: (ys ++ b :: zs) → isStep first a → isStep last b → sameTask a b →
    ys.any (isStep between) → zs.any (isStep after)

/-- Behind the step `a`, with something `between` seen or not. -/
def madeUpBehind (between last after : Stretch ρ Text → Bool) (a : Step ρ Text) :
    Bool → List (Step ρ Text) → Bool
  | _, [] => true
  | seen, b :: as =>
    (!(isStep last b && sameTask a b && seen) || as.any (isStep after)) &&
      madeUpBehind between last after a (seen || isStep between b) as

/-- A `last` behind a `first` with a `between` in the middle is made up for by an `after`. -/
def madeUp (first between last after : Stretch ρ Text → Bool) : List (Step ρ Text) → Bool
  | [] => true
  | a :: as =>
    (!isStep first a || madeUpBehind between last after a false as) &&
      madeUp first between last after as

theorem madeUpBehind_iff {between last after : Stretch ρ Text → Bool} {a : Step ρ Text} {seen : Bool}
    {as : List (Step ρ Text)} : madeUpBehind between last after a seen as ↔
      ∀ ys b zs, as = ys ++ b :: zs → isStep last b → sameTask a b →
        seen ∨ ys.any (isStep between) → zs.any (isStep after) := by
  induction as generalizing seen with
  | nil => simp [madeUpBehind]
  | cons c as ih =>
    rw [madeUpBehind, Bool.and_eq_true, ih]
    constructor
    · rintro ⟨hhere, hbehind⟩ ys b zs has hb hsame hseen
      cases ys with
      | nil =>
        obtain ⟨rfl, rfl⟩ := List.cons.inj has
        have hseen : seen = true := by simpa using hseen
        simpa [hb, hsame, hseen] using hhere
      | cons d ys =>
        obtain ⟨rfl, rfl⟩ := List.cons.inj has
        refine hbehind ys b zs rfl hb hsame ?_
        rwa [List.any_cons, Bool.or_eq_true, ← or_assoc, ← Bool.or_eq_true] at hseen
    · intro h
      constructor
      · cases hb : isStep last c && sameTask a c && seen with
        | false => rfl
        | true =>
          simp only [Bool.and_eq_true] at hb
          exact h [] c as rfl hb.1.1 hb.1.2 (Or.inl hb.2)
      · intro ys b zs has hb hsame hseen
        refine h (c :: ys) b zs (by rw [has, List.cons_append]) hb hsame ?_
        rwa [List.any_cons, Bool.or_eq_true, ← or_assoc, ← Bool.or_eq_true]

theorem madeUp_iff {first between last after : Stretch ρ Text → Bool} {as : List (Step ρ Text)} :
    madeUp first between last after as ↔ MadeUp first between last after as := by
  induction as with
  | nil => simp [madeUp, MadeUp]
  | cons c as ih =>
    rw [madeUp, Bool.and_eq_true, ih]
    constructor
    · rintro ⟨hhere, hbehind⟩ xs a ys b zs has ha hb hsame hany
      cases xs with
      | nil =>
        obtain ⟨rfl, rfl⟩ := List.cons.inj has
        have hhere : madeUpBehind between last after c false (ys ++ b :: zs) = true := by
          simpa [ha] using hhere
        exact madeUpBehind_iff.mp hhere ys b zs rfl hb hsame (Or.inr hany)
      | cons d xs =>
        obtain ⟨rfl, rfl⟩ := List.cons.inj has
        exact hbehind xs a ys b zs rfl ha hb hsame hany
    · intro h
      refine ⟨?_, fun xs a ys b zs has => h (c :: xs) a ys b zs (by rw [has, List.cons_append])⟩
      cases hc : isStep first c with
      | false => rfl
      | true =>
        refine madeUpBehind_iff.mpr fun ys b zs has hb hsame hany => ?_
        exact h [] c ys b zs (by rw [has, List.nil_append]) hc hb hsame (hany.resolve_left (by simp))

instance (first between last after : Stretch ρ Text → Bool) (as : List (Step ρ Text)) :
    Decidable (MadeUp first between last after as) :=
  decidable_of_iff _ madeUp_iff

/-- **A schedule without a late step.**  If the settings change between the change of a tracker task and
its write, the file is written again later; if another call gives a flag between the change of a call
and its store for an engine, the flag of this engine is stored again later. -/
structure InOrder (as : List (Step ρ Text)) : Prop where
  written : MadeUp isCacheTrackers changes isWrite writesFile as
  stored : ∀ engine, MadeUp isMerge givesFlag (storesFlag engine) (storesFlag engine) as

/-- What is known of the actions that have run: what a task has yet to write or to store is of the
settings as they were when it changed them. -/
structure History (serialise : ServerSettings ρ → Text) (xs : List (Step ρ Text)) (u : World ρ Text) :
    Prop where
  write : ∀ i stack json, u.tasks[i]? = some stack → .write json ∈ stack →
    ∃ front k back, xs = front ++ .run i k () :: back ∧ isCacheTrackers k ∧
      (back.any (isStep changes) ∨ json = serialise u.shared.settings)
  store : ∀ i stack engine enabled, u.tasks[i]? = some stack → .storeSeeding engine enabled ∈ stack →
    ∃ front k back, xs = front ++ .run i k () :: back ∧ isMerge k ∧
      (back.any (isStep givesFlag) ∨ enabled = u.shared.settings.seedingEnabled)

/-- A stretch that is no change leaves the settings. -/
theorem settings_of_not_changes {shared : Shared ρ Text} (hk : changes k = false) :
    (run serialise shared k).shared.settings = shared.settings := by
  cases k <;> first | rfl | cases hk

/-- A stretch that gives no flag leaves it. -/
theorem seedingEnabled_of_not_givesFlag {shared : Shared ρ Text} (hk : givesFlag k = false) :
    (run serialise shared k).shared.settings.seedingEnabled = shared.settings.seedingEnabled := by
  cases k with
  | merge payload =>
    have hnone : payload.seedingEnabled = none := by simpa [givesFlag] using hk
    simp [run, ServerSettings.merge, hnone]
  | applyTorrentSettings | storeSeeding | save | createDir | writeSettings | cacheTrackers | write => rfl

/-- A stack behind a step is that of another task, or what the stretch puts on that of its own. -/
theorem stack_step (hg : (settingsTasks serialise).system.guard w (.run i k ())) {j : ℕ}
    {stack : List (Stretch ρ Text)} {k' : Stretch ρ Text}
    (hstack : ((settingsTasks serialise).system.effect w (.run i k ())).tasks[j]? = some stack)
    (hmem : k' ∈ stack) :
    (∃ old, w.tasks[j]? = some old ∧ k' ∈ old) ∨ (j = i ∧ k' ∈ (run serialise w.shared k).next) := by
  have hspawned : ((settingsTasks serialise).run w.shared k ()).spawned = [] := by
    cases k <;> rfl
  simp only [TaskSystem.system, hspawned, List.append_nil] at hstack
  by_cases hj : j = i
  · subst hj
    have hold := TaskSystem.getElem?_of_head hg.1
    rw [List.getElem?_set_self (List.getElem?_eq_some_iff.mp hold).1, Option.some.injEq] at hstack
    subst hstack
    rcases List.mem_append.mp hmem with hnext | hrest
    · exact Or.inr ⟨rfl, hnext⟩
    · exact Or.inl ⟨_, hold, List.mem_cons_of_mem _ hrest⟩
  · rw [List.getElem?_set_ne (Ne.symm hj)] at hstack
    exact Or.inl ⟨stack, hstack, hmem⟩

theorem history_step {xs : List (Step ρ Text)} (h : History serialise xs w)
    (hg : (settingsTasks serialise).system.guard w (.run i k ())) :
    History serialise (xs ++ [.run i k ()])
      ((settingsTasks serialise).system.effect w (.run i k ())) := by
  constructor
  · intro j stack json hstack hmem
    rcases stack_step hg hstack hmem with ⟨old, hold, hmem⟩ | ⟨rfl, hnext⟩
    · obtain ⟨front, k', back, rfl, hk', hback⟩ := h.write j old json hold hmem
      refine ⟨front, k', back ++ [.run i k ()], by simp, hk', ?_⟩
      cases hk : changes k with
      | true => exact Or.inl (by simp [isStep, hk])
      | false =>
        rw [shared_step, settings_of_not_changes hk]
        exact hback.imp_left fun hany => by simp [hany]
    · -- the text has just been made
      refine ⟨xs, k, [], rfl, ?_, Or.inr ?_⟩
      · cases k <;> simp [run] at hnext
        rfl
      · rw [shared_step]
        cases k <;> simp [run] at hnext
        exact hnext
  · intro j stack engine enabled hstack hmem
    rcases stack_step hg hstack hmem with ⟨old, hold, hmem⟩ | ⟨rfl, hnext⟩
    · obtain ⟨front, k', back, rfl, hk', hback⟩ := h.store j old engine enabled hold hmem
      refine ⟨front, k', back ++ [.run i k ()], by simp, hk', ?_⟩
      cases hk : givesFlag k with
      | true => exact Or.inl (by simp [isStep, hk])
      | false =>
        rw [shared_step, seedingEnabled_of_not_givesFlag hk]
        exact hback.imp_left fun hany => by simp [hany]
    · refine ⟨xs, k, [], rfl, ?_, Or.inr ?_⟩
      · cases k <;> simp [run] at hnext
        rfl
      · rw [shared_step]
        cases k <;> simp [run] at hnext
        rcases hnext with ⟨-, rfl⟩ | ⟨-, rfl⟩ <;> rfl

theorem history_start (settings : ServerSettings ρ) (file : Option Text) (calls : List (Call ρ)) :
    History serialise [] (World.start settings file calls) := by
  constructor
  all_goals
    intro i
    intros
    rename_i hstack hmem
    simp only [World.start, List.getElem?_map, Option.map_eq_some_iff] at hstack
    obtain ⟨call, -, rfl⟩ := hstack
    cases call <;> simp [Call.start] at hmem

/-- A kind that only runs where it was pending. -/
theorem any_of_pending {p q : Stretch ρ Text → Bool} (hpq : ∀ k, q k → p k)
    (hnext : ∀ shared k, p k = false → (run serialise shared k).next.countP p = 0)
    {as : List (Step ρ Text)} {t : World ρ Text}
    (h : (settingsTasks serialise).system.Path GuardedSystem.anyStep w as t)
    (has : as.any (isStep q)) : 0 < w.pending p := by
  induction h with
  | nil s => cases has
  | @cons s a as t hg _ hp ih =>
    obtain ⟨i, k, rfl⟩ := exists_run hg
    by_cases hk : p k
    · exact TaskSystem.pending_pos hg hk
    · have hlater : as.any (isStep q) := by
        rw [List.any_cons, Bool.or_eq_true] at has
        exact has.resolve_left fun hq => hk (hpq k hq)
      have hcount := pending_step hg p
      rw [hnext _ _ (by simpa using hk)] at hcount
      have := ih hlater
      omega

/-- A late step that is made up for is not the last. -/
theorem lastIsCurrent_of_inOrder {as ys zs : List (Step ρ Text)} {t : World ρ Text}
    (horder : InOrder as) (has : as = ys ++ .run i k () :: zs) (hhistory : History serialise ys w)
    (hg : (settingsTasks serialise).system.guard w (.run i k ()))
    (hpath : (settingsTasks serialise).system.Path GuardedSystem.anyStep
      ((settingsTasks serialise).system.effect w (.run i k ())) zs t) :
    LastIsCurrent serialise w (.run i k ()) := by
  have hstack := TaskSystem.getElem?_of_head hg.1
  cases k with
  | write json =>
    obtain ⟨front, k, back, rfl, hk, hback⟩ := hhistory.write i _ json hstack List.mem_cons_self
    refine hback.imp_left fun hany => ?_
    have hlater := horder.written front (.run i k ()) back (.run i (.write json) ()) zs (by simp [has]) hk rfl
      (by simp [sameTask]) hany
    have hpending := any_of_pending (p := writes) (fun k hk => by cases k <;> first | rfl | cases hk)
      (fun shared k hk => by cases k <;> first | rfl | cases hk) hpath hlater
    have hcount := pending_step hg writes
    simp [run, writes] at hcount
    omega
  | storeSeeding engine enabled =>
    obtain ⟨front, k, back, rfl, hk, hback⟩ :=
      hhistory.store i _ engine enabled hstack List.mem_cons_self
    refine hback.imp_left fun hany => ?_
    have hlater := horder.stored engine front (.run i k ()) back
      (.run i (.storeSeeding engine enabled) ()) zs (by simp [has]) hk (by simp [isStep, storesFlag]) (by simp [sameTask]) hany
    have hpending := any_of_pending (p := stores engine)
      (fun k hk => by cases k <;> first | exact hk | cases hk)
      (fun shared k hk => by cases k <;> first | rfl | cases hk) hpath hlater
    have hcount := pending_step hg (stores engine)
    simp [run, stores] at hcount
    omega
  | merge | applyTorrentSettings | save | createDir | writeSettings | cacheTrackers => trivial

/-- **On a schedule without a late step, all runs converge.** -/
theorem converged_of_inOrder {settings : ServerSettings ρ} {file : Option Text}
    {calls : List (Call ρ)} {as : List (Step ρ Text)} (hcalls : calls ≠ [])
    (hrun : (settingsTasks serialise).system.Path GuardedSystem.anyStep
      (World.start settings file calls) as w) (hfinished : Finished w) (horder : InOrder as) :
    Converged serialise w := by
  refine (converged_iff hcalls hrun hfinished).mpr ?_
  have hstep : ∀ xs u a, History serialise xs u → (settingsTasks serialise).system.guard u a →
      History serialise (xs ++ [a]) ((settingsTasks serialise).system.effect u a) := by
    intro xs u a hhistory hg
    obtain ⟨i, k, rfl⟩ := exists_run hg
    exact history_step hhistory hg
  refine hrun.meets_of_history hstep (history_start settings file calls) ?_
  intro ys a zs u has hhistory hg hpath
  obtain ⟨i, k, rfl⟩ := exists_run hg
  exact lastIsCurrent_of_inOrder horder has hhistory hg hpath

/-! ### Two calls -/

/-- The text of settings without other fields. -/
def sampleText (settings : ServerSettings Unit) : String :=
  "\x7b\n  \"cachedTrackers\": [" ++
    String.intercalate ", " (settings.cachedTrackers.map fun url => "\"" ++ url ++ "\"") ++
    "],\n  \"trackersLastUpdated\": " ++ toString settings.trackersLastUpdated ++
    ",\n  \"seedingEnabled\": " ++ toString settings.seedingEnabled ++ "\n\x7d"

/-- Trackers are put into the settings, and written when a call has changed the settings and saved
them. -/
def overtaken : List (TaskSystem.Action (Stretch Unit String) Unit Empty) :=
  [.run 0 (.cacheTrackers ["udp://tracker"] 1) (),
    .run 1 (.merge ⟨some false, id⟩) (), .run 1 (.applyTorrentSettings .stream) (),
    .run 1 (.applyTorrentSettings .download) (), .run 1 (.storeSeeding .stream false) (),
    .run 1 (.storeSeeding .download false) (), .run 1 .save (), .run 1 .createDir (),
    .run 1 (.writeSettings (sampleText ⟨false, ["udp://tracker"], 1, ()⟩)) (),
    .run 0 .createDir (), .run 0 (.write (sampleText ⟨true, ["udp://tracker"], 1, ()⟩)) ()]

/-- A save of the trackers with a change of the settings. -/
def overtakenStart : World Unit String :=
  .start ⟨true, [], 0, ()⟩ none
    [.saveTrackers ["udp://tracker"] 1, .updateSettings ⟨some false, id⟩]

theorem overtaken_path : (settingsTasks sampleText).system.Path GuardedSystem.anyStep
    overtakenStart overtaken
    (overtaken.foldl (settingsTasks sampleText).system.effect overtakenStart) := by
  refine .cons ⟨rfl, rfl⟩ trivial (.cons ⟨rfl, rfl⟩ trivial (.cons ⟨rfl, trivial⟩ trivial ?_))
  refine .cons ⟨rfl, trivial⟩ trivial (.cons ⟨rfl, trivial⟩ trivial (.cons ⟨rfl, trivial⟩ trivial ?_))
  refine .cons ⟨rfl, trivial⟩ trivial (.cons ⟨rfl, trivial⟩ trivial (.cons ⟨rfl, trivial⟩ trivial ?_))
  exact .cons ⟨rfl, trivial⟩ trivial (.cons ⟨rfl, trivial⟩ trivial (.nil _))

/-- The file holds the settings with the old flag. -/
theorem overtaken_not_converged : ∃ w,
    (settingsTasks sampleText).system.Path GuardedSystem.anyStep overtakenStart overtaken w ∧
      Finished w ∧ ¬ Converged sampleText w := by
  refine ⟨_, overtaken_path, rfl, ?_⟩
  rintro ⟨hfile, -⟩
  exact absurd hfile (by decide)

/-- Trackers are put into the settings and two calls change the flag; the text of the trackers is written
late and the flag of the first call is stored late, but then the second call stores its own and both save. -/
def inOrder : List (Step Unit String) :=
  [.run 0 (.cacheTrackers ["udp://tracker"] 1) (), .run 0 .createDir (),
    .run 2 (.merge ⟨some true, id⟩) (), .run 1 (.merge ⟨some false, id⟩) (),
    .run 0 (.write (sampleText ⟨true, ["udp://tracker"], 1, ()⟩)) (),
    .run 2 (.applyTorrentSettings .stream) (), .run 2 (.applyTorrentSettings .download) (),
    .run 2 (.storeSeeding .stream true) (), .run 2 (.storeSeeding .download true) (),
    .run 1 (.applyTorrentSettings .stream) (), .run 1 (.applyTorrentSettings .download) (),
    .run 1 (.storeSeeding .stream false) (), .run 1 (.storeSeeding .download false) (),
    .run 2 .save (), .run 2 .createDir (),
    .run 2 (.writeSettings (sampleText ⟨false, ["udp://tracker"], 1, ()⟩)) (),
    .run 1 .save (), .run 1 .createDir (),
    .run 1 (.writeSettings (sampleText ⟨false, ["udp://tracker"], 1, ()⟩)) ()]

/-- A save of the trackers with two changes of the settings. -/
def inOrderStart : World Unit String :=
  .start ⟨true, [], 0, ()⟩ none
    [.saveTrackers ["udp://tracker"] 1, .updateSettings ⟨some false, id⟩,
      .updateSettings ⟨some true, id⟩]

theorem inOrder_path : (settingsTasks sampleText).system.Path GuardedSystem.anyStep
    inOrderStart inOrder (inOrder.foldl (settingsTasks sampleText).system.effect inOrderStart) := by
  refine .cons ⟨rfl, rfl⟩ trivial (.cons ⟨rfl, trivial⟩ trivial (.cons ⟨rfl, rfl⟩ trivial ?_))
  refine .cons ⟨rfl, rfl⟩ trivial (.cons ⟨rfl, trivial⟩ trivial (.cons ⟨rfl, trivial⟩ trivial ?_))
  refine .cons ⟨rfl, trivial⟩ trivial (.cons ⟨rfl, trivial⟩ trivial (.cons ⟨rfl, trivial⟩ trivial ?_))
  refine .cons ⟨rfl, trivial⟩ trivial (.cons ⟨rfl, trivial⟩ trivial (.cons ⟨rfl, trivial⟩ trivial ?_))
  refine .cons ⟨rfl, trivial⟩ trivial (.cons ⟨rfl, trivial⟩ trivial (.cons ⟨rfl, trivial⟩ trivial ?_))
  refine .cons ⟨rfl, trivial⟩ trivial (.cons ⟨rfl, trivial⟩ trivial (.cons ⟨rfl, trivial⟩ trivial ?_))
  exact .cons ⟨rfl, trivial⟩ trivial (.nil _)

theorem inOrder_converged : ∃ w,
    (settingsTasks sampleText).system.Path GuardedSystem.anyStep inOrderStart inOrder w ∧
      Converged sampleText w ∧
      w.shared.settings = ⟨false, ["udp://tracker"], 1, ()⟩ :=
  ⟨_, inOrder_path, converged_of_inOrder (by simp) inOrder_path rfl
    ⟨by decide, fun engine => by cases engine <;> decide⟩, rfl⟩

end StreamServer.Settings

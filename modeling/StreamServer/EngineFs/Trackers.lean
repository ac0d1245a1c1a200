import Mathlib.Algebra.Ring.Nat
import Mathlib.Algebra.Ring.Int.Defs
import Mathlib.Data.Int.Notation
import StreamServer.Lib.GuardedSystem
import StreamServer.Lib.Text

/-!
# The forced refresh of the trackers

A forced refresh first spawns a save of an empty list with the time zero, so that what is stored looks old, and
then refreshes as it always does: it reads the stored time, and fetches if that is a day ago.  The save runs
when it likes.

## Main definitions

* `State`, `next` — the refresh, between two reads or writes of what it shares with the saves.
* `trackerSystem` — the refresh and the saves it has spawned, in any order.
* `Effective` — the source was fetched, and a fruitless fetch has left the stored list as it was.
* `Sound` — a condition on a step: the refresh does not leave before the fetch, and behind a fruitless one
  nothing else than the stored list is written.

## Main results

* `known_step`, `sound_step`, `lost_of_not`, `lost_step` — what the steps keep.
* `effective_iff` — **a run of a forced refresh is effective exactly if its steps are sound.**

## References

`enginefs/src/trackers.rs`; `server/src/state.rs`, `TrackerStorageBridge`.
-/

namespace StreamServer.EngineFs.Trackers

/-! ### The refresh -/

/-- `REFRESH_INTERVAL`, in seconds. -/
def refreshInterval : ℤ := 24 * 60 * 60

/-- What the settings know of the trackers. -/
structure Stored where
  trackers : List String
  lastUpdated : ℤ
  deriving DecidableEq, Repr

/-- A forced refresh: what it finds, and what it gets. -/
structure Call where
  /-- Whether the build checks for overflows. -/
  checks : Bool
  stored : Stored
  memory : List String
  sourceUrl : String
  now : ℤ
  /-- The text of the source, if it can be fetched. -/
  answer : Option String
  rankTrackers : List String → List String

/-- `now - last_updated`, unless that panics. -/
def age (checks : Bool) (now lastUpdated : ℤ) : Option ℤ :=
  let difference := now - lastUpdated
  if -2 ^ 63 ≤ difference ∧ difference < 2 ^ 63 then some difference
  else if checks then none
  else some (difference.bmod (2 ^ 64))

/-- `fetch_trackers`, the lines of the answer that are not blank. -/
def fetchTrackers (text : String) : List String :=
  (text.toList.textLines.map fun line => String.ofList line.trim).filter (· ≠ "")

/-- The fetch fails, or yields no tracker. -/
def Call.Fruitless (call : Call) : Prop := ∀ text, call.answer = some text → fetchTrackers text = []

/-- Where the refresh is. -/
inductive Stage
  | called
  | reading
  | fresh
  | cached
  | needed
  | fetching
  | ranking (raw : List String)
  | saved (top : List String)
  | returned
  | panicked
  deriving DecidableEq, Repr

/-- A spawned save. -/
inductive Save
  | spawned (data : Stored)
  /-- The settings are changed, and their text is made. -/
  | writing (data : Stored)
  | finished
  deriving DecidableEq, Repr

/-- What becomes of the write of a save. -/
inductive WriteResult
  | written
  | noDirectory
  | failed (left : Stored)
  deriving DecidableEq, Repr

/-- What is in the file after a write. -/
def WriteResult.file (data file : Stored) : WriteResult → Stored
  | .written => data
  | .noDirectory => file
  | .failed left => left

/-- The manager in a call, with the saves it has spawned. -/
structure State where
  settings : Stored
  file : Stored
  memory : List String
  saves : List Save
  stage : Stage
  fetched : List String

/-- The manager when the call comes. -/
def start (call : Call) : State := ⟨call.stored, call.stored, call.memory, [], .called, []⟩

/-- What the refresh does next. -/
def next (call : Call) (s : State) : State :=
  match s.stage with
  | .called => { s with saves := s.saves ++ [.spawned ⟨[], 0⟩], stage := .reading }
  | .reading =>
      match age call.checks call.now s.settings.lastUpdated with
      | none => { s with stage := .panicked }
      | some seconds => { s with stage := if seconds < refreshInterval then .fresh else .needed }
  | .fresh => { s with stage := if s.memory = [] then .cached else .returned }
  | .cached =>
      if s.settings.trackers = [] then { s with stage := .needed }
      else { s with memory := s.settings.trackers, stage := .returned }
  | .needed => { s with fetched := s.fetched ++ [call.sourceUrl], stage := .fetching }
  | .fetching =>
      match call.answer with
      | none => { s with stage := .returned }
      | some text =>
          if fetchTrackers text = [] then { s with stage := .returned }
          else { s with stage := .ranking (fetchTrackers text) }
  | .ranking raw =>
      let top := (call.rankTrackers raw).take 20
      { s with saves := s.saves ++ [.spawned ⟨top, call.now⟩], stage := .saved top }
  | .saved top => { s with memory := top, stage := .returned }
  | .returned | .panicked => s

/-- A step of the refresh, or of a save that was spawned. -/
inductive Action
  | refresh
  /-- A save takes the lock, changes the settings and makes their text. -/
  | save (i : ℕ)
  | write (i : ℕ) (result : WriteResult)
  deriving DecidableEq, Repr

/-- The refresh and the saves it has spawned. -/
def trackerSystem (call : Call) : GuardedSystem State Action where
  guard s
    | .refresh => s.stage ≠ .returned ∧ s.stage ≠ .panicked
    | .save i => ∃ data, s.saves[i]? = some (.spawned data)
    | .write i _ => ∃ data, s.saves[i]? = some (.writing data)
  effect s
    | .refresh => next call s
    | .save i =>
        match s.saves[i]? with
        | some (.spawned data) => { s with settings := data, saves := s.saves.set i (.writing data) }
        | _ => s
    | .write i result =>
        match s.saves[i]? with
        | some (.writing data) => { s with file := result.file data s.file, saves := s.saves.set i .finished }
        | _ => s

/-- The refresh has returned, and all saves have finished. -/
def Complete (s : State) : Prop :=
  (s.stage = .returned ∨ s.stage = .panicked) ∧ ∀ save ∈ s.saves, save = .finished

/-- The source was fetched, and a fruitless fetch has left the stored list as it was. -/
def Effective (call : Call) (s : State) : Prop :=
  call.sourceUrl ∈ s.fetched ∧ (call.Fruitless → s.file.trackers = call.stored.trackers)

/-- The refresh does not leave before the fetch, and behind a fruitless one nothing else than the stored list is
written. -/
def Sound (call : Call) (s : State) : Action → Prop
  | .refresh =>
      match s.stage with
      | .reading => age call.checks call.now s.settings.lastUpdated ≠ none
      | .fresh => s.memory = []
      | .cached => s.settings.trackers = []
      | _ => True
  | .save _ => True
  | .write _ result =>
      call.Fruitless → (result.file ⟨[], 0⟩ call.stored).trackers = call.stored.trackers

/-! ### What is known in a run -/

variable {call : Call} {s : State} {i : ℕ}

/-- A save of the empty list that resets the time. -/
inductive Resets : Save → Prop
  | spawned : Resets (.spawned ⟨[], 0⟩)
  | writing : Resets (.writing ⟨[], 0⟩)
  | finished : Resets .finished

/-- Before the fetch. -/
def Stage.early : Stage → Bool
  | .called | .reading | .fresh | .cached | .needed => true
  | _ => false

/-- Between the fetch and the end. -/
def Stage.late : Stage → Bool
  | .fetching | .ranking _ | .saved _ => true
  | _ => false

/-- Nothing is fetched before the fetch, and the source behind it; where that is fruitless, only the reset is
saved. -/
structure Known (call : Call) (s : State) : Prop where
  saves : call.Fruitless →
    (s.stage = .called ∧ s.saves = []) ∨ (s.stage ≠ .called ∧ ∃ save, Resets save ∧ s.saves = [save])
  ranking : call.Fruitless → ∀ raw, s.stage ≠ .ranking raw
  early : s.stage.early = true → s.fetched = []
  late : s.stage.late = true → call.sourceUrl ∈ s.fetched

theorem known_start (call : Call) : Known call (start call) :=
  ⟨fun _ => .inl ⟨rfl, rfl⟩, fun _ _ h => (nomatch h), fun _ => rfl, fun h => (nomatch h)⟩

/-- A step of the refresh that spawns nothing. -/
theorem Known.advance (h : Known call s) {t : State} (hsaves : t.saves = s.saves) (hcalled : s.stage ≠ .called)
    (hcalled' : t.stage ≠ .called) (hranking : call.Fruitless → ∀ raw, t.stage ≠ .ranking raw)
    (hearly : t.stage.early = true → t.fetched = [])
    (hlate : t.stage.late = true → call.sourceUrl ∈ t.fetched) : Known call t where
  saves hfruitless := by
    rw [hsaves]
    exact (h.saves hfruitless).elim (fun hc => absurd hc.1 hcalled) fun hs => .inr ⟨hcalled', hs.2⟩
  ranking := hranking
  early := hearly
  late := hlate

/-- **The refresh keeps what is known.** -/
theorem known_next (h : Known call s) : Known call (next call s) := by
  -- nothing has been fetched before the stage of the need, and it has been from there on
  cases hstage : s.stage with
  | called =>
    have hfetched := h.early (by rw [hstage]; rfl)
    simp only [next, hstage]
    refine ⟨fun hfruitless => .inr ⟨by simp, ?_⟩, by simp, fun _ => hfetched, fun hlate => (nomatch hlate)⟩
    have hnone := (h.saves hfruitless).resolve_right fun hs => hs.1 hstage
    exact ⟨_, .spawned, by rw [hnone.2]; rfl⟩
  | reading =>
    have hfetched := h.early (by rw [hstage]; rfl)
    simp only [next, hstage]
    split
    · exact h.advance rfl (by simp [hstage]) (by simp) (by simp) (by simp [hfetched]) (by simp [Stage.late])
    · split
      · exact h.advance rfl (by simp [hstage]) (by simp) (by simp) (by simp [hfetched]) (by simp [Stage.late])
      · exact h.advance rfl (by simp [hstage]) (by simp) (by simp) (by simp [hfetched]) (by simp [Stage.late])
  | fresh =>
    have hfetched := h.early (by rw [hstage]; rfl)
    simp only [next, hstage]
    split
    · exact h.advance rfl (by simp [hstage]) (by simp) (by simp) (by simp [hfetched]) (by simp [Stage.late])
    · exact h.advance rfl (by simp [hstage]) (by simp) (by simp) (by simp [hfetched]) (by simp [Stage.late])
  | cached =>
    have hfetched := h.early (by rw [hstage]; rfl)
    simp only [next, hstage]
    split
    · exact h.advance rfl (by simp [hstage]) (by simp) (by simp) (by simp [hfetched]) (by simp [Stage.late])
    · exact h.advance rfl (by simp [hstage]) (by simp) (by simp) (by simp [hfetched]) (by simp [Stage.late])
  | needed =>
    simp only [next, hstage]
    exact h.advance rfl (by simp [hstage]) (by simp) (by simp) (by simp [Stage.early]) (by simp)
  | fetching =>
    have hfetched := h.late (by rw [hstage]; rfl)
    simp only [next, hstage]
    split
    · exact h.advance rfl (by simp [hstage]) (by simp) (by simp) (by simp [Stage.early]) (by simp [hfetched])
    · next text hanswer =>
      split
      · exact h.advance rfl (by simp [hstage]) (by simp) (by simp) (by simp [Stage.early]) (by simp [hfetched])
      · next hsome =>
        exact h.advance rfl (by simp [hstage]) (by simp) (fun hfruitless => absurd (hfruitless text hanswer) hsome)
          (by simp [Stage.early]) (by simp [hfetched])
  -- a call without a fruitful answer never comes here
  | ranking raw =>
    have hfetched := h.late (by rw [hstage]; rfl)
    simp only [next, hstage]
    exact ⟨fun hfruitless => absurd hstage (h.ranking hfruitless raw), by simp, by simp [Stage.early],
      fun _ => hfetched⟩
  | saved top =>
    simp only [next, hstage]
    exact h.advance rfl (by simp [hstage]) (by simp) (by simp) (by simp [Stage.early]) (by simp [Stage.late])
  | returned | panicked =>
    simp only [next, hstage]
    exact h

/-- A save that goes on. -/
theorem Known.set (h : Known call s) {save save' : Save} (hi : s.saves[i]? = some save)
    (hresets : Resets save → Resets save') {t : State} (hsaves : t.saves = s.saves.set i save')
    (hstage : t.stage = s.stage) (hfetched : t.fetched = s.fetched) : Known call t := by
  refine ⟨fun hfruitless => ?_, by rw [hstage]; exact h.ranking, by rw [hstage, hfetched]; exact h.early,
    by rw [hstage, hfetched]; exact h.late⟩
  rcases h.saves hfruitless with ⟨-, hnone⟩ | ⟨hcalled, save'', hreset, hone⟩
  · rw [hnone] at hi
    cases hi
  · rw [hone] at hi hsaves
    obtain rfl : i = 0 := by
      cases i with
      | zero => rfl
      | succ i => cases hi
    rw [List.getElem?_cons_zero, Option.some.injEq] at hi
    rw [hi] at hreset
    rw [hstage]
    exact .inr ⟨hcalled, save', hresets hreset, hsaves⟩

theorem known_step (h : Known call s) {a : Action} (hg : (trackerSystem call).guard s a) :
    Known call ((trackerSystem call).effect s a) := by
  cases a with
  | refresh => exact known_next h
  | save i =>
    obtain ⟨data, hi⟩ := hg
    simp only [trackerSystem, hi]
    exact h.set hi (fun hr => by cases hr; exact .writing) rfl rfl rfl
  | write i result =>
    obtain ⟨data, hi⟩ := hg
    simp only [trackerSystem, hi]
    exact h.set hi (fun _ => .finished) rfl rfl rfl

/-! ### Effective runs and others -/

/-- So far nothing has gone wrong. -/
structure Good (call : Call) (s : State) : Prop where
  file : call.Fruitless → s.file.trackers = call.stored.trackers
  returned : s.stage = .returned → call.sourceUrl ∈ s.fetched
  panicked : s.stage ≠ .panicked

/-- The refresh has left before the fetch, or behind a fruitless one the stored list is lost. -/
inductive Lost (call : Call) (s : State) : Prop
  | left (stage : s.stage = .returned ∨ s.stage = .panicked) (fetched : s.fetched = [])
  | overwritten (fruitless : call.Fruitless) (file : s.file.trackers ≠ call.stored.trackers)
      (called : s.stage ≠ .called) (saves : s.saves = [.finished])

theorem good_start (call : Call) : Good call (start call) :=
  ⟨fun _ => rfl, fun h => (nomatch h), fun h => (nomatch h)⟩

/-- **A sound step of the refresh.** -/
theorem good_next (hknown : Known call s) (h : Good call s) (hc : Sound call s .refresh) :
    Good call (next call s) := by
  cases hstage : s.stage with
  | called | needed =>
    simp only [next, hstage]
    exact ⟨h.file, fun hr => (nomatch hr), fun hp => (nomatch hp)⟩
  | reading =>
    simp only [Sound, hstage] at hc
    simp only [next, hstage]
    split
    · next hnone => exact absurd hnone hc
    · split
      · exact ⟨h.file, fun hr => (nomatch hr), fun hp => (nomatch hp)⟩
      · exact ⟨h.file, fun hr => (nomatch hr), fun hp => (nomatch hp)⟩
  | fresh =>
    simp only [Sound, hstage] at hc
    simp only [next, hstage, if_pos hc]
    exact ⟨h.file, fun hr => (nomatch hr), fun hp => (nomatch hp)⟩
  | cached =>
    simp only [Sound, hstage] at hc
    simp only [next, hstage, if_pos hc]
    exact ⟨h.file, fun hr => (nomatch hr), fun hp => (nomatch hp)⟩
  | fetching =>
    have hfetched := hknown.late (by rw [hstage]; rfl)
    simp only [next, hstage]
    split
    · exact ⟨h.file, fun _ => hfetched, fun hp => (nomatch hp)⟩
    · split
      · exact ⟨h.file, fun _ => hfetched, fun hp => (nomatch hp)⟩
      · exact ⟨h.file, fun _ => hfetched, fun hp => (nomatch hp)⟩
  | ranking raw =>
    simp only [next, hstage]
    exact ⟨h.file, fun hr => (nomatch hr), fun hp => (nomatch hp)⟩
  | saved top =>
    have hfetched := hknown.late (by rw [hstage]; rfl)
    simp only [next, hstage]
    exact ⟨h.file, fun _ => hfetched, fun hp => (nomatch hp)⟩
  | returned | panicked =>
    simp only [next, hstage]
    exact h

/-- Where the fetch is fruitless, the only save is the reset. -/
theorem Known.writing (h : Known call s) (hfruitless : call.Fruitless) {data : Stored}
    (hi : s.saves[i]? = some (.writing data)) : data = ⟨[], 0⟩ ∧ s.saves.set i .finished = [.finished] ∧
      s.stage ≠ .called := by
  rcases h.saves hfruitless with ⟨-, hnone⟩ | ⟨hcalled, save, hreset, hone⟩
  · rw [hnone] at hi
    cases hi
  · rw [hone] at hi ⊢
    cases i with
    | succ i => cases hi
    | zero =>
      rw [List.getElem?_cons_zero, Option.some.injEq] at hi
      rw [hi] at hreset
      cases hreset
      exact ⟨rfl, rfl, hcalled⟩

/-- **A sound step** keeps all well. -/
theorem sound_step (hknown : Known call s) (h : Good call s) {a : Action}
    (hg : (trackerSystem call).guard s a) (hc : Sound call s a) :
    Good call ((trackerSystem call).effect s a) := by
  cases a with
  | refresh => exact good_next hknown h hc
  | save i =>
    obtain ⟨data, hi⟩ := hg
    simp only [trackerSystem, hi]
    exact ⟨h.file, h.returned, h.panicked⟩
  | write i result =>
    obtain ⟨data, hi⟩ := hg
    simp only [trackerSystem, hi]
    refine ⟨fun hfruitless => ?_, h.returned, h.panicked⟩
    have hleft := hc hfruitless
    obtain ⟨rfl, -, -⟩ := hknown.writing hfruitless hi
    cases result with
    | written => exact hleft
    | noDirectory => exact h.file hfruitless
    | failed left => exact hleft

/-- **Another step** leaves the refresh, or loses the list. -/
theorem lost_of_not (hknown : Known call s) {a : Action} (hg : (trackerSystem call).guard s a)
    (hc : ¬ Sound call s a) : Lost call ((trackerSystem call).effect s a) := by
  cases a with
  | refresh =>
    cases hstage : s.stage with
    | reading =>
      have hfetched := hknown.early (by rw [hstage]; rfl)
      simp only [Sound, hstage, not_not] at hc
      simp only [trackerSystem, next, hstage, hc]
      exact .left (.inr rfl) hfetched
    | fresh =>
      have hfetched := hknown.early (by rw [hstage]; rfl)
      simp only [Sound, hstage] at hc
      simp only [trackerSystem, next, hstage, if_neg hc]
      exact .left (.inl rfl) hfetched
    | cached =>
      have hfetched := hknown.early (by rw [hstage]; rfl)
      simp only [Sound, hstage] at hc
      simp only [trackerSystem, next, hstage, if_neg hc]
      exact .left (.inl rfl) hfetched
    | _ => simp [Sound, hstage] at hc
  | save i => exact absurd trivial hc
  | write i result =>
    obtain ⟨data, hi⟩ := hg
    rw [Sound, Classical.not_imp] at hc
    obtain ⟨hfruitless, hleft⟩ := hc
    obtain ⟨rfl, hsaves, hcalled⟩ := hknown.writing hfruitless hi
    simp only [trackerSystem, hi]
    refine .overwritten hfruitless ?_ hcalled hsaves
    cases result with
    | written => exact hleft
    | noDirectory => exact absurd rfl hleft
    | failed left => exact hleft

/-- Behind a fruitless fetch the refresh saves nothing more. -/
theorem Known.next_quiet (h : Known call s) (hfruitless : call.Fruitless) (hcalled : s.stage ≠ .called) :
    (next call s).saves = s.saves ∧ (next call s).file = s.file ∧ (next call s).stage ≠ .called := by
  cases hstage : s.stage with
  | called => exact absurd hstage hcalled
  | ranking raw => exact absurd hstage (h.ranking hfruitless raw)
  | reading =>
    simp only [next, hstage]
    split
    · simp
    · split <;> simp
  | fresh | cached =>
    simp only [next, hstage]
    split <;> simp
  | fetching =>
    simp only [next, hstage]
    split
    · simp
    · split <;> simp
  | needed | saved | returned | panicked => simp [next, hstage]

/-- **What is lost stays lost.** -/
theorem lost_step (hknown : Known call s) (h : Lost call s) {a : Action}
    (hg : (trackerSystem call).guard s a) : Lost call ((trackerSystem call).effect s a) := by
  cases h with
  | left hstage hfetched =>
    cases a with
    | refresh => exact absurd hstage (not_or.mpr hg)
    | save i =>
      obtain ⟨data, hi⟩ := hg
      simp only [trackerSystem, hi]
      exact .left hstage hfetched
    | write i result =>
      obtain ⟨data, hi⟩ := hg
      simp only [trackerSystem, hi]
      exact .left hstage hfetched
  | overwritten hfruitless hfile hcalled hsaves =>
    -- the only save has finished
    have hfinished : ∀ (i : ℕ) (save : Save), s.saves[i]? = some save → save = .finished := fun i save hi => by
      rw [hsaves] at hi
      exact List.mem_singleton.mp (List.mem_of_getElem? hi)
    cases a with
    | refresh =>
      obtain ⟨hsaves', hfile', hcalled'⟩ := hknown.next_quiet hfruitless hcalled
      refine .overwritten hfruitless ?_ hcalled' (hsaves'.trans hsaves)
      change (next call s).file.trackers ≠ _
      rwa [hfile']
    | save i =>
      obtain ⟨data, hi⟩ := hg
      cases hfinished i _ hi
    | write i result =>
      obtain ⟨data, hi⟩ := hg
      cases hfinished i _ hi

/-- **A run of a forced refresh is effective exactly if its steps are sound.** -/
theorem effective_iff {as : List Action} (hrun : (trackerSystem call).Path GuardedSystem.anyStep (start call) as s)
    (hcomplete : Complete s) :
    Effective call s ↔ (trackerSystem call).Path (Sound call) (start call) as s := by
  rcases hrun.meets_or_not (fun _ _ hknown hg => known_step hknown hg)
    (fun _ _ hknown h hg hc => sound_step hknown h hg hc) (fun _ _ hknown _ hg hc => lost_of_not hknown hg hc)
    (fun _ _ hknown h hg => lost_step hknown h hg) (known_start call) (good_start call) with
    ⟨hpath, hgood⟩ | ⟨hpath, hlost⟩
  · exact iff_of_true ⟨hgood.returned (hcomplete.1.resolve_right hgood.panicked), hgood.file⟩ hpath
  · refine iff_of_false (fun heffective => ?_) hpath
    cases hlost with
    | left _ hfetched =>
      rw [Effective, hfetched] at heffective
      exact absurd heffective.1 List.not_mem_nil
    | overwritten hfruitless hfile _ _ => exact hfile (heffective.2 hfruitless)

/-! ### A stored list -/

/-- A refresh with a stored list, on a day on which the source does not answer. -/
def offlineCall : Call :=
  ⟨true, ⟨["udp://tracker"], 1699900000⟩, ["udp://tracker"], "http://trackers", 1700000000, none, id⟩

/-- The refresh reads the stored time, fetches, and returns while its save is on its way. -/
def offlineRun (result : WriteResult) : List Action :=
  [.refresh, .refresh, .refresh, .save 0, .refresh, .write 0 result]

/-- The state the run ends in. -/
def offlineEnd (result : WriteResult) : State :=
  (offlineRun result).foldl (trackerSystem offlineCall).effect (start offlineCall)

theorem path_offlineRun {C : State → Action → Prop} {result : WriteResult}
    (hrefresh : ∀ s, s.stage ≠ .fresh → s.stage ≠ .cached →
      (s.stage = .reading → s.settings.lastUpdated = 1699900000) → C s .refresh)
    (hsave : ∀ s, C s (.save 0)) (hwrite : ∀ s, C s (.write 0 result)) :
    (trackerSystem offlineCall).Path C (start offlineCall) (offlineRun result) (offlineEnd result) := by
  refine .cons ⟨by decide, by decide⟩ (hrefresh _ (by decide) (by decide) fun _ => rfl) ?_
  refine .cons ⟨by decide, by decide⟩ (hrefresh _ (by decide) (by decide) fun _ => rfl) ?_
  refine .cons ⟨by decide, by decide⟩ (hrefresh _ (by decide) (by decide) fun h => by cases h) ?_
  refine .cons ⟨_, rfl⟩ (hsave _) ?_
  refine .cons ⟨by decide, by decide⟩ (hrefresh _ (by decide) (by decide) fun h => by cases h) ?_
  exact .cons ⟨_, rfl⟩ (hwrite _) (.nil _)

/-- The stored list is lost. -/
theorem offline_not_effective : ∃ s, (trackerSystem offlineCall).Path GuardedSystem.anyStep (start offlineCall)
    (offlineRun .written) s ∧ Complete s ∧ ¬ Effective offlineCall s := by
  refine ⟨offlineEnd .written, ?_, ⟨.inl rfl, by decide⟩, fun h => ?_⟩
  · exact path_offlineRun (fun _ _ _ _ => trivial) (fun _ => trivial) fun _ => trivial
  · exact absurd (h.2 fun _ heq => nomatch heq) (by decide)

/-- The save finds no directory for its file, and the stored list stays there. -/
theorem offline_effective : ∃ s, (trackerSystem offlineCall).Path GuardedSystem.anyStep (start offlineCall)
    (offlineRun .noDirectory) s ∧ Effective offlineCall s ∧ s.file.trackers = ["udp://tracker"] := by
  have hrun := @path_offlineRun GuardedSystem.anyStep .noDirectory (fun _ _ _ _ => trivial)
    (fun _ => trivial) fun _ => trivial
  refine ⟨offlineEnd .noDirectory, hrun, (effective_iff hrun ⟨.inl rfl, by decide⟩).mpr ?_, rfl⟩
  refine path_offlineRun (fun s hfresh hcached hreading => ?_) (fun _ => trivial) fun _ _ => rfl
  cases hstage : s.stage with
  | fresh => exact absurd hstage hfresh
  | cached => exact absurd hstage hcached
  | reading =>
    simp only [Sound, hstage, hreading hstage]
    decide
  | _ => simp only [Sound, hstage]

end StreamServer.EngineFs.Trackers

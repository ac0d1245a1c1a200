import Mathlib.Data.Int.Notation
import Mathlib.Data.List.Basic
import Mathlib.Data.List.Induction
import Mathlib.Data.List.Pairwise
import Mathlib.Data.Nat.Notation

/-!
# Silence behind a pause

A pause is confirmed when the torrent has been silent for a while: paused, without peers, and with totals that
do not move.  The tracker keeps the time at which the silence began and the totals it has; whatever interrupts
the silence makes it start again.

## Main definitions

* `PauseSilenceTracker.observe` — one look at the torrent.
* `waitForPauseConfirmation` — the loop that looks until the silence has lasted, or the time is up.
* `Silence` — what a confirmation says about the looks before it.

## Main results

* `tracks_observe` — what the tracker knows about the looks so far.
* `observe_iff` — **a look confirms exactly a silence.**
* `pauseConfirmation_silence` — a pause is confirmed only behind a silence.

## References

`enginefs/src/backend/libtorrent/playback.rs`, `PauseSilenceTracker` and `wait_for_pause_confirmation`.
-/

namespace StreamServer.Playback

/-- `PauseStatusSnapshot`. -/
structure PauseStatusSnapshot where
  isPaused : Bool
  numPeers : ℤ
  totalDownloaded : ℤ
  totalUploaded : ℤ
  downloadRate : ℤ
  uploadRate : ℤ
  deriving DecidableEq, Repr

/-- How long the silence has to last, in nanoseconds. -/
def pauseQuietConfirmation : ℕ := 500000000

/-- How long the loop looks, in seconds. -/
def pauseConfirmTimeout : ℕ := 5

/-- `PauseSilenceTracker`. -/
structure PauseSilenceTracker where
  stableSince : Option ℕ
  totalDownloaded : ℤ
  totalUploaded : ℤ
  deriving DecidableEq, Repr

namespace PauseSilenceTracker

/-- The tracker before it has seen a status. -/
def new : PauseSilenceTracker := ⟨none, 0, 0⟩

/-- One look at the torrent: whether the silence has lasted long enough, and what the tracker knows then. -/
def observe (tracker : PauseSilenceTracker) (status : PauseStatusSnapshot) (now : ℕ) :
    Bool × PauseSilenceTracker :=
  if !status.isPaused || status.numPeers ≠ 0 then (false, { tracker with stableSince := none })
  else
    match tracker.stableSince with
    | none => (false, ⟨some now, status.totalDownloaded, status.totalUploaded⟩)
    | some since =>
        if tracker.totalDownloaded ≠ status.totalDownloaded ∨
            tracker.totalUploaded ≠ status.totalUploaded then
          (false, ⟨some now, status.totalDownloaded, status.totalUploaded⟩)
        else (pauseQuietConfirmation ≤ now - since, tracker)

end PauseSilenceTracker

/-- A look, with its time. -/
structure Observation where
  status : PauseStatusSnapshot
  time : ℕ
  deriving DecidableEq, Repr

/-- What the tracker knows after these looks. -/
def track (seen : List Observation) : PauseSilenceTracker :=
  seen.foldl (fun tracker o => (tracker.observe o.status o.time).2) .new

/-- The times do not go back. -/
def InOrder (seen : List Observation) : Prop := seen.Pairwise fun o o' => o.time ≤ o'.time

/-- Paused, without peers, and with these totals. -/
structure Observation.Still (o : Observation) (downloaded uploaded : ℤ) : Prop where
  isPaused : o.status.isPaused = true
  numPeers : o.status.numPeers = 0
  downloaded_eq : o.status.totalDownloaded = downloaded
  uploaded_eq : o.status.totalUploaded = uploaded

/-- An earlier look lies long enough before this one, and nothing has moved from that one on. -/
def Silence (seen : List Observation) (o : Observation) : Prop :=
  ∃ before first between, seen = before ++ first :: between ∧
    first.time + pauseQuietConfirmation ≤ o.time ∧
      ∀ p ∈ first :: (between ++ [o]), p.Still o.status.totalDownloaded o.status.totalUploaded

/-! ### What the tracker knows -/

/-- What the tracker knows about the looks so far: the last one was not silent, or the silence with its totals
began at its time. -/
inductive Tracks (tracker : PauseSilenceTracker) : List Observation → Prop
  | loud {seen : List Observation} (since : tracker.stableSince = none)
      (last : ∀ o ∈ seen.getLast?, ∀ downloaded uploaded, ¬ o.Still downloaded uploaded) :
      Tracks tracker seen
  | silent {before between : List Observation} {first : Observation}
      (since : tracker.stableSince = some first.time)
      (still : ∀ o ∈ first :: between, o.Still tracker.totalDownloaded tracker.totalUploaded)
      (last : ∀ o ∈ before.getLast?, ¬ o.Still tracker.totalDownloaded tracker.totalUploaded) :
      Tracks tracker (before ++ first :: between)

section Tracker

variable {tracker : PauseSilenceTracker} {seen : List Observation} {o : Observation}

/-- A silence begins with this look. -/
theorem Tracks.begin (htracks : Tracks tracker seen) (hpaused : o.status.isPaused = true)
    (hpeers : o.status.numPeers = 0)
    (hmoved : ∀ since, tracker.stableSince = some since →
      tracker.totalDownloaded ≠ o.status.totalDownloaded ∨
        tracker.totalUploaded ≠ o.status.totalUploaded) :
    Tracks ⟨some o.time, o.status.totalDownloaded, o.status.totalUploaded⟩ (seen ++ [o]) := by
  refine .silent rfl (fun p hp => ?_) fun p hp hstill => ?_
  · rw [List.mem_singleton.mp hp]
    exact ⟨hpaused, hpeers, rfl, rfl⟩
  · -- the look before this one was loud, or had other totals
    cases htracks with
    | loud _ hlast => exact hlast p hp _ _ hstill
    | @silent before between first hsince hbefore _ =>
      have hmem : p ∈ first :: between := by
        rw [List.getLast?_append_cons] at hp
        exact List.mem_of_getLast? hp
      have hp' := hbefore p hmem
      rcases hmoved _ hsince with hne | hne
      · exact hne (hp'.downloaded_eq.symm.trans hstill.downloaded_eq)
      · exact hne (hp'.uploaded_eq.symm.trans hstill.uploaded_eq)

/-- **A look keeps the tracker up to date.** -/
theorem tracks_observe (h : Tracks tracker seen) (o : Observation) :
    Tracks (tracker.observe o.status o.time).2 (seen ++ [o]) := by
  rw [PauseSilenceTracker.observe]
  by_cases hloud : (!o.status.isPaused || o.status.numPeers ≠ 0) = true
  · rw [if_pos hloud]
    refine .loud rfl fun p hp downloaded uploaded hstill => ?_
    rw [List.getLast?_concat, Option.mem_some_iff] at hp
    subst hp
    rw [hstill.isPaused, hstill.numPeers] at hloud
    exact absurd hloud (by decide)
  · rw [if_neg hloud]
    obtain ⟨hpaused, hpeers⟩ : o.status.isPaused = true ∧ o.status.numPeers = 0 := by
      simpa using hloud
    cases hsince : tracker.stableSince with
    | none => exact h.begin hpaused hpeers (by simp [hsince])
    | some since =>
      dsimp only
      split
      · next hmoved =>
        exact h.begin hpaused hpeers fun _ _ => hmoved
      · next hsame =>
        obtain ⟨hdown, hup⟩ := not_or.mp hsame
        cases h with
        | loud hnone _ =>
          rw [hnone] at hsince
          cases hsince
        | silent hsince' hstill hlast =>
          rw [List.append_assoc, List.cons_append]
          refine .silent hsince' (fun p hp => ?_) hlast
          rw [← List.cons_append, List.mem_append, List.mem_singleton] at hp
          rcases hp with hp | rfl
          · exact hstill p hp
          · exact ⟨hpaused, hpeers, (not_not.mp hdown).symm, (not_not.mp hup).symm⟩

/-- What the tracker knows after any looks. -/
theorem tracks_track (seen : List Observation) : Tracks (track seen) seen := by
  induction seen using List.reverseRecOn with
  | nil => exact .loud rfl (by simp)
  | append_singleton seen o ih =>
    rw [track, List.foldl_append]
    exact tracks_observe ih o

/-! ### Silences -/

/-- A look confirms if it is silent, and the silence with its totals began long enough ago. -/
theorem observe_eq_true : (tracker.observe o.status o.time).1 = true ↔
    ∃ since, tracker.stableSince = some since ∧
      o.Still tracker.totalDownloaded tracker.totalUploaded ∧
        pauseQuietConfirmation ≤ o.time - since := by
  rw [PauseSilenceTracker.observe]
  constructor
  · intro h
    split at h
    · cases h
    · next hquiet =>
      split at h
      · cases h
      · next since hsince =>
        split at h
        · cases h
        · next hsame =>
          obtain ⟨hpaused, hpeers⟩ : o.status.isPaused = true ∧ o.status.numPeers = 0 := by
            simpa using hquiet
          obtain ⟨hdown, hup⟩ := not_or.mp hsame
          exact ⟨since, hsince, ⟨hpaused, hpeers, (not_not.mp hdown).symm, (not_not.mp hup).symm⟩,
            of_decide_eq_true h⟩
  · intro h
    obtain ⟨since, hsince, hstill, hlong⟩ := h
    rw [if_neg (by simp [hstill.isPaused, hstill.numPeers]), hsince]
    dsimp only
    rw [if_neg (by simp [hstill.downloaded_eq, hstill.uploaded_eq])]
    exact decide_eq_true hlong

/-- The looks of a silence lie in one that goes back as far as it can. -/
theorem mem_of_silent {before between before' between' : List Observation} {first first' : Observation}
    {downloaded uploaded : ℤ} (heq : before ++ first :: between = before' ++ first' :: between')
    (hlast : ∀ o ∈ before.getLast?, ¬ o.Still downloaded uploaded)
    (hall : ∀ o ∈ first' :: between', o.Still downloaded uploaded) : first' ∈ first :: between := by
  rcases List.append_eq_append_iff.mp heq with ⟨gap, -, hgap⟩ | ⟨gap, hbefore, hgap⟩
  · rw [hgap]
    exact List.mem_append_right _ List.mem_cons_self
  · -- otherwise it would reach back to a look that is not silent
    rcases List.eq_nil_or_concat' gap with rfl | ⟨front, p, rfl⟩
    · rw [List.nil_append] at hgap
      rw [← hgap]
      exact List.mem_cons_self
    · refine absurd (hall p ?_) (hlast p ?_)
      · rw [hgap]
        simp
      · rw [hbefore, ← List.append_assoc, List.getLast?_concat]
        rfl

/-- The last look of a list that ends with these ones. -/
theorem exists_last (before between : List Observation) (first : Observation) :
    ∃ p ∈ (before ++ first :: between).getLast?, p ∈ first :: between :=
  ⟨(first :: between).getLast (List.cons_ne_nil _ _),
    by rw [List.getLast?_append_cons, List.getLast?_eq_getLast_of_ne_nil]; rfl, List.getLast_mem _⟩

/-- **A look confirms exactly a silence.** -/
theorem observe_iff {seen : List Observation} {o : Observation} (horder : InOrder (seen ++ [o])) :
    ((track seen).observe o.status o.time).1 = true ↔ Silence seen o := by
  have htracks := tracks_track seen
  rw [observe_eq_true]
  constructor
  · intro h
    obtain ⟨since, hsince, hstill, hlong⟩ := h
    cases htracks with
    | loud hnone _ =>
      rw [hnone] at hsince
      cases hsince
    | @silent before between first hfirst hall _ =>
      rw [hfirst, Option.some.injEq] at hsince
      refine ⟨before, first, between, rfl, ?_, fun p hp => ?_⟩
      · rw [pauseQuietConfirmation] at hlong ⊢
        omega
      · rw [hstill.downloaded_eq, hstill.uploaded_eq]
        rw [← List.cons_append, List.mem_append, List.mem_singleton] at hp
        rcases hp with hp | rfl
        · exact hall p hp
        · exact hstill
  · intro h
    obtain ⟨before', first', between', hseen, hlong, hall'⟩ := h
    have hstill' : ∀ p ∈ first' :: between',
        p.Still o.status.totalDownloaded o.status.totalUploaded :=
      fun p hp => hall' p (by rw [← List.cons_append]; exact List.mem_append_left _ hp)
    obtain ⟨last, hlast, hmem'⟩ := exists_last before' between' first'
    rw [← hseen] at hlast
    generalize track seen = tracker at htracks ⊢
    cases htracks with
    | loud _ hloud => exact absurd (hstill' last hmem') (hloud last hlast _ _)
    | @silent before between first hfirst hall hbefore =>
      -- both silences reach up to the same look, so they have the same totals
      have hmem : last ∈ first :: between := by
        rw [List.getLast?_append_cons] at hlast
        exact List.mem_of_getLast? hlast
      have hdown := (hall last hmem).downloaded_eq.symm.trans (hstill' last hmem').downloaded_eq
      have hup := (hall last hmem).uploaded_eq.symm.trans (hstill' last hmem').uploaded_eq
      refine ⟨first.time, hfirst, ?_, ?_⟩
      · rw [hdown, hup]
        exact hall' o (by simp)
      · rw [← hdown, ← hup] at hstill'
        have hin := mem_of_silent hseen hbefore hstill'
        have hle : first.time ≤ first'.time := by
          rcases List.mem_cons.mp hin with rfl | hin
          · exact Nat.le_refl _
          · rw [InOrder, List.append_assoc, List.pairwise_append] at horder
            exact (List.pairwise_cons.mp horder.2.1).1 first' (List.mem_append_left _ hin)
        omega

end Tracker

/-! ### The loop -/

/-- The ways in which the wait fails. -/
inductive PauseError
  | noStatus (message : String)
  | notSilent (status : PauseStatusSnapshot)
  | fileError (message : String)
  | closed
  deriving DecidableEq, Repr

/-- The text of the error. -/
def PauseError.text : PauseError → String
  | .noStatus message => message
  | .notSilent status =>
      s!"Torrent pause was not silent after {pauseConfirmTimeout}s (paused={status.isPaused}, " ++
        s!"peers={status.numPeers}, down={status.downloadRate}, up={status.uploadRate}, " ++
        s!"total_down={status.totalDownloaded}, total_up={status.totalUploaded})"
  | .fileError message => "Libtorrent file error while pausing: " ++ message
  | .closed => "Libtorrent alert channel closed"

/-- What ends the wait for an alert. -/
inductive Wakeup
  | paused
  | fileError (message : String)
  | other
  | lagged
  | closed
  | timeout
  deriving DecidableEq, Repr

/-- One round of the loop: the status and when it is looked at, the time behind that, and what ends the wait. -/
structure WaitRound where
  status : Except String PauseStatusSnapshot
  observed : ℕ
  now : ℕ
  wakeup : Wakeup

/-- `wait_for_pause_confirmation`, over the rounds it makes; `none` while it waits. -/
def waitLoop (deadline : ℕ) (silence : PauseSilenceTracker) :
    List WaitRound → Option (Except PauseError Unit)
  | [] => none
  | round :: rounds =>
      match round.status with
      | .error message => some (.error (.noStatus message))
      | .ok status =>
          if (silence.observe status round.observed).1 then some (.ok ())
          else if deadline ≤ round.now then some (.error (.notSilent status))
          else
            match round.wakeup with
            | .fileError message => some (.error (.fileError message))
            | .closed => some (.error .closed)
            | .paused | .other | .lagged | .timeout =>
                waitLoop deadline (silence.observe status round.observed).2 rounds

/-- The wait, from `start` on, over the rounds of its loop. -/
def waitForPauseConfirmation (start : ℕ) (rounds : List WaitRound) : Option (Except PauseError Unit) :=
  waitLoop (start + pauseConfirmTimeout * 1000000000) .new rounds

/-- The looks of the rounds. -/
def looks (rounds : List WaitRound) : List Observation :=
  rounds.filterMap fun round =>
    match round.status with
    | .error _ => none
    | .ok status => some ⟨status, round.observed⟩

/-- The loop says that the torrent is paused behind a look that confirms it. -/
theorem waitLoop_ok {deadline : ℕ} {rounds : List WaitRound} {seen : List Observation}
    (h : waitLoop deadline (track seen) rounds = some (.ok ())) :
    ∃ earlier o later, looks rounds = earlier ++ o :: later ∧
      ((track (seen ++ earlier)).observe o.status o.time).1 = true := by
  induction rounds generalizing seen with
  | nil => cases h
  | cons round rounds ih =>
    rw [waitLoop] at h
    cases hstatus : round.status with
    | error message =>
      rw [hstatus] at h
      cases h
    | ok status =>
      have hlooks : looks (round :: rounds) = ⟨status, round.observed⟩ :: looks rounds := by
        simp [looks, hstatus]
      simp only [hstatus] at h
      split at h
      · next hsilent => exact ⟨[], ⟨status, round.observed⟩, looks rounds, hlooks, by simpa using hsilent⟩
      · split at h
        · cases h
        · have hnext : track (seen ++ [⟨status, round.observed⟩]) =
              ((track seen).observe status round.observed).2 := by
            rw [track, List.foldl_append]
            rfl
          have hrest : waitLoop deadline ((track seen).observe status round.observed).2 rounds =
              some (.ok ()) := by
            split at h
            · cases h
            · cases h
            all_goals exact h
          rw [← hnext] at hrest
          obtain ⟨earlier, o, later, hsplit, hsilent⟩ := ih hrest
          refine ⟨⟨status, round.observed⟩ :: earlier, o, later, ?_, ?_⟩
          · rw [hlooks, hsplit]
            rfl
          · rw [List.append_assoc] at hsilent
            exact hsilent

/-- **A pause is confirmed exactly behind a silence**, by a look as by the loop. -/
theorem pauseConfirmation_silence :
    (∀ seen o, InOrder (seen ++ [o]) →
      (((track seen).observe o.status o.time).1 = true ↔ Silence seen o)) ∧
    ∀ start rounds, InOrder (looks rounds) →
      waitForPauseConfirmation start rounds = some (.ok ()) →
        ∃ earlier o later, looks rounds = earlier ++ o :: later ∧ Silence earlier o := by
  refine ⟨fun seen o horder => observe_iff horder, fun start rounds horder h => ?_⟩
  obtain ⟨earlier, o, later, hsplit, hsilent⟩ := @waitLoop_ok _ rounds [] h
  have hbegin : InOrder (earlier ++ [o]) := by
    rw [hsplit, InOrder, List.append_cons] at horder
    exact (List.pairwise_append.mp horder).1
  exact ⟨earlier, o, later, hsplit, (observe_iff hbegin).mp hsilent⟩

/-- Two looks half a second apart, while nothing moves: the second one confirms, and so does the loop. -/
theorem twoLooks_silence :
    let quiet : PauseStatusSnapshot := ⟨true, 0, 10000, 200, 4000000, 1000⟩
    let rounds : List WaitRound := [⟨.ok quiet, 0, 0, .paused⟩, ⟨.ok quiet, 500000000, 500000000, .other⟩]
    Silence [⟨quiet, 0⟩] ⟨quiet, 500000000⟩ ∧ ∃ earlier o later,
      looks rounds = earlier ++ o :: later ∧ Silence earlier o :=
  ⟨(pauseConfirmation_silence.1 [⟨_, 0⟩] ⟨_, 500000000⟩ (by simp [InOrder])).mp (by decide),
    pauseConfirmation_silence.2 0 _ (by simp [InOrder, looks]) (by decide)⟩

end StreamServer.Playback

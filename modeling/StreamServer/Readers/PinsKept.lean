import StreamServer.Playback.PriorityOrder
import StreamServer.Readers.Pins

/-!
# No pin is lost

Whatever the readers of all torrents do at once: a piece that has been pinned stays pinned until the native
library has verified it, and a reader that has planned since asks for it.  A window that a reader has
handed in has no gaps, but for pieces that were there.

## Main definitions

* `WindowFor` — what a window has to be, with some pins left to be added.
* `ReaderOk` — the invariant of a reader.
* `Planners.Kept` — the invariant of all readers and pins.

## Main results

* `pins_kept` — **what holds in every state.**

## References

`enginefs/src/backend/libtorrent/disk_stream.rs`, `prioritize_from`, `escalate_blocked_piece`,
`pinned_metadata_missing`, `extend_with_pinned_metadata`; `enginefs/src/metadata_pins.rs`.
-/

namespace StreamServer.Readers

open Checked Playback

/-! ### The registry -/

theorem mem_pinPieces {pins pieces : List ℤ} {p : ℤ} :
    p ∈ pinPieces pins pieces ↔ p ∈ pins ∨ p ∈ pieces := by
  induction pieces generalizing pins with
  | nil => simp [pinPieces]
  | cons q pieces ih =>
    have hstep : pinPieces pins (q :: pieces) =
        pinPieces (if q ∈ pins then pins else pins ++ [q]) pieces := rfl
    rw [hstep, ih, List.mem_cons]
    split
    · next hq =>
      constructor
      · rintro (hp | hp)
        · exact .inl hp
        · exact .inr (.inr hp)
      · rintro (hp | rfl | hp)
        · exact .inl hp
        · exact .inl hq
        · exact .inr hp
    · rw [List.mem_append, List.mem_singleton, or_assoc]

theorem nodup_pinPieces {pins : List ℤ} (h : pins.Nodup) (pieces : List ℤ) :
    (pinPieces pins pieces).Nodup := by
  induction pieces generalizing pins with
  | nil => exact h
  | cons q pieces ih =>
    have hstep : pinPieces pins (q :: pieces) =
        pinPieces (if q ∈ pins then pins else pins ++ [q]) pieces := rfl
    rw [hstep]
    apply ih
    split
    · exact h
    · next hq =>
      refine List.nodup_append.mpr ⟨h, List.nodup_singleton q, ?_⟩
      rintro p hp p' hp' rfl
      rw [List.mem_singleton] at hp'
      exact hq (hp' ▸ hp)

theorem mem_unpinPieces {pins pieces : List ℤ} {p : ℤ} :
    p ∈ unpinPieces pins pieces ↔ p ∈ pins ∧ p ∉ pieces := by
  rw [unpinPieces, List.mem_filter, decide_eq_true_iff]

/-! ### The piece in front and the end of the window -/

theorem capPiecesByBytes_bounds {pieces : ℤ} {pieceLength maxBytes : ℕ} (hpieces : 0 < pieces)
    (hmax : 0 < maxBytes) :
    1 ≤ capPiecesByBytes pieces pieceLength maxBytes ∧
      capPiecesByBytes pieces pieceLength maxBytes ≤ pieces := by
  rw [capPiecesByBytes, if_neg (Int.not_le.mpr hpieces), if_neg (Nat.pos_iff_ne_zero.mp hmax)]
  omega

theorem diskBackedForwardWindowPiecesFor_bounds (intent : PlaybackIntent) (pieceLength : ℕ) :
    1 ≤ diskBackedForwardWindowPiecesFor intent pieceLength ∧
      diskBackedForwardWindowPiecesFor intent pieceLength ≤ 64 := by
  have hpieces : 0 < diskBackedForwardWindowPieces intent ∧ diskBackedForwardWindowPieces intent ≤ 64 := by
    cases intent <;> decide
  have hbytes : 0 < diskBackedByteCap intent := by
    cases intent <;> decide
  have hcap := @capPiecesByBytes_bounds _ pieceLength _ hpieces.1 hbytes
  exact ⟨hcap.1, le_trans hcap.2 hpieces.2⟩

/-- The pieces of a file, of which there are fewer than `2 ^ 31`. -/
structure OfFile (first last : ℤ) : Prop where
  first_nonneg : 0 ≤ first
  first_le : first ≤ last
  last_lt : last < 2 ^ 31 - 1

namespace LibtorrentDiskFileStream

variable {r : LibtorrentDiskFileStream}

theorem activeForwardWindow_bounds (intent : PlaybackIntent) {configured : ℤ}
    (h : 1 ≤ configured ∧ configured ≤ 64) :
    1 ≤ r.activeForwardWindow intent configured ∧ r.activeForwardWindow intent configured ≤ 64 := by
  unfold activeForwardWindow
  split
  · exact h
  · cases intent with
    | directInitial | hlsInitial =>
      dsimp only [INITIAL_FIRST_BYTE_WINDOW_PIECES]
      omega
    | directSeek | hlsSeek =>
      constructor
      · exact le_refl 1
      · exact (by decide : (1 : ℤ) ≤ 64)
    | _ => exact h

/-- The window for a piece of the file begins with it, and ends in the file. -/
theorem windowEnd_bounds (hr : OfFile r.firstPiece r.lastPiece) {piece : ℤ} (hfirst : r.firstPiece ≤ piece)
    (hlast : piece ≤ r.lastPiece) : piece ≤ r.windowEnd piece ∧ r.windowEnd piece ≤ r.lastPiece := by
  obtain ⟨hnonneg, -, hlt⟩ := hr
  have hwindow := r.activeForwardWindow_bounds r.priorityIntent
    (diskBackedForwardWindowPiecesFor_bounds r.priorityIntent r.pieceLength)
  rw [windowEnd, forwardWindowEnd]
  simp only [saturatingI32]
  omega

end LibtorrentDiskFileStream

/-! ### Windows -/

/-- A reader of a file plans for a piece of it, and is told nothing but what is so. -/
structure JobOk (verified : ℤ → Bool) (first last : ℤ) (job : Job) : Prop where
  first_le : first ≤ job.piece
  le_end : job.piece ≤ job.windowEnd
  end_le : job.windowEnd ≤ last
  truthful : Truthful verified job.piece job.presence
  foreground : job.readAheadPriority = 7

/-- A window asks for a piece. -/
def AsksFor (window : List LibtorrentPiecePriority) (p : ℤ) : Prop := ∃ a ∈ window, a.piece = p

/-- What a window has to be, with some pins left to be added: it asks for pieces of the file, each once, at
the highest priority and with a deadline; for the piece in front at once; and for all pieces up to its
end, and for all that had been pinned, but for those that are there. -/
structure WindowFor (verified : ℤ → Bool) (first last : ℤ) (job : Job) (left : List ℤ)
    (window : List LibtorrentPiecePriority) : Prop where
  nodup : (window.map (·.piece)).Nodup
  inside : ∀ a ∈ window, first ≤ a.piece ∧ a.piece ≤ last
  urgent : ∀ a ∈ window, a.priority = 7 ∧ ∃ deadline, a.deadlineMs = some deadline ∧ 0 ≤ deadline
  atOnce : verified job.piece = true ∨ window.head? = some ⟨job.piece, 7, some 0⟩
  forward : ∀ p, job.piece ≤ p → p ≤ job.windowEnd → verified p = true ∨ AsksFor window p
  pins : ∀ p ∈ job.known, first ≤ p → p ≤ last →
    verified p = true ∨ p ∈ left ∨ AsksFor window p

/-- The window of a reader in the background: a piece of the file, without a deadline. -/
def BackgroundWindow (first last : ℤ) (window : List LibtorrentPiecePriority) : Prop :=
  window = [] ∨ ∃ p priority, window = [⟨p, priority, none⟩] ∧ (priority = 1 ∨ priority = 2) ∧
    first ≤ p ∧ p ≤ last

section Jobs

variable {verified : ℤ → Bool} {first last : ℤ} {job : Job} {p : ℤ}

theorem mem_pieces : p ∈ job.pieces ↔ job.piece ≤ p ∧ p ≤ job.windowEnd := by
  rw [Job.pieces, List.mem_map]
  constructor
  · rintro ⟨k, hk, rfl⟩
    rw [List.mem_range] at hk
    omega
  · rintro ⟨hle, hend⟩
    exact ⟨(p - job.piece).toNat, List.mem_range.mpr (by omega), by omega⟩

theorem nodup_pieces (job : Job) : job.pieces.Nodup := by
  apply List.Nodup.map
  · intro k k' heq
    dsimp only at heq
    omega
  · exact List.nodup_range

/-- A piece of the window that is not missing has been verified. -/
theorem JobOk.missing (h : JobOk verified first last job) (hr : OfFile first last) (hle : job.piece ≤ p)
    (hend : p ≤ job.windowEnd) : verified p = true ∨ p ∈ job.missing := by
  rw [Job.missing, List.mem_filter, mem_pieces]
  have hindex : saturatingI32 (p - job.piece) = p - job.piece := by
    have h₁ := hr.first_nonneg
    have h₂ := hr.last_lt
    have h₃ := h.first_le
    have h₄ := h.end_le
    rw [saturatingI32]
    omega
  have hnonneg : ¬ p - job.piece < 0 := by omega
  cases hmiss : pieceIsMissing job.presence job.piece p with
  | true => exact .inr ⟨⟨hle, hend⟩, rfl⟩
  | false =>
    left
    rw [pieceIsMissing, hindex, if_neg hnonneg] at hmiss
    have hthere : job.presence[(p - job.piece).toNat]? = some true := by
      cases hget : job.presence[(p - job.piece).toNat]? with
      | none =>
        rw [hget] at hmiss
        cases hmiss
      | some present =>
        rw [hget] at hmiss
        cases present with
        | true => rfl
        | false => cases hmiss
    have hverified := h.truthful _ hthere
    rwa [Int.toNat_of_nonneg (by omega), add_sub_cancel] at hverified

theorem Job.readAheadPriority_foreground {job : Job} (hprobe : job.intent ≠ .internalProbe)
    (hbackground : job.intent ≠ .background) : job.readAheadPriority = 7 := by
  unfold Job.readAheadPriority
  split
  · rfl
  · split
    · next h => exact absurd h hbackground
    · next h => exact absurd h hprobe
    · rfl

theorem Job.deadline_nonneg (job : Job) (deadlineStep streamId : ℕ) (hle : job.piece ≤ p) :
    0 ≤ job.deadline deadlineStep streamId p := by
  have hprod : 0 ≤ (p - job.piece) * (deadlineStep : ℤ) :=
    Int.mul_nonneg (by omega) (Int.natCast_nonneg _)
  rw [Job.deadline]
  split
  · exact hprod
  · split
    · exact le_refl 0
    · exact Int.add_nonneg hprod (Int.natCast_nonneg _)

/-- The piece in front comes first, if it is missing. -/
theorem Job.head_missing (job : Job) (hle : job.piece ≤ job.windowEnd) (h : job.piece ∈ job.missing) :
    job.missing.head? = some job.piece := by
  obtain ⟨n, hn⟩ : ∃ n : ℕ, (job.windowEnd - job.piece + 1).toNat = n + 1 :=
    ⟨(job.windowEnd - job.piece).toNat, by omega⟩
  rw [Job.missing, List.mem_filter] at h
  rw [Job.missing, Job.pieces, hn, List.range_succ_eq_map, List.map_cons, Nat.cast_zero, Int.add_zero,
    List.filter_cons_of_pos h.2, List.head?_cons]

/-- **The window in front of a reader** is what it has to be, but for the pins. -/
theorem JobOk.assignments (h : JobOk verified first last job) (hr : OfFile first last) (deadlineStep streamId : ℕ)
    {left : List ℤ} (hleft : ∀ p ∈ job.known, verified p = true ∨ p ∈ left) :
    WindowFor verified first last job left (job.assignments deadlineStep streamId) := by
  -- each missing piece is asked for once, with a deadline that grows with its distance
  have hmem : ∀ a ∈ job.assignments deadlineStep streamId, ∃ p ∈ job.missing,
      a = ⟨p, 7, some (job.deadline deadlineStep streamId p)⟩ := by
    intro a ha
    obtain ⟨p, hp, rfl⟩ := List.mem_map.mp ha
    refine ⟨p, hp, ?_⟩
    rw [h.foreground, ite_self]
  have hpieces : ∀ p ∈ job.missing, job.piece ≤ p ∧ p ≤ job.windowEnd := fun p hp =>
    mem_pieces.mp (List.mem_filter.mp hp).1
  have hasks : ∀ p ∈ job.missing, AsksFor (job.assignments deadlineStep streamId) p := fun p hp =>
    ⟨_, List.mem_map_of_mem hp, rfl⟩
  refine ⟨?_, ?_, ?_, ?_, ?_, ?_⟩
  · rw [Job.assignments, List.map_map]
    have hid : ((·.piece) ∘ fun p : ℤ => (⟨p, if p = job.piece then 7 else job.readAheadPriority,
        some (job.deadline deadlineStep streamId p)⟩ : LibtorrentPiecePriority)) = id := rfl
    rw [hid, List.map_id]
    exact (nodup_pieces job).filter _
  · intro a ha
    obtain ⟨p, hp, rfl⟩ := hmem a ha
    exact ⟨le_trans h.first_le (hpieces p hp).1, le_trans (hpieces p hp).2 h.end_le⟩
  · intro a ha
    obtain ⟨p, hp, rfl⟩ := hmem a ha
    exact ⟨rfl, _, rfl, job.deadline_nonneg deadlineStep streamId (hpieces p hp).1⟩
  · rcases h.missing hr (le_refl _) h.le_end with hverified | hmiss
    · exact .inl hverified
    · right
      rw [Job.assignments, List.head?_map, job.head_missing h.le_end hmiss, Option.map_some, if_pos rfl]
      have hzero : job.deadline deadlineStep streamId job.piece = 0 := by
        rw [Job.deadline, Int.sub_self]
        simp
      rw [hzero]
  · intro p hle hend
    rcases h.missing hr hle hend with hverified | hmiss
    · exact .inl hverified
    · exact .inr (hasks p hmiss)
  · intro p hp _ _
    rcases hleft p hp with hverified | hmem
    · exact .inl hverified
    · exact .inr (.inl hmem)

variable {left : List ℤ} {window : List LibtorrentPiecePriority}

theorem AsksFor.append (h : AsksFor window p) (more : List LibtorrentPiecePriority) :
    AsksFor (window ++ more) p := by
  obtain ⟨a, ha, hpiece⟩ := h
  exact ⟨a, List.mem_append_left _ ha, hpiece⟩

/-- A pin that is left is added to the window. -/
theorem WindowFor.add {r : LibtorrentDiskFileStream} {have' : Bool}
    (h : WindowFor verified r.firstPiece r.lastPiece job (p :: left) window)
    (hadds : r.Adds window p have') :
    WindowFor verified r.firstPiece r.lastPiece job left (window ++ [⟨p, 7, some 0⟩]) := by
  obtain ⟨hfirst, hlast, -, hnew⟩ := hadds
  refine ⟨?_, ?_, ?_, ?_, ?_, ?_⟩
  · rw [List.map_append, List.nodup_append]
    refine ⟨h.nodup, List.nodup_singleton _, ?_⟩
    rintro q hq q' hq' rfl
    obtain ⟨a, ha, rfl⟩ := List.mem_map.mp hq
    exact hnew a ha (List.mem_singleton.mp hq')
  · intro a ha
    rcases List.mem_append.mp ha with ha | ha
    · exact h.inside a ha
    · rw [List.mem_singleton.mp ha]
      exact ⟨hfirst, hlast⟩
  · intro a ha
    rcases List.mem_append.mp ha with ha | ha
    · exact h.urgent a ha
    · rw [List.mem_singleton.mp ha]
      exact ⟨rfl, 0, rfl, le_refl 0⟩
  · rcases h.atOnce with hverified | hhead
    · exact .inl hverified
    · right
      rw [List.head?_append, hhead, Option.some_or]
  · intro q hle hend
    rcases h.forward q hle hend with hverified | hasks
    · exact .inl hverified
    · exact .inr (hasks.append _)
  · intro q hq hqfirst hqlast
    rcases h.pins q hq hqfirst hqlast with hverified | hleft | hasks
    · exact .inl hverified
    · rcases List.mem_cons.mp hleft with rfl | hleft
      · exact .inr (.inr ⟨_, List.mem_append_right _ List.mem_cons_self, rfl⟩)
      · exact .inr (.inl hleft)
    · exact .inr (.inr (hasks.append _))

/-- A pin that is left need not be added: it is there, or in the window, or of another file. -/
theorem WindowFor.skip {r : LibtorrentDiskFileStream} {have' : Bool}
    (h : WindowFor verified r.firstPiece r.lastPiece job (p :: left) window)
    (hadds : ¬ r.Adds window p have') (hhave : have' = true → verified p = true) :
    WindowFor verified r.firstPiece r.lastPiece job left window := by
  refine { h with pins := ?_ }
  intro q hq hfirst hlast
  rcases h.pins q hq hfirst hlast with hverified | hleft | hasks
  · exact .inl hverified
  · rcases List.mem_cons.mp hleft with rfl | hleft
    · cases hanswer : have' with
      | true => exact .inl (hhave hanswer)
      | false =>
        right
        right
        by_contra hnot
        exact hadds ⟨hfirst, hlast, hanswer, fun a ha hpiece => hnot ⟨a, ha, hpiece⟩⟩
    · exact .inr (.inl hleft)
  · exact .inr (.inr hasks)

end Jobs

/-! ### The invariant -/

/-- What has been done of a plan is right. -/
def PlanOk (verified : ℤ → Bool) (first last : ℤ) : Plan → Prop
  | .idle => True
  | .presented job | .pinned job => JobOk verified first last job
  | .checking job left verified' missing => JobOk verified first last job ∧
      (∀ p ∈ verified', verified p = true) ∧
      ∀ p ∈ job.known, verified p = true ∨ p ∈ left ∨ p ∈ missing
  | .counted job missing => JobOk verified first last job ∧ ∀ p ∈ job.known, verified p = true ∨ p ∈ missing
  | .extending job left window => JobOk verified first last job ∧ WindowFor verified first last job left window

/-- **The invariant of a reader.** -/
structure ReaderOk (verified : ℤ → Bool) (r : LibtorrentDiskFileStream) : Prop where
  ofFile : OfFile r.firstPiece r.lastPiece
  plan : PlanOk verified r.firstPiece r.lastPiece r.plan
  planned : ∀ job, r.planned = some job →
    JobOk verified r.firstPiece r.lastPiece job ∧
      WindowFor verified r.firstPiece r.lastPiece job [] r.window
  background : r.planned = none → BackgroundWindow r.firstPiece r.lastPiece r.window

section Readers

variable {verified verified' : ℤ → Bool} {first last : ℤ} {r : LibtorrentDiskFileStream} {job : Job}

/-! Pieces are verified while a reader plans. -/

theorem JobOk.mono (h : JobOk verified first last job) (hv : ∀ p, verified p = true → verified' p = true) :
    JobOk verified' first last job :=
  { h with truthful := fun k hk => hv _ (h.truthful k hk) }

theorem WindowFor.mono {left : List ℤ} {window : List LibtorrentPiecePriority}
    (h : WindowFor verified first last job left window) (hv : ∀ p, verified p = true → verified' p = true) :
    WindowFor verified' first last job left window :=
  { h with
    atOnce := h.atOnce.imp_left (hv _)
    forward := fun p hle hend => (h.forward p hle hend).imp_left (hv p)
    pins := fun p hp hfirst hlast => (h.pins p hp hfirst hlast).imp_left (hv p) }

theorem PlanOk.mono {plan : Plan} (h : PlanOk verified first last plan)
    (hv : ∀ p, verified p = true → verified' p = true) : PlanOk verified' first last plan := by
  cases plan with
  | idle => trivial
  | presented job | pinned job => exact JobOk.mono h hv
  | checking job left there missing =>
    exact ⟨h.1.mono hv, fun p hp => hv p (h.2.1 p hp), fun p hp => (h.2.2 p hp).imp_left (hv p)⟩
  | counted job missing => exact ⟨h.1.mono hv, fun p hp => (h.2 p hp).imp_left (hv p)⟩
  | extending job left window => exact ⟨h.1.mono hv, h.2.mono hv⟩

theorem ReaderOk.mono (h : ReaderOk verified r) (hv : ∀ p, verified p = true → verified' p = true) :
    ReaderOk verified' r :=
  { h with
    plan := h.plan.mono hv
    planned := fun job hjob => ⟨(h.planned job hjob).1.mono hv, (h.planned job hjob).2.mono hv⟩ }

/-- A plan that begins, of a reader in front. -/
theorem jobOk_job (hr : OfFile r.firstPiece r.lastPiece) {piece : ℤ} (hfirst : r.firstPiece ≤ piece)
    (hlast : piece ≤ r.lastPiece) (hforeground : r.isBackgroundReader false = false)
    {presence : List Bool} (htruthful : Truthful verified piece presence) (escalates : Bool) :
    JobOk verified r.firstPiece r.lastPiece (r.job escalates piece presence) := by
  obtain ⟨hend, hend'⟩ := LibtorrentDiskFileStream.windowEnd_bounds hr hfirst hlast
  refine ⟨hfirst, hend, hend', htruthful, ?_⟩
  rw [LibtorrentDiskFileStream.isBackgroundReader, Bool.false_or, Bool.or_eq_false_iff,
    decide_eq_false_iff_not, decide_eq_false_iff_not] at hforeground
  obtain ⟨hprobe, hbackground⟩ := hforeground
  cases escalates with
  | true => rfl
  | false =>
    have hintent : r.priorityIntent ≠ .internalProbe ∧ r.priorityIntent ≠ .background := by
      rw [LibtorrentDiskFileStream.priorityIntent]
      split
      · cases hplay : r.playbackIntent <;>
          first | exact absurd hplay hprobe | exact absurd hplay hbackground | (constructor <;> decide)
      · exact ⟨hprobe, hbackground⟩
    exact Job.readAheadPriority_foreground hintent.1 hintent.2

/-- **A step of a reader keeps its invariant**, if all that has been pinned is pinned still or has been
verified. -/
theorem ReaderOk.advance (h : ReaderOk verified r) {step : PlanStep} (hg : step.guard verified r)
    {pins everPinned : List ℤ} (hpins : ∀ p ∈ everPinned, verified p = true ∨ p ∈ pins) :
    ReaderOk verified (step.advance pins everPinned r) := by
  obtain ⟨hfile, hplan, hplanned, hback⟩ := h
  cases step with
  | recordFirstRead => exact ⟨hfile, hplan, hplanned, hback⟩
  | startSeek => exact ⟨hfile, hplan, hplanned, hback⟩
  | prioritizeFrom piece presence =>
    obtain ⟨⟨-, hfirst, hlast, -⟩, hforeground, htruthful⟩ := hg
    exact ⟨hfile, jobOk_job hfile hfirst hlast hforeground htruthful false, hplanned, hback⟩
  -- no job is planned in the foreground: only the window of the background is new
  | prioritizeInBackground piece subordinate have' =>
    obtain ⟨⟨hidle, hfirst, hlast, -⟩, -, -⟩ := hg
    refine ⟨hfile, ?_, fun job hjob => (nomatch hjob), fun _ => ?_⟩
    · change PlanOk verified _ _ r.plan
      rw [hidle]
      trivial
    · change BackgroundWindow _ _ (r.backgroundWindow piece have')
      rw [LibtorrentDiskFileStream.backgroundWindow]
      split
      · exact .inl rfl
      · refine .inr ⟨piece, _, rfl, ?_, hfirst, hlast⟩
        split
        · exact .inl rfl
        · exact .inr rfl
  | escalateBlockedPiece piece presence =>
    obtain ⟨-, hfirst, hlast, hforeground, htruthful⟩ := hg
    exact ⟨hfile, jobOk_job hfile hfirst hlast hforeground htruthful true, hplanned, hback⟩
  | pinOwn =>
    obtain ⟨job, hjob⟩ := hg
    rw [hjob] at hplan
    unfold PlanStep.advance
    rw [hjob]
    exact ⟨hfile, hplan, hplanned, hback⟩
  -- all that was ever pinned is verified, or is a pin that the job has still to look at
  | readPins =>
    obtain ⟨job, hjob⟩ := hg
    rw [hjob] at hplan
    unfold PlanStep.advance
    rw [hjob]
    refine ⟨hfile, ⟨?_, fun p hp => (nomatch hp), ?_⟩, hplanned, hback⟩
    · exact ⟨hplan.first_le, hplan.le_end, hplan.end_le, hplan.truthful, hplan.foreground⟩
    · intro p hp
      exact (hpins p hp).imp_right .inl
  -- the pin looked at leaves the list, for the verified pieces or for the missing ones
  | check have' =>
    obtain ⟨job, p, left, there, missing, hjob, hhave⟩ := hg
    rw [hjob] at hplan
    obtain ⟨hok, hthere, hknown⟩ := hplan
    unfold PlanStep.advance
    rw [hjob]
    dsimp only
    split
    · next hanswer =>
      refine ⟨hfile, ⟨hok, ?_, ?_⟩, hplanned, hback⟩
      · intro q hq
        rcases List.mem_append.mp hq with hq | hq
        · exact hthere q hq
        · rw [List.mem_singleton.mp hq]
          exact hhave hanswer
      · intro q hq
        rcases hknown q hq with hverified | hleft | hmissing
        · exact .inl hverified
        · rcases List.mem_cons.mp hleft with rfl | hleft
          · exact .inl (hhave hanswer)
          · exact .inr (.inl hleft)
        · exact .inr (.inr hmissing)
    · refine ⟨hfile, ⟨hok, hthere, ?_⟩, hplanned, hback⟩
      intro q hq
      rcases hknown q hq with hverified | hleft | hmissing
      · exact .inl hverified
      · rcases List.mem_cons.mp hleft with rfl | hleft
        · exact .inr (.inr (List.mem_append_right _ List.mem_cons_self))
        · exact .inr (.inl hleft)
      · exact .inr (.inr (List.mem_append_left _ hmissing))
  -- nothing is left to look at: what is not verified is among the missing pieces
  | unpin =>
    obtain ⟨job, there, missing, hjob⟩ := hg
    rw [hjob] at hplan
    obtain ⟨hok, -, hknown⟩ := hplan
    unfold PlanStep.advance
    rw [hjob]
    refine ⟨hfile, ⟨hok, ?_⟩, hplanned, hback⟩
    intro p hp
    rcases hknown p hp with hverified | hleft | hmissing
    · exact .inl hverified
    · cases hleft
    · exact .inr hmissing
  | assign downloadRate =>
    obtain ⟨job, missing, hjob⟩ := hg
    rw [hjob] at hplan
    unfold PlanStep.advance
    rw [hjob]
    exact ⟨hfile, ⟨hplan.1, hplan.1.assignments hfile _ _ hplan.2⟩, hplanned, hback⟩
  | extend have' =>
    obtain ⟨job, p, left, window, hjob, hhave⟩ := hg
    rw [hjob] at hplan
    unfold PlanStep.advance
    rw [hjob]
    dsimp only
    split
    · next hadds => exact ⟨hfile, ⟨hplan.1, hplan.2.add hadds⟩, hplanned, hback⟩
    · next hadds => exact ⟨hfile, ⟨hplan.1, hplan.2.skip hadds hhave⟩, hplanned, hback⟩
  -- the window of the job becomes the planned one, the job is over
  | replace =>
    obtain ⟨job, window, hjob⟩ := hg
    rw [hjob] at hplan
    unfold PlanStep.advance
    rw [hjob]
    refine ⟨hfile, trivial, ?_, fun hnone => (nomatch hnone)⟩
    intro job' hjob'
    rw [← Option.some.inj hjob']
    exact hplan

/-- The pins that a step drops are of pieces that have been verified. -/
theorem ReaderOk.unpinned (h : ReaderOk verified r) (step : PlanStep) :
    ∀ p ∈ step.unpinned r, verified p = true := by
  intro p hp
  cases step with
  | unpin =>
    have hplan := h.plan
    unfold PlanStep.unpinned at hp
    cases hjob : r.plan with
    | checking job left there missing =>
      rw [hjob] at hp hplan
      cases left with
      | nil => exact hplan.2.1 p hp
      | cons q left => cases hp
    | _ =>
      rw [hjob] at hp
      cases hp
  | _ => cases hp

theorem advance_infoHash (pins everPinned : List ℤ) (r : LibtorrentDiskFileStream) (step : PlanStep) :
    (step.advance pins everPinned r).infoHash = r.infoHash := by
  cases step with
  | recordFirstRead | startSeek | prioritizeFrom | prioritizeInBackground | escalateBlockedPiece => rfl
  | _ =>
    unfold PlanStep.advance
    dsimp only
    split
    · first | rfl | (split <;> rfl)
    · rfl

end Readers

/-- **The invariant of all readers and pins.** -/
structure Planners.Kept (s : Planners) : Prop where
  kept : ∀ infoHash, ∀ p ∈ s.everPinned infoHash,
    s.verified infoHash p = true ∨ p ∈ s.pins infoHash
  nodup : ∀ infoHash, (s.pins infoHash).Nodup
  readers : ∀ i r, s.streams i = some r → ReaderOk (s.verified r.infoHash) r

section Runs

variable {s t : Planners}

theorem Planners.kept_new : Planners.new.Kept :=
  ⟨fun _ _ hp => (nomatch hp), fun _ => List.nodup_nil, fun _ _ hr => (nomatch hr)⟩

/-- A piece is verified. -/
theorem Planners.Kept.verify (h : s.Kept) (infoHash : String) (piece : ℤ) :
    (PlanAction.effect s (.verify infoHash piece)).Kept := by
  have hmono : ∀ key p, s.verified key p = true →
      (PlanAction.effect s (.verify infoHash piece)).verified key p = true := by
    intro key p hp
    change Function.update s.verified infoHash _ key p = true
    by_cases hkey : key = infoHash
    · rw [hkey, Function.update_self]
      by_cases hpiece : p = piece
      · rw [hpiece, Function.update_self]
      · rw [Function.update_of_ne hpiece, ← hkey]
        exact hp
    · rw [Function.update_of_ne hkey]
      exact hp
  refine ⟨?_, h.nodup, ?_⟩
  · intro key p hp
    exact (h.kept key p hp).imp_left (hmono key p)
  · intro i r hr
    exact (h.readers i r hr).mono (hmono r.infoHash)

/-- **A step of a reader keeps all readers and pins.** -/
theorem Planners.Kept.stream (h : s.Kept) {i : ℕ} {r : LibtorrentDiskFileStream} {step : PlanStep}
    (hr : s.streams i = some r) (hg : step.guard (s.verified r.infoHash) r) : (s.step i r step).Kept := by
  have hreader := h.readers i r hr
  refine ⟨?_, ?_, ?_⟩
  · intro key p hp
    by_cases hkey : key = r.infoHash
    · subst hkey
      change p ∈ Function.update s.everPinned r.infoHash _ r.infoHash at hp
      change _ ∨ p ∈ Function.update s.pins r.infoHash _ r.infoHash
      rw [Function.update_self] at hp
      rw [Function.update_self, mem_unpinPieces, mem_pinPieces]
      have hthere : s.verified r.infoHash p = true ∨ p ∈ s.pins r.infoHash ∨ p ∈ step.pinned r := by
        rcases List.mem_append.mp hp with hold | hnew
        · exact (h.kept _ p hold).imp_right .inl
        · exact .inr (.inr hnew)
      by_cases hdrop : p ∈ step.unpinned r
      · exact .inl (hreader.unpinned step p hdrop)
      · exact hthere.imp_right fun hpin => ⟨hpin, hdrop⟩
    · change p ∈ Function.update s.everPinned r.infoHash _ key at hp
      change _ ∨ p ∈ Function.update s.pins r.infoHash _ key
      rw [Function.update_of_ne hkey] at hp
      rw [Function.update_of_ne hkey]
      exact h.kept key p hp
  · intro key
    change (Function.update s.pins r.infoHash _ key).Nodup
    by_cases hkey : key = r.infoHash
    · subst hkey
      rw [Function.update_self]
      exact (nodup_pinPieces (h.nodup _) _).filter _
    · rw [Function.update_of_ne hkey]
      exact h.nodup key
  · intro j r' hr'
    change Function.update s.streams i _ j = some r' at hr'
    change ReaderOk (s.verified r'.infoHash) r'
    by_cases hj : j = i
    · subst hj
      rw [Function.update_self] at hr'
      rw [← Option.some.inj hr', advance_infoHash]
      exact hreader.advance hg (h.kept r.infoHash)
    · rw [Function.update_of_ne hj] at hr'
      exact h.readers j r' hr'

/-- **Every step keeps the invariant.** -/
theorem Planners.Kept.effect (h : s.Kept) {a : PlanAction} (hg : a.guard s) : (a.effect s).Kept := by
  cases a with
  | verify infoHash piece => exact h.verify infoHash piece
  | openStream i r =>
    obtain ⟨-, hnew, hnonneg, hle, hlt, -⟩ := hg
    refine ⟨h.kept, h.nodup, ?_⟩
    intro j r' hr'
    change Function.update s.streams i _ j = some r' at hr'
    by_cases hj : j = i
    · subst hj
      rw [Function.update_self] at hr'
      rw [← Option.some.inj hr']
      refine ⟨⟨hnonneg, hle, hlt⟩, ?_, ?_, ?_⟩
      · rw [hnew]
        trivial
      · intro job hjob
        rw [hnew] at hjob
        cases hjob
      · intro _
        rw [hnew]
        exact .inl rfl
    · rw [Function.update_of_ne hj] at hr'
      exact h.readers j r' hr'
  | dropStream i =>
    refine ⟨h.kept, h.nodup, ?_⟩
    intro j r' hr'
    change Function.update s.streams i _ j = some r' at hr'
    by_cases hj : j = i
    · rw [hj, Function.update_self] at hr'
      cases hr'
    · rw [Function.update_of_ne hj] at hr'
      exact h.readers j r' hr'
  | stream i step =>
    obtain ⟨r, hr, hstep⟩ := hg
    have heq : PlanAction.effect s (.stream i step) = s.step i r step := by
      unfold PlanAction.effect
      dsimp only
      rw [hr]
    rw [heq]
    exact h.stream hr hstep

theorem Planners.kept_of_reach {C : Planners → PlanAction → Prop} (h : planning.Reach C .new s) :
    s.Kept :=
  h.invariant Planners.kept_new fun _ _ hs hg _ => hs.effect hg

/-- **No pin is lost.**  In every state that the readers of all torrents can come to: a piece that has
been pinned is pinned still, or it has been verified.  The window of a reader that has planned in front
asks for pieces of its file, each once, at the highest priority and with a deadline; for the piece it
reads at once; and for all pieces up to the end of its window, and for all of its file that had been
pinned when it planned, but for those that have been verified since.  A reader in the background sets no
deadline. -/
theorem pins_kept (h : planning.Reach GuardedSystem.anyStep .new s) :
    (∀ infoHash, ∀ p ∈ s.everPinned infoHash,
      s.verified infoHash p = true ∨ p ∈ s.pins infoHash) ∧
    (∀ i r job, s.streams i = some r → r.planned = some job → job.piece ≤ job.windowEnd ∧
      WindowFor (s.verified r.infoHash) r.firstPiece r.lastPiece job [] r.window) ∧
    ∀ i r, s.streams i = some r → r.planned = none →
      BackgroundWindow r.firstPiece r.lastPiece r.window := by
  have hkept := Planners.kept_of_reach h
  refine ⟨hkept.kept, ?_, ?_⟩
  · intro i r job hr hjob
    have hplanned := (hkept.readers i r hr).planned job hjob
    exact ⟨hplanned.1.le_end, hplanned.2⟩
  · intro i r hr hnone
    exact (hkept.readers i r hr).background hnone

/-- A reader that is sent to the second piece of a film of two, for its index. -/
def indexReader : LibtorrentDiskFileStream := .new "film" 0 1 4 0 .containerMetadata none

/-- A plan for the index of a file, step by step. -/
def indexSteps : List PlanAction :=
  .openStream 0 indexReader ::
    ([.prioritizeFrom 1 [false], .pinOwn, .readPins, .check false, .unpin, .assign 0, .extend false,
      .replace].map (.stream 0))

/-- What the plan leaves. -/
def indexPlanned : Planners := indexSteps.foldl PlanAction.effect .new

theorem indexPlanned_reached : planning.Reach GuardedSystem.anyStep .new indexPlanned := by
  refine ⟨indexSteps, .cons ?_ trivial (.cons ?_ trivial (.cons ?_ trivial (.cons ?_ trivial
    (.cons ?_ trivial (.cons ?_ trivial (.cons ?_ trivial (.cons ?_ trivial (.cons ?_ trivial
      (.nil _)))))))))⟩
  · exact ⟨rfl, rfl, by decide⟩
  · refine ⟨_, rfl, ⟨rfl, by decide, by decide, by decide⟩, rfl, ?_⟩
    intro k hk
    cases k with
    | zero => cases hk
    | succ k => cases hk
  · exact ⟨_, rfl, _, rfl⟩
  · exact ⟨_, rfl, _, rfl⟩
  · exact ⟨_, rfl, _, _, _, _, _, rfl, fun h => (nomatch h)⟩
  · exact ⟨_, rfl, _, _, _, rfl⟩
  · exact ⟨_, rfl, _, _, rfl⟩
  · exact ⟨_, rfl, _, _, _, _, rfl, fun h => (nomatch h)⟩
  · exact ⟨_, rfl, _, _, rfl⟩

/-- The reader then. -/
def indexPlanner : LibtorrentDiskFileStream :=
  { indexReader with
    lastPrioritizedPiece := 1
    window := [⟨1, 7, some 0⟩]
    planned := some ⟨false, .containerMetadata, 1, 1, [false], [1]⟩ }

theorem indexPlanned_stream : indexPlanned.streams 0 = some indexPlanner := by
  decide

theorem indexPlanned_film : indexPlanned.everPinned "film" = [1] ∧
    indexPlanned.verified "film" 1 = false := by
  decide +kernel

/-- It pins the piece, and asks for it. -/
theorem index_pinned : 1 ∈ indexPlanned.pins "film" ∧
    ∃ r, indexPlanned.streams 0 = some r ∧ AsksFor r.window 1 := by
  obtain ⟨hpins, hwindows, -⟩ := pins_kept indexPlanned_reached
  obtain ⟨hever, hmissing⟩ := indexPlanned_film
  constructor
  · rcases hpins "film" 1 (hever ▸ List.mem_cons_self) with hverified | hpinned
    · exact absurd hverified (hmissing ▸ Bool.false_ne_true)
    · exact hpinned
  · refine ⟨indexPlanner, indexPlanned_stream, ?_⟩
    have hwindow := (hwindows 0 indexPlanner _ indexPlanned_stream rfl).2
    rcases hwindow.pins 1 List.mem_cons_self (by decide) (by decide) with hverified | hleft | hasks
    · exact absurd hverified (hmissing ▸ Bool.false_ne_true)
    · cases hleft
    · exact hasks

end Runs

end StreamServer.Readers

import StreamServer.EngineFs.Streams

/-!
# The counts of streams

The registry counts the streams on a torrent and on a file.  A stream is counted on the torrent
a step before it is counted on the file, and its end takes the counts back in the same order.
The activation of a file drops the counts of the other files of the torrent.

## Main definitions

* `OpenStream.onTorrent`, `OpenStream.onFile` — the streams on a torrent and on a file.
* `CountedTorrents`, `CountedFile` — the counts are the numbers of the streams.
* `KeepsFile` — no activation of another file drops the count of a file.

## Main results

* `CountedTorrents.step`, `CountedFile.step` — a step keeps the counts right.
-/

namespace StreamServer.EngineFs

/-- The stream is on the torrent. -/
def OpenStream.onTorrent (h : String) (x : OpenStream) : Bool := x.infoHash == h

/-- The stream is on the file. -/
def OpenStream.onFile (key : String × ℕ) (x : OpenStream) : Bool := (x.infoHash, x.fileIdx) == key

/-- The count of a torrent is the number of its streams, from the count to its end. -/
def CountedTorrents (w : World) : Prop := ∀ h, w.shared.activeStreams.count h =
  w.shared.streams.countP (OpenStream.onTorrent h) + w.staged .countingFile (OpenStream.onTorrent h) +
    w.staged .ending (OpenStream.onTorrent h)

/-- The count of a file is the number of its streams, from the count to its end. -/
def CountedFile (w : World) (key : String × ℕ) : Prop := w.shared.activeFileStreams.count key =
  w.shared.streams.countP (OpenStream.onFile key) + w.staged .ending (OpenStream.onFile key) +
    w.staged .endingFile (OpenStream.onFile key)

section Steps

variable {drops : Bool} {w : World} {i : ℕ} {k : Instr} {b : Answer}

/-! ### From stage to stage -/

theorem followed_requested (k : Instr) (ok : Bool) (q : OpenStream → Bool) :
    (k.followed ok).countP (inStage .requested q) = 0 := by
  cases k with
  | validate x _ => cases ok <;> rfl
  | _ => rfl

/-- The request may turn out not to be valid. -/
theorem followed_starting (k : Instr) (ok : Bool) (q : OpenStream → Bool) :
    (k.followed ok).countP (inStage .starting q) ≤ (Instr.at .requested q k).toNat := by
  cases k with
  | validate x _ =>
    cases ok <;> cases hq : q x <;> simp [Instr.followed, Instr.at, Instr.stage, inStage, hq]
  | _ => exact Nat.zero_le _

theorem followed_counting (k : Instr) (ok : Bool) (q : OpenStream → Bool) :
    (k.followed ok).countP (inStage .counting q) = (Instr.at .starting q k).toNat := by
  cases k with
  | validate x _ => cases ok <;> rfl
  | startStream x => cases hq : q x <;> simp [Instr.followed, Instr.at, Instr.stage, inStage, hq]
  | _ => rfl

theorem followed_countingFile (k : Instr) (ok : Bool) (q : OpenStream → Bool) :
    (k.followed ok).countP (inStage .countingFile q) = (Instr.at .counting q k).toNat := by
  cases k with
  | validate x _ => cases ok <;> rfl
  | countStream x => cases hq : q x <;> simp [Instr.followed, Instr.at, Instr.stage, inStage, hq]
  | _ => rfl

theorem followed_ending (k : Instr) (ok : Bool) (q : OpenStream → Bool) :
    (k.followed ok).countP (inStage .ending q) = (Instr.at .guarded q k).toNat := by
  cases k with
  | validate x _ => cases ok <;> rfl
  | dropGuard x => cases hq : q x <;> simp [Instr.followed, Instr.at, Instr.stage, inStage, hq]
  | _ => rfl

theorem followed_endingFile (k : Instr) (ok : Bool) (q : OpenStream → Bool) :
    (k.followed ok).countP (inStage .endingFile q) = (Instr.at .ending q k).toNat := by
  cases k with
  | validate x _ => cases ok <;> rfl
  | endStream x => cases hq : q x <;> simp [Instr.followed, Instr.at, Instr.stage, inStage, hq]
  | _ => rfl

/-- What is taken out of the open streams was there. -/
theorem countP_erase_of_mem {x : OpenStream} {streams : List OpenStream} (h : x ∈ streams)
    (q : OpenStream → Bool) :
    (streams.erase x).countP q + (q x).toNat = streams.countP q := by
  have hperm := (List.perm_cons_erase h).countP_eq q
  rw [hperm, List.countP_cons]
  cases q x <;> rfl

/-- What runs is on a stack. -/
theorem at_le_staged (st : Stage) (q : OpenStream → Bool)
    (hg : (engineFs drops).system.guard w (.run i k b)) : (Instr.at st q k).toNat ≤ w.staged st q := by
  cases hk : Instr.at st q k with
  | false => exact Nat.zero_le _
  | true => exact TaskSystem.pending_pos hg hk

/-- The open streams, by the stages of the stretch. -/
theorem Tracked.countP_run (hw : Tracked w) (hg : (engineFs drops).system.guard w (.run i k b))
    (q : OpenStream → Bool) :
    (k.run w.shared b).shared.streams.countP q + (Instr.at .guarded q k).toNat =
      w.shared.streams.countP q + (Instr.at .countingFile q k).toNat := by
  cases k with
  | countFile x =>
    cases hq : q x <;> simp [Instr.run, Instr.at, Instr.stage, inStage, hq]
  | dropGuard x =>
    have hpos : 0 < w.stagedOf .guarded x :=
      World.stagedOf_pos (List.mem_of_getElem? (TaskSystem.getElem?_of_head hg.1)) List.mem_cons_self rfl
    have hopen := (hw.open_of_guarded hpos).2
    have hin : x ∈ w.shared.streams := List.count_pos_iff.mp (by omega)
    exact countP_erase_of_mem hin q
  | _ =>
    rw [Instr.run_streams _ _ rfl]
    rfl

/-- A call that ends a stream, and nothing else, takes one out. -/
theorem countP_arrive {call : Call} (hg : (engineFs drops).system.guard w (.arrive call))
    (q : OpenStream → Bool) :
    ((engineFs drops).system.effect w (.arrive call)).shared.streams.countP q +
        World.staged ((engineFs drops).system.effect w (.arrive call)) .ending q =
      w.shared.streams.countP q + w.staged .ending q ∧
    World.staged ((engineFs drops).system.effect w (.arrive call)) .countingFile q =
      w.staged .countingFile q ∧
    World.staged ((engineFs drops).system.effect w (.arrive call)) .endingFile q =
      w.staged .endingFile q := by
  simp only [staged_arrive]
  cases call with
  | endStream x =>
    have hcount := countP_erase_of_mem hg.1 q
    refine ⟨?_, rfl, rfl⟩
    cases hq : q x <;> simp [Call.arrive, Instr.stage, inStage, hq] at hcount ⊢ <;> omega
  | setSeeding enabled => cases enabled <;> exact ⟨rfl, rfl, rfl⟩
  | _ => exact ⟨rfl, rfl, rfl⟩

/-- The guards that are dropped take their streams out. -/
theorem Tracked.countP_drop (hw : Tracked w) {stack : List Instr} (h : w.tasks[i]? = some stack)
    (hdrop : waitingRequest stack) (hc : KeepsCount w (.drop i)) (q : OpenStream → Bool) :
    ((engineFs drops).system.effect w (.drop i)).shared.streams.countP q +
        World.staged ((engineFs drops).system.effect w (.drop i)) .ending q =
      w.shared.streams.countP q + w.staged .ending q ∧
    World.staged ((engineFs drops).system.effect w (.drop i)) .countingFile q =
      w.staged .countingFile q ∧
    World.staged ((engineFs drops).system.effect w (.drop i)) .endingFile q =
      w.staged .endingFile q := by
  have hin := List.mem_of_getElem? h
  have hending := @staged_drop drops w i .ending q stack h
  have hcountingFile := @staged_drop drops w i .countingFile q stack h
  have hendingFile := @staged_drop drops w i .endingFile q stack h
  have hnone : ∀ st : Stage, (∀ k ∈ stack, ∀ x, k.stage ≠ some (st, x)) →
      stack.countP (Instr.at st q) = 0 := by
    intro st hnot
    rw [List.countP_eq_zero]
    intro k hk
    rw [Instr.at]
    cases hstage : k.stage with
    | none => simp
    | some e =>
      have hne : e.1 ≠ st := fun heq => hnot k hk e.2 (by rw [hstage, ← heq])
      simp [inStage, hne]
  -- a task that waits for a request ends no stream
  have hends : ∀ k ∈ stack, k.ends = false := by
    apply hw.apart stack hin
    simpa using hdrop.1
  rw [hnone .ending fun k hk x hstage => by
    have hend := hends k hk
    cases k <;> cases hstage
    cases hend] at hending
  rw [hnone .endingFile fun k hk x hstage => by
    have hend := hends k hk
    cases k <;> cases hstage
    cases hend] at hendingFile
  rw [hnone .countingFile fun k hk x hstage => by
    cases k <;> cases hstage
    exact (hc stack h x).1 hk] at hcountingFile
  -- the guards on the stack are of streams that are open, so taking them out loses none twice
  have hopen : ((engineFs drops).system.effect w (.drop i)).shared.streams.countP q +
      stack.countP (Instr.at .guarded q) = w.shared.streams.countP q := by
    have hle : ∀ x ∈ stack.filterMap Instr.guard?,
        (stack.filterMap Instr.guard?).count x ≤ w.shared.streams.count x := by
      intro x hx
      have hcount : (stack.filterMap Instr.guard?).count x = stagedOn stack .guarded x :=
        countP_guards stack (· == x)
      have hpos := List.count_pos_iff.mpr hx
      have hstaged : stagedOn stack .guarded x ≤ w.stagedOf .guarded x :=
        (List.sublist_flatten_of_mem hin).countP_le
      have hopen := hw.open_of_guarded (x := x) (by omega)
      omega
    have hperm := (List.subperm_append_diff_self_of_count_le hle).countP_eq q
    rw [List.countP_append, countP_guards] at hperm
    show (w.shared.streams.diff (((w.tasks[i]?).getD []).filterMap Instr.guard?)).countP q + _ = _
    rw [h, Option.getD_some, ← hperm, Nat.add_comm]
  simp only [reduceCtorEq, if_true, if_false] at hending hcountingFile hendingFile
  exact ⟨by omega, hcountingFile, hendingFile⟩

/-! ### Torrents -/

/-- The count of a torrent goes up first, and down when an end begins. -/
theorem count_activeStreams_run (h : String) (k : Instr) (s : Shared) (b : Answer)
    (hpos : (Instr.at .ending (OpenStream.onTorrent h) k).toNat ≤ s.activeStreams.count h) :
    (k.run s b).shared.activeStreams.count h + (Instr.at .ending (OpenStream.onTorrent h) k).toNat =
      s.activeStreams.count h + (Instr.at .counting (OpenStream.onTorrent h) k).toNat := by
  cases k with
  | countStream x =>
    by_cases hx : x.infoHash = h <;>
      simp [Instr.run, Instr.at, Instr.stage, inStage, OpenStream.onTorrent, hx]
  | endStream x =>
    by_cases hx : x.infoHash = h
    · have hcount : 0 < s.activeStreams.count h := by
        simpa [Instr.at, Instr.stage, inStage, OpenStream.onTorrent, hx] using hpos
      simp [Instr.run, Instr.at, Instr.stage, inStage, OpenStream.onTorrent, hx]
      omega
    · simp [Instr.run, Instr.at, Instr.stage, inStage, OpenStream.onTorrent, hx,
        List.count_erase_of_ne (Ne.symm hx)]
  | _ =>
    rw [Instr.run_activeStreams _ _ rfl]
    rfl

theorem CountedTorrents.run (h : CountedTorrents w) (hw : Tracked w)
    (hg : (engineFs drops).system.guard w (.run i k b)) :
    CountedTorrents ((engineFs drops).system.effect w (.run i k b)) := by
  intro h'
  have hold := h h'
  have hopen := hw.countP_run hg (OpenStream.onTorrent h')
  have hcountingFile := staged_run .countingFile (OpenStream.onTorrent h') hg
  have hending := staged_run .ending (OpenStream.onTorrent h') hg
  rw [followed_countingFile] at hcountingFile
  rw [followed_ending] at hending
  have hle := at_le_staged .ending (OpenStream.onTorrent h') hg
  have hcount := count_activeStreams_run h' k w.shared b (by omega)
  rw [shared_run]
  omega

theorem CountedTorrents.step (h : CountedTorrents w) (hw : Tracked w) {a : Action}
    (hg : (engineFs drops).system.guard w a) (hc : KeepsCount w a) :
    CountedTorrents ((engineFs drops).system.effect w a) := by
  cases a with
  | run i k b => exact h.run hw hg
  | arrive call =>
    intro h'
    have hold := h h'
    have hcounts := countP_arrive hg (OpenStream.onTorrent h')
    have hsame : ((engineFs drops).system.effect w (.arrive call)).shared.activeStreams =
        w.shared.activeStreams := by
      cases call <;> rfl
    rw [hsame]
    omega
  | drop i =>
    intro h'
    obtain ⟨stack, hstack, -, hdrop⟩ := hg
    have hold := h h'
    have hcounts := @Tracked.countP_drop drops w i hw stack hstack hdrop hc (OpenStream.onTorrent h')
    have hsame : ((engineFs drops).system.effect w (.drop i)).shared.activeStreams =
        w.shared.activeStreams := rfl
    rw [hsame]
    omega

/-! ### Files -/

/-- The stretch drops the count of the file. -/
def dropsCount (s : Shared) (key : String × ℕ) : Instr → Prop
  | .retainStreams h f => key.1 = h ∧ key.2 ≠ f ∧ key ∈ s.activeFileStreams
  | _ => False

/-- The count of a file goes up last, and down last. -/
theorem count_activeFileStreams_run (key : String × ℕ) (k : Instr) (s : Shared) (b : Answer)
    (hpos : (Instr.at .endingFile (OpenStream.onFile key) k).toNat ≤ s.activeFileStreams.count key)
    (hkeeps : ¬ dropsCount s key k) :
    (k.run s b).shared.activeFileStreams.count key +
        (Instr.at .endingFile (OpenStream.onFile key) k).toNat =
      s.activeFileStreams.count key + (Instr.at .countingFile (OpenStream.onFile key) k).toNat := by
  cases k with
  | countFile x =>
    by_cases hx : (x.infoHash, x.fileIdx) = key <;>
      simp [Instr.run, Instr.at, Instr.stage, inStage, OpenStream.onFile, hx]
  | endFile x _ =>
    by_cases hx : (x.infoHash, x.fileIdx) = key
    · have hcount : 0 < s.activeFileStreams.count key := by
        simpa [Instr.at, Instr.stage, inStage, OpenStream.onFile, hx] using hpos
      simp [Instr.run, Instr.at, Instr.stage, inStage, OpenStream.onFile, hx]
      omega
    · simp [Instr.run, Instr.at, Instr.stage, inStage, OpenStream.onFile, hx,
        List.count_erase_of_ne (Ne.symm hx)]
  | retainStreams h f =>
    have hcount : (Shared.keepFile h f id s.activeFileStreams).count key = s.activeFileStreams.count key := by
      rw [Shared.keepFile]
      by_cases hkey : (key.1 != h || key.2 == f) = true
      · exact List.count_filter hkey
      · have hnot : key ∉ s.activeFileStreams := by
          intro hin
          simp at hkey
          exact hkeeps ⟨hkey.1, hkey.2, hin⟩
        rw [List.count_eq_zero.mpr hnot, List.count_eq_zero]
        exact fun hin => hnot (List.mem_filter.mp hin).1
    exact hcount
  | _ =>
    rw [Instr.run_activeFileStreams _ _ rfl]
    rfl

theorem CountedFile.run {key : String × ℕ} (h : CountedFile w key) (hw : Tracked w)
    (hg : (engineFs drops).system.guard w (.run i k b)) (hkeeps : ¬ dropsCount w.shared key k) :
    CountedFile ((engineFs drops).system.effect w (.run i k b)) key := by
  have hold := h
  have hopen := hw.countP_run hg (OpenStream.onFile key)
  have hending := staged_run .ending (OpenStream.onFile key) hg
  have hendingFile := staged_run .endingFile (OpenStream.onFile key) hg
  rw [followed_ending] at hending
  rw [followed_endingFile] at hendingFile
  rw [CountedFile] at h ⊢
  have hle := at_le_staged .endingFile (OpenStream.onFile key) hg
  have hcount := count_activeFileStreams_run key k w.shared b (by omega) hkeeps
  rw [shared_run]
  omega

/-- **The count of the file is not dropped.** -/
def KeepsFile (key : String × ℕ) (w : World) : Action → Prop
  | .run _ k _ => ¬ dropsCount w.shared key k
  | _ => True

theorem CountedFile.step {key : String × ℕ} (h : CountedFile w key) (hw : Tracked w) {a : Action}
    (hg : (engineFs drops).system.guard w a) (hc : KeepsCount w a) (hkeeps : KeepsFile key w a) :
    CountedFile ((engineFs drops).system.effect w a) key := by
  rw [CountedFile] at h
  cases a with
  | run i k b => exact CountedFile.run h hw hg hkeeps
  | arrive call =>
    have hcounts := countP_arrive hg (OpenStream.onFile key)
    have hsame : ((engineFs drops).system.effect w (.arrive call)).shared.activeFileStreams =
        w.shared.activeFileStreams := by
      cases call <;> rfl
    rw [CountedFile, hsame]
    omega
  | drop i =>
    obtain ⟨stack, hstack, -, hdrop⟩ := hg
    have hcounts := @Tracked.countP_drop drops w i hw stack hstack hdrop hc (OpenStream.onFile key)
    have hsame : ((engineFs drops).system.effect w (.drop i)).shared.activeFileStreams =
        w.shared.activeFileStreams := rfl
    rw [CountedFile, hsame]
    omega

/-- All counts are the numbers of the streams. -/
structure Counted (w : World) : Prop where
  tracked : Tracked w
  torrents : CountedTorrents w
  files : ∀ key, CountedFile w key

theorem Counted.step (h : Counted w) {a : Action} (hg : (engineFs drops).system.guard w a)
    (hc : KeepsCount w a) (hkeeps : ∀ key, KeepsFile key w a) :
    Counted ((engineFs drops).system.effect w a) :=
  ⟨h.tracked.step hg hc, h.torrents.step h.tracked hg hc,
    fun key => (h.files key).step h.tracked hg hc (hkeeps key)⟩

theorem counted_new (native : Bool) (restored : List String) : Counted (World.new native restored) :=
  ⟨tracked_new native restored, fun _ => rfl, fun _ => rfl⟩

end Steps

end StreamServer.EngineFs

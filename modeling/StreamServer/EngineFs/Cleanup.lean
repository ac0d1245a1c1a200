import StreamServer.EngineFs.Counts

/-!
# Delayed cleanups

A torrent with several files has one file that is selected.  The end of the last stream on a file
schedules a cleanup, which takes the selection back if it is still of the generation it had and
the file has neither a stream nor a lease; then the backend is told that no file is wanted.

## Main definitions

* `Instr.captures`, `Instr.selects` — a cleanup has a generation, and a selection is to get one.
* `Fresh` — a new selection has a generation that no cleanup has.
* `Threatens` — a cleanup will take the selection, or the wanted file, away from the torrent.
* `Careful` — the condition: the files of a torrent are not played together, and no stream is
  counted behind a cleanup.
* `Kept` — the invariant for a torrent.

## Main results

* `Fresh.run` — generations are not reused.
* `Kept.step` — a step keeps the invariant.
* `cleanups_spare` — **no delayed cleanup takes a file with a stream away**, and the counts are right.
* `cleanup_takes_open` — two files of a torrent that are played together.

## References

`enginefs/src/lib.rs`, `activate_multifile_file`, `on_stream_start`, `on_stream_end`,
`schedule_file_cleanup_after`.
-/

namespace StreamServer.EngineFs

open TaskSystem

/-! ### Generations -/

namespace Instr

/-- A cleanup has the generation. -/
def captures (g : ℕ) : Instr → Bool
  | .clearFile _ _ (.cleanup scheduled) | .clearLease _ _ scheduled
  | .clearSelection _ _ (.cleanup scheduled) => decide (scheduled = some g)
  | _ => false

/-- A file is to be selected with the generation. -/
def selects (g : ℕ) : Instr → Bool
  | .select _ _ g' => g' == g
  | _ => false

variable {k k' : Instr} {s : Shared} {b : Answer} {g : ℕ}

theorem selects_leadsTo (hk : ∀ h f a, k ≠ .multifileCount h f a) (hleads : k.leadsTo k' = true) :
    k'.selects g = false := by
  cases k' with
  | select _ _ _ =>
    cases k with
    | multifileCount h f a => exact absurd rfl (hk h f a)
    | _ => exact absurd hleads Bool.false_ne_true
  | _ => rfl

theorem selects_starts (hstarts : k.starts k' = true) : k'.selects g = false := by
  cases k' with
  | select _ _ _ => cases k <;> exact absurd hstarts Bool.false_ne_true
  | _ => rfl

/-- A cleanup goes on with its generation. -/
theorem captures_next (hk' : k' ∈ (k.run s b).next) (hcaptures : k'.captures g = true) :
    k.captures g = true := by
  have hleads := mem_next _ _ hk'
  cases k' with
  | clearFile h f cause =>
    cases k with
    | expireLeases now =>
      rcases List.mem_append.mp hk' with hmap | hlock
      · obtain ⟨lease, -, heq⟩ := List.mem_map.mp hmap
        cases heq
        cases hcaptures
      · cases List.mem_singleton.mp hlock
    | _ => exact absurd hleads Bool.false_ne_true
  | clearLease h f scheduled =>
    cases k with
    | clearFile h' f' cause =>
      dsimp only [run, runClearFile] at hk'
      split at hk'
      · cases hk'
      · cases cause with
        | cleanup scheduled' =>
          obtain ⟨-, -, rfl⟩ : _ ∧ _ ∧ _ := by simpa using hk'
          exact hcaptures
        | leaseExpired => simp at hk'
    | _ => exact absurd hleads Bool.false_ne_true
  | clearSelection h f cause =>
    cases k with
    | clearFile h' f' cause' =>
      dsimp only [run, runClearFile] at hk'
      split at hk'
      · cases hk'
      · cases cause' with
        | cleanup scheduled' => simp at hk'
        | leaseExpired =>
          obtain ⟨-, -, rfl⟩ : _ ∧ _ ∧ _ := by simpa using hk'
          exact hcaptures
    | clearLease h' f' scheduled =>
      dsimp only [run] at hk'
      split at hk'
      · cases hk'
      · obtain ⟨-, -, rfl⟩ : _ ∧ _ ∧ _ := by simpa using hk'
        exact hcaptures
    | _ => exact absurd hleads Bool.false_ne_true
  | _ => cases hcaptures

/-- A cleanup is scheduled with the generation of a selection. -/
theorem captures_spawned (hk' : k' ∈ (k.run s b).spawned.flatten) (hcaptures : k'.captures g = true) :
    ∃ h f, s.selections h = some ⟨f, g⟩ := by
  have hstarts := mem_spawned _ _ hk'
  cases k' with
  | clearFile h f cause =>
    cases k with
    | scheduleGeneration h' f' =>
      have hsched : cause = .cleanup (scheduledGeneration s h' f') := by
        have hin : Instr.clearFile h f cause ∈ cleanupTask h' f' (scheduledGeneration s h' f') := by
          simpa [run] using hk'
        simp [cleanupTask] at hin
        exact hin.2.2
      subst hsched
      have hgen : scheduledGeneration s h' f' = some g := of_decide_eq_true hcaptures
      obtain ⟨selection, hfound, rfl⟩ := Option.map_eq_some_iff.mp hgen
      obtain ⟨hsel, -⟩ := Option.filter_eq_some_iff.mp hfound
      exact ⟨h', selection.fileIdx, hsel⟩
    | _ => exact absurd hstarts Bool.false_ne_true
  | clearLease _ _ _ | clearSelection _ _ _ => cases k <;> exact absurd hstarts Bool.false_ne_true
  | _ => cases hcaptures

theorem selections_run {h : String} {f : ℕ} (hsome : (k.run s b).shared.selections h = some ⟨f, g⟩) :
    s.selections h = some ⟨f, g⟩ ∨ k = .select h f g := by
  cases k with
  | select h' f' g' =>
    simp only [run, stop] at hsome
    rcases eq_or_ne h h' with rfl | hne
    · rw [Function.update_self] at hsome
      cases hsome
      exact Or.inr rfl
    · rw [Function.update_of_ne hne] at hsome
      exact Or.inl hsome
  | clearSelection h' f' cause =>
    left
    simp only [run, runClearSelection] at hsome
    (repeat' split at hsome) <;> first
      | exact hsome
      | (rcases eq_or_ne h h' with rfl | hne
         · simp at hsome
         · simpa [hne] using hsome)
  | _ =>
    rw [run_selections _ _ rfl] at hsome
    exact Or.inl hsome

end Instr

/-- **A new selection has a generation that no cleanup has.** -/
structure Fresh (w : World) : Prop where
  unused : ∀ g, w.shared.priorityGeneration < g ∨ 0 < TaskSystem.World.pending w (Instr.selects g) →
    (∀ k ∈ w.stacked, k.captures g = false) ∧ ∀ h f, w.shared.selections h ≠ some ⟨f, g⟩
  single : ∀ g, TaskSystem.World.pending w (Instr.selects g) ≤
    if w.shared.priorityGeneration < g then 0 else 1

section Step

variable {w : World} {i : ℕ} {k : Instr} {b : Answer}

/-- The generation and the selections that are to be made, in a stretch. -/
theorem generation_run (hg : (engineFs false).system.guard w (.run i k b)) :
    (k.run w.shared b).shared.priorityGeneration = w.shared.priorityGeneration ∧
      (∀ g, TaskSystem.World.pending ((engineFs false).system.effect w (.run i k b)) (Instr.selects g) +
        (k.selects g).toNat = TaskSystem.World.pending w (Instr.selects g)) ∨
    (k.run w.shared b).shared.priorityGeneration = w.shared.priorityGeneration + 1 ∧
      (∀ g, k.selects g = false) ∧
      ∀ g, TaskSystem.World.pending ((engineFs false).system.effect w (.run i k b)) (Instr.selects g) =
        TaskSystem.World.pending w (Instr.selects g) +
          if w.shared.priorityGeneration + 1 = g then 1 else 0 := by
  have hcount := fun g => counted_run hg (Instr.selects g)
  have hspawned : ∀ g, (k.run w.shared b).spawned.flatten.countP (Instr.selects g) = 0 := fun g =>
    Instr.countP_spawned _ _ fun k' => Instr.selects_starts
  cases k with
  | multifileCount h f a =>
    by_cases hfiles : b.fileCount ≤ 1
    · left
      have hrun : (Instr.multifileCount h f a).run w.shared b = stop w.shared := by
        simp [Instr.run, hfiles]
      refine ⟨by rw [hrun]; rfl, fun g => ?_⟩
      rw [hcount g, hrun]
      rfl
    · right
      have hrun : (Instr.multifileCount h f a).run w.shared b =
          goOn { w.shared with priorityGeneration := w.shared.priorityGeneration + 1 }
            [.select h f (w.shared.priorityGeneration + 1), .retainLeases h f, .retainStreams h f,
              .multifileActive h f a, .resumeTorrent h a, .reconcile h (some f)] := by
        simp only [Instr.run, Instr.runMultifileCount, if_neg hfiles]
      refine ⟨by rw [hrun]; rfl, fun g => rfl, fun g => ?_⟩
      have hg := hcount g
      rw [hspawned g, hrun] at hg
      simpa [Instr.selects, List.countP_cons] using hg
  | _ =>
    left
    refine ⟨Instr.run_generation _ _ rfl, fun g => ?_⟩
    have hg := hcount g
    rw [hspawned g, Instr.countP_next _ _ fun k' => Instr.selects_leadsTo (by simp)] at hg
    exact hg

/-- **Generations are not reused.** -/
theorem Fresh.run (hw : Fresh w) (hg : (engineFs false).system.guard w (.run i k b)) :
    Fresh ((engineFs false).system.effect w (.run i k b)) := by
  have hgeneration := generation_run hg
  have hpos : ∀ g, k.selects g = true → 0 < TaskSystem.World.pending w (Instr.selects g) := fun g hk =>
    TaskSystem.pending_pos hg hk
  have hcaptures : ∀ g, (∀ k ∈ w.stacked, k.captures g = false) →
      (∀ h f, w.shared.selections h ≠ some ⟨f, g⟩) →
        ∀ k' ∈ ((engineFs false).system.effect w (.run i k b)).stacked, k'.captures g = false := by
    intro g hstacked hselections
    refine TaskSystem.forall_run hstacked ?_ ?_
    · intro k' hk'
      by_contra hcap
      have hold := Instr.captures_next hk' (by simpa using hcap)
      rw [hstacked k (TaskSystem.mem_of_run hg)] at hold
      cases hold
    · intro k' hk'
      by_contra hcap
      obtain ⟨h, f, hsel⟩ := Instr.captures_spawned hk' (by simpa using hcap)
      exact hselections h f hsel
  constructor
  · intro g hnew
    have hsingle := hw.single g
    -- what is unused now was unused before, and has not been selected now
    have hold : w.shared.priorityGeneration < g ∨ 0 < TaskSystem.World.pending w (Instr.selects g) := by
      rw [shared_run] at hnew
      rcases hgeneration with ⟨hsame, hcount⟩ | ⟨hnext, -, hcount⟩
      · rw [hsame] at hnew
        have hg := hcount g
        omega
      · rw [hnext] at hnew
        have hg := hcount g
        split at hg <;> omega
    have hselect : ∀ h f, k ≠ .select h f g := by
      intro h f hk
      have hselects : k.selects g = true := by simp [hk, Instr.selects]
      have hp := hpos g hselects
      rcases hgeneration with ⟨hsame, hcount⟩ | ⟨-, hnone, -⟩
      · have hg := hcount g
        rw [hselects, Bool.toNat_true] at hg
        rw [shared_run, hsame] at hnew
        split at hsingle <;> omega
      · rw [hnone g] at hselects
        cases hselects
    obtain ⟨hstacked, hselections⟩ := hw.unused g hold
    refine ⟨hcaptures g hstacked hselections, fun h f hsel => ?_⟩
    rcases Instr.selections_run hsel with hsel | hk
    · exact hselections h f hsel
    · exact hselect h f hk
  · intro g
    have hsingle := hw.single g
    rw [shared_run]
    rcases hgeneration with ⟨hsame, hcount⟩ | ⟨hnext, -, hcount⟩
    · rw [hsame]
      have hg := hcount g
      exact Nat.le_trans (by omega) hsingle
    · rw [hnext]
      have hg := hcount g
      split at hsingle <;> split at hg <;> split <;> omega

theorem Fresh.arrive (hw : Fresh w) (call : Call) : Fresh ((engineFs false).system.effect w (.arrive call)) := by
  have hselects : ∀ g, TaskSystem.World.pending ((engineFs false).system.effect w (.arrive call))
      (Instr.selects g) = TaskSystem.World.pending w (Instr.selects g) := by
    intro g
    rw [counted_arrive]
    cases call with
    | setSeeding enabled => cases enabled <;> rfl
    | _ => rfl
  have hgeneration : (call.arrive w.shared).1.priorityGeneration = w.shared.priorityGeneration := by
    cases call <;> rfl
  have hselections : (call.arrive w.shared).1.selections = w.shared.selections := by
    cases call <;> rfl
  constructor
  · intro g hnew
    rw [shared_arrive, hgeneration, hselects] at hnew
    obtain ⟨hstacked, hnone⟩ := hw.unused g hnew
    rw [shared_arrive, hselections]
    refine ⟨TaskSystem.forall_arrive hstacked fun k hk => ?_, hnone⟩
    cases call with
    | streamVideo h f hls => rcases List.mem_pair.mp hk with rfl | rfl <;> rfl
    | openReader _ | closeReader _ | tick _ => cases hk
    | setSeeding enabled =>
      obtain rfl := Call.mem_setSeeding hk
      rfl
    | _ =>
      obtain rfl := List.mem_singleton.mp hk
      rfl
  · intro g
    rw [shared_arrive, hgeneration, hselects]
    exact hw.single g

end Step

/-! ### What cleanups take away -/

/-- **A cleanup will take the selection of the torrent away**, or tell the backend that no file of it
is wanted. -/
def Threatens (s : Shared) (h : String) : Instr → Prop
  | .clearLease h' f (some g) | .clearSelection h' f (.cleanup (some g)) =>
      h' = h ∧ s.selections h = some ⟨f, g⟩
  | .clearActive h' _ none | .clearEngine h' none | .reconcile h' none | .reconcileFiles h' none => h' = h
  | _ => False

/-- **The condition.**  No file of the torrent is selected while a stream of another one is open, and no
counts of another one are dropped; a stream is counted while its file is selected and no cleanup
under way will take that away.  The loop clears up after a lease only where there is no stream. -/
def Careful (h : String) (w : World) : Action → Prop
  | .run _ (.select h' f _) _ => h' = h → ∀ x ∈ w.shared.streams, x.infoHash = h → x.fileIdx = f
  | .run _ (.retainStreams h' f) _ =>
      h' = h → ∀ key ∈ w.shared.activeFileStreams, key.1 = h → key.2 = f
  | .run _ (.countFile x) _ => x.infoHash = h →
      (∃ g, w.shared.selections h = some ⟨x.fileIdx, g⟩) ∧ ∀ k ∈ w.stacked, ¬ Threatens w.shared h k
  | .run _ (.clearSelection h' _ .leaseExpired) _ =>
      h' = h → ∀ x ∈ w.shared.streams, x.infoHash ≠ h
  | _ => True

/-- The streams of the torrent are on the file that is selected, and no cleanup is after it. -/
structure Kept (h : String) (w : World) : Prop where
  tracked : Tracked w
  fresh : Fresh w
  counted : ∀ f, CountedFile w (h, f)
  selected : ∀ x ∈ w.shared.streams, x.infoHash = h → ∃ g, w.shared.selections h = some ⟨x.fileIdx, g⟩
  spared : ∀ k ∈ w.stacked, Threatens w.shared h k → ∀ x ∈ w.shared.streams, x.infoHash ≠ h

section Step

variable {w : World} {i : ℕ} {k : Instr} {b : Answer} {h : String}

/-- The count of a file that has none says that it has no stream. -/
theorem CountedFile.no_stream {f : ℕ} (hw : CountedFile w (h, f)) (hnone : (h, f) ∉ w.shared.activeFileStreams) :
    ∀ x ∈ w.shared.streams, x.infoHash = h → x.fileIdx ≠ f := by
  intro x hx heq hfile
  have hpos : 0 < w.shared.streams.countP (OpenStream.onFile (h, f)) :=
    List.countP_pos_iff.mpr ⟨x, hx, by simp [OpenStream.onFile, heq, hfile]⟩
  rw [CountedFile, List.count_eq_zero.mpr hnone] at hw
  omega

/-- What the stretch puts in its place is no threat to a torrent with streams. -/
theorem threatens_next (hw : Kept h w) (hc : Careful h w (.run i k b)) (hk : k ∈ w.stacked)
    {k' : Instr} (hk' : k' ∈ (k.run w.shared b).next)
    (hthreat : Threatens (k.run w.shared b).shared h k') : ∀ x ∈ w.shared.streams, x.infoHash ≠ h := by
  have hleads := Instr.mem_next _ _ hk'
  cases k' with
  | clearLease h' f scheduled =>
    cases scheduled with
    | none => exact hthreat.elim
    | some g =>
      cases k with
      | clearFile h₁ f₁ cause =>
        rw [Threatens, Instr.run_selections _ _ rfl] at hthreat
        obtain ⟨rfl, hsel⟩ := hthreat
        dsimp only [Instr.run, Instr.runClearFile] at hk'
        split at hk'
        · cases hk'
        · next hnone =>
          cases cause with
          | cleanup scheduled =>
            obtain ⟨rfl, rfl, -⟩ : _ ∧ _ ∧ _ := by simpa using hk'
            intro x hx heq
            obtain ⟨g', hx'⟩ := hw.selected x hx heq
            rw [hsel] at hx'
            cases hx'
            exact (hw.counted x.fileIdx).no_stream hnone x hx heq rfl
          | leaseExpired => simp at hk'
      | _ => exact absurd hleads Bool.false_ne_true
  | clearSelection h' f cause =>
    cases k with
    | clearFile h₁ f₁ cause₁ =>
      dsimp only [Instr.run, Instr.runClearFile] at hk'
      split at hk'
      · cases hk'
      · cases cause₁ with
        | cleanup scheduled => simp at hk'
        | leaseExpired =>
          obtain ⟨-, -, rfl⟩ : _ ∧ _ ∧ _ := by simpa using hk'
          exact hthreat.elim
    | clearLease h₁ f₁ scheduled =>
      have hsame : cause = .cleanup scheduled ∧ h' = h₁ ∧ f = f₁ := by
        dsimp only [Instr.run] at hk'
        split at hk'
        · cases hk'
        · obtain ⟨hh, hf, hcause⟩ : _ ∧ _ ∧ _ := by simpa using hk'
          exact ⟨hcause, hh, hf⟩
      obtain ⟨rfl, rfl, rfl⟩ := hsame
      apply hw.spared _ hk
      cases scheduled with
      | none => exact hthreat.elim
      | some g =>
        rw [Threatens, Instr.run_selections _ _ rfl] at hthreat
        exact hthreat
    | _ => exact absurd hleads Bool.false_ne_true
  | clearActive h' f selection =>
    cases k with
    | clearSelection h₁ f₁ cause =>
      cases selection with
      | some _ => exact hthreat.elim
      | none =>
        obtain rfl : h' = h := hthreat
        dsimp only [Instr.run, Instr.runClearSelection] at hk'
        split at hk'
        · next hnone =>
          -- what is not selected has no stream
          obtain ⟨rfl, -⟩ : _ ∧ _ := by simpa using hk'
          intro x hx heq
          obtain ⟨g, hsel⟩ := hw.selected x hx heq
          rw [hnone] at hsel
          cases hsel
        · next selection hsel =>
          split at hk'
          · next hfile =>
            split at hk'
            · next hcause =>
              obtain ⟨rfl, -⟩ : _ ∧ _ := by simpa using hk'
              rcases hcause with rfl | rfl
              · exact hc rfl
              · apply hw.spared _ hk
                exact ⟨rfl, by rw [hsel, ← hfile]⟩
            · cases hk'
          · simp at hk'
    | _ => exact absurd hleads Bool.false_ne_true
  | clearEngine h' selection =>
    cases k with
    | clearActive h₁ f₁ selection₁ =>
      obtain ⟨rfl, rfl⟩ : _ ∧ _ := by simpa [Instr.run] using hk'
      apply hw.spared _ hk
      cases selection <;> exact hthreat
    | _ => exact absurd hleads Bool.false_ne_true
  | reconcile h' wanted =>
    cases k with
    | multifileCount h₁ f₁ a =>
      dsimp only [Instr.run, Instr.runMultifileCount] at hk'
      split at hk'
      · cases hk'
      · obtain ⟨-, rfl⟩ : _ ∧ _ := by simpa using hk'
        exact hthreat.elim
    | clearEngine h₁ selection =>
      dsimp only [Instr.run] at hk'
      split at hk'
      · cases hk'
      · obtain ⟨rfl, rfl⟩ : _ ∧ _ := by simpa using hk'
        apply hw.spared _ hk
        cases selection <;> exact hthreat
    | _ => exact absurd hleads Bool.false_ne_true
  | reconcileFiles h' wanted =>
    cases k with
    | reconcile h₁ wanted₁ =>
      dsimp only [Instr.run, Instr.runReconcile] at hk'
      split at hk'
      · cases hk'
      · obtain ⟨rfl, rfl⟩ : _ ∧ _ := by simpa using hk'
        apply hw.spared _ hk
        cases wanted <;> exact hthreat
    | _ => exact absurd hleads Bool.false_ne_true
  | _ => exact hthreat.elim

/-- A stretch makes no new threat of an old cleanup. -/
theorem threatens_of_run (hw : Fresh w) (hg : (engineFs false).system.guard w (.run i k b)) {k' : Instr}
    (hk' : k' ∈ w.stacked) (hthreat : Threatens (k.run w.shared b).shared h k') : Threatens w.shared h k' := by
  have hsel : ∀ {f g}, k'.captures g = true →
      (k.run w.shared b).shared.selections h = some ⟨f, g⟩ → w.shared.selections h = some ⟨f, g⟩ := by
    intro f g hcaptures hsome
    rcases Instr.selections_run hsome with hold | hselect
    · exact hold
    · -- the generation is new
      have hpos : 0 < TaskSystem.World.pending w (Instr.selects g) :=
        TaskSystem.pending_pos hg (by simp [hselect, Instr.selects])
      rw [(hw.unused g (Or.inr hpos)).1 k' hk'] at hcaptures
      cases hcaptures
  cases k' with
  | clearLease h' f scheduled =>
    cases scheduled with
    | none => exact hthreat
    | some g => exact ⟨hthreat.1, hsel (by simp [Instr.captures]) hthreat.2⟩
  | clearSelection h' f cause =>
    cases cause with
    | leaseExpired => exact hthreat
    | cleanup scheduled =>
      cases scheduled with
      | none => exact hthreat
      | some g => exact ⟨hthreat.1, hsel (by simp [Instr.captures]) hthreat.2⟩
  | clearActive h' f selection => cases selection <;> exact hthreat
  | clearEngine h' selection => cases selection <;> exact hthreat
  | reconcile h' wanted => cases wanted <;> exact hthreat
  | reconcileFiles h' wanted => cases wanted <;> exact hthreat
  | _ => exact hthreat

/-- The selection of a torrent with streams changes only to the file they are on. -/
theorem Kept.selected_run (hw : Kept h w) (hg : (engineFs false).system.guard w (.run i k b))
    (hc : Careful h w (.run i k b)) :
    ∀ x ∈ (k.run w.shared b).shared.streams, x.infoHash = h →
      ∃ g, (k.run w.shared b).shared.selections h = some ⟨x.fileIdx, g⟩ := by
  intro x hx heq
  cases k with
  | countFile y =>
    rcases List.mem_cons.mp hx with rfl | hx
    · exact (hc heq).1
    · exact hw.selected x hx heq
  | dropGuard y => exact hw.selected x (List.mem_of_mem_erase hx) heq
  | select h' f g =>
    simp only [Instr.run, stop]
    by_cases hh : h = h'
    · subst hh
      rw [Function.update_self, hc rfl x hx heq]
      exact ⟨g, rfl⟩
    · rw [Function.update_of_ne hh]
      exact hw.selected x hx heq
  | clearSelection h' f cause =>
    rw [Instr.run_streams _ _ rfl] at hx
    obtain ⟨g, hsel⟩ := hw.selected x hx heq
    simp only [Instr.run, Instr.runClearSelection]
    split
    · exact ⟨g, hsel⟩
    · next selection hfound =>
      split
      · next hfile =>
        split
        · next hcause =>
          -- the selection that is taken away is another torrent's
          have hne : h ≠ h' := by
            intro hh
            subst hh
            rcases hcause with rfl | rfl
            · exact hc rfl x hx heq
            · exact hw.spared _ (TaskSystem.mem_of_run hg) ⟨rfl, by rw [hfound, ← hfile]⟩ x hx heq
          simp only [goOn]
          rw [Function.update_of_ne hne]
          exact ⟨g, hsel⟩
        · exact ⟨g, hsel⟩
      · exact ⟨g, hsel⟩
  | _ =>
    rw [Instr.run_streams _ _ rfl] at hx
    rw [Instr.run_selections _ _ rfl]
    exact hw.selected x hx heq

/-- A torrent without streams gets one only when it is counted. -/
theorem no_stream_run (hnone : ∀ x ∈ w.shared.streams, x.infoHash ≠ h)
    (hk : ∀ y, k = .countFile y → y.infoHash ≠ h) :
    ∀ x ∈ (k.run w.shared b).shared.streams, x.infoHash ≠ h := by
  intro x hx
  cases k with
  | countFile y =>
    rcases List.mem_cons.mp hx with rfl | hx
    · exact hk x rfl
    · exact hnone x hx
  | dropGuard y => exact hnone x (List.mem_of_mem_erase hx)
  | _ =>
    rw [Instr.run_streams _ _ rfl] at hx
    exact hnone x hx

theorem Kept.run (hw : Kept h w) (hg : (engineFs false).system.guard w (.run i k b))
    (hc : Careful h w (.run i k b)) : Kept h ((engineFs false).system.effect w (.run i k b)) := by
  have hkeeps : ∀ f, ¬ dropsCount w.shared (h, f) k := by
    intro f hdrops
    cases k with
    | retainStreams h' f' =>
      obtain ⟨heq, hne, hin⟩ := hdrops
      exact hne (hc heq.symm (h, f) hin rfl)
    | _ => exact hdrops
  constructor
  · exact hw.tracked.run hg
  · exact hw.fresh.run hg
  · exact fun f => (hw.counted f).run hw.tracked hg (hkeeps f)
  · exact hw.selected_run hg hc
  · refine TaskSystem.forall_run ?_ ?_ ?_
    · intro k' hk' hthreat
      have hold := threatens_of_run hw.fresh hg hk' hthreat
      apply no_stream_run (hw.spared k' hk' hold)
      intro y hy heq
      -- who counts a stream has waited for the cleanups
      subst hy
      exact (hc heq).2 k' hk' hold
    · intro k' hk' hthreat
      apply no_stream_run (threatens_next hw hc (TaskSystem.mem_of_run hg) hk' hthreat)
      intro y hy
      subst hy
      cases hk'
    · intro k' hk' hthreat
      exfalso
      have hstarts := Instr.mem_spawned _ _ hk'
      cases k' with
      | clearLease _ _ _ | clearSelection _ _ _ | clearActive _ _ _ | clearEngine _ _ | reconcile _ _
      | reconcileFiles _ _ => cases k <;> exact absurd hstarts Bool.false_ne_true
      | _ => exact hthreat

theorem Kept.arrive (hw : Kept h w) {call : Call} (hg : (engineFs false).system.guard w (.arrive call)) :
    Kept h ((engineFs false).system.effect w (.arrive call)) := by
  have hselections : (call.arrive w.shared).1.selections = w.shared.selections := by
    cases call <;> rfl
  -- a call may end a stream, and none begins one before it is run
  have hstreams : ∀ x ∈ (call.arrive w.shared).1.streams, x ∈ w.shared.streams := by
    intro x hx
    cases call with
    | endStream y => exact List.mem_of_mem_erase hx
    | _ => exact hx
  constructor
  · exact hw.tracked.arrive hg
  · exact hw.fresh.arrive call
  · exact fun f => (hw.counted f).step hw.tracked hg trivial trivial
  · intro x hx heq
    rw [shared_arrive, hselections]
    exact hw.selected x (hstreams x hx) heq
  · refine TaskSystem.forall_arrive ?_ ?_
    -- a threat goes by the selections, which an arriving call leaves alone
    · intro k hk hthreat x hx
      apply hw.spared k hk ?_ x (hstreams x hx)
      rw [shared_arrive] at hthreat
      cases k with
      | clearLease h' f scheduled =>
        cases scheduled with
        | none => exact hthreat
        | some g => exact ⟨hthreat.1, hselections ▸ hthreat.2⟩
      | clearSelection h' f cause =>
        cases cause with
        | leaseExpired => exact hthreat
        | cleanup scheduled =>
          cases scheduled with
          | none => exact hthreat
          | some g => exact ⟨hthreat.1, hselections ▸ hthreat.2⟩
      | clearActive h' f selection => cases selection <;> exact hthreat
      | clearEngine h' selection => cases selection <;> exact hthreat
      | reconcile h' wanted => cases wanted <;> exact hthreat
      | reconcileFiles h' wanted => cases wanted <;> exact hthreat
      | _ => exact hthreat
    · intro k hk hthreat
      cases call with
      | streamVideo h f hls => rcases List.mem_pair.mp hk with rfl | rfl <;> exact hthreat.elim
      | openReader _ | closeReader _ | tick _ => cases hk
      | setSeeding enabled =>
        obtain rfl := Call.mem_setSeeding hk
        exact hthreat.elim
      | _ =>
        obtain rfl := List.mem_singleton.mp hk
        exact hthreat.elim

/-- **A step keeps the invariant.** -/
theorem Kept.step (hw : Kept h w) {a : Action} (hg : (engineFs false).system.guard w a)
    (hc : Careful h w a) : Kept h ((engineFs false).system.effect w a) := by
  cases a with
  | run i k b => exact hw.run hg hc
  | arrive call => exact hw.arrive hg
  | drop i =>
    obtain ⟨stack, -, hdrops, -⟩ := hg
    cases hdrops

theorem kept_new (restored : List String) (h : String) : Kept h (World.new false restored) := by
  have hloop : ∀ k ∈ (World.new false restored).stacked, k = .loop := by
    intro k hk
    simpa [World.new, TaskSystem.World.stacked] using hk
  constructor
  · exact tracked_new false restored
  · constructor
    · intro g _
      refine ⟨fun k hk => ?_, fun h f hsel => ?_⟩
      · rw [hloop k hk]
        rfl
      · cases hsel
    · intro g
      exact Nat.zero_le _
  · exact fun f => rfl
  · intro x hx
    cases hx
  · intro k hk hthreat
    rw [hloop k hk] at hthreat
    exact hthreat.elim

/-- **In every run that meets the condition** the counts of the torrent are right, and no delayed cleanup
takes the selection of a file with a stream away, or has no file wanted while there is one. -/
theorem cleanups_spare {restored : List String} (hrun : (engineFs false).system.Reach (Careful h)
    (World.new false restored) w) :
    (∀ f, w.shared.activeFileStreams.count (h, f) =
      w.shared.streams.countP (OpenStream.onFile (h, f)) + w.staged .ending (OpenStream.onFile (h, f)) +
        w.staged .endingFile (OpenStream.onFile (h, f))) ∧
    (∀ i f g b, (engineFs false).system.guard w (.run i (.clearSelection h f (.cleanup (some g))) b) →
      w.shared.selections h = some ⟨f, g⟩ → ∀ x ∈ w.shared.streams, OpenStream.onFile (h, f) x = false) ∧
    ∀ i b, (engineFs false).system.guard w (.run i (.reconcileFiles h none) b) →
      ∀ x ∈ w.shared.streams, x.infoHash ≠ h := by
  have hw : Kept h w := by
    refine hrun.invariant (kept_new restored h) ?_
    intro u a hu hg hc
    exact hu.step hg hc
  refine ⟨hw.counted, ?_, ?_⟩
  · intro i f g b hg hsel x hx
    have hnone := hw.spared _ (TaskSystem.mem_of_run hg) ⟨rfl, hsel⟩ x hx
    simp [OpenStream.onFile, hnone]
  · intro i b hg
    exact hw.spared _ (TaskSystem.mem_of_run hg) rfl

end Step

/-- The backend succeeds, and the torrent has two files. -/
def Answer.twoFiles : Answer := { Answer.fine with fileCount := 2 }

/-- A stream on a file of the torrent, up to the selection. -/
def selecting (i : ℕ) (x : OpenStream) (generation : ℕ) : List Action :=
  [.arrive (.startStream x.infoHash x.fileIdx), .run i (.startStream x) .fine,
    .run i (.activateFile x.infoHash x.fileIdx) .fine,
    .run i (.activateCount x.infoHash x.fileIdx 0) .twoFiles, .run i (.resumeTorrent x.infoHash 0) .fine,
    .run i (.clearIdle 0) .fine, .run i (.setActiveFile x.infoHash x.fileIdx) .fine,
    .run i (.activateMultifile x.infoHash x.fileIdx) .fine,
    .run i (.multifileCount x.infoHash x.fileIdx 0) .twoFiles,
    .run i (.select x.infoHash x.fileIdx generation) .fine]

/-- From the selection on. -/
def counting (i : ℕ) (x : OpenStream) : List Action :=
  [.run i (.retainLeases x.infoHash x.fileIdx) .fine, .run i (.retainStreams x.infoHash x.fileIdx) .fine,
    .run i (.multifileActive x.infoHash x.fileIdx 0) .fine, .run i (.resumeTorrent x.infoHash 0) .fine,
    .run i (.clearIdle 0) .fine, .run i (.reconcile x.infoHash (some x.fileIdx)) .twoFiles,
    .run i (.reconcileFiles x.infoHash (some x.fileIdx)) .fine, .run i (.countStream x) .fine,
    .run i (.countFile x) .fine]

/-- The end of the stream, after which its file has no count, and the cleanup up to the selection. -/
def cleaning (i j : ℕ) (x : OpenStream) (hashLeft : Bool) (scheduled : Option ℕ) : List Action :=
  [.arrive (.endStream x), .run i (.endStream x) .fine, .run i (.endFile x hashLeft) .fine,
    .run i (.endEngine x hashLeft false) .fine, .run i (.scheduleCleanup x.infoHash x.fileIdx) .fine,
    .run i (.scheduleGeneration x.infoHash x.fileIdx) .fine, .run j (.sleep 5) .fine, .arrive (.tick 5),
    .run j (.sleepUntil 5) .fine, .run j (.clearFile x.infoHash x.fileIdx (.cleanup scheduled)) .fine,
    .run j (.clearLease x.infoHash x.fileIdx scheduled) .fine]

/-- The first stream. -/
def first : OpenStream := ⟨0, "a", 1, false⟩

/-- The only stream has ended. -/
theorem cleanups_spare_ended : ∃ w,
    (engineFs false).system.Reach (Careful "a") (World.new false ["a"]) w ∧
      (engineFs false).system.guard w (.run 4 (.clearSelection "a" 1 (.cleanup (some 1))) .fine) ∧
        ∀ x ∈ w.shared.streams, OpenStream.onFile ("a", 1) x = false := by
  have hcalm : ∀ k ∈ [Instr.loop, Instr.countFile first], ∀ s, ¬ Threatens s "a" k := by
    intro k hk s
    rcases List.mem_pair.mp hk with rfl | rfl <;> exact id
  obtain ⟨w, hpath, hguard, hsel⟩ : ∃ w,
      (engineFs false).system.Path (Careful "a") (World.new false ["a"])
        (selecting 1 first 1 ++ counting 1 first ++ cleaning 2 4 first false (some 1)) w ∧
        (engineFs false).system.guard w (.run 4 (.clearSelection "a" 1 (.cleanup (some 1))) .fine) ∧
          w.shared.selections "a" = some ⟨1, 1⟩ :=
    ⟨_, .cons trivial trivial (.cons (by decide) trivial (.cons (by decide) trivial
      (.cons (by decide) trivial (.cons (by decide) trivial (.cons (by decide) trivial
      (.cons (by decide) trivial (.cons (by decide) trivial (.cons (by decide) trivial
      (.cons (by decide) (fun _ => List.forall_mem_nil _) (.cons (by decide) trivial
      (.cons (by decide) (fun _ => List.forall_mem_nil _) (.cons (by decide) trivial
      (.cons (by decide) trivial (.cons (by decide) trivial (.cons (by decide) trivial
      (.cons (by decide) trivial (.cons (by decide) trivial
      (.cons (by decide) (fun _ => ⟨⟨1, by decide⟩, fun k hk => hcalm k hk _⟩) (.cons (by decide) trivial
      (.cons (by decide) trivial (.cons (by decide) trivial (.cons (by decide) trivial
      (.cons (by decide) trivial (.cons (by decide) trivial (.cons (by decide) trivial
      (.cons trivial trivial (.cons (by decide) trivial (.cons (by decide) trivial
      (.cons (by decide) trivial (.nil _)))))))))))))))))))))))))))))), by decide, by decide⟩
  exact ⟨w, ⟨_, hpath⟩, hguard, (cleanups_spare ⟨_, hpath⟩).2.1 4 1 1 .fine hguard hsel⟩

/-- A stream on the first file, one on the second, and another on the first. -/
def interleaved : List Action :=
  let second : OpenStream := ⟨1, "a", 2, false⟩
  let third : OpenStream := ⟨2, "a", 1, false⟩
  selecting 1 first 1 ++ counting 1 first ++ (selecting 2 second 2 ++ counting 2 second) ++
    (selecting 3 third 3 ++ counting 3 third) ++ cleaning 4 5 first true (some 3)

/-- The stream on the second file has dropped the count of the first, which then has two streams and
counts one: after the end of one of the two the selection is taken away from the other. -/
theorem cleanup_takes_open : ∃ w,
    (engineFs false).system.Reach GuardedSystem.anyStep (World.new false ["a"]) w ∧
      ((engineFs false).system.guard w (.run 5 (.clearSelection "a" 1 (.cleanup (some 3))) .fine) ∧
        w.shared.selections "a" = some ⟨1, 3⟩ ∧
        w.shared.activeFileStreams.count ("a", 1) = 0 ∧
        w.shared.streams.countP (OpenStream.onFile ("a", 1)) = 1 ∧
        ((Instr.clearSelection "a" 1 (.cleanup (some 3))).run w.shared .fine).shared.selections "a" =
          none) :=
  GuardedSystem.exists_reach_of_exec interleaved (by decide)

end StreamServer.EngineFs

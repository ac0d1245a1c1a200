import Mathlib.Data.List.Nodup
import StreamServer.Updater.Recovery

/-!
# Rolling an update back

The rollback plan names the copies of the files that were there before the update.  A file that was
not there has no copy, and stays; and an update that is applied again writes its copies over those of
the first time.

## Main definitions

* `Applied` — a plan has been applied some number of times, one after the other.

## Main results

* `restoreFiles_ok` — every file is restored from its copy.
* `rollback_restores_iff` — rolling back gives every destination what it held before the first time
  just if all were there and, if there was more than one time, none had to be changed.

## References

`updater-helper/src/main.rs`, `rollback_update`.
-/

namespace StreamServer.Updater

open FileTree

variable {machine : Machine} {plan : ApplyPlan} {tree tree' : Tree} {rollback : RollbackPlan} {n : ℕ}

/-- The files of a plan have been replaced `n` times, the last of which wrote the rollback plan. -/
inductive Applied (machine : Machine) (plan : ApplyPlan) :
    ℕ → Tree → RollbackPlan → Tree → Prop where
  | once {faults : Faults Place} {tree tree' : Tree} {rollback : RollbackPlan}
      (h : installAssets machine faults plan tree = .ok rollback tree') :
      Applied machine plan 1 tree rollback tree'
  | again {faults : Faults Place} {n : ℕ} {tree tree₁ tree' : Tree} {rollback₁ rollback : RollbackPlan}
      (hfirst : Applied machine plan n tree rollback₁ tree₁)
      (h : installAssets machine faults plan tree₁ = .ok rollback tree') :
      Applied machine plan (n + 1) tree rollback tree'

/-- Nothing fails. -/
def noFaults : Faults RollbackPlace := fun _ => none

/-! ### After applying -/

/-- Each destination holds the bytes of its source. -/
theorem Installed.destination (h : Installed machine plan tree tree' rollback)
    (hapart : plan.FilesApart machine) (hnodup : (plan.assets.map (·.destination)).Nodup)
    {a : ApplyAsset} (ha : a ∈ plan.assets) :
    tree'.contents a.destination = tree.contents a.source := by
  rw [h.installed a ha]
  obtain ⟨before, behind, hsplit⟩ := List.append_of_mem ha
  have hsources := hapart.assets.source_destination
  rw [hsplit] at hnodup hsources ⊢
  rw [List.map_append, List.nodup_append, List.map_cons, List.nodup_cons] at hnodup
  refine installAll_last (fun b hb => hsources a (by simp) b (by simp [hb])) fun later hlater he => ?_
  exact hnodup.2.1.1 (List.mem_map.mpr ⟨later, hlater, he⟩)

/-- The tree in front of the last time, and what the sources hold there. -/
theorem Applied.last (h : Applied machine plan n tree rollback tree')
    (hapart : plan.FilesApart machine) (hnodup : (plan.assets.map (·.destination)).Nodup) :
    ∃ tree₁, Installed machine plan tree₁ tree' rollback ∧
      ∀ a ∈ plan.assets, tree₁.contents a.source = tree.contents a.source ∧
        tree₁.contents a.destination =
          if n = 1 then tree.contents a.destination else tree.contents a.source := by
  induction h with
  | once h => exact ⟨_, (ends_installAssets hapart).of_ok h, fun a _ => ⟨rfl, rfl⟩⟩
  | @again faults n tree tree₁ tree' rollback₁ rollback hfirst h ih =>
    obtain ⟨tree₀, hinstalled, hsame⟩ := ih
    refine ⟨tree₁, (ends_installAssets hapart).of_ok h, fun a ha => ?_⟩
    have hn : n + 1 ≠ 1 := by
      cases hfirst <;> omega
    rw [if_neg hn, hinstalled.source a ha, hinstalled.destination hapart hnodup ha,
      (hsame a ha).1]
    exact ⟨rfl, rfl⟩

/-! ### Restoring -/

/-- A tree from which every file of the list can be restored. -/
structure Restorable (tree : Tree) (files : List RollbackFile) : Prop where
  backup : ∀ file ∈ files, (tree.contents file.backup).isSome
  destination : ∀ file ∈ files, (tree.contents file.destination).isSome
  parent : ∀ file ∈ files, file.destination ≠ [] ∧
    ∀ path, path <+: file.destination.dropLast → tree path = some .dir
  apart : ∀ file ∈ files, ∀ file' ∈ files, file.backup ≠ file'.destination
  nodup : (files.map (·.destination)).Nodup

theorem restoreFile_ok {file : RollbackFile} {files : List RollbackFile} (index : ℕ)
    (h : Restorable tree (file :: files)) :
    ∃ tree₁, restoreFile noFaults index file tree = .ok () tree₁ ∧ KeepsDirs tree tree₁ ∧
      tree₁.contents =
        Function.update tree.contents file.destination (tree.contents file.backup) := by
  obtain ⟨bytes, hbytes⟩ := Option.isSome_iff_exists.mp (h.backup file (.head _))
  obtain ⟨old, hold⟩ := Option.isSome_iff_exists.mp (h.destination file (.head _))
  obtain ⟨hplace, hdirs⟩ := h.parent file (.head _)
  have hmade := createDirAll_of_dirs hdirs
  have hcopy := copy_of_contents hbytes hold
  refine ⟨_, ?_, keepsDirs_copy hcopy, ?_⟩
  · have hthere : (tree file.backup).isSome := by
      rw [contents_eq_some_iff] at hbytes
      simp [hbytes]
    have hparent : file.destination.parent = some file.destination.dropLast := by
      simp [FilePath.parent, hplace]
    have hget : (get : EStateM RollbackPlace Tree Tree) tree = .ok tree tree := rfl
    have hattempt : attempt noFaults (.createParent index)
        (·.createDirAll file.destination.dropLast) tree = .ok () tree := by
      simp [attempt, noFaults, hmade]
    unfold restoreFile
    rw [bind_of_ok hget, if_pos hthere, hparent]
    refine (bind_of_ok hattempt).trans ?_
    simp [attemptWrite, noFaults, hcopy]
  · rw [contents_update, hbytes]

/-- Restoring the first file leaves the others to be restored. -/
theorem Restorable.tail {file : RollbackFile} {files : List RollbackFile} {tree₁ : Tree}
    (h : Restorable tree (file :: files)) (hdirs : KeepsDirs tree tree₁)
    (hcontents : tree₁.contents =
      Function.update tree.contents file.destination (tree.contents file.backup)) :
    Restorable tree₁ files := by
  obtain ⟨hnew, hnodup⟩ := List.nodup_cons.mp h.nodup
  have hsame : ∀ path ≠ file.destination, tree₁.contents path = tree.contents path := by
    intro path hpath
    rw [hcontents, Function.update_of_ne hpath]
  refine ⟨fun f hf => ?_, fun f hf => ?_, fun f hf => ?_, fun f hf f' hf' => ?_, hnodup⟩
  · rw [hsame _ (h.apart f (.tail _ hf) file (.head _))]
    exact h.backup f (.tail _ hf)
  · rw [hsame _ fun he => hnew (List.mem_map.mpr ⟨f, hf, he⟩)]
    exact h.destination f (.tail _ hf)
  · obtain ⟨hplace, hparent⟩ := h.parent f (.tail _ hf)
    exact ⟨hplace, fun path hpath => hdirs path (hparent path hpath)⟩
  · exact h.apart f (.tail _ hf) f' (.tail _ hf')

/-- By induction on the files: the copies are not among the destinations, so that each file gets what
its copy held at the start. -/
theorem restoreFiles_ok {files : List RollbackFile} (index : ℕ) (h : Restorable tree files) :
    ∃ tree', restoreFiles noFaults index files tree = .ok () tree' ∧
      (∀ file ∈ files, tree'.contents file.destination = tree.contents file.backup) ∧
      ∀ path, (∀ file ∈ files, path ≠ file.destination) →
        tree'.contents path = tree.contents path := by
  induction files generalizing index tree with
  | nil => exact ⟨tree, rfl, by simp, fun _ _ => rfl⟩
  | cons file files ih =>
    obtain ⟨tree₁, hrun, hdirs, hcontents⟩ := restoreFile_ok index h
    obtain ⟨tree', hrest, hrestored, hothers⟩ := ih (index + 1) (h.tail hdirs hcontents)
    have hnew := (List.nodup_cons.mp h.nodup).1
    refine ⟨tree', (bind_of_ok hrun).trans hrest, fun f hf => ?_, fun path hpath => ?_⟩
    · rcases List.mem_cons.mp hf with rfl | hmem
      · rw [hothers _ fun g hg he => hnew (List.mem_map.mpr ⟨g, hg, he.symm⟩), hcontents,
          Function.update_self]
      · rw [hrestored f hmem, hcontents, Function.update_of_ne (h.apart f hf file (.head _))]
    · rw [hothers path fun f hf => hpath f (.tail _ hf), hcontents,
        Function.update_of_ne (hpath file (.head _))]

theorem Installed.restorable {tree₁ : Tree} (h : Installed machine plan tree₁ tree' rollback)
    (hapart : plan.FilesApart machine) (hnodup : (plan.assets.map (·.destination)).Nodup) :
    Restorable tree' rollback.files := by
  have hdest : ∀ file ∈ rollback.files, ∃ a ∈ plan.assets, file.destination = a.destination :=
    fun file hfile => (h.backups file hfile).2
  have hfiles := h.sublist.nodup hnodup
  refine ⟨fun file hfile => ?_, fun file hfile => ?_, fun file hfile => ?_,
    fun file hfile file' hfile' he => ?_, hfiles⟩
  · obtain ⟨old, hold⟩ := Option.isSome_iff_exists.mp (h.existed hnodup file hfile)
    obtain ⟨a, ha, hfileDest⟩ := hdest file hfile
    obtain ⟨kept, hkept, hkeptDest, hcontents⟩ := h.kept a ha old (hfileDest ▸ hold)
    obtain rfl : kept = file :=
      List.inj_on_of_nodup_map hfiles hkept hfile (hkeptDest.trans hfileDest.symm)
    simp [hcontents]
  · obtain ⟨a, ha, hfileDest⟩ := hdest file hfile
    rw [hfileDest, h.destination hapart hnodup ha]
    exact h.sources a ha
  · obtain ⟨a, ha, hfileDest⟩ := hdest file hfile
    rw [hfileDest]
    exact h.places a ha
  · obtain ⟨a, ha, hfileDest⟩ := hdest file' hfile'
    exact hapart.assets.destination_dir a ha (hfileDest ▸ he ▸ (h.backups file hfile).1)

/-- What rolling back leaves at a destination. -/
theorem Installed.rolledBack {tree₁ : Tree} (h : Installed machine plan tree₁ tree' rollback)
    (hapart : plan.FilesApart machine) (hnodup : (plan.assets.map (·.destination)).Nodup)
    (hjson : machine.readRollback (machine.writeRollback rollback) = some rollback) :
    ∃ tree'', rollbackUpdate machine noFaults
        (rollbackPath (machine.backupDir plan.targetVersion)) tree' = .ok () tree'' ∧
      ∀ a ∈ plan.assets, tree''.contents a.destination =
        if (tree₁.contents a.destination).isSome then tree₁.contents a.destination
        else tree₁.contents a.source := by
  obtain ⟨tree'', hrun, hrestored, hothers⟩ :=
    restoreFiles_ok 0 (h.restorable hapart hnodup)
  refine ⟨tree'', ?_, fun a ha => ?_⟩
  · unfold rollbackUpdate
    refine (bind_of_ok ?_).trans hrun
    simp [attemptRead, noFaults, h.written, hjson]
  · cases hold : tree₁.contents a.destination with
    | some old =>
      obtain ⟨file, hfile, hfileDest, hcontents⟩ := h.kept a ha old hold
      rw [← hfileDest, hrestored file hfile, hcontents]
      simp
    | none =>
      -- No file of the plan is this one, so that it stays as it was installed.
      rw [hothers _ fun file hfile he => ?_, h.destination hapart hnodup ha]
      · simp
      · have hsome := h.existed hnodup file hfile
        rw [← he, hold] at hsome
        cases hsome

theorem rollback_restores_iff (hapart : plan.FilesApart machine)
    (hnodup : (plan.assets.map (·.destination)).Nodup)
    (happlied : Applied machine plan n tree rollback tree')
    (hjson : machine.readRollback (machine.writeRollback rollback) = some rollback) :
    (∃ tree'', rollbackUpdate machine noFaults
        (rollbackPath (machine.backupDir plan.targetVersion)) tree' = .ok () tree'' ∧
      ∀ a ∈ plan.assets, tree''.contents a.destination = tree.contents a.destination) ↔
    ∀ a ∈ plan.assets, (tree.contents a.destination).isSome ∧
      (n ≠ 1 → tree.contents a.destination = tree.contents a.source) := by
  obtain ⟨tree₁, hinstalled, hlast⟩ := happlied.last hapart hnodup
  obtain ⟨tree'', hrun, hcontents⟩ := hinstalled.rolledBack hapart hnodup hjson
  have hunique : (∃ restored, rollbackUpdate machine noFaults
        (rollbackPath (machine.backupDir plan.targetVersion)) tree' = .ok () restored ∧
      ∀ a ∈ plan.assets, restored.contents a.destination = tree.contents a.destination) ↔
      ∀ a ∈ plan.assets, tree''.contents a.destination = tree.contents a.destination := by
    constructor
    · rintro ⟨restored, hrestored, h⟩
      rw [hrun] at hrestored
      cases hrestored
      exact h
    · intro h
      exact ⟨tree'', hrun, h⟩
  rw [hunique]
  refine forall₂_congr fun a ha => ?_
  obtain ⟨hsource, hdest⟩ := hlast a ha
  have hsome := hinstalled.sources a ha
  rw [hsource] at hsome
  rw [hcontents a ha, hsource, hdest]
  by_cases hn : n = 1
  · cases hold : tree.contents a.destination with
    | some old => simp [hn]
    | none => 
      obtain ⟨new, hnew⟩ := Option.isSome_iff_exists.mp hsome
      simp [hn, hnew]
  · rw [if_neg hn, if_pos hsome]
    constructor
    · intro h
      exact ⟨h ▸ hsome, fun _ => h.symm⟩
    · intro h
      exact (h.2 hn).symm

theorem sampleRollback_read :
    sampleMachine.readRollback (sampleMachine.writeRollback sampleRollback) =
      some sampleRollback := by
  have hread : sampleMachine.readRollback = sampleRead := rfl
  have hwrite : sampleMachine.writeRollback = sampleWrite := rfl
  rw [hread, hwrite, sampleWrite, if_pos rfl, sampleRead, if_pos rfl]

theorem sampleEmpty_read :
    sampleMachine.readRollback (sampleMachine.writeRollback ⟨"2", []⟩) = some ⟨"2", []⟩ := by
  have hread : sampleMachine.readRollback = sampleRead := rfl
  have hwrite : sampleMachine.writeRollback = sampleWrite := rfl
  have hplan : (⟨"2", []⟩ : RollbackPlan) ≠ sampleRollback := by simp [sampleRollback]
  have hjson : sampleEmptyJson ≠ sampleRollbackJson := by decide +kernel
  rw [hread, hwrite, sampleWrite, if_neg hplan, sampleRead, if_neg hjson, if_pos rfl]

/-- One file that was there, and one time. -/
theorem rollback_restores_iff_one : ∃ tree',
    installAssets sampleMachine (fun _ => none) samplePlan sampleTree = .ok sampleRollback tree' ∧
    ((∃ tree'', rollbackUpdate sampleMachine noFaults
        (rollbackPath (sampleMachine.backupDir samplePlan.targetVersion)) tree' = .ok () tree'' ∧
      ∀ a ∈ samplePlan.assets,
        tree''.contents a.destination = sampleTree.contents a.destination) ↔
    ∀ a ∈ samplePlan.assets, (sampleTree.contents a.destination).isSome ∧
      (1 ≠ 1 → sampleTree.contents a.destination = sampleTree.contents a.source)) := by
  obtain ⟨tree', hinstall⟩ : ∃ tree', installAssets sampleMachine (fun _ => none) samplePlan
      sampleTree = .ok sampleRollback tree' := ⟨_, rfl⟩
  exact ⟨tree', hinstall, rollback_restores_iff samplePlan_apart (by simp [samplePlan])
    (.once hinstall) sampleRollback_read⟩

/-- There is no server yet. -/
def sampleTreeNew : Tree := fun path =>
  if path = ["cache", "v2", "stream-server.exe"] then some (.file [110, 101, 119]) else none

/-- The new file is there after rolling back. -/
theorem newFile_not_removed : ∃ tree',
    Applied sampleMachine samplePlan 1 sampleTreeNew ⟨"2", []⟩ tree' ∧
    ¬ ∃ tree'', rollbackUpdate sampleMachine noFaults
        (rollbackPath (sampleMachine.backupDir samplePlan.targetVersion)) tree' = .ok () tree'' ∧
      ∀ a ∈ samplePlan.assets,
        tree''.contents a.destination = sampleTreeNew.contents a.destination := by
  obtain ⟨tree', hinstall⟩ : ∃ tree', installAssets sampleMachine (fun _ => none) samplePlan
      sampleTreeNew = .ok ⟨"2", []⟩ tree' := ⟨_, rfl⟩
  refine ⟨tree', .once hinstall, ?_⟩
  rintro ⟨tree'', hrun, hrestored⟩
  have hinstalled := (ends_installAssets samplePlan_apart).of_ok hinstall
  obtain ⟨left, hleft, hcontents⟩ := hinstalled.rolledBack samplePlan_apart
    (by simp [samplePlan]) sampleEmpty_read
  rw [hrun] at hleft
  obtain rfl : tree'' = left := by
    injection hleft
  have hdest := (hcontents sampleAsset (List.mem_singleton_self _)).symm.trans
    (hrestored sampleAsset (List.mem_singleton_self _))
  cases hdest

end StreamServer.Updater

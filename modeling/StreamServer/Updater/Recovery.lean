import StreamServer.Updater.Replacement

/-!
# An update that fails

The rollback plan is written when all files have been replaced.  An update that fails before has
nothing to go back by, though it may have replaced some files and taken one away.

## Main definitions

* `Recoverable` — all is as it was, or the plan that was written names what is no longer there.
* `Spared` — a condition on the place where the update fails: no file was changed before it, or the
  plan is written.

## Main results

* `ends_installAssets` — what the destinations hold, wherever the update stops.
* `recoverable_iff` — an update that fails is recoverable just if the condition holds.

## References

`updater-helper/src/main.rs`, `apply_update`, `replace_file`.
-/

namespace StreamServer.Updater

open FileTree

variable {machine : Machine} {faults : Faults Place} {plan : ApplyPlan} {tree tree' : Tree}
  {contents : Contents}

/-! ### The condition -/

/-- Installing the assets of the list leaves what their destinations hold: each destination, by the
last asset that goes there, holds the bytes of the source already. -/
def Settled (contents : Contents) (assets : List ApplyAsset) : Prop :=
  ∀ before asset behind, assets = before ++ asset :: behind →
    (∀ later ∈ behind, later.destination ≠ asset.destination) →
    contents asset.destination = contents asset.source

/-- The places where a failure leaves a way back. -/
def Spared (plan : ApplyPlan) (contents : Contents) : Place → Prop
  | .asset index .rename => ∀ asset ∈ plan.assets[index]?, contents asset.destination = none ∧
      Settled contents
        ((plan.assets.take index).filter (·.destination ≠ asset.destination))
  | .asset index .checkInstalled => Settled contents (plan.assets.take (index + 1))
  | .asset index _ => Settled contents (plan.assets.take index)
  | .rollbackPlan => Settled contents plan.assets
  | _ => True

theorem exists_last {assets : List ApplyAsset} {path : FilePath}
    (h : ∃ a ∈ assets, a.destination = path) :
    ∃ before asset behind, assets = before ++ asset :: behind ∧ asset.destination = path ∧
      ∀ later ∈ behind, later.destination ≠ path := by
  induction assets with
  | nil => simp at h
  | cons first assets ih =>
    by_cases hlater : ∃ a ∈ assets, a.destination = path
    · obtain ⟨before, asset, behind, rfl, hasset, hbehind⟩ := ih hlater
      exact ⟨first :: before, asset, behind, rfl, hasset, hbehind⟩
    · obtain ⟨a, ha, hpath⟩ := h
      push Not at hlater
      rcases List.mem_cons.mp ha with rfl | hmem
      · exact ⟨[], a, assets, rfl, hpath, hlater⟩
      · exact absurd hpath (hlater a hmem)

theorem installAll_append (before behind : List ApplyAsset) :
    installAll contents (before ++ behind) = installAll (installAll contents before) behind :=
  List.foldl_append

/-- What the last asset that goes to a path leaves there. -/
theorem installAll_last {before behind : List ApplyAsset} {asset : ApplyAsset}
    (hsource : ∀ a ∈ before, asset.source ≠ a.destination)
    (hbehind : ∀ later ∈ behind, later.destination ≠ asset.destination) :
    installAll contents (before ++ asset :: behind) asset.destination = contents asset.source := by
  rw [installAll_append, installAll_cons,
    installAll_of_notMem fun a ha => (hbehind a ha).symm, install_destination,
    installAll_of_notMem hsource]

theorem settled_iff {assets done : List ApplyAsset}
    (hsources : ∀ a ∈ assets, ∀ b ∈ assets, a.source ≠ b.destination)
    (hdone : ∀ a ∈ done, a ∈ assets) :
    (∀ a ∈ assets, installAll contents done a.destination = contents a.destination) ↔
      Settled contents done := by
  constructor
  · rintro h before asset behind rfl hbehind
    rw [← h asset (hdone asset (by simp)), installAll_last (fun a ha => ?_) hbehind]
    exact hsources asset (hdone asset (by simp)) a (hdone a (by simp [ha]))
  · intro h a ha
    by_cases hgoes : ∃ b ∈ done, b.destination = a.destination
    · obtain ⟨before, asset, behind, rfl, hasset, hbehind⟩ := exists_last hgoes
      rw [← hasset] at hbehind ⊢
      rw [installAll_last (fun b hb => ?_) hbehind, h before asset behind rfl hbehind]
      exact hsources asset (hdone asset (by simp)) b (hdone b (by simp [hb]))
    · push Not at hgoes
      exact installAll_of_notMem fun b hb => (hgoes b hb).symm

/-- The assets that go to `gone` matter nowhere else. -/
theorem installAll_filter {done : List ApplyAsset} {gone path : FilePath}
    (hsources : ∀ a ∈ done, a.source ≠ gone) (hpath : path ≠ gone) :
    installAll contents (done.filter (·.destination ≠ gone)) path =
      installAll contents done path := by
  induction done generalizing contents with
  | nil => rfl
  | cons asset done ih =>
    have hrest : ∀ a ∈ done, a.source ≠ gone := fun a ha => hsources a (.tail _ ha)
    by_cases hgone : asset.destination = gone
    · rw [List.filter_cons_of_neg (by simpa using hgone), installAll_cons]
      refine installAll_congr (P := (· ≠ gone)) (fun a ha => hrest a ?_) (fun q hq => ?_) path hpath
        |>.trans (ih hrest)
      · exact List.mem_of_mem_filter ha
      · rw [install_of_ne (hgone ▸ hq)]
    · rw [List.filter_cons_of_pos (by simpa using hgone), installAll_cons, installAll_cons, ih hrest]

/-! ### Up to the rollback plan -/

/-- The files of a plan are apart from those the helper makes. -/
structure ApplyPlan.FilesApart (plan : ApplyPlan) (machine : Machine) : Prop where
  assets : Apart (machine.backupDir plan.targetVersion) plan.assets
  runtimes : ∀ dir ∈ plan.stremioDirs, ∀ a ∈ plan.assets,
    a.source ≠ runtimeBackup dir ∧ a.destination ≠ runtimeBackup dir

/-- The places in front of the first asset. -/
def Place.early : Place → Prop
  | .readPlan | .verify _ | .serverJs _ | .runtimeBackup _ | .backupDir => True
  | _ => False

theorem ends_verifyAssets {index : ℕ} {assets : List ApplyAsset} :
    Ends (verifyAssets machine faults index assets) tree (fun _ tree' => tree' = tree)
      (fun place tree' => place.early ∧ tree' = tree) := by
  induction assets generalizing index with
  | nil => rfl
  | cons asset assets ih =>
    rw [verifyAssets, ends_bind]
    refine ends_checkSum.mono (fun _ checked hchecked => ?_) fun place tree' hfailed => ?_
    · rw [hchecked.1]
      exact ih
    · obtain ⟨rfl, htree'⟩ := hfailed
      exact ⟨trivial, htree'⟩

theorem ends_ensureRuntimeBackup {index : ℕ} {dir : FilePath} :
    Ends (ensureStremioRuntimeBackup faults index dir) tree
      (fun _ tree' => KeepsDirs tree tree' ∧
        ∀ path ≠ runtimeBackup dir, tree'.contents path = tree.contents path)
      (fun place tree' => place.early ∧
        ∀ path ≠ runtimeBackup dir, tree'.contents path = tree.contents path) := by
  have hsame : KeepsDirs tree tree ∧
      ∀ path ≠ runtimeBackup dir, tree.contents path = tree.contents path :=
    ⟨KeepsDirs.refl tree, fun _ _ => rfl⟩
  unfold ensureStremioRuntimeBackup
  rw [ends_bind, ends_pathExists]
  split
  · rw [ends_bind, ends_pathExists]
    split
    · exact hsame
    · rw [ends_bind, ends_pathExists]
      split
      · refine ends_attemptWrite (fun tree' hcopy => ?_) fun tree' htree' => ⟨trivial, htree'⟩
        obtain ⟨bytes, -, hcontents⟩ := contents_copy hcopy
        refine ⟨keepsDirs_copy hcopy, fun path hpath => ?_⟩
        rw [hcontents, Function.update_of_ne hpath]
      · exact hsame
  · exact ⟨trivial, hsame.2⟩

theorem ends_ensureRuntimeBackups {index : ℕ} {dirs : List FilePath} :
    Ends (ensureRuntimeBackups faults index dirs) tree
      (fun _ tree' => KeepsDirs tree tree' ∧
        ∀ path, (∀ dir ∈ dirs, path ≠ runtimeBackup dir) →
          tree'.contents path = tree.contents path)
      (fun place tree' => place.early ∧
        ∀ path, (∀ dir ∈ dirs, path ≠ runtimeBackup dir) →
          tree'.contents path = tree.contents path) := by
  induction dirs generalizing index tree with
  | nil => exact ⟨KeepsDirs.refl tree, fun _ _ => rfl⟩
  | cons dir dirs ih =>
    rw [ensureRuntimeBackups, ends_bind]
    refine ends_ensureRuntimeBackup.mono (fun _ tree₁ hfirst => ?_) fun place tree' hfailed => ?_
    · have hstep : ∀ tree' : Tree,
          (∀ path, (∀ dir ∈ dirs, path ≠ runtimeBackup dir) →
            tree'.contents path = tree₁.contents path) →
          ∀ path, (∀ dir' ∈ dir :: dirs, path ≠ runtimeBackup dir') →
            tree'.contents path = tree.contents path := by
        intro tree' hrest path hpath
        rw [hrest path fun dir' hdir' => hpath dir' (.tail _ hdir'),
          hfirst.2 path (hpath dir (.head _))]
      refine ih.mono (fun _ tree' hrest => ?_) fun place tree' hfailed => ?_
      · exact ⟨hfirst.1.trans hrest.1, hstep tree' hrest.2⟩
      · exact ⟨hfailed.1, hstep tree' hfailed.2⟩
    · exact ⟨hfailed.1, fun path hpath => hfailed.2 path (hpath dir (.head _))⟩

/-- The assets are installed and the plan is written. -/
structure Installed (machine : Machine) (plan : ApplyPlan) (tree tree' : Tree)
    (rollback : RollbackPlan) : Prop where
  installed : ∀ a ∈ plan.assets,
    tree'.contents a.destination = installAll tree.contents plan.assets a.destination
  source : ∀ a ∈ plan.assets, tree'.contents a.source = tree.contents a.source
  sources : ∀ a ∈ plan.assets, (tree.contents a.source).isSome
  kept : ∀ a ∈ plan.assets, ∀ old, tree.contents a.destination = some old →
    ∃ file ∈ rollback.files, file.destination = a.destination ∧
      tree'.contents file.backup = some old
  backups : ∀ file ∈ rollback.files, machine.backupDir plan.targetVersion <+: file.backup ∧
    ∃ a ∈ plan.assets, file.destination = a.destination
  sublist : (rollback.files.map (·.destination)).Sublist (plan.assets.map (·.destination))
  existed : (plan.assets.map (·.destination)).Nodup → ∀ file ∈ rollback.files,
    (tree.contents file.destination).isSome
  places : ∀ a ∈ plan.assets, a.destination ≠ [] ∧
    ∀ path, path <+: a.destination.dropLast → tree' path = some .dir
  written : tree'.contents (rollbackPath (machine.backupDir plan.targetVersion)) =
    some (machine.writeRollback rollback)

/-- What a destination holds when the update stops at a place. -/
def held (plan : ApplyPlan) (contents : Contents) (place : Place) : Contents :=
  match place with
  | .asset index step => fun path =>
    match plan.assets[index]? with
    | some asset =>
      if path = asset.destination then
        heldAt step (installAll contents (plan.assets.take index) path) (contents asset.source)
      else installAll contents (plan.assets.take index) path
    | none => contents path
  | .rollbackPlan | .launchMsi | .restart => installAll contents plan.assets
  | _ => contents

theorem held_early {place : Place} (h : place.early) : held plan contents place = contents := by
  cases place <;> first | rfl | exact h.elim

/-- The first assets of a plan, in front of the one at which it stops. -/
theorem held_asset {done rest : List ApplyAsset} {asset : ApplyAsset} {step : Step}
    (h : plan.assets = done ++ asset :: rest) (path : FilePath) :
    held plan contents (.asset done.length step) path =
      if path = asset.destination then
        heldAt step (installAll contents done path) (contents asset.source)
      else installAll contents done path := by
  simp [held, h]

theorem ne_rollbackPath {dir path : FilePath} (h : ¬ dir <+: path) : path ≠ rollbackPath dir := by
  intro he
  exact h (he ▸ FilePath.prefix_join ..)

/-- The files of the assets hold the same in two trees. -/
def SameFiles (assets : List ApplyAsset) (tree tree' : Tree) : Prop :=
  ∀ a ∈ assets, tree'.contents a.source = tree.contents a.source ∧
    tree'.contents a.destination = tree.contents a.destination

theorem SameFiles.installAll {assets done : List ApplyAsset} (h : SameFiles assets tree tree')
    (hdone : ∀ a ∈ done, a ∈ assets) {asset : ApplyAsset} (ha : asset ∈ assets) :
    installAll tree'.contents done asset.destination =
      installAll tree.contents done asset.destination := by
  refine installAll_congr (P := fun path => ∃ a ∈ assets, path = a.source ∨ path = a.destination)
    (fun b hb => ⟨b, hdone b hb, Or.inl rfl⟩) ?_ _ ⟨asset, ha, Or.inr rfl⟩
  rintro path ⟨b, hb, rfl | rfl⟩
  · exact (h b hb).1
  · exact (h b hb).2

/-- The plan is written where all assets have been replaced. -/
theorem ReplacedAll.write {made replaced : Tree} {files : List RollbackFile}
    (hapart : Apart (machine.backupDir plan.targetVersion) plan.assets)
    (hsame : SameFiles plan.assets tree made)
    (h : ReplacedAll (machine.backupDir plan.targetVersion) 0 plan.assets made replaced files)
    (hwrite : replaced.write (rollbackPath (machine.backupDir plan.targetVersion))
      (machine.writeRollback ⟨plan.targetVersion, files⟩) = some tree') :
    Installed machine plan tree tree' ⟨plan.targetVersion, files⟩ := by
  have hcontents := contents_write hwrite
  have hother : ∀ path, path ≠ rollbackPath (machine.backupDir plan.targetVersion) →
      tree'.contents path = replaced.contents path := by
    intro path hpath
    rw [hcontents, Function.update_of_ne hpath]
  refine ⟨fun a ha => ?_, fun a ha => ?_, fun a ha => ?_, fun a ha old hold => ?_,
    fun file hfile => ?_, h.sublist, fun hnodup file hfile => ?_, fun a ha => ?_, ?_⟩
  · rw [hother _ (ne_rollbackPath (hapart.destination_dir a ha)),
      h.installed _ (hapart.not_own_destination ha), hsame.installAll (fun _ hb => hb) ha]
  · rw [hother _ (ne_rollbackPath (hapart.source_dir a ha)),
      h.installed _ (hapart.not_own_source ha),
      installAll_of_notMem (hapart.source_destination a ha), (hsame a ha).1]
  · rw [← (hsame a ha).1]
    exact h.sources a ha
  · rw [← (hsame a ha).2] at hold
    obtain ⟨file, hfile, hfileDest, hkept⟩ := h.kept a ha old hold
    obtain ⟨b, -, -, i, -, hbackup⟩ := h.backups file hfile
    refine ⟨file, hfile, hfileDest, ?_⟩
    rw [hother _ (hbackup ▸ rollbackPath_ne_backup.symm), hkept]
  · obtain ⟨b, hb, hfileDest, i, -, hbackup⟩ := h.backups file hfile
    exact ⟨hbackup ▸ FilePath.prefix_join .., b, hb, hfileDest⟩
  · have hsome := h.existed hnodup file hfile
    obtain ⟨b, hb, hfileDest, -⟩ := h.backups file hfile
    rwa [hfileDest, (hsame b hb).2, ← hfileDest] at hsome
  · obtain ⟨hplace, hparent⟩ := h.places a ha
    exact ⟨hplace, fun path hpath => keepsDirs_write hwrite path (hparent path hpath)⟩
  · rw [hcontents, Function.update_self]

/-- An update that stops at a place where the destinations hold what `held` says. -/
structure Halted (plan : ApplyPlan) (tree tree' : Tree) (place : Place) : Prop where
  not_launch : place ≠ .launchMsi ∧ place ≠ .restart
  index_lt : ∀ index step, place = .asset index step → index < plan.assets.length
  held_eq : ∀ a ∈ plan.assets,
    tree'.contents a.destination = held plan tree.contents place a.destination

theorem Halted.of_early {place : Place} (hplace : place.early)
    (hsame : ∀ a ∈ plan.assets, tree'.contents a.destination = tree.contents a.destination) :
    Halted plan tree tree' place := by
  refine ⟨⟨?_, ?_⟩, ?_, fun a ha => by rw [held_early hplace, hsame a ha]⟩
  · rintro rfl
    exact hplace
  · rintro rfl
    exact hplace
  · rintro index step rfl
    exact hplace.elim

theorem StoppedAt.halted {made : Tree} {place : Place}
    (hapart : Apart (machine.backupDir plan.targetVersion) plan.assets)
    (hsame : SameFiles plan.assets tree made)
    (h : StoppedAt (machine.backupDir plan.targetVersion) 0 plan.assets made tree' place) :
    Halted plan tree tree' place := by
  obtain ⟨done, asset, rest, step, hsplit, rfl, hcontents⟩ := h
  rw [Nat.zero_add]
  refine ⟨by simp, ?_, fun a ha => ?_⟩
  · intro index _ he
    obtain ⟨rfl, -⟩ := Place.asset.inj he
    simp [hsplit]
  have hdone : ∀ b ∈ done, b ∈ plan.assets := fun b hb => by simp [hsplit, hb]
  have hasset : asset ∈ plan.assets := by simp [hsplit]
  rw [hcontents _ (hapart.not_own_destination ha), held_asset hsplit,
    hsame.installAll hdone ha,
    installAll_of_notMem fun b hb => hapart.source_destination asset hasset b (hdone b hb),
    (hsame asset hasset).1]

theorem ends_installAssets (hapart : plan.FilesApart machine) :
    Ends (installAssets machine faults plan) tree
      (fun rollback tree' => Installed machine plan tree tree' rollback)
      (fun place tree' => Halted plan tree tree' place) := by
  obtain ⟨hassets, hruntimes⟩ := hapart
  unfold installAssets
  rw [ends_bind]
  refine ends_verifyAssets.mono (fun _ verified hverified => ?_) fun place tree' hfailed => ?_
  rotate_left
  · exact .of_early hfailed.1 fun a _ => by rw [hfailed.2]
  obtain rfl : tree = verified := hverified.symm
  rw [ends_bind]
  refine ends_ensureRuntimeBackups.mono (fun _ ensured hensured => ?_) fun place tree' hfailed => ?_
  rotate_left
  · exact .of_early hfailed.1 fun a ha => hfailed.2 _ fun dir hdir => (hruntimes dir hdir a ha).2
  have hsame : SameFiles plan.assets tree ensured := by
    intro a ha
    exact ⟨hensured.2 _ fun dir hdir => (hruntimes dir hdir a ha).1,
      hensured.2 _ fun dir hdir => (hruntimes dir hdir a ha).2⟩
  simp only [ends_bind]
  refine ends_attempt (fun made hmade => ?_) (.of_early trivial fun a ha => (hsame a ha).2)
  have hsame : SameFiles plan.assets tree made := by
    intro a ha
    rw [contents_createDirAll hmade]
    exact hsame a ha
  refine (ends_replaceFiles hassets).mono (fun files replaced hreplaced => ?_)
    fun place tree' hstopped => hstopped.halted hassets hsame
  refine ends_attemptWrite (fun tree' hwrite => hreplaced.write hassets hsame hwrite)
    fun tree' hleft => ?_
  refine ⟨by simp, by simp, fun a ha => ?_⟩
  rw [hleft _ (ne_rollbackPath (hassets.destination_dir a ha)),
    hreplaced.installed _ (hassets.not_own_destination ha), hsame.installAll (fun _ hb => hb) ha]
  rfl

/-! ### The update -/

/-- Every destination is as it was, or there is a rollback plan from this run, which names a copy of
the bytes of each file that no longer has them. -/
def Recoverable (machine : Machine) (faults : Faults Place) (plan : ApplyPlan)
    (tree tree' : Tree) : Prop :=
  (∀ a ∈ plan.assets, tree'.contents a.destination = tree.contents a.destination) ∨
    ∃ rollback written, installAssets machine faults plan tree = .ok rollback written ∧
      tree'.contents (rollbackPath (machine.backupDir plan.targetVersion)) =
        some (machine.writeRollback rollback) ∧
      ∀ a ∈ plan.assets, ∀ old, tree.contents a.destination = some old →
        tree'.contents a.destination ≠ some old →
        ∃ file ∈ rollback.files, file.destination = a.destination ∧
          tree'.contents file.backup = some old

theorem applyUpdate_of_plan {planPath : FilePath} (hfault : faults .readPlan = none)
    (hplan : (tree.contents planPath).bind machine.readApply = some plan) :
    applyUpdate machine faults planPath tree =
      (installAssets machine faults plan >>= fun _ => launch faults plan) tree := by
  unfold applyUpdate
  refine bind_of_ok ?_
  simp [attemptRead, hfault, hplan]

theorem ends_launch :
    Ends (launch faults plan) tree (fun _ _ => True) (fun place tree' =>
      (place = .launchMsi ∨ place = .restart) ∧ tree' = tree) := by
  have hrestart : Ends (if plan.restartCommand ≠ [] then attempt faults .restart some else pure ())
      tree (fun _ _ => True)
      (fun place tree' => (place = .launchMsi ∨ place = .restart) ∧ tree' = tree) := by
    split
    · exact ends_attempt (fun _ _ => trivial) ⟨Or.inr rfl, rfl⟩
    · trivial
  unfold launch
  by_cases hmsi : plan.msiSource.isSome
  · simp only [hmsi, if_true, ends_bind]
    refine ends_attempt (fun launched hlaunched => ?_) ⟨Or.inl rfl, rfl⟩
    obtain rfl : tree = launched := Option.some.inj hlaunched
    exact hrestart
  · simp only [hmsi, Bool.false_eq_true, if_false]
    exact hrestart

/-- The condition at an asset, by the step that fails. -/
theorem held_asset_iff (contents : Contents) {done rest : List ApplyAsset} {asset : ApplyAsset}
    (hsources : ∀ a ∈ plan.assets, ∀ b ∈ plan.assets, a.source ≠ b.destination)
    (hsplit : plan.assets = done ++ asset :: rest) (step : Step) :
    (∀ a ∈ plan.assets, held plan contents (.asset done.length step) a.destination =
      contents a.destination) ↔ Spared plan contents (.asset done.length step) := by
  have htake : plan.assets.take done.length = done := by simp [hsplit]
  have hasset : asset ∈ plan.assets := by simp [hsplit]
  have hdone : ∀ a ∈ done, a ∈ plan.assets := fun a ha => by simp [hsplit, ha]
  simp only [held_asset hsplit]
  -- Before the old file is removed, the destination is as it was in front of the asset.
  have hold : (∀ old new, heldAt step old new = old) →
      ((∀ a ∈ plan.assets, (if a.destination = asset.destination then
          heldAt step (installAll contents done a.destination) (contents asset.source)
        else installAll contents done a.destination) = contents a.destination) ↔
        Settled contents (plan.assets.take done.length)) := by
    intro hstep
    simp only [hstep, ite_self, htake]
    exact settled_iff hsources hdone
  cases step with
  | rename =>
    have hget : plan.assets[done.length]? = some asset := by simp [hsplit]
    simp only [Spared, hget, htake, Option.mem_some_iff, forall_eq', heldAt]
    rw [← settled_iff hsources fun a ha => hdone a (List.mem_of_mem_filter ha)]
    constructor
    · intro h
      refine ⟨by simpa using (h asset hasset).symm, fun a ha => ?_⟩
      by_cases hdest : a.destination = asset.destination
      · refine installAll_of_notMem fun b hb => ?_
        rw [hdest]
        exact Ne.symm (by simpa using List.of_mem_filter hb)
      · rw [installAll_filter (fun b hb => hsources b (hdone b hb) asset hasset) hdest]
        simpa [hdest] using h a ha
    · rintro ⟨hnone, h⟩ a ha
      by_cases hdest : a.destination = asset.destination
      · simp [hdest, hnone]
      · rw [if_neg hdest, ← h a ha,
          installAll_filter (fun b hb => hsources b (hdone b hb) asset hasset) hdest]
  | checkInstalled =>
    have htakeSucc : plan.assets.take (done.length + 1) = done ++ [asset] := by
      rw [hsplit, List.take_length_add_append]
      rfl
    rw [Spared, htakeSucc, ← settled_iff hsources fun a ha => by
      rcases List.mem_append.mp ha with ha | ha
      · exact hdone a ha
      · rwa [List.mem_singleton.mp ha]]
    refine forall₂_congr fun a _ => ?_
    rw [installAll_append, installAll_cons, installAll_nil, heldAt]
    split
    · next hdest =>
      rw [hdest, install_destination,
        installAll_of_notMem fun b hb => hsources asset hasset b (hdone b hb)]
    · next hdest => rw [install_of_ne hdest]
  | checkSource => exact hold fun _ _ => rfl
  | parent => exact hold fun _ _ => rfl
  | createParent => exact hold fun _ _ => rfl
  | backUp => exact hold fun _ _ => rfl
  | removeTemp => exact hold fun _ _ => rfl
  | copyTemp => exact hold fun _ _ => rfl
  | removeOld => exact hold fun _ _ => rfl

/-- All is as it was where the update stops just if what was installed has changed nothing. -/
theorem Halted.spared_iff {place : Place}
    (hsources : ∀ a ∈ plan.assets, ∀ b ∈ plan.assets, a.source ≠ b.destination)
    (h : Halted plan tree tree' place) :
    (∀ a ∈ plan.assets, tree'.contents a.destination = tree.contents a.destination) ↔
      Spared plan tree.contents place := by
  obtain ⟨hlaunch, hindex, hheld⟩ := h
  trans ∀ a ∈ plan.assets, held plan tree.contents place a.destination =
    tree.contents a.destination
  · refine forall₂_congr fun a ha => ?_
    rw [hheld a ha]
  cases place with
  | asset index step =>
    have hlt := hindex index step rfl
    have hsplit : plan.assets =
        plan.assets.take index ++ plan.assets[index] :: plan.assets.drop (index + 1) := by
      rw [← List.drop_eq_getElem_cons hlt, List.take_append_drop]
    have hlength : (plan.assets.take index).length = index := by
      rw [List.length_take]
      omega
    have hiff := held_asset_iff tree.contents hsources hsplit step
    rwa [hlength] at hiff
  | rollbackPlan => exact settled_iff hsources fun _ ha => ha
  | launchMsi => exact absurd rfl hlaunch.1
  | restart => exact absurd rfl hlaunch.2
  | readPlan => exact iff_of_true (fun _ _ => rfl) trivial
  | verify => exact iff_of_true (fun _ _ => rfl) trivial
  | serverJs => exact iff_of_true (fun _ _ => rfl) trivial
  | runtimeBackup => exact iff_of_true (fun _ _ => rfl) trivial
  | backupDir => exact iff_of_true (fun _ _ => rfl) trivial

theorem recoverable_iff {planPath : FilePath} {place : Place}
    (hplan : (tree.contents planPath).bind machine.readApply = some plan)
    (hapart : plan.FilesApart machine)
    (hrun : applyUpdate machine faults planPath tree = .error place tree') :
    Recoverable machine faults plan tree tree' ↔ Spared plan tree.contents place := by
  suffices h : Ends (applyUpdate machine faults planPath) tree (fun _ _ => True)
      (fun place tree' => Recoverable machine faults plan tree tree' ↔
        Spared plan tree.contents place) from h.of_error hrun
  unfold applyUpdate
  rw [ends_bind]
  refine ends_attemptRead (fun read hread => ?_) ?_
  rotate_left
  · exact iff_of_true (Or.inl fun a _ => rfl) trivial
  obtain rfl : plan = read := Option.some.inj (hplan.symm.trans hread)
  rw [ends_bind]
  refine (ends_installAssets hapart).with_run.mono (fun rollback written hok => ?_)
    fun place tree' herror => ?_
  · obtain ⟨hinstall, hinstalled⟩ := hok
    refine ends_launch.mono (fun _ _ _ => trivial) fun place tree' hfailed => ?_
    obtain ⟨hplace, rfl⟩ := hfailed
    refine iff_of_true (Or.inr ⟨rollback, _, hinstall, hinstalled.written, ?_⟩) ?_
    · intro a ha old hold _
      exact hinstalled.kept a ha old hold
    · rcases hplace with rfl | rfl <;> trivial
  · obtain ⟨hinstall, hhalted⟩ := herror
    rw [← hhalted.spared_iff hapart.assets.source_destination]
    refine or_iff_left ?_
    rintro ⟨rollback, written, hok, -⟩
    rw [hinstall] at hok
    cases hok

/-! ### One file -/

/-- The server is replaced by a new one, with the bytes `new`. -/
def sampleAsset : ApplyAsset where
  source := ["cache", "v2", "stream-server.exe"]
  destination := ["app", "stream-server.exe"]
  sha256 := "11507a0e2f5e69d5dfa40a62a1bd7b6ee57e6bcd85c67c9b8431b36fff21c437"

/-- A plan for one asset. -/
def samplePlan : ApplyPlan where
  targetVersion := "2"
  restartCommand := []
  stremioDirs := []
  assets := [sampleAsset]
  msiSource := none

/-- The bytes of a text without other characters than ASCII. -/
def asciiBytes (text : String) : Bytes := text.toList.map fun c => c.toNat.toUInt8

/-- The text of the plan. -/
def sampleJson : Bytes :=
  asciiBytes ("\x7b\"targetVersion\":\"2\",\"parentPid\":0,\"restartCommand\":[],\"standaloneTarget\":null," ++
    "\"stremioDirs\":[],\"assets\":[\x7b\"source\":\"/cache/v2/stream-server.exe\"," ++
    "\"destination\":\"/app/stream-server.exe\",\"sha256\":\"" ++ sampleAsset.sha256 ++
    "\"\x7d],\"allowStopStremio\":false,\"msiSource\":null\x7d")

/-- The plan of its rollback. -/
def sampleRollback : RollbackPlan where
  targetVersion := "2"
  files := [⟨["local", "stremio-server", "updates", "backup", "v2", "0-stream-server.exe"],
    ["app", "stream-server.exe"]⟩]

/-- The text of the rollback plan. -/
def sampleRollbackJson : Bytes :=
  asciiBytes ("\x7b\n  \"targetVersion\": \"2\",\n  \"files\": [\n    \x7b\n      \"backup\": " ++
    "\"/local/stremio-server/updates/backup/v2/0-stream-server.exe\",\n      \"destination\": " ++
    "\"/app/stream-server.exe\"\n    \x7d\n  ]\n\x7d")

/-- The text of a rollback plan without files. -/
def sampleEmptyJson : Bytes :=
  asciiBytes "\x7b\n  \"targetVersion\": \"2\",\n  \"files\": []\n\x7d"

/-- How the rollback plans are read. -/
def sampleRead (bytes : Bytes) : Option RollbackPlan :=
  if bytes = sampleRollbackJson then some sampleRollback
  else if bytes = sampleEmptyJson then some ⟨"2", []⟩ else none

/-- How the rollback plans are written. -/
def sampleWrite (plan : RollbackPlan) : Bytes :=
  if plan = sampleRollback then sampleRollbackJson else sampleEmptyJson

/-- A machine with these files. -/
def sampleMachine : Machine where
  dataLocalDir := ["local"]
  sha256 bytes := if bytes = [110, 101, 119] then sampleAsset.sha256 else ""
  readApply bytes := if bytes = sampleJson then some samplePlan else none
  readRollback := sampleRead
  writeRollback := sampleWrite

/-- The old server has the bytes `old`. -/
def sampleTree : Tree := fun path =>
  if path = ["cache", "v2", "stream-server.exe"] then some (.file [110, 101, 119])
  else if path = ["app", "stream-server.exe"] then some (.file [111, 108, 100])
  else if path = ["cache", "v2", "apply-plan.json"] then some (.file sampleJson)
  else none

/-- The new file cannot be moved into place. -/
def sampleFaults : Faults Place := fun place => if place = .asset 0 .rename then some none else none

theorem samplePlan_read :
    (sampleTree.contents ["cache", "v2", "apply-plan.json"]).bind sampleMachine.readApply =
      some samplePlan := by
  have hcontents : sampleTree.contents ["cache", "v2", "apply-plan.json"] = some sampleJson := rfl
  have hread : sampleMachine.readApply =
      fun bytes => if bytes = sampleJson then some samplePlan else none := rfl
  rw [hcontents, hread, Option.bind_some, if_pos rfl]

theorem sample_renameFails : ∃ tree',
    installAssets sampleMachine sampleFaults samplePlan sampleTree = .error (.asset 0 .rename) tree' ∧
      tree'.contents sampleAsset.destination = none :=
  ⟨_, rfl, rfl⟩

/-- The old file is gone, and nothing says where its copy is. -/
theorem renameFails_not_recoverable : ∃ tree',
    applyUpdate sampleMachine sampleFaults ["cache", "v2", "apply-plan.json"] sampleTree =
      .error (.asset 0 .rename) tree' ∧
    ¬ Recoverable sampleMachine sampleFaults samplePlan sampleTree tree' := by
  obtain ⟨tree', hinstall, hgone⟩ := sample_renameFails
  refine ⟨tree', (applyUpdate_of_plan rfl samplePlan_read).trans (bind_of_error hinstall), ?_⟩
  rintro (hsame | ⟨rollback, written, hwritten, -⟩)
  · have hdest := hsame sampleAsset (List.mem_singleton_self _)
    rw [hgone] at hdest
    cases hdest
  · rw [hinstall] at hwritten
    cases hwritten

theorem samplePlan_apart : samplePlan.FilesApart sampleMachine where
  assets := by
    have htemp : sampleAsset.temp = ["app", ".stream-server.exe.update-tmp"] := by decide
    have hsource : sampleAsset.source = ["cache", "v2", "stream-server.exe"] := rfl
    have hdest : sampleAsset.destination = ["app", "stream-server.exe"] := rfl
    refine ⟨?_, ?_, ?_, ?_, ?_⟩ <;>
      simp [samplePlan, htemp, hsource, hdest, Machine.backupDir, sampleMachine]
  runtimes := by simp [samplePlan]

/-- The new file cannot be copied next to the old one. -/
def copyFaults : Faults Place := fun place => if place = .asset 0 .copyTemp then some none else none

/-- The old file is still there when the copy fails, and it is gone when the rename does. -/
theorem recoverable_iff_copy :
    (∃ tree', applyUpdate sampleMachine copyFaults ["cache", "v2", "apply-plan.json"] sampleTree =
        .error (.asset 0 .copyTemp) tree' ∧
      Recoverable sampleMachine copyFaults samplePlan sampleTree tree') ∧
    ∃ tree', applyUpdate sampleMachine sampleFaults ["cache", "v2", "apply-plan.json"] sampleTree =
        .error (.asset 0 .rename) tree' ∧
      (Recoverable sampleMachine sampleFaults samplePlan sampleTree tree' ↔
        Spared samplePlan sampleTree.contents (.asset 0 .rename)) := by
  constructor
  · obtain ⟨tree', hinstall⟩ : ∃ tree', installAssets sampleMachine copyFaults samplePlan sampleTree =
        .error (.asset 0 .copyTemp) tree' := ⟨_, rfl⟩
    have hrun := (applyUpdate_of_plan (show copyFaults .readPlan = none from rfl) samplePlan_read).trans
      (bind_of_error hinstall)
    refine ⟨tree', hrun, (recoverable_iff samplePlan_read samplePlan_apart hrun).mpr ?_⟩
    simp [Spared, Settled]
  · obtain ⟨tree', hinstall, -⟩ := sample_renameFails
    have hrun := (applyUpdate_of_plan (show sampleFaults .readPlan = none from rfl) samplePlan_read).trans
      (bind_of_error hinstall)
    exact ⟨tree', hrun, recoverable_iff samplePlan_read samplePlan_apart hrun⟩

end StreamServer.Updater

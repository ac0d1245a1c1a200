import StreamServer.Updater.Recovery
import StreamServer.Updater.Staging

/-!
# The plan the server makes

The server writes the plan that the helper applies: the new server goes where the running one is, and
to each Stremio directory go the server and the runtime.  A destination that is there already, up to
the case of letters, is not added again.

## Main definitions

* `prepareApplyPlan` — the plan for a staged update.
* `Layout` — where the programs are, where updates are staged and where copies are kept.

## Main results

* `pushAssetUnique_nodup` — no two assets have one destination.
* `prepareApplyPlan_apart` — the files of such a plan are apart from those the helper makes.

## References

`server/src/updater/installer.rs`, `prepare_apply_plan`.
-/

namespace StreamServer.Updater

/-- What the installer finds on the machine. -/
structure Host where
  windows : Bool
  currentExe : Option FilePath
  parentDirWritable : FilePath → Bool
  stremioDirs : List FilePath
  hasServerJs : FilePath → Bool
  /-- Whether the plan can be written. -/
  planWritten : Bool

/-- `same_path`: the case of letters does not count. -/
def samePath (left right : FilePath) : Bool :=
  left.map (·.toList.map Char.toLower) == right.map (·.toList.map Char.toLower)

/-- `push_asset_unique`. -/
def pushAssetUnique (assets : List ApplyAsset) (asset : ApplyAsset) : List ApplyAsset :=
  if assets.any fun existing => samePath existing.destination asset.destination then assets
  else assets ++ [asset]

/-- `staged_hash`. -/
def stagedHash (staged : StagedUpdate) (name : String) : Except UpdateErrorKind String :=
  match staged.hashes.lookup name with
  | some hash => .ok hash
  | none => .error .invalidRelease

/-- The assets of one Stremio directory. -/
def pushStremioAssets (staged : StagedUpdate) (serverHash runtimeHash : String)
    (assets : List ApplyAsset) (dir : FilePath) : List ApplyAsset :=
  pushAssetUnique
    (pushAssetUnique assets ⟨staged.assets.runtime, dir.join "stremio-runtime.exe", runtimeHash⟩)
    ⟨staged.assets.server, dir.join "stream-server.exe", serverHash⟩

/-- The asset in the place of the running server, or the installer that is started in its place. -/
def exeAssets (host : Host) (staged : StagedUpdate) (currentExe : FilePath) (serverHash : String) :
    Except UpdateErrorKind (List ApplyAsset × Option FilePath) :=
  if host.parentDirWritable currentExe then
    .ok (pushAssetUnique [] ⟨staged.assets.server, currentExe, serverHash⟩, none)
  else match staged.assets.msi with
    | some msi => .ok ([], some msi)
    | none => .error .conflict

/-- The helper, where its plan is, and the plan that is written there. -/
def prepareApplyPlan (host : Host) (staged : StagedUpdate) :
    Except UpdateErrorKind (FilePath × FilePath × ApplyPlan) :=
  if host.windows then
    match host.currentExe with
    | none => .error .io
    | some currentExe => do
      let serverHash ← stagedHash staged "stream-server-windows-amd64.exe"
      let runtimeHash ← stagedHash staged "stremio-runtime-windows-amd64.exe"
      let (assets, msiSource) ← exeAssets host staged currentExe serverHash
      let stremioDirs := host.stremioDirs.filter host.hasServerJs
      let plan : ApplyPlan :=
        { targetVersion := staged.version
          restartCommand := [String.intercalate "/" currentExe, "--silent"]
          stremioDirs := stremioDirs
          assets := stremioDirs.foldl (pushStremioAssets staged serverHash runtimeHash) assets
          msiSource := msiSource }
      if host.planWritten then .ok (staged.assets.updater, staged.dir.join "apply-plan.json", plan)
      else .error .io
  else .error .unsupported

/-! ### What holds of such a plan -/

variable {machine : Machine} {host : Host} {staged : StagedUpdate} {plan : ApplyPlan}
  {assets : List ApplyAsset} {asset : ApplyAsset}

/-- The directories where programs are. -/
def Host.Programs (host : Host) (dir : FilePath) : Prop :=
  dir ∈ host.stremioDirs ∨ ∃ exe, host.currentExe = some exe ∧ dir = exe.dropLast

/-- A name that is none of those the helper gives. -/
def ProgramName (name : String) : Prop :=
  name.toList.head? ≠ some '.' ∧ name ≠ "stremio-runtime.node.exe"

/-- Programs are neither where updates are staged nor where copies are kept, and the server has the
name of a program. -/
structure Layout (machine : Machine) (host : Host) (staged : StagedUpdate) : Prop where
  outside : ∀ dir, host.Programs dir → ∀ name, ¬ staged.dir <+: FilePath.join dir name ∧
    ¬ machine.backupDir staged.version <+: FilePath.join dir name
  exe : ∀ exe, host.currentExe = some exe →
    ∃ name, exe = FilePath.join exe.dropLast name ∧ ProgramName name
  server : staged.dir <+: staged.assets.server ∧
    ¬ machine.backupDir staged.version <+: staged.assets.server
  runtime : staged.dir <+: staged.assets.runtime ∧
    ¬ machine.backupDir staged.version <+: staged.assets.runtime

/-- An asset of such a plan. -/
def Placed (machine : Machine) (host : Host) (staged : StagedUpdate) (asset : ApplyAsset) : Prop :=
  (staged.dir <+: asset.source ∧ ¬ machine.backupDir staged.version <+: asset.source) ∧
    ∃ dir name, host.Programs dir ∧ asset.destination = FilePath.join dir name ∧ ProgramName name

theorem mem_pushAssetUnique {a : ApplyAsset} (h : a ∈ pushAssetUnique assets asset) :
    a ∈ assets ∨ a = asset := by
  unfold pushAssetUnique at h
  split at h
  · exact Or.inl h
  · simpa using h

theorem pushAssetUnique_nodup (h : (assets.map (·.destination)).Nodup) :
    ((pushAssetUnique assets asset).map (·.destination)).Nodup := by
  unfold pushAssetUnique
  split
  · exact h
  · next hnew =>
    rw [List.map_append, List.nodup_append]
    refine ⟨h, by simp, ?_⟩
    intro path hpath path' hpath' he
    obtain ⟨existing, hmem, rfl⟩ := List.mem_map.mp hpath
    obtain rfl : path' = asset.destination := by simpa using hpath'
    refine hnew (List.any_eq_true.mpr ⟨existing, hmem, ?_⟩)
    rw [he]
    simp [samePath]

/-- By induction on the directories. -/
theorem foldl_pushStremioAssets (serverHash runtimeHash : String) {dirs : List FilePath}
    (hlayout : Layout machine host staged) (hdirs : ∀ dir ∈ dirs, dir ∈ host.stremioDirs)
    (hassets : ∀ a ∈ assets, Placed machine host staged a)
    (hnodup : (assets.map (·.destination)).Nodup) :
    (∀ a ∈ dirs.foldl (pushStremioAssets staged serverHash runtimeHash) assets,
      Placed machine host staged a) ∧
    ((dirs.foldl (pushStremioAssets staged serverHash runtimeHash) assets).map
      (·.destination)).Nodup := by
  induction dirs generalizing assets with
  | nil => exact ⟨hassets, hnodup⟩
  | cons dir dirs ih =>
    have hdir : host.Programs dir := Or.inl (hdirs dir (.head _))
    refine ih (fun d hd => hdirs d (.tail _ hd)) (fun a ha => ?_)
      (pushAssetUnique_nodup (pushAssetUnique_nodup hnodup))
    rcases mem_pushAssetUnique ha with ha | rfl
    · rcases mem_pushAssetUnique ha with ha | rfl
      · exact hassets a ha
      · exact ⟨hlayout.runtime, dir, _, hdir, rfl, by simp [ProgramName]⟩
    · exact ⟨hlayout.server, dir, _, hdir, rfl, by simp [ProgramName]⟩

/-- The place of the new file is one more name in the directory of a program. -/
theorem Placed.temp_eq (h : Placed machine host staged asset) :
    ∃ dir name, host.Programs dir ∧ asset.temp = FilePath.join dir name ∧
      name.toList.head? = some '.' := by
  obtain ⟨-, dir, name, hdir, hdest, -⟩ := h
  let fileName := asset.destination.fileName.getD "stream-server"
  refine ⟨dir, s!".{fileName}.update-tmp", hdir, ?_, by simp [toString]⟩
  have hparent : asset.destination.dropLast = dir := by
    rw [hdest, FilePath.join, List.dropLast_concat]
  rw [ApplyAsset.temp, hparent]

theorem Placed.apart (hlayout : Layout machine host staged)
    (h : ∀ a ∈ assets, Placed machine host staged a) :
    Apart (machine.backupDir staged.version) assets where
  source_destination a ha b hb he := by
    obtain ⟨-, dir, name, hdir, hdest, -⟩ := h b hb
    refine (hlayout.outside dir hdir name).1 ?_
    rw [← hdest, ← he]
    exact (h a ha).1.1
  source_temp a ha b hb he := by
    obtain ⟨dir, name, hdir, htemp, -⟩ := (h b hb).temp_eq
    refine (hlayout.outside dir hdir name).1 ?_
    rw [← htemp, ← he]
    exact (h a ha).1.1
  destination_temp a ha b hb he := by
    obtain ⟨-, dir, name, -, hdest, hname⟩ := h a ha
    obtain ⟨dir', name', -, htemp, hdot⟩ := (h b hb).temp_eq
    rw [hdest, htemp, FilePath.join_inj] at he
    exact hname.1 (he.2 ▸ hdot)
  source_dir a ha := (h a ha).1.2
  destination_dir a ha := by
    obtain ⟨-, dir, name, hdir, hdest, -⟩ := h a ha
    rw [hdest]
    exact (hlayout.outside dir hdir name).2

theorem Placed.runtimes (hlayout : Layout machine host staged) (h : Placed machine host staged asset)
    {dir : FilePath} (hdir : dir ∈ host.stremioDirs) :
    asset.source ≠ runtimeBackup dir ∧ asset.destination ≠ runtimeBackup dir := by
  obtain ⟨⟨hsource, -⟩, dir', name, -, hdest, hname⟩ := h
  constructor
  · intro he
    exact (hlayout.outside dir (Or.inl hdir) _).1 (he ▸ hsource)
  · intro he
    rw [hdest, runtimeBackup, FilePath.join_inj] at he
    exact hname.2 he.2

theorem exeAssets_placed {exe : FilePath} {serverHash : String} {msi : Option FilePath}
    (hlayout : Layout machine host staged) (hexe : host.currentExe = some exe)
    (h : exeAssets host staged exe serverHash = .ok (assets, msi)) :
    (∀ a ∈ assets, Placed machine host staged a) ∧ (assets.map (·.destination)).Nodup := by
  unfold exeAssets at h
  split at h
  · obtain ⟨rfl, -⟩ : pushAssetUnique [] ⟨staged.assets.server, exe, serverHash⟩ = assets ∧
        none = msi := by simpa using h
    refine ⟨fun a ha => ?_, pushAssetUnique_nodup (by simp)⟩
    obtain ⟨name, hname, hprogram⟩ := hlayout.exe exe hexe
    obtain rfl : a = _ := (mem_pushAssetUnique ha).resolve_left (by simp)
    exact ⟨hlayout.server, exe.dropLast, name, Or.inr ⟨exe, hexe, rfl⟩, hname, hprogram⟩
  · split at h
    · obtain ⟨rfl, -⟩ : [] = assets ∧ _ := by simpa using h
      simp
    · cases h

/-- What is written as the plan, where one is written. -/
theorem prepareApplyPlan_eq_ok {helper planPath : FilePath}
    (h : prepareApplyPlan host staged = .ok (helper, planPath, plan)) :
    ∃ exe serverHash runtimeHash assets msi, host.currentExe = some exe ∧
      exeAssets host staged exe serverHash = .ok (assets, msi) ∧
      plan.targetVersion = staged.version ∧
      plan.stremioDirs = host.stremioDirs.filter host.hasServerJs ∧
      plan.assets =
        plan.stremioDirs.foldl (pushStremioAssets staged serverHash runtimeHash) assets := by
  unfold prepareApplyPlan at h
  split at h
  · split at h
    · cases h
    · next exe hexe =>
      cases hserver : stagedHash staged "stream-server-windows-amd64.exe" with
      | error e =>
        rw [hserver] at h
        cases h
      | ok serverHash =>
        cases hruntime : stagedHash staged "stremio-runtime-windows-amd64.exe" with
        | error e =>
          rw [hserver, hruntime] at h
          cases h
        | ok runtimeHash =>
          cases hassets : exeAssets host staged exe serverHash with
          | error e =>
            rw [hserver, hruntime] at h
            simp only [bind, Except.bind, hassets] at h
            cases h
          | ok first =>
            rw [hserver, hruntime] at h
            simp only [bind, Except.bind, hassets] at h
            split at h
            · cases h
              exact ⟨exe, serverHash, runtimeHash, first.1, first.2, hexe, hassets, rfl, rfl, rfl⟩
            · cases h
  · cases h

/-- A plan of the server is one whose files are apart and whose destinations are different. -/
theorem prepareApplyPlan_apart {helper planPath : FilePath} (hlayout : Layout machine host staged)
    (h : prepareApplyPlan host staged = .ok (helper, planPath, plan)) :
    plan.FilesApart machine ∧ (plan.assets.map (·.destination)).Nodup := by
  obtain ⟨exe, serverHash, runtimeHash, assets, msi, hexe, hassets, hversion, hdirs, hplan⟩ :=
    prepareApplyPlan_eq_ok h
  obtain ⟨hplaced, hnodup⟩ := exeAssets_placed hlayout hexe hassets
  have hmem : ∀ dir ∈ plan.stremioDirs, dir ∈ host.stremioDirs := by
    rw [hdirs]
    exact fun dir hdir => List.mem_of_mem_filter hdir
  obtain ⟨hall, hallNodup⟩ := foldl_pushStremioAssets serverHash runtimeHash hlayout hmem hplaced
    hnodup
  rw [← hplan] at hall hallNodup
  refine ⟨⟨?_, fun dir hdir a ha => (hall a ha).runtimes hlayout (hmem dir hdir)⟩, hallNodup⟩
  rw [hversion]
  exact Placed.apart hlayout hall

end StreamServer.Updater

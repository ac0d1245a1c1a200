import StreamServer.Lib.Files
import StreamServer.Lib.Text

/-!
# The updater helper

The helper replaces the files of a plan one after the other, keeping a copy of what it replaces, and
writes down which copy belongs to which file when all are replaced.  The other way round it puts the
copies back.

## Main definitions

* `replaceFile` — one asset: copy away, copy next to it, remove, move into place, check.
* `installAssets`, `applyUpdate` — a plan.
* `rollbackUpdate` — back to the copies.

Paths are those the system resolves: two paths that differ are two files.  Every operation has a
place, and the environment lets it fail there if it likes.

## References

`updater-helper/src/main.rs`.
-/

namespace StreamServer.Updater

/-- What a file holds. -/
abbrev Bytes := List UInt8

/-- The files of the machine. -/
abbrev Tree := FileTree Bytes

/-- `ApplyAsset`. -/
structure ApplyAsset where
  source : FilePath
  destination : FilePath
  sha256 : String
  deriving DecidableEq, Repr

/-- `ApplyPlan`, the fields that decide which files change. -/
structure ApplyPlan where
  targetVersion : String
  restartCommand : List String
  stremioDirs : List FilePath
  assets : List ApplyAsset
  msiSource : Option FilePath
  deriving DecidableEq, Repr

/-- `RollbackFile`. -/
structure RollbackFile where
  backup : FilePath
  destination : FilePath
  deriving DecidableEq, Repr

/-- `RollbackPlan`. -/
structure RollbackPlan where
  targetVersion : String
  files : List RollbackFile
  deriving DecidableEq, Repr

/-- The steps with an asset. -/
inductive Step where
  | checkSource | parent | createParent | backUp | removeTemp | copyTemp | removeOld | rename
  | checkInstalled
  deriving DecidableEq, Repr

/-- The places where `applyUpdate` may stop. -/
inductive Place where
  | readPlan
  | verify (asset : ℕ)
  | serverJs (dir : ℕ)
  | runtimeBackup (dir : ℕ)
  | backupDir
  | asset (index : ℕ) (step : Step)
  | rollbackPlan
  | launchMsi
  | restart
  deriving DecidableEq, Repr

/-- The places where `rollbackUpdate` may stop. -/
inductive RollbackPlace where
  | readPlan
  | missing (file : ℕ)
  | createParent (file : ℕ)
  | restore (file : ℕ)
  deriving DecidableEq, Repr

/-- The machine the helper runs on, and the libraries it uses: where the local data of applications
are, the hash of a file, and plans as text. -/
structure Machine where
  dataLocalDir : FilePath
  sha256 : Bytes → String
  readApply : Bytes → Option ApplyPlan
  readRollback : Bytes → Option RollbackPlan
  writeRollback : RollbackPlan → Bytes

/-- The places that fail, and what a write that fails there leaves in its file. -/
abbrev Faults (π : Type) := π → Option (Option Bytes)

/-- A step of the helper, which fails at a place. -/
abbrev Apply (α : Type) := EStateM Place Tree α

/-! ### Paths -/

/-- The names in a text that is joined to a path. -/
def pathNames (text : String) : List String :=
  ((text.toList.splitOnP (fun c => c = '/' || c = '\\')).map String.ofList).filter
    (fun name => name ≠ "" ∧ name ≠ ".")

/-- The directory of the backups of a version. -/
def Machine.backupDir (machine : Machine) (targetVersion : String) : FilePath :=
  machine.dataLocalDir ++ ["stremio-server", "updates", "backup"] ++ pathNames s!"v{targetVersion}"

/-- Where the plan of the rollback stands. -/
def rollbackPath (backupDir : FilePath) : FilePath := backupDir.join "rollback-plan.json"

namespace ApplyAsset

/-- Where the file that the asset replaces is copied to. -/
def backup (asset : ApplyAsset) (backupDir : FilePath) (index : ℕ) : FilePath :=
  let fileName := asset.destination.fileName.getD "file"
  backupDir.join s!"{index}-{fileName}"

/-- Where the new file is before it is moved into place. -/
def temp (asset : ApplyAsset) : FilePath :=
  let fileName := asset.destination.fileName.getD "stream-server"
  FilePath.join asset.destination.dropLast s!".{fileName}.update-tmp"

end ApplyAsset

/-- Where the backup of the runtime stands. -/
def runtimeBackup (stremioDir : FilePath) : FilePath := stremioDir.join "stremio-runtime.node.exe"

/-! ### Applying a plan -/

section Apply

variable (machine : Machine) (faults : Faults Place)

open FileTree

/-- Checks that the file at `path` has the hash of the asset. -/
def checkSum (place : Place) (path : FilePath) (asset : ApplyAsset) : Apply Unit := do
  let actual ← attemptRead faults place fun tree => (tree.contents path).map machine.sha256
  if actual.eqIgnoreAsciiCase asset.sha256.trimSpaces then pure () else throw place

/-- The checksums of all assets, before anything is changed. -/
def verifyAssets (index : ℕ) : List ApplyAsset → Apply Unit
  | [] => pure ()
  | asset :: assets => do
    checkSum machine faults (.verify index) asset.source asset
    verifyAssets (index + 1) assets

/-- Whether there is something at `path`. -/
def pathExists {π : Type} (path : FilePath) : EStateM π Tree Bool := do
  let tree ← get
  pure (tree path).isSome

/-- `ensure_stremio_runtime_backup`. -/
def ensureStremioRuntimeBackup (index : ℕ) (stremioDir : FilePath) : Apply Unit := do
  if ← pathExists (stremioDir.join "server.js") then
    if ← pathExists (runtimeBackup stremioDir) then pure ()
    else if ← pathExists (stremioDir.join "stremio-runtime.exe") then
      attemptWrite faults (.runtimeBackup index) (runtimeBackup stremioDir)
        (·.copy (stremioDir.join "stremio-runtime.exe") (runtimeBackup stremioDir))
    else pure ()
  else throw (.serverJs index)

/-- The same for each directory. -/
def ensureRuntimeBackups (index : ℕ) : List FilePath → Apply Unit
  | [] => pure ()
  | dir :: dirs => do
    ensureStremioRuntimeBackup faults index dir
    ensureRuntimeBackups (index + 1) dirs

/-- Copies the destination away, if there is something. -/
def backUp (asset : ApplyAsset) (backupDir : FilePath) (index : ℕ) : Apply (Option FilePath) := do
  if ← pathExists asset.destination then
    let backup := asset.backup backupDir index
    attemptWrite faults (.asset index .backUp) backup (·.copy asset.destination backup)
    pure (some backup)
  else pure none

/-- Copies the new file next to the destination. -/
def copyTemp (asset : ApplyAsset) (index : ℕ) : Apply Unit := do
  if ← pathExists asset.temp then
    attempt faults (.asset index .removeTemp) (·.remove asset.temp)
  attemptWrite faults (.asset index .copyTemp) asset.temp (·.copy asset.source asset.temp)

/-- Puts the new file in the place of the old one. -/
def moveTemp (asset : ApplyAsset) (index : ℕ) : Apply Unit := do
  if ← pathExists asset.destination then
    attempt faults (.asset index .removeOld) (·.remove asset.destination)
  attempt faults (.asset index .rename) (·.rename asset.temp asset.destination)

/-- `replace_file`. -/
def replaceFile (asset : ApplyAsset) (backupDir : FilePath) (index : ℕ) :
    Apply (Option FilePath) := do
  checkSum machine faults (.asset index .checkSource) asset.source asset
  match asset.destination.parent with
  | none => throw (.asset index .parent)
  | some parent =>
    attempt faults (.asset index .createParent) (·.createDirAll parent)
    let backup ← backUp faults asset backupDir index
    copyTemp faults asset index
    moveTemp faults asset index
    checkSum machine faults (.asset index .checkInstalled) asset.destination asset
    pure backup

/-- Replaces the files of the assets from `index` on. -/
def replaceFiles (backupDir : FilePath) (index : ℕ) : List ApplyAsset → Apply (List RollbackFile)
  | [] => pure []
  | asset :: assets => do
    let backup ← replaceFile machine faults asset backupDir index
    let files ← replaceFiles backupDir (index + 1) assets
    pure ((backup.map (⟨·, asset.destination⟩)).toList ++ files)

/-- The update up to the rollback plan, which it returns. -/
def installAssets (plan : ApplyPlan) : Apply RollbackPlan := do
  verifyAssets machine faults 0 plan.assets
  ensureRuntimeBackups faults 0 plan.stremioDirs
  let backupDir := machine.backupDir plan.targetVersion
  attempt faults .backupDir (·.createDirAll backupDir)
  let files ← replaceFiles machine faults backupDir 0 plan.assets
  let rollback := ⟨plan.targetVersion, files⟩
  attemptWrite faults .rollbackPlan (rollbackPath backupDir)
    (·.write (rollbackPath backupDir) (machine.writeRollback rollback))
  pure rollback

/-- Starts the installer and the server, as far as the plan says so. -/
def launch (plan : ApplyPlan) : Apply Unit := do
  if plan.msiSource.isSome then attempt faults .launchMsi some
  if plan.restartCommand ≠ [] then attempt faults .restart some

/-- `apply_update`. -/
def applyUpdate (planPath : FilePath) : Apply Unit := do
  let plan ← attemptRead faults .readPlan fun tree =>
    (tree.contents planPath).bind machine.readApply
  let _ ← installAssets machine faults plan
  launch faults plan

end Apply

/-! ### Rolling back -/

section Rollback

variable (machine : Machine) (faults : Faults RollbackPlace)

open FileTree

/-- One file of the rollback. -/
def restoreFile (index : ℕ) (file : RollbackFile) : EStateM RollbackPlace Tree Unit := do
  let tree ← get
  if (tree file.backup).isSome then
    match file.destination.parent with
    | none => pure ()
    | some parent => attempt faults (.createParent index) (·.createDirAll parent)
    attemptWrite faults (.restore index) file.destination (·.copy file.backup file.destination)
  else throw (.missing index)

/-- The files of the rollback in turn. -/
def restoreFiles (index : ℕ) : List RollbackFile → EStateM RollbackPlace Tree Unit
  | [] => pure ()
  | file :: files => do
    restoreFile faults index file
    restoreFiles (index + 1) files

/-- `rollback_update`. -/
def rollbackUpdate (planPath : FilePath) : EStateM RollbackPlace Tree Unit := do
  let plan ← attemptRead faults .readPlan fun tree =>
    (tree.contents planPath).bind machine.readRollback
  restoreFiles faults 0 plan.files

end Rollback

end StreamServer.Updater

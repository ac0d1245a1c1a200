import StreamServer.Lib.Occurrence
import StreamServer.Updater.Replacement

/-!
# Staging an update

The assets of a release are downloaded into a directory of their own, named after its version, and
each is checked against the list of checksums.  What was in the directory before is removed first.

## Main definitions

* `parseSha256sums` — the list of checksums.
* `RequiredAssets`, `selectRequiredAssets` — the assets of a release, which are all programs.
* `stageUpdate` — remove, download, check, write down what is staged.
* `Intact` — the assets of a staged update are there, with their checksums.

## Main results

* `ends_stageUpdate` — what is staged is intact, and nothing outside the directory is touched.

## References

`server/src/updater/staging.rs`, `server/src/updater/assets.rs`.
-/

namespace StreamServer.Updater

open FileTree

/-- The errors of the updater, by kind. -/
inductive UpdateErrorKind where
  | notFound | conflict | invalidRelease | unsupported | io | network | unexpected
  deriving DecidableEq, Repr

/-! ### Checksums -/

/-- The hashes by the names of the files. -/
abbrev Checksums := List (String × String)

/-- `split_once`. -/
def splitOnce (text separator : List Char) : Option (List Char × List Char) :=
  (text.occurrence? separator).map fun i => (text.take i, text.drop (i + separator.length))

/-- `is_sha256`. -/
def isSha256 (value : List Char) : Bool :=
  value.length = 64 && value.all fun c => c.isDigit || ('a' ≤ c && c ≤ 'f') || ('A' ≤ c && c ≤ 'F')

/-- A line `<hash>  <name>`. -/
def plainChecksum (line : List Char) : Option (String × String) :=
  (splitOnce line [' ', ' ']).bind fun (left, right) =>
    let hash := left.trim
    let name := right.trim.dropWhile (· = '*')
    if isSha256 hash && name ≠ [] then
      some (String.ofList name, String.ofList (hash.map Char.toLower))
    else none

/-- A line `SHA256(<name>)= <hash>`. -/
def taggedChecksum (line : List Char) : Option (String × String) :=
  (splitOnce line ['=']).bind fun (left, right) =>
    let left := left.trim
    let hash := right.trim
    if "SHA256(".toList.isPrefixOf left && left.getLast? = some ')' && isSha256 hash then
      some (String.ofList ((left.drop 7).dropLast), String.ofList (hash.map Char.toLower))
    else none

/-- The name and the hash that a line gives, if it gives one. -/
def lineChecksum (line : List Char) : Option (String × String) :=
  let line := line.trim
  if line = [] || line.head? = some '#' then none
  else (plainChecksum line).or (taggedChecksum line)

/-- The checksums of a text, where a later line counts before an earlier one. -/
def parseSha256sums (text : String) : Checksums :=
  ((text.toList.splitOnP (· = '\n')).filterMap lineChecksum).reverse

/-! ### Assets -/

/-- `ReleaseAssetInfo`. -/
structure ReleaseAssetInfo where
  name : String
  downloadUrl : String
  size : ℕ
  deriving DecidableEq, Repr

/-- A name that ends in `.msi`, in either case. -/
def isMsi (name : String) : Bool := ".msi".toList.isSuffixOf (name.toList.map Char.toLower)

/-- A name of a program: one that ends in `.exe` or is an installer's. -/
def isProgram (name : String) : Bool := ".exe".toList.isSuffixOf name.toList || isMsi name

/-- The assets of a release.  Those that are verified are programs. -/
structure RequiredAssets where
  server : ReleaseAssetInfo
  runtime : ReleaseAssetInfo
  updater : ReleaseAssetInfo
  checksums : ReleaseAssetInfo
  msi : Option ReleaseAssetInfo
  programs : ∀ asset ∈ [server, runtime, updater] ++ msi.toList, isProgram asset.name

/-- `find_asset`. -/
def findAsset (assets : List ReleaseAssetInfo) (name : String) :
    Except UpdateErrorKind {asset : ReleaseAssetInfo // asset.name = name} :=
  match h : assets.find? (·.name = name) with
  | some asset => .ok ⟨asset, by simpa using List.find?_some h⟩
  | none => .error .invalidRelease

/-- The first asset that is an installer. -/
def findMsi (assets : List ReleaseAssetInfo) :
    Option {asset : ReleaseAssetInfo // isMsi asset.name} :=
  match h : assets.find? fun asset => isMsi asset.name with
  | some asset => some ⟨asset, by simpa using List.find?_some h⟩
  | none => none

/-- `select_required_assets`. -/
def selectRequiredAssets (assets : List ReleaseAssetInfo) :
    Except UpdateErrorKind RequiredAssets := do
  let server ← findAsset assets "stream-server-windows-amd64.exe"
  let runtime ← findAsset assets "stremio-runtime-windows-amd64.exe"
  let updater ← findAsset assets "stream-server-updater-windows-amd64.exe"
  let checksums ← findAsset assets "SHA256SUMS.txt"
  let msi := findMsi assets
  pure
    { server := server.1
      runtime := runtime.1
      updater := updater.1
      checksums := checksums.1
      msi := msi.map (·.1)
      programs := by
        intro asset hasset
        simp only [List.mem_append, List.mem_cons, List.not_mem_nil, or_false, Option.mem_toList,
          Option.map_eq_some_iff] at hasset
        rcases hasset with (rfl | rfl | rfl) | ⟨found, -, rfl⟩
        · rw [server.2]
          decide
        · rw [runtime.2]
          decide
        · rw [updater.2]
          decide
        · simp [isProgram, found.2] }

/-- `UpdateCandidate`. -/
structure UpdateCandidate where
  version : String
  tag : String
  releaseUrl : String
  assets : RequiredAssets

/-- `StagedAssetPaths`. -/
structure StagedAssetPaths where
  server : FilePath
  runtime : FilePath
  updater : FilePath
  checksums : FilePath
  msi : Option FilePath
  deriving DecidableEq, Repr

/-- `StagedUpdate`. -/
structure StagedUpdate where
  version : String
  tag : String
  releaseUrl : String
  dir : FilePath
  assets : StagedAssetPaths
  hashes : Checksums
  deriving DecidableEq, Repr

/-! ### Staging -/

/-- The steps of a download. -/
inductive DownloadStep where
  | createParent | request | create | receive | expected | readBack | compare
  deriving DecidableEq, Repr

/-- The places where staging may stop. -/
inductive StagePlace where
  | removeDir
  | createDir
  | fetchChecksums
  | noChecksums
  | writeChecksums
  | download (name : String) (step : DownloadStep)
  | manifest
  deriving DecidableEq, Repr

/-- The kind of the error at a place. -/
def StagePlace.kind : StagePlace → UpdateErrorKind
  | .removeDir | .createDir | .writeChecksums | .manifest => .io
  | .fetchChecksums => .network
  | .noChecksums => .invalidRelease
  | .download _ .createParent | .download _ .create | .download _ .readBack => .io
  | .download _ .request | .download _ .receive => .network
  | .download _ .expected | .download _ .compare => .invalidRelease

/-- What the network and the disk do while an update is staged. -/
structure Delivery where
  fault : StagePlace → Option (Option Bytes)
  /-- The paths that a failing removal leaves. -/
  kept : FilePath → Bool
  checksumText : String
  body : ReleaseAssetInfo → Bytes
  /-- The text of the manifest. -/
  manifest : StagedUpdate → Bytes

/-- A step of the staging, which fails at a place. -/
abbrev Stage (α : Type) := EStateM StagePlace Tree α

/-- The directory of a version. -/
def stagingDir (root : FilePath) (version : String) : FilePath := root ++ pathNames s!"v{version}"

section Stage

variable (sha256 : Bytes → String) (delivery : Delivery)

/-- `remove_dir_all`. -/
def removeDirAll (dir : FilePath) : Stage Unit := fun tree =>
  match delivery.fault .removeDir with
  | some _ => .error .removeDir (tree.prune dir delivery.kept)
  | none =>
    match tree dir with
    | some .dir => .ok () (tree.prune dir fun _ => false)
    | _ => .error .removeDir tree

/-- `download_asset`. -/
def downloadAsset (asset : ReleaseAssetInfo) (dest : FilePath) : Stage Unit := do
  match dest.parent with
  | none => pure ()
  | some parent =>
    attempt delivery.fault (.download asset.name .createParent) (·.createDirAll parent)
  attemptRead delivery.fault (.download asset.name .request) fun _ => some ()
  attemptWrite delivery.fault (.download asset.name .create) dest (·.write dest [])
  attemptWrite delivery.fault (.download asset.name .receive) dest
    (·.write dest (delivery.body asset))

/-- `verify_file_checksum`. -/
def verifyFileChecksum (asset : ReleaseAssetInfo) (path : FilePath) (checksums : Checksums) :
    Stage Unit := do
  match checksums.lookup asset.name with
  | none => throw (.download asset.name .expected)
  | some expected =>
    let actual ← attemptRead delivery.fault (.download asset.name .readBack) fun tree =>
      (tree.contents path).map sha256
    if actual.eqIgnoreAsciiCase expected then pure ()
    else throw (.download asset.name .compare)

/-- `download_and_verify`. -/
def downloadAndVerify (dir : FilePath) (asset : ReleaseAssetInfo) (checksums : Checksums) :
    Stage FilePath := do
  let dest := dir.join asset.name
  downloadAsset delivery asset dest
  verifyFileChecksum sha256 delivery asset dest checksums
  pure dest

/-- An asset that a release need not have. -/
def downloadOptional (dir : FilePath) (asset : Option ReleaseAssetInfo) (checksums : Checksums) :
    Stage (Option FilePath) :=
  match asset with
  | none => pure none
  | some asset => do
    let dest ← downloadAndVerify sha256 delivery dir asset checksums
    pure (some dest)

/-- What goes into the directory of the version, behind the list of checksums. -/
def stagePrograms (dir : FilePath) (candidate : UpdateCandidate) (checksums : Checksums)
    (checksumPath : FilePath) : Stage StagedUpdate := do
  let server ← downloadAndVerify sha256 delivery dir candidate.assets.server checksums
  let runtime ← downloadAndVerify sha256 delivery dir candidate.assets.runtime checksums
  let updater ← downloadAndVerify sha256 delivery dir candidate.assets.updater checksums
  let msi ← downloadOptional sha256 delivery dir candidate.assets.msi checksums
  let staged : StagedUpdate :=
    ⟨candidate.version, candidate.tag, candidate.releaseUrl, dir,
      ⟨server, runtime, updater, checksumPath, msi⟩, checksums⟩
  attemptWrite delivery.fault .manifest (dir.join "staged-update.json")
    (·.write (dir.join "staged-update.json") (delivery.manifest staged))
  pure staged

/-- What goes into the directory of the version. -/
def stageAssets (dir : FilePath) (candidate : UpdateCandidate) : Stage StagedUpdate := do
  let checksumText ← attemptRead delivery.fault .fetchChecksums fun _ => some delivery.checksumText
  if parseSha256sums checksumText = [] then throw .noChecksums
  else
    let checksumPath := dir.join candidate.assets.checksums.name
    attemptWrite delivery.fault .writeChecksums checksumPath
      (·.write checksumPath checksumText.toUTF8.toList)
    stagePrograms sha256 delivery dir candidate (parseSha256sums checksumText) checksumPath

/-- `stage_update`. -/
def stageUpdate (stagingRoot : FilePath) (candidate : UpdateCandidate) : Stage StagedUpdate := do
  let dir := stagingDir stagingRoot candidate.version
  if ← pathExists dir then removeDirAll delivery dir
  attempt delivery.fault .createDir (·.createDirAll dir)
  stageAssets sha256 delivery dir candidate

end Stage

/-! ### What is staged -/

/-- The assets that were verified. -/
def StagedUpdate.programs (staged : StagedUpdate) : List FilePath :=
  [staged.assets.server, staged.assets.runtime, staged.assets.updater] ++ staged.assets.msi.toList

/-- The program of a name is in a directory, with the checksum of this name. -/
def Holds (sha256 : Bytes → String) (checksums : Checksums) (dir : FilePath) (tree : Tree)
    (path : FilePath) : Prop :=
  ∃ name bytes hash, isProgram name ∧ path = dir.join name ∧ tree.contents path = some bytes ∧
    checksums.lookup name = some hash ∧ (sha256 bytes).eqIgnoreAsciiCase hash

/-- All that was verified for a staged update is there as it was verified. -/
def Intact (sha256 : Bytes → String) (tree : Tree) (staged : StagedUpdate) : Prop :=
  ∀ path ∈ staged.programs, Holds sha256 staged.hashes staged.dir tree path

section Ends

variable {sha256 : Bytes → String} {delivery : Delivery} {tree tree' : Tree} {dir path : FilePath}
  {checksums : Checksums} {asset : ReleaseAssetInfo}

/-- Nothing outside a directory is another. -/
def SameOutside (dir : FilePath) (tree tree' : Tree) : Prop :=
  ∀ path, ¬ dir <+: path → tree'.contents path = tree.contents path

theorem SameOutside.refl : SameOutside dir tree tree := fun _ _ => rfl

theorem SameOutside.trans {tree₁ tree₂ tree₃ : Tree} (h₁₂ : SameOutside dir tree₁ tree₂)
    (h₂₃ : SameOutside dir tree₂ tree₃) : SameOutside dir tree₁ tree₃ := by
  intro path hpath
  rw [h₂₃ path hpath, h₁₂ path hpath]

/-- A change of one file of the directory. -/
theorem SameOutside.of_ne {name : String}
    (h : ∀ path ≠ dir.join name, tree'.contents path = tree.contents path) :
    SameOutside dir tree tree' := by
  intro path hpath
  refine h path fun he => hpath ?_
  rw [he]
  exact FilePath.prefix_join ..

theorem ends_removeDirAll :
    Ends (removeDirAll delivery dir) tree (fun _ tree' => SameOutside dir tree tree')
      (fun _ tree' => SameOutside dir tree tree') := by
  have hprune : ∀ kept, SameOutside dir tree (tree.prune dir kept) := by
    intro kept path hpath
    exact contents_prune fun hbelow => absurd hbelow hpath
  unfold Ends removeDirAll
  cases delivery.fault .removeDir with
  | some left => exact hprune _
  | none =>
    cases hnode : tree dir with
    | none => exact SameOutside.refl
    | some node =>
      cases node with
      | dir => exact hprune _
      | file bytes => exact SameOutside.refl

theorem ends_downloadAsset {dest : FilePath} :
    Ends (downloadAsset delivery asset dest) tree
      (fun _ tree' => ∀ path ≠ dest, tree'.contents path = tree.contents path)
      (fun _ tree' => ∀ path ≠ dest, tree'.contents path = tree.contents path) := by
  have hrest : ∀ made : Tree, made.contents = tree.contents →
      Ends (do
          attemptRead delivery.fault (.download asset.name .request) fun _ => some ()
          attemptWrite delivery.fault (.download asset.name .create) dest (·.write dest [])
          attemptWrite delivery.fault (.download asset.name .receive) dest
            (·.write dest (delivery.body asset)) : Stage Unit) made
        (fun _ tree' => ∀ path ≠ dest, tree'.contents path = tree.contents path)
        (fun _ tree' => ∀ path ≠ dest, tree'.contents path = tree.contents path) := by
    intro made hmade
    rw [← hmade]
    simp only [ends_bind]
    refine ends_attemptRead (fun _ _ => ?_) fun _ _ => rfl
    refine ends_attemptWrite (fun created hcreated => ?_) fun _ hleft => hleft
    have hcreated := contents_write hcreated
    refine ends_attemptWrite (fun received hreceived => ?_) fun _ hleft path hpath => ?_
    · intro path hpath
      rw [contents_write hreceived, Function.update_of_ne hpath, hcreated,
        Function.update_of_ne hpath]
    · rw [hleft path hpath, hcreated, Function.update_of_ne hpath]
  unfold downloadAsset
  cases dest.parent with
  | none => exact hrest tree rfl
  | some parent =>
    rw [ends_bind]
    exact ends_attempt (fun made hmade => hrest made (contents_createDirAll hmade)) fun _ _ => rfl

theorem ends_verifyFileChecksum :
    Ends (verifyFileChecksum sha256 delivery asset path checksums) tree
      (fun _ tree' => tree' = tree ∧ ∃ bytes hash, tree.contents path = some bytes ∧
        checksums.lookup asset.name = some hash ∧ (sha256 bytes).eqIgnoreAsciiCase hash)
      (fun _ tree' => tree' = tree) := by
  unfold verifyFileChecksum
  cases hexpected : checksums.lookup asset.name with
  | none => rfl
  | some hash =>
    simp only [ends_bind]
    refine ends_attemptRead (fun actual hactual => ?_) rfl
    obtain ⟨bytes, hbytes, rfl⟩ := Option.map_eq_some_iff.mp hactual
    split
    · next heq => exact ⟨rfl, bytes, hash, hbytes, rfl, heq⟩
    · rfl

theorem ends_downloadAndVerify (hprogram : isProgram asset.name) :
    Ends (downloadAndVerify sha256 delivery dir asset checksums) tree
      (fun path tree' => Holds sha256 checksums dir tree' path ∧ path = dir.join asset.name ∧
        ∀ path ≠ dir.join asset.name, tree'.contents path = tree.contents path)
      (fun _ tree' => SameOutside dir tree tree') := by
  unfold downloadAndVerify
  simp only [ends_bind]
  refine ends_downloadAsset.mono (fun _ got hgot => ?_) fun _ _ hleft => .of_ne hleft
  refine ends_verifyFileChecksum.mono (fun _ checked hchecked => ?_) fun _ tree' hleft => ?_
  · obtain ⟨rfl, bytes, hash, hbytes, hhash, heq⟩ := hchecked
    exact ⟨⟨asset.name, bytes, hash, hprogram, rfl, hbytes, hhash, heq⟩, rfl, hgot⟩
  · rw [hleft]
    exact .of_ne hgot

/-- A change elsewhere leaves a program as it is. -/
theorem Holds.of_same (h : Holds sha256 checksums dir tree path)
    (hsame : tree'.contents path = tree.contents path) :
    Holds sha256 checksums dir tree' path := by
  obtain ⟨name, bytes, hash, hprogram, hname, hbytes, hhash⟩ := h
  exact ⟨name, bytes, hash, hprogram, hname, hsame.trans hbytes, hhash⟩

/-- A file that is no program may change. -/
theorem Holds.of_ne {name : String} (h : Holds sha256 checksums dir tree path)
    (hname : isProgram name = false)
    (hsame : ∀ path ≠ dir.join name, tree'.contents path = tree.contents path) :
    Holds sha256 checksums dir tree' path := by
  refine h.of_same (hsame path ?_)
  obtain ⟨name', -, -, hprogram, rfl, -⟩ := h
  intro he
  rw [(FilePath.join_inj.mp he).2, hname] at hprogram
  cases hprogram

/-- One more program, besides those that are there. -/
theorem ends_download_next {paths : List FilePath} (hprogram : isProgram asset.name)
    (hpaths : ∀ path ∈ paths, Holds sha256 checksums dir tree path) :
    Ends (downloadAndVerify sha256 delivery dir asset checksums) tree
      (fun path tree' => (∀ path' ∈ paths ++ [path], Holds sha256 checksums dir tree' path') ∧
        SameOutside dir tree tree')
      (fun _ tree' => SameOutside dir tree tree') := by
  refine (ends_downloadAndVerify hprogram).mono (fun path tree' hgot => ?_) fun _ _ hleft => hleft
  obtain ⟨hholds, hpath, hsame⟩ := hgot
  refine ⟨fun path' hmem => ?_, .of_ne hsame⟩
  by_cases he : path' = path
  · rwa [he]
  · have hmem : path' ∈ paths := by simpa [he] using hmem
    exact (hpaths path' hmem).of_same (hsame path' (hpath ▸ he))

theorem ends_downloadOptional {paths : List FilePath} {optional : Option ReleaseAssetInfo}
    (hprogram : ∀ asset ∈ optional, isProgram asset.name)
    (hpaths : ∀ path ∈ paths, Holds sha256 checksums dir tree path) :
    Ends (downloadOptional sha256 delivery dir optional checksums) tree
      (fun path tree' =>
        (∀ path' ∈ paths ++ path.toList, Holds sha256 checksums dir tree' path') ∧
        SameOutside dir tree tree')
      (fun _ tree' => SameOutside dir tree tree') := by
  cases optional with
  | none => exact ⟨by simpa using hpaths, SameOutside.refl⟩
  | some asset =>
    unfold downloadOptional
    rw [ends_bind]
    exact ends_download_next (hprogram asset rfl) hpaths

theorem ends_stagePrograms {candidate : UpdateCandidate} {checksumPath : FilePath} :
    Ends (stagePrograms sha256 delivery dir candidate checksums checksumPath) tree
      (fun staged tree' => (staged.version = candidate.version ∧ staged.dir = dir ∧
        Intact sha256 tree' staged) ∧ SameOutside dir tree tree')
      (fun _ tree' => SameOutside dir tree tree') := by
  have hprogram : ∀ asset ∈ [candidate.assets.server, candidate.assets.runtime,
      candidate.assets.updater] ++ candidate.assets.msi.toList, isProgram asset.name :=
    candidate.assets.programs
  unfold stagePrograms
  rw [ends_bind]
  refine (ends_download_next (hprogram _ (by simp)) (List.forall_mem_nil _)).mono
    (fun server tree₁ h₁ => ?_) fun _ _ hleft => hleft
  rw [ends_bind]
  refine (ends_download_next (hprogram _ (by simp)) h₁.1).mono
    (fun runtime tree₂ h₂ => ?_) fun _ _ hleft => h₁.2.trans hleft
  have hout₂ := h₁.2.trans h₂.2
  rw [ends_bind]
  refine (ends_download_next (hprogram _ (by simp)) h₂.1).mono
    (fun updater tree₃ h₃ => ?_) fun _ _ hleft => hout₂.trans hleft
  have hout₃ := hout₂.trans h₃.2
  rw [ends_bind]
  refine (ends_downloadOptional (fun asset hasset => hprogram _ ?_) h₃.1).mono
    (fun msi tree₄ h₄ => ?_) fun _ _ hleft => hout₃.trans hleft
  · exact List.mem_append_right _ (Option.mem_toList.mpr hasset)
  have hout₄ := hout₃.trans h₄.2
  simp only [ends_bind]
  refine ends_attemptWrite (fun tree₅ hwrite => ?_) fun _ hleft => hout₄.trans (.of_ne hleft)
  have hsame : ∀ path ≠ dir.join "staged-update.json",
      tree₅.contents path = tree₄.contents path := by
    intro path hpath
    rw [contents_write hwrite, Function.update_of_ne hpath]
  refine ⟨⟨rfl, rfl, fun path hpath => ?_⟩, hout₄.trans (.of_ne hsame)⟩
  exact (h₄.1 path hpath).of_ne (by decide) hsame

theorem ends_stageAssets {candidate : UpdateCandidate} :
    Ends (stageAssets sha256 delivery dir candidate) tree
      (fun staged tree' => (staged.version = candidate.version ∧ staged.dir = dir ∧
        Intact sha256 tree' staged) ∧ SameOutside dir tree tree')
      (fun _ tree' => SameOutside dir tree tree') := by
  unfold stageAssets
  rw [ends_bind]
  refine ends_attemptRead (fun checksumText _ => ?_) SameOutside.refl
  split
  · exact SameOutside.refl
  · simp only [ends_bind]
    refine ends_attemptWrite (fun written hwrite => ?_) fun _ hleft => .of_ne hleft
    have hsame : ∀ path ≠ dir.join candidate.assets.checksums.name,
        written.contents path = tree.contents path := by
      intro path hpath
      rw [contents_write hwrite, Function.update_of_ne hpath]
    have hwritten : SameOutside dir tree written := .of_ne hsame
    exact ends_stagePrograms.mono (fun staged tree' h => ⟨h.1, hwritten.trans h.2⟩)
      fun _ _ hleft => hwritten.trans hleft

/-- What is staged is intact, and nothing outside the directory of the version is touched. -/
theorem ends_stageUpdate {root : FilePath} {candidate : UpdateCandidate} :
    Ends (stageUpdate sha256 delivery root candidate) tree
      (fun staged tree' => (staged.version = candidate.version ∧
        staged.dir = stagingDir root candidate.version ∧ Intact sha256 tree' staged) ∧
        SameOutside (stagingDir root candidate.version) tree tree')
      (fun _ tree' => SameOutside (stagingDir root candidate.version) tree tree') := by
  have hrest : ∀ cleared : Tree, SameOutside (stagingDir root candidate.version) tree cleared →
      Ends (do
          attempt delivery.fault .createDir
            (·.createDirAll (stagingDir root candidate.version))
          stageAssets sha256 delivery (stagingDir root candidate.version) candidate) cleared
        (fun staged tree' => (staged.version = candidate.version ∧
          staged.dir = stagingDir root candidate.version ∧ Intact sha256 tree' staged) ∧
          SameOutside (stagingDir root candidate.version) tree tree')
        (fun _ tree' => SameOutside (stagingDir root candidate.version) tree tree') := by
    intro cleared hcleared
    rw [ends_bind]
    refine ends_attempt (fun made hmade => ?_) hcleared
    have hmade : SameOutside (stagingDir root candidate.version) tree made := by
      intro path hpath
      rw [contents_createDirAll hmade, hcleared path hpath]
    exact ends_stageAssets.mono (fun staged tree' h => ⟨h.1, hmade.trans h.2⟩)
      fun _ _ hleft => hmade.trans hleft
  unfold stageUpdate
  rw [ends_bind, ends_pathExists]
  split
  · rw [ends_bind]
    exact ends_removeDirAll.mono (fun _ cleared hcleared => hrest cleared hcleared)
      fun _ _ hleft => hleft
  · exact hrest tree SameOutside.refl

end Ends

end StreamServer.Updater

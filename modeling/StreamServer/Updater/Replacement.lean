import Std.Data.String.ToNat
import StreamServer.Updater.Helper

/-!
# What replacing files does to their contents

`installAll` is what a list of assets is meant to do: each destination gets the bytes of its source, in
the order of the list.  A run of the helper does this to every file that is not one of its own, and
keeps the bytes it replaced under names that never meet.

## Main definitions

* `install`, `installAll` — the contents after assets have been installed.
* `Clear` — an asset whose files are none of the files the helper makes for it.

## Main results

* `backup_ne_backup`, `backup_ne_temp` — the files the helper makes are different files.
* `ends_replaceFile` — one asset, wherever it stops.
-/

namespace StreamServer.Updater

open FileTree

/-- The bytes of each file. -/
abbrev Contents := FilePath → Option Bytes

/-- The destination gets the bytes of the source. -/
def install (contents : Contents) (asset : ApplyAsset) : Contents :=
  Function.update contents asset.destination (contents asset.source)

/-- The same for every asset. -/
def installAll (contents : Contents) (assets : List ApplyAsset) : Contents :=
  assets.foldl install contents

@[simp] theorem installAll_nil (contents : Contents) : installAll contents [] = contents := rfl

@[simp] theorem installAll_cons (contents : Contents) (asset : ApplyAsset) (assets : List ApplyAsset) :
    installAll contents (asset :: assets) = installAll (install contents asset) assets := rfl

theorem install_of_ne {contents : Contents} {asset : ApplyAsset} {path : FilePath}
    (h : path ≠ asset.destination) : install contents asset path = contents path :=
  Function.update_of_ne h _ _

@[simp] theorem install_destination (contents : Contents) (asset : ApplyAsset) :
    install contents asset asset.destination = contents asset.source :=
  Function.update_self ..

/-! ### Names -/

/-- The digits in front of the first `-` of a name. -/
theorem digits_of_name {index : ℕ} {name : String} :
    s!"{index}-{name}".toList.takeWhile Char.isDigit = (Nat.repr index).toList := by
  have hdigits : ∀ c ∈ (Nat.repr index).toList, c.isDigit = true := by
    intro c hc
    exact Nat.isDigit_of_mem_toDigits (b := 10) (by decide) (by decide) (by simpa [Nat.repr] using hc)
  have hname : s!"{index}-{name}".toList = (Nat.repr index).toList ++ '-' :: name.toList := by
    simp [toString]
  rw [hname, List.takeWhile_append_of_pos hdigits]
  simp

theorem backup_index {asset asset' : ApplyAsset} {dir : FilePath} {i j : ℕ}
    (h : asset.backup dir i = asset'.backup dir j) : i = j := by
  have hname := (FilePath.join_inj.mp h).2
  refine Nat.repr_inj.mp (String.toList_inj.mp ?_)
  rw [← digits_of_name, hname, digits_of_name]

/-- Copies of files replaced at different places in the list are different files. -/
theorem backup_ne_backup {asset asset' : ApplyAsset} {dir : FilePath} {i j : ℕ} (h : i ≠ j) :
    asset.backup dir i ≠ asset'.backup dir j :=
  fun he => h (backup_index he)

theorem digits_ne_nil (index : ℕ) : (Nat.repr index).toList ≠ [] := by
  simp [Nat.repr, Nat.toDigits_ne_nil]

theorem backup_ne_temp {asset asset' : ApplyAsset} {dir : FilePath} {i : ℕ} :
    asset.backup dir i ≠ asset'.temp := by
  intro h
  have hname := (FilePath.join_inj.mp h).2
  refine digits_ne_nil i ?_
  rw [← digits_of_name, hname]
  simp [toString]

theorem rollbackPath_ne_backup {asset : ApplyAsset} {dir : FilePath} {i : ℕ} :
    rollbackPath dir ≠ asset.backup dir i := by
  intro h
  have hname := (FilePath.join_inj.mp h).2
  refine digits_ne_nil i ?_
  rw [← digits_of_name, ← hname]
  decide

/-! ### The steps with an asset -/

variable {machine : Machine} {faults : Faults Place} {tree : Tree} {asset : ApplyAsset}
  {dir : FilePath} {index : ℕ}

theorem ends_checkSum {place : Place} {path : FilePath} :
    Ends (checkSum machine faults place path asset) tree
      (fun _ tree' => tree' = tree ∧ (tree.contents path).isSome)
      (fun place' tree' => place' = place ∧ tree' = tree) := by
  unfold checkSum
  rw [ends_bind]
  refine ends_attemptRead (fun actual hactual => ?_) ⟨rfl, rfl⟩
  obtain ⟨bytes, hbytes, -⟩ := Option.map_eq_some_iff.mp hactual
  split
  · exact ⟨rfl, by simp [hbytes]⟩
  · exact ⟨rfl, rfl⟩

theorem ends_pathExists {π : Type} {path : FilePath} {ok : Bool → Tree → Prop}
    {error : π → Tree → Prop} :
    Ends (pathExists path) tree ok error ↔ ok (tree path).isSome tree := Iff.rfl

theorem ends_backUp :
    Ends (backUp faults asset dir index) tree
      (fun backup tree' => KeepsDirs tree tree' ∧
        backup = (tree.contents asset.destination).map (fun _ => asset.backup dir index) ∧
        (∀ old, tree.contents asset.destination = some old →
          tree'.contents (asset.backup dir index) = some old) ∧
        ∀ path ≠ asset.backup dir index, tree'.contents path = tree.contents path)
      (fun place tree' => place = .asset index .backUp ∧
        ∀ path ≠ asset.backup dir index, tree'.contents path = tree.contents path) := by
  unfold backUp
  rw [ends_bind, ends_pathExists]
  cases hnode : tree asset.destination with
  | none =>
    have hcontents : tree.contents asset.destination = none := by simp [contents, hnode]
    exact ⟨KeepsDirs.refl tree, by simp [hcontents], by simp [hcontents], fun path _ => rfl⟩
  | some node =>
    simp only [Option.isSome_some, if_true, ends_bind]
    refine ends_attemptWrite (fun tree' hcopy => ?_) (fun tree' htree' => ⟨rfl, htree'⟩)
    obtain ⟨old, hold, hcontents⟩ := contents_copy hcopy
    refine ⟨keepsDirs_copy hcopy, by simp [hold], ?_, fun path hpath => ?_⟩
    · simp [hold, hcontents]
    · rw [hcontents, Function.update_of_ne hpath]

theorem ends_copyTemp (hsource : asset.source ≠ asset.temp) :
    Ends (copyTemp faults asset index) tree
      (fun _ tree' => KeepsDirs tree tree' ∧ (tree.contents asset.source).isSome ∧
        tree'.contents = Function.update tree.contents asset.temp (tree.contents asset.source))
      (fun place tree' => (place = .asset index .removeTemp ∨ place = .asset index .copyTemp) ∧
        ∀ path ≠ asset.temp, tree'.contents path = tree.contents path) := by
  have hcopy : ∀ removed : Tree, KeepsDirs tree removed →
      (∀ path ≠ asset.temp, removed.contents path = tree.contents path) →
      Ends (attemptWrite faults (.asset index .copyTemp) asset.temp
          (·.copy asset.source asset.temp)) removed
        (fun _ tree' => KeepsDirs tree tree' ∧ (tree.contents asset.source).isSome ∧
          tree'.contents = Function.update tree.contents asset.temp (tree.contents asset.source))
        (fun place tree' => (place = .asset index .removeTemp ∨ place = .asset index .copyTemp) ∧
          ∀ path ≠ asset.temp, tree'.contents path = tree.contents path) := by
    intro removed hdirs hremoved
    refine ends_attemptWrite (fun tree' hcopy => ?_) fun tree' htree' => ?_
    · obtain ⟨bytes, hbytes, hcontents⟩ := contents_copy hcopy
      have hbytes' : tree.contents asset.source = some bytes := by rw [← hremoved _ hsource, hbytes]
      refine ⟨hdirs.trans (keepsDirs_copy hcopy), by simp [hbytes'], ?_⟩
      funext path
      by_cases hpath : path = asset.temp
      · simp [hpath, hcontents, hbytes']
      · simp [hpath, hcontents, hremoved]
    · refine ⟨Or.inr rfl, fun path hpath => ?_⟩
      rw [htree' path hpath, hremoved path hpath]
  unfold copyTemp
  rw [ends_bind, ends_pathExists]
  split
  · rw [ends_bind]
    refine ends_attempt (fun removed hremove => ?_) ⟨Or.inl rfl, fun path _ => rfl⟩
    refine hcopy removed (keepsDirs_remove hremove) fun path hpath => ?_
    rw [contents_remove hremove, Function.update_of_ne hpath]
  · exact hcopy tree (KeepsDirs.refl tree) fun path _ => rfl

theorem ends_moveTemp (htemp : asset.temp ≠ asset.destination) :
    Ends (moveTemp faults asset index) tree
      (fun _ tree' => KeepsDirs tree tree' ∧
        tree'.contents asset.destination = tree.contents asset.temp ∧
        ∀ path ≠ asset.destination, path ≠ asset.temp → tree'.contents path = tree.contents path)
      (fun place tree' =>
        (place = .asset index .removeOld ∧ tree' = tree) ∨
        (place = .asset index .rename ∧ tree'.contents asset.destination = none ∧
          ∀ path ≠ asset.destination, tree'.contents path = tree.contents path)) := by
  have hrename : ∀ removed : Tree, KeepsDirs tree removed →
      removed.contents = Function.update tree.contents asset.destination none →
      Ends (attempt faults (.asset index .rename) (·.rename asset.temp asset.destination)) removed
        (fun _ tree' => KeepsDirs tree tree' ∧
          tree'.contents asset.destination = tree.contents asset.temp ∧
          ∀ path ≠ asset.destination, path ≠ asset.temp → tree'.contents path = tree.contents path)
        (fun place tree' =>
          (place = .asset index .removeOld ∧ tree' = tree) ∨
          (place = .asset index .rename ∧ tree'.contents asset.destination = none ∧
            ∀ path ≠ asset.destination, tree'.contents path = tree.contents path)) := by
    intro removed hdirs hremoved
    refine ends_attempt (fun tree' hmove => ?_) (Or.inr ⟨rfl, by simp [hremoved], ?_⟩)
    · obtain ⟨bytes, hbytes, hcontents⟩ := contents_rename hmove
      refine ⟨hdirs.trans (keepsDirs_rename hmove), ?_, fun path hdest hpath => ?_⟩
      · rw [hcontents, Function.update_self, ← hbytes, hremoved, Function.update_of_ne htemp]
      · rw [hcontents, Function.update_of_ne hdest, Function.update_of_ne hpath, hremoved,
          Function.update_of_ne hdest]
    · intro path hdest
      rw [hremoved, Function.update_of_ne hdest]
  unfold moveTemp
  rw [ends_bind, ends_pathExists]
  split
  · rw [ends_bind]
    refine ends_attempt (fun removed hremove => ?_) (Or.inl ⟨rfl, rfl⟩)
    exact hrename removed (keepsDirs_remove hremove) (contents_remove hremove)
  · next hnode =>
    -- Nothing is there, so that the move does as if something had been removed.
    refine hrename tree (KeepsDirs.refl tree) (Function.update_eq_self_iff.mpr ?_).symm
    have hnone : tree asset.destination = none := by simpa using hnode
    simp [contents, hnone]

/-! ### One asset -/

/-- The files the helper makes for an asset are not the asset's own. -/
structure Clear (asset : ApplyAsset) (dir : FilePath) (index : ℕ) : Prop where
  backup_destination : asset.backup dir index ≠ asset.destination
  backup_source : asset.source ≠ asset.backup dir index
  temp_destination : asset.temp ≠ asset.destination
  temp_source : asset.source ≠ asset.temp

/-- What the destination holds when the step with an asset fails. -/
def heldAt (step : Step) (old new : Option Bytes) : Option Bytes :=
  match step with
  | .rename => none
  | .checkInstalled => new
  | _ => old

/-- An asset has been installed. -/
structure Replaced (asset : ApplyAsset) (dir : FilePath) (index : ℕ) (tree tree' : Tree)
    (backup : Option FilePath) : Prop where
  installed : ∀ path ≠ asset.temp, path ≠ asset.backup dir index →
    tree'.contents path = install tree.contents asset path
  backup_eq : backup = (tree.contents asset.destination).map fun _ => asset.backup dir index
  kept : ∀ old, tree.contents asset.destination = some old →
    tree'.contents (asset.backup dir index) = some old
  source : (tree.contents asset.source).isSome
  dirs : KeepsDirs tree tree'
  place : asset.destination ≠ []
  parent : ∀ path, path <+: asset.destination.dropLast → tree' path = some .dir

/-- The installation of an asset has failed. -/
structure Failed (asset : ApplyAsset) (dir : FilePath) (index : ℕ) (tree tree' : Tree)
    (place : Place) (step : Step) : Prop where
  place_eq : place = .asset index step
  held : tree'.contents asset.destination =
    heldAt step (tree.contents asset.destination) (tree.contents asset.source)
  others : ∀ path ≠ asset.destination, path ≠ asset.temp → path ≠ asset.backup dir index →
    tree'.contents path = tree.contents path

/-- Contents that are those of `tree` but in the files the helper makes. -/
def SameBut (asset : ApplyAsset) (dir : FilePath) (index : ℕ) (tree tree' : Tree) : Prop :=
  ∀ path ≠ asset.temp, path ≠ asset.backup dir index → tree'.contents path = tree.contents path

theorem SameBut.failed {tree' : Tree} {step : Step} (hclear : Clear asset dir index)
    (hsame : SameBut asset dir index tree tree')
    (hstep : ∀ old new, heldAt step old new = old) :
    Failed asset dir index tree tree' (.asset index step) step where
  place_eq := rfl
  held := by
    rw [hstep]
    exact hsame _ hclear.temp_destination.symm hclear.backup_destination.symm
  others := fun path _ htemp hbackup => hsame path htemp hbackup

/-- The part behind the copy of what was there: `saved` is the tree with this copy. -/
theorem ends_replaceSaved {saved : Tree} {backup : Option FilePath} (hclear : Clear asset dir index)
    (hsaved : SameBut asset dir index tree saved)
    (hbackup : backup = (tree.contents asset.destination).map fun _ => asset.backup dir index)
    (hkept : ∀ old, tree.contents asset.destination = some old →
      saved.contents (asset.backup dir index) = some old)
    (hdirs : KeepsDirs tree saved) (hplace : asset.destination ≠ [])
    (hparent : ∀ path, path <+: asset.destination.dropLast → saved path = some .dir) :
    Ends (do
        copyTemp faults asset index
        moveTemp faults asset index
        checkSum machine faults (.asset index .checkInstalled) asset.destination asset
        pure backup) saved
      (fun backup tree' => Replaced asset dir index tree tree' backup)
      (fun place tree' => ∃ step, Failed asset dir index tree tree' place step) := by
  have hsource : saved.contents asset.source = tree.contents asset.source :=
    hsaved _ hclear.temp_source hclear.backup_source
  simp only [ends_bind]
  -- the copy next to the destination: a failure leaves the destination as it was
  refine (ends_copyTemp hclear.temp_source).mono (fun _ staged hstaged => ?_) ?_
  rotate_left
  · intro place tree' hfailed
    obtain ⟨hstep, hsame⟩ := hfailed
    have hsame : SameBut asset dir index tree tree' := by
      intro path htemp hbackup
      rw [hsame path htemp, hsaved path htemp hbackup]
    rcases hstep with rfl | rfl
    · exact ⟨.removeTemp, hsame.failed hclear fun _ _ => rfl⟩
    · exact ⟨.copyTemp, hsame.failed hclear fun _ _ => rfl⟩
  obtain ⟨hdirs₁, hsome, hstaged⟩ := hstaged
  rw [hsource] at hsome hstaged
  have hstagedSame : SameBut asset dir index tree staged := by
    intro path htemp hbackup
    rw [hstaged, Function.update_of_ne htemp, hsaved path htemp hbackup]
  -- the move onto the destination: between removing and renaming there is nothing there
  refine (ends_moveTemp hclear.temp_destination).mono (fun _ moved hmoved => ?_) ?_
  rotate_left
  · intro place tree' hfailed
    rcases hfailed with ⟨rfl, rfl⟩ | ⟨rfl, hnone, hsame⟩
    · exact ⟨.removeOld, hstagedSame.failed hclear fun _ _ => rfl⟩
    · refine ⟨.rename, rfl, hnone, fun path hdest htemp hbackup => ?_⟩
      rw [hsame path hdest, hstagedSame path htemp hbackup]
  obtain ⟨hdirs₂, hnew, hmoved⟩ := hmoved
  rw [hstaged, Function.update_self] at hnew
  -- the check of what has been installed: the destination has the new file either way
  refine ends_checkSum.mono (fun _ tree' hchecked => ?_) fun place tree' hfailed => ?_
  · obtain ⟨rfl, -⟩ := hchecked
    refine ⟨fun path htemp hpath => ?_, hbackup, fun old hold => ?_, hsome,
      hdirs.trans (hdirs₁.trans hdirs₂), hplace, fun path hpath => ?_⟩
    · by_cases hdest : path = asset.destination
      · rw [hdest, hnew, install_destination]
      · rw [hmoved path hdest htemp, install_of_ne hdest, hstagedSame path htemp hpath]
    · rw [hmoved _ hclear.backup_destination backup_ne_temp, hstaged,
        Function.update_of_ne backup_ne_temp, hkept old hold]
    · exact hdirs₂ path (hdirs₁ path (hparent path hpath))
  · obtain ⟨rfl, rfl⟩ := hfailed
    refine ⟨.checkInstalled, rfl, hnew, fun path hdest htemp hbackup => ?_⟩
    rw [hmoved path hdest htemp, hstagedSame path htemp hbackup]

theorem ends_replaceFile (hclear : Clear asset dir index) :
    Ends (replaceFile machine faults asset dir index) tree
      (fun backup tree' => Replaced asset dir index tree tree' backup)
      (fun place tree' => ∃ step, Failed asset dir index tree tree' place step) := by
  have hrefl : SameBut asset dir index tree tree := fun _ _ _ => rfl
  unfold replaceFile
  rw [ends_bind]
  refine ends_checkSum.mono (fun _ checked hchecked => ?_) fun place tree' hfailed => ?_
  rotate_left
  · obtain ⟨rfl, rfl⟩ := hfailed
    exact ⟨.checkSource, hrefl.failed hclear fun _ _ => rfl⟩
  obtain rfl : tree = checked := hchecked.1.symm
  cases hparent : asset.destination.parent with
  | none => exact ⟨.parent, hrefl.failed hclear fun _ _ => rfl⟩
  | some parent =>
    have hplace : asset.destination ≠ [] ∧ asset.destination.dropLast = parent := by
      simpa [FilePath.parent] using hparent
    rw [ends_bind]
    refine ends_attempt (fun made hmade => ?_)
      ⟨.createParent, hrefl.failed hclear fun _ _ => rfl⟩
    have hcontents := contents_createDirAll hmade
    rw [ends_bind]
    refine ends_backUp.mono (fun backup saved hsaved => ?_) fun place tree' hfailed => ?_
    · obtain ⟨hdirs, hbackup, hkept, hsaved⟩ := hsaved
      rw [hcontents] at hbackup hkept hsaved
      refine ends_replaceSaved hclear (fun path _ hpath => hsaved path hpath) hbackup hkept
        ((keepsDirs_createDirAll hmade).trans hdirs) hplace.1 fun path hpath => ?_
      exact hdirs path (dir_createDirAll hmade (hplace.2 ▸ hpath))
    · obtain ⟨rfl, hsame⟩ := hfailed
      rw [hcontents] at hsame
      have hsame : SameBut asset dir index tree tree' := fun path _ hpath => hsame path hpath
      exact ⟨.backUp, hsame.failed hclear fun _ _ => rfl⟩

/-! ### A list of assets -/

/-- The files of the assets, and the directory of the copies, are apart: no asset is installed over
the source of one, and none has a source or a destination among the files the helper makes. -/
structure Apart (dir : FilePath) (assets : List ApplyAsset) : Prop where
  source_destination : ∀ a ∈ assets, ∀ b ∈ assets, a.source ≠ b.destination
  source_temp : ∀ a ∈ assets, ∀ b ∈ assets, a.source ≠ b.temp
  destination_temp : ∀ a ∈ assets, ∀ b ∈ assets, a.destination ≠ b.temp
  source_dir : ∀ a ∈ assets, ¬ dir <+: a.source
  destination_dir : ∀ a ∈ assets, ¬ dir <+: a.destination

/-- A file the helper makes for one of the assets, the first of which is the one at `index`. -/
def Own (dir : FilePath) (index : ℕ) (assets : List ApplyAsset) (path : FilePath) : Prop :=
  ∃ asset ∈ assets, path = asset.temp ∨ ∃ i ≥ index, path = asset.backup dir i

variable {assets : List ApplyAsset}

theorem Apart.tail (h : Apart dir (asset :: assets)) : Apart dir assets where
  source_destination a ha b hb := h.source_destination a (.tail _ ha) b (.tail _ hb)
  source_temp a ha b hb := h.source_temp a (.tail _ ha) b (.tail _ hb)
  destination_temp a ha b hb := h.destination_temp a (.tail _ ha) b (.tail _ hb)
  source_dir a ha := h.source_dir a (.tail _ ha)
  destination_dir a ha := h.destination_dir a (.tail _ ha)

theorem Apart.not_own_source (h : Apart dir assets) (ha : asset ∈ assets) :
    ¬ Own dir index assets asset.source := by
  intro hown
  obtain ⟨b, hb, htemp | ⟨i, -, hbackup⟩⟩ := hown
  · exact h.source_temp asset ha b hb htemp
  · exact h.source_dir asset ha (hbackup ▸ FilePath.prefix_join ..)

theorem Apart.not_own_destination (h : Apart dir assets) (ha : asset ∈ assets) :
    ¬ Own dir index assets asset.destination := by
  intro hown
  obtain ⟨b, hb, htemp | ⟨i, -, hbackup⟩⟩ := hown
  · exact h.destination_temp asset ha b hb htemp
  · exact h.destination_dir asset ha (hbackup ▸ FilePath.prefix_join ..)

theorem Apart.clear (h : Apart dir assets) (ha : asset ∈ assets) : Clear asset dir index where
  backup_destination he := h.not_own_destination ha ⟨asset, ha, Or.inr ⟨index, le_rfl, he.symm⟩⟩
  backup_source he := h.not_own_source ha ⟨asset, ha, Or.inr ⟨index, le_rfl, he⟩⟩
  temp_destination he := h.destination_temp asset ha asset ha he.symm
  temp_source := h.source_temp asset ha asset ha

theorem Own.tail {path : FilePath} (h : Own dir (index + 1) assets path) :
    Own dir index (asset :: assets) path := by
  obtain ⟨b, hb, htemp | ⟨i, hi, hbackup⟩⟩ := h
  · exact ⟨b, .tail _ hb, Or.inl htemp⟩
  · exact ⟨b, .tail _ hb, Or.inr ⟨i, by omega, hbackup⟩⟩

/-- A copy is none of the files that are made for later assets. -/
theorem not_own_backup {i : ℕ} (h : i < index) : ¬ Own dir index assets (asset.backup dir i) := by
  intro hown
  obtain ⟨b, -, htemp | ⟨j, hj, hbackup⟩⟩ := hown
  · exact backup_ne_temp htemp
  · exact backup_ne_backup (by omega) hbackup

/-- What is installed at the paths of `P` comes from there, if the sources are there. -/
theorem installAll_congr {P : FilePath → Prop} {c c' : Contents}
    (hsources : ∀ a ∈ assets, P a.source) (hsame : ∀ path, P path → c path = c' path) :
    ∀ path, P path → installAll c assets path = installAll c' assets path := by
  induction assets generalizing c c' with
  | nil => exact hsame
  | cons asset assets ih =>
    refine ih (fun a ha => hsources a (.tail _ ha)) fun path hpath => ?_
    by_cases hdest : path = asset.destination
    · rw [hdest, install_destination, install_destination, hsame _ (hsources asset (.head _))]
    · rw [install_of_ne hdest, install_of_ne hdest, hsame path hpath]

theorem installAll_of_notMem {c : Contents} {path : FilePath}
    (h : ∀ a ∈ assets, path ≠ a.destination) : installAll c assets path = c path := by
  induction assets generalizing c with
  | nil => rfl
  | cons asset assets ih =>
    rw [installAll_cons, ih fun a ha => h a (.tail _ ha), install_of_ne (h asset (.head _))]

/-- All assets have been installed, and what they replaced is in the files. -/
structure ReplacedAll (dir : FilePath) (index : ℕ) (assets : List ApplyAsset) (tree tree' : Tree)
    (files : List RollbackFile) : Prop where
  installed : ∀ path, ¬ Own dir index assets path →
    tree'.contents path = installAll tree.contents assets path
  backups : ∀ file ∈ files, ∃ a ∈ assets, file.destination = a.destination ∧
    ∃ i ≥ index, file.backup = a.backup dir i
  kept : ∀ a ∈ assets, ∀ old, tree.contents a.destination = some old →
    ∃ file ∈ files, file.destination = a.destination ∧ tree'.contents file.backup = some old
  sublist : (files.map (·.destination)).Sublist (assets.map (·.destination))
  existed : (assets.map (·.destination)).Nodup → ∀ file ∈ files,
    (tree.contents file.destination).isSome
  sources : ∀ a ∈ assets, (tree.contents a.source).isSome
  dirs : KeepsDirs tree tree'
  places : ∀ a ∈ assets, a.destination ≠ [] ∧
    ∀ path, path <+: a.destination.dropLast → tree' path = some .dir

/-- The installation has failed at an asset, behind those of `done`. -/
def StoppedAt (dir : FilePath) (index : ℕ) (assets : List ApplyAsset) (tree tree' : Tree)
    (place : Place) : Prop :=
  ∃ done asset rest step, assets = done ++ asset :: rest ∧
    place = .asset (index + done.length) step ∧
    ∀ path, ¬ Own dir index assets path → tree'.contents path =
      if path = asset.destination then
        heldAt step (installAll tree.contents done path) (installAll tree.contents done asset.source)
      else installAll tree.contents done path

theorem Replaced.installAll {tree₁ : Tree} {backup : Option FilePath}
    (h : Replaced asset dir index tree tree₁ backup) (hapart : Apart dir (asset :: assets))
    (done : List ApplyAsset) (hdone : ∀ a ∈ done, a ∈ asset :: assets) {path : FilePath}
    (hpath : ¬ Own dir index (asset :: assets) path) :
    installAll tree₁.contents done path = installAll tree.contents (asset :: done) path := by
  refine installAll_congr (P := fun path => ¬ Own dir index (asset :: assets) path)
    (fun a ha => hapart.not_own_source (hdone a ha)) (fun q hq => ?_) path hpath
  refine h.installed q ?_ ?_
  · intro he
    exact hq ⟨asset, .head _, Or.inl he⟩
  · intro he
    exact hq ⟨asset, .head _, Or.inr ⟨index, le_rfl, he⟩⟩

/-- An asset and then the rest. -/
theorem Replaced.cons {tree₁ tree' : Tree} {backup : Option FilePath} {files : List RollbackFile}
    (hfirst : Replaced asset dir index tree tree₁ backup)
    (hrest : ReplacedAll dir (index + 1) assets tree₁ tree' files)
    (hapart : Apart dir (asset :: assets)) :
    ReplacedAll dir index (asset :: assets) tree tree'
      ((backup.map (⟨·, asset.destination⟩)).toList ++ files) := by
  -- the first asset touches only its own places, so the others find what was there
  have hdest : ∀ a ∈ asset :: assets, a.destination ≠ asset.destination →
      tree₁.contents a.destination = tree.contents a.destination := by
    intro a ha hne
    rw [hfirst.installed _ (hapart.destination_temp a ha asset (.head _)), install_of_ne hne]
    intro he
    exact hapart.destination_dir a ha (he ▸ FilePath.prefix_join ..)
  refine ⟨fun path hpath => ?_, fun file hfile => ?_, fun a ha old hold => ?_, ?_,
    fun hnodup file hfile => ?_, fun a ha => ?_, hfirst.dirs.trans hrest.dirs, fun a ha => ?_⟩
  · rw [hrest.installed path fun hown => hpath hown.tail,
      hfirst.installAll hapart assets (fun a ha => .tail _ ha) hpath]
  · rcases List.mem_append.mp hfile with hfile | hfile
    · rw [hfirst.backup_eq] at hfile
      obtain ⟨old, -, rfl⟩ : ∃ old, tree.contents asset.destination = some old ∧
          ⟨asset.backup dir index, asset.destination⟩ = file := by simpa using hfile
      exact ⟨asset, .head _, rfl, index, le_rfl, rfl⟩
    · obtain ⟨a, ha, hdest, i, hi, hbackup⟩ := hrest.backups file hfile
      exact ⟨a, .tail _ ha, hdest, i, by omega, hbackup⟩
  · by_cases hne : a.destination = asset.destination
    · rw [hne] at hold ⊢
      refine ⟨⟨asset.backup dir index, asset.destination⟩, ?_, rfl, ?_⟩
      · simp [hfirst.backup_eq, hold]
      · -- No later asset touches the copy.
        rw [hrest.installed _ (not_own_backup (by omega)), installAll_of_notMem fun b hb he => ?_,
          hfirst.kept old hold]
        exact hapart.destination_dir b (.tail _ hb) (he ▸ FilePath.prefix_join ..)
    · have hmem : a ∈ assets := by
        rcases List.mem_cons.mp ha with rfl | hmem
        · exact absurd rfl hne
        · exact hmem
      rw [← hdest a ha hne] at hold
      obtain ⟨file, hfile, hfileDest, hcontents⟩ := hrest.kept a hmem old hold
      exact ⟨file, List.mem_append_right _ hfile, hfileDest, hcontents⟩
  · rw [hfirst.backup_eq]
    cases tree.contents asset.destination with
    | none => simpa using hrest.sublist.cons asset.destination
    | some old => simpa using hrest.sublist
  · obtain ⟨hnew, hnodup⟩ := List.nodup_cons.mp hnodup
    rcases List.mem_append.mp hfile with hfile | hfile
    · rw [hfirst.backup_eq] at hfile
      obtain ⟨old, hold, rfl⟩ : ∃ old, tree.contents asset.destination = some old ∧
          ⟨asset.backup dir index, asset.destination⟩ = file := by simpa using hfile
      simp [hold]
    · obtain ⟨a, ha, hfileDest, -⟩ := hrest.backups file hfile
      have hsome := hrest.existed hnodup file hfile
      rw [hfileDest] at hsome ⊢
      rwa [hdest a (.tail _ ha)] at hsome
      intro he
      exact hnew (List.mem_map.mpr ⟨a, ha, he⟩)
  · rcases List.mem_cons.mp ha with rfl | hmem
    · exact hfirst.source
    · have hsome := hrest.sources a hmem
      rwa [hfirst.installed, install_of_ne (hapart.source_destination a ha asset (.head _))] at hsome
      · exact hapart.source_temp a ha asset (.head _)
      · intro he
        exact hapart.source_dir a ha (he ▸ FilePath.prefix_join ..)
  · rcases List.mem_cons.mp ha with rfl | hmem
    · exact ⟨hfirst.place, fun path hpath => hrest.dirs path (hfirst.parent path hpath)⟩
    · exact hrest.places a hmem

/-- By induction on the list: the first asset is installed, and the rest is installed from there. -/
theorem ends_replaceFiles (hapart : Apart dir assets) :
    Ends (replaceFiles machine faults dir index assets) tree
      (fun files tree' => ReplacedAll dir index assets tree tree' files)
      (fun place tree' => StoppedAt dir index assets tree tree' place) := by
  induction assets generalizing index tree with
  | nil =>
    exact ⟨fun path _ => rfl, by simp, by simp, by simp, by simp, by simp, KeepsDirs.refl tree,
      by simp⟩
  | cons asset assets ih =>
    rw [replaceFiles, ends_bind]
    refine (ends_replaceFile (hapart.clear (.head _))).mono (fun backup tree₁ hfirst => ?_) ?_
    rotate_left
    · intro place tree' hfailed
      obtain ⟨step, hplace, hheld, hothers⟩ := hfailed
      refine ⟨[], asset, assets, step, rfl, by simpa using hplace, fun path hpath => ?_⟩
      by_cases hdest : path = asset.destination
      · simp [hdest, hheld]
      · rw [if_neg hdest, installAll_nil]
        refine hothers path hdest ?_ ?_
        · intro he
          exact hpath ⟨asset, .head _, Or.inl he⟩
        · intro he
          exact hpath ⟨asset, .head _, Or.inr ⟨index, le_rfl, he⟩⟩
    rw [ends_bind]
    refine (ih hapart.tail).mono (fun files tree' hrest => ?_) fun place tree' hstopped => ?_
    · exact hfirst.cons hrest hapart
    · obtain ⟨done, failing, rest, step, rfl, rfl, hcontents⟩ := hstopped
      refine ⟨asset :: done, failing, rest, step, rfl, ?_, fun path hpath => ?_⟩
      · rw [List.length_cons, Nat.add_right_comm, Nat.add_assoc]
      have hdone : ∀ a ∈ done, a ∈ asset :: (done ++ failing :: rest) := by
        intro a ha
        exact .tail _ (List.mem_append_left _ ha)
      have hsource : ¬ Own dir index (asset :: (done ++ failing :: rest)) failing.source :=
        hapart.not_own_source (List.mem_cons_of_mem _ (by simp))
      rw [hcontents path fun hown => hpath hown.tail, hfirst.installAll hapart done hdone hpath,
        hfirst.installAll hapart done hdone hsource]

end StreamServer.Updater

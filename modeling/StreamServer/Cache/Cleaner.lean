import Mathlib.Algebra.Ring.Nat
import Mathlib.Data.Int.Notation
import Mathlib.Data.List.Nodup
import Mathlib.Data.List.Perm.Basic
import StreamServer.Lib.Checked
import StreamServer.Lib.Files

/-!
# The cache cleaner

The cleaner walks through the download directories and removes what has not changed for thirty days.  If what is
left exceeds the limit, it removes the oldest files until it does not.  Files of active torrents and metadata
stay.  That it also removes the directories it has emptied changes no file.

## Main definitions

* `Cache` — what a run of the cleaner finds.
* `scan`, `evict`, `cleanCache` — the two passes, and the run with the files it removes.
* `Cache.countedSize` — the size that is counted while some files are gone.

## Main results

* `scan_eq` — what the first pass counts, keeps and removes.
* `evict_total`, `evict_order` — what the second pass leaves, and what it has removed before a file.
* `cleanCache_spec` — **the cleaner keeps what it must and frees what it can.**

## References

`server/src/cache_cleaner.rs`.
-/

namespace StreamServer.CacheCleaner

open Checked (Run)

/-! ### Two passes -/

/-- The size of a file, and when it was changed, in nanoseconds behind the epoch, if that can be read. -/
structure Metadata where
  size : ℕ
  modified : Option ℤ
  deriving DecidableEq, Repr

/-- A file, with its metadata if they can be read. -/
structure CachedFile where
  path : FilePath
  metadata : Option Metadata
  deriving DecidableEq, Repr

namespace CachedFile

/-- The size of a file, zero when its metadata cannot be read. -/
def size (file : CachedFile) : ℕ := (file.metadata.map Metadata.size).getD 0

/-- When the file was changed; the epoch, if that cannot be read. -/
def time (file : CachedFile) : ℤ := (file.metadata.bind Metadata.modified).getD 0

end CachedFile

/-- What the walk through a directory comes to. -/
inductive WalkEntry
  | file (file : CachedFile)
  | other
  | error
  deriving DecidableEq, Repr

/-- The file, if it is one. -/
def WalkEntry.asFile : WalkEntry → Option CachedFile
  | .file f => some f
  | .other => none
  | .error => none

/-- A walk through a directory comes to what is below, and to no file twice. -/
structure Walk (root : FilePath) where
  entries : List WalkEntry
  below : ∀ file ∈ entries.filterMap WalkEntry.asFile, root <+: file.path
  nodup : ((entries.filterMap WalkEntry.asFile).map CachedFile.path).Nodup

/-- The files of a walk. -/
def Walk.files {root : FilePath} (walk : Walk root) : List CachedFile := walk.entries.filterMap WalkEntry.asFile

/-- What is known of an active torrent. -/
structure EngineStats where
  name : String
  files : List String
  deriving DecidableEq, Repr

/-- `Path::join`. -/
def joinPath (root : FilePath) (text : String) : FilePath :=
  let names := ((text.toList.splitOn '/').map String.ofList).filter fun name => name ≠ "" ∧ name ≠ "."
  if text.toList.head? = some '/' then names else root ++ names

/-- The paths of the files of an engine below `root`. -/
def EngineStats.paths (root : FilePath) (stats : EngineStats) : List FilePath :=
  if stats.files ≠ [] then stats.files.map (joinPath root) else [joinPath root stats.name]

/-- What a run finds. -/
structure Cache where
  limit : ℕ
  streamDir : FilePath
  downloadDir : FilePath
  streamStats : List EngineStats
  downloadStats : List EngineStats
  dirExists : FilePath → Bool
  walk : (root : FilePath) → Walk root
  now : ℤ
  /-- Whether the removal of a file fails. -/
  fails : FilePath → Bool

/-- Thirty days, in nanoseconds. -/
def thirtyDays : ℤ := 30 * 24 * 60 * 60 * 1000000000

/-- What the first pass has found. -/
structure Scanned where
  totalSize : ℕ
  files : List CachedFile
  removed : List CachedFile
  deriving DecidableEq, Repr

namespace Cache

variable (cache : Cache)

/-- The directories, sorted and without repetition. -/
def downloadDirs : List FilePath :=
  if cache.streamDir = cache.downloadDir then [cache.streamDir]
  else if cache.downloadDir < cache.streamDir then [cache.downloadDir, cache.streamDir]
  else [cache.streamDir, cache.downloadDir]

/-- The paths of all engines, of streams and of downloads. -/
def protectedPaths : List FilePath :=
  cache.streamStats.flatMap (EngineStats.paths cache.streamDir) ++
    cache.downloadStats.flatMap (EngineStats.paths cache.downloadDir)

/-- A path is protected with what lies below it. -/
def isProtected (path : FilePath) : Bool :=
  cache.protectedPaths.contains path || cache.protectedPaths.any fun p => p.isPrefixOf path

/-- More than thirty days old; a file of the future is not. -/
def isOld (modified : ℤ) : Bool := thirtyDays < max 0 (cache.now - modified)

/-- What the scan does at a file: protected files are counted, others become candidates. -/
def scanFile (s : Scanned) (file : CachedFile) : Run Scanned :=
  if file.path.contains ".metadata" then .ok s
  else
    match file.metadata with
    | none => .ok s
    | some metadata =>
        if cache.isProtected file.path then
          (Checked.add (2 ^ 64) s.totalSize metadata.size).map fun total => { s with totalSize := total }
        else
          match metadata.modified with
          | some modified =>
              if cache.isOld modified then
                if cache.fails file.path then
                  (Checked.add (2 ^ 64) s.totalSize metadata.size).map fun total => { s with totalSize := total }
                else .ok { s with removed := s.removed ++ [file] }
              else
                (Checked.add (2 ^ 64) s.totalSize metadata.size).map fun total =>
                  { s with totalSize := total, files := s.files ++ [file] }
          | none =>
              (Checked.add (2 ^ 64) s.totalSize metadata.size).map fun total =>
                { s with totalSize := total, files := s.files ++ [file] }

/-- What the scan does at an entry of the walk. -/
def scanEntry (s : Scanned) : WalkEntry → Run Scanned
  | .file file => cache.scanFile s file
  | .other | .error => .ok s

/-- The scan, with the removal of what is old. -/
def scan : Run Scanned :=
  (cache.downloadDirs.filter cache.dirExists).foldlM (fun s root => (cache.walk root).entries.foldlM cache.scanEntry s)
    ⟨0, [], []⟩

/-- What is removed of these files, in this order, while so much is counted. -/
@[grind =] def evict (total : ℕ) : List CachedFile → List CachedFile
  | [] => []
  | file :: files =>
      if total ≤ cache.limit then []
      else if cache.limit < file.size then evict total files
      else if cache.fails file.path then evict total files
      else file :: evict (total - file.size) files

/-- A run, with the files that it removes, in the order in which it does. -/
def cleanCache : Run (List CachedFile) :=
  if cache.downloadDirs.all fun dir => !cache.dirExists dir then .ok []
  else
    cache.scan.map fun s =>
      if 0 < cache.limit ∧ cache.limit < s.totalSize then
        s.removed ++ cache.evict s.totalSize (s.files.mergeSort fun a b => a.time ≤ b.time)
      else s.removed

/-! ### What is counted -/

/-- All files that the walks come to. -/
def cached : List CachedFile :=
  (cache.downloadDirs.filter cache.dirExists).flatMap fun root => (cache.walk root).files

/-- A file outside the metadata directories, with metadata that can be read. -/
def isCounted (file : CachedFile) : Bool := !file.path.contains ".metadata" && file.metadata.isSome

/-- A file that is more than thirty days old. -/
def isOldFile (file : CachedFile) : Bool := (file.metadata.bind Metadata.modified).any cache.isOld

/-- What the first pass removes. -/
def isAged (file : CachedFile) : Bool :=
  isCounted file && !cache.isProtected file.path && cache.isOldFile file && !cache.fails file.path

/-- What the first pass keeps for the second one. -/
def isKept (file : CachedFile) : Bool :=
  isCounted file && !cache.isProtected file.path && !cache.isOldFile file

/-- The size of files. -/
def sizes (files : List CachedFile) : ℕ := (files.map CachedFile.size).sum

/-- The size of what is counted, while these files are gone. -/
def countedSize (gone : List CachedFile) : ℕ :=
  sizes (cache.cached.filter fun file => isCounted file && file ∉ gone)

end Cache

open Cache

variable {cache : Cache}

theorem sizes_cons (file : CachedFile) (files : List CachedFile) :
    sizes (file :: files) = file.size + sizes files := by
  rw [sizes, List.map_cons, List.sum_cons, sizes]

/-! ### Kinds of files -/

theorem isCounted_of_isAged {file : CachedFile} (h : cache.isAged file) : isCounted file := by
  rw [isAged] at h
  grind

theorem isCounted_of_isKept {file : CachedFile} (h : cache.isKept file) : isCounted file := by
  rw [isKept] at h
  grind

theorem isKept_of_isAged {file : CachedFile} (h : cache.isAged file) : cache.isKept file = false := by
  rw [isAged] at h
  rw [isKept]
  grind

theorem isProtected_iff {path : FilePath} : cache.isProtected path ↔ ∃ p ∈ cache.protectedPaths, p <+: path := by
  rw [isProtected, Bool.or_eq_true, List.contains_iff_mem, List.any_eq_true]
  constructor
  · intro h
    cases h with
    | inl h => exact ⟨path, h, List.prefix_rfl⟩
    | inr h => simpa using h
  · intro h
    exact .inr (by simpa using h)

/-- What the second pass gets, or the first one removes, must not stay. -/
theorem removable {file : CachedFile} (h : cache.isAged file ∨ cache.isKept file) :
    ".metadata" ∉ file.path ∧ cache.isProtected file.path = false := by
  rw [isAged, isKept, isCounted] at h
  grind

/-- **Without failures** the first pass removes, or keeps for the second one, whatever need not stay. -/
theorem isAged_or_isKept (hfails : ∀ path, cache.fails path = false) {file : CachedFile}
    (hcounted : isCounted file) (hunprotected : ¬ cache.isProtected file.path) :
    cache.isAged file ∨ cache.isKept file := by
  rw [isAged, isKept, hfails]
  grind

/-! ### The first pass -/

/-- **What the scan does with a file.** -/
theorem scanFile_eq (s : Scanned) (file : CachedFile) : cache.scanFile s file =
    if cache.isAged file then .ok { s with removed := s.removed ++ [file] }
    else if isCounted file then
      (Checked.add (2 ^ 64) s.totalSize file.size).map fun total =>
        { s with totalSize := total, files := if cache.isKept file then s.files ++ [file] else s.files }
    else .ok s := by
  rw [scanFile, isAged, isKept, isCounted, isOldFile, CachedFile.size]
  by_cases hpath : ".metadata" ∈ file.path
  · simp [hpath]
  · cases hmetadata : file.metadata with
    | none => simp [hpath]
    | some metadata =>
      by_cases hprotected : cache.isProtected file.path = true
      · simp [hpath, hprotected]
      · cases hmodified : metadata.modified with
        | none => simp [hpath, hprotected, hmodified]
        | some modified =>
          by_cases hold : cache.isOld modified = true
          · by_cases hfails : cache.fails file.path = true
            · simp [hpath, hprotected, hmodified, hold, hfails]
            · simp [hpath, hprotected, hmodified, hold, hfails]
          · simp [hpath, hprotected, hmodified, hold]

/-- **What the scan makes of files.** -/
theorem foldlM_scanFile (files : List CachedFile) (s : Scanned)
    (hfits : s.totalSize + sizes (files.filter isCounted) < 2 ^ 64) :
    files.foldlM cache.scanFile s = .ok ⟨s.totalSize + sizes (files.filter fun f => isCounted f && !cache.isAged f),
      s.files ++ files.filter cache.isKept, s.removed ++ files.filter cache.isAged⟩ := by
  induction files generalizing s with
  | nil => simp [sizes]; rfl
  | cons file files ih =>
    rw [List.foldlM_cons, scanFile_eq]
    by_cases hcounted : isCounted file = true
    · have hsizes : s.totalSize + (file.size + sizes (files.filter isCounted)) < 2 ^ 64 := by
        rwa [List.filter_cons_of_pos hcounted, sizes_cons] at hfits
      by_cases haged : cache.isAged file = true
      · have hkept : cache.isKept file = false := isKept_of_isAged haged
        rw [if_pos haged, Checked.ok_bind, ih _ (by simp only; omega)]
        simp [haged, hkept]
      · rw [if_neg haged, if_pos hcounted, Checked.add_of_lt (by omega), Except.map, Checked.ok_bind,
          ih _ (by simp only; omega)]
        cases hkept : cache.isKept file with
        | false => simp [haged, hcounted, hkept, sizes_cons, Nat.add_assoc]
        | true => simp [haged, hcounted, hkept, sizes_cons, Nat.add_assoc]
    · have haged : ¬ cache.isAged file = true := fun h => hcounted (isCounted_of_isAged h)
      have hkept : ¬ cache.isKept file = true := fun h => hcounted (isCounted_of_isKept h)
      rw [if_neg haged, if_neg hcounted, Checked.ok_bind, ih _ (by simpa [hcounted] using hfits)]
      simp [haged, hcounted, hkept]

/-- The entries of a walk that are no files are passed over. -/
theorem foldlM_scanEntry (entries : List WalkEntry) (s : Scanned) :
    entries.foldlM cache.scanEntry s = (entries.filterMap WalkEntry.asFile).foldlM cache.scanFile s := by
  induction entries generalizing s with
  | nil => rfl
  | cons entry entries ih =>
    rw [List.foldlM_cons]
    cases entry with
    | file f =>
      have hfile : (WalkEntry.file f :: entries).filterMap WalkEntry.asFile =
          f :: entries.filterMap WalkEntry.asFile := rfl
      rw [hfile, List.foldlM_cons]
      exact congrArg (cache.scanFile s f >>= ·) (funext ih)
    | other => exact ih s
    | error => exact ih s

/-- The walks through some directories are one pass through their files. -/
theorem foldlM_walks (roots : List FilePath) (s : Scanned) :
    roots.foldlM (fun s root => (cache.walk root).entries.foldlM cache.scanEntry s) s =
      (roots.flatMap fun root => (cache.walk root).files).foldlM cache.scanFile s := by
  induction roots generalizing s with
  | nil => rfl
  | cons root roots ih =>
    rw [List.foldlM_cons, List.flatMap_cons, List.foldlM_append, foldlM_scanEntry]
    exact congrArg ((cache.walk root).files.foldlM cache.scanFile s >>= ·) (funext ih)

theorem scan_eq_foldlM : cache.scan = cache.cached.foldlM cache.scanFile ⟨0, [], []⟩ := foldlM_walks _ _

/-- **The first pass.** -/
theorem scan_eq (hfits : sizes (cache.cached.filter isCounted) < 2 ^ 64) :
    cache.scan = .ok ⟨sizes (cache.cached.filter fun f => isCounted f && !cache.isAged f),
      cache.cached.filter cache.isKept, cache.cached.filter cache.isAged⟩ := by
  rw [scan_eq_foldlM, foldlM_scanFile _ _ (by simpa using hfits)]
  simp

/-! ### No file twice -/

/-- Two directories, neither of which lies in the other, have no path below them in common. -/
theorem nodup_cached (hdirs : cache.streamDir ≠ cache.downloadDir →
      ¬ cache.streamDir <+: cache.downloadDir ∧ ¬ cache.downloadDir <+: cache.streamDir) :
    cache.cached.Nodup := by
  have happart : ∀ root ∈ cache.downloadDirs, ∀ root' ∈ cache.downloadDirs, root ≠ root' → ¬ root <+: root' := by
    rw [downloadDirs]
    grind
  have hroots : (cache.downloadDirs.filter cache.dirExists).Nodup := by
    refine List.Nodup.filter _ ?_
    rw [downloadDirs]
    grind
  rw [cached, List.nodup_flatMap]
  refine ⟨fun root _ => (cache.walk root).nodup.of_map, hroots.pairwise_of_forall_ne ?_⟩
  intro root hroot root' hroot' hne file hfile hfile'
  have hbelow := (cache.walk root).below file hfile
  have hbelow' := (cache.walk root').below file hfile'
  have hmem := List.mem_of_mem_filter hroot
  have hmem' := List.mem_of_mem_filter hroot'
  cases List.prefix_or_prefix_of_prefix hbelow hbelow' with
  | inl h => exact happart root hmem root' hmem' hne h
  | inr h => exact happart root' hmem' root hmem hne.symm h

/-! ### What is counted while files are removed -/

/-- **One removal**: what is counted gets smaller by the size of the file. -/
theorem countedSize_append_singleton (hnodup : cache.cached.Nodup) {gone : List CachedFile} {file : CachedFile}
    (hfile : file ∈ cache.cached) (hcounted : isCounted file) (hnot : file ∉ gone) :
    cache.countedSize (gone ++ [file]) + file.size = cache.countedSize gone := by
  have hmem : file ∈ cache.cached.filter fun f => isCounted f && f ∉ gone := by
    rw [List.mem_filter]
    simp [hfile, hcounted, hnot]
  have herase : (cache.cached.filter fun f => isCounted f && f ∉ gone).erase file =
      cache.cached.filter fun f => isCounted f && f ∉ gone ++ [file] := by
    rw [(hnodup.filter _).erase_eq_filter, List.filter_filter]
    refine List.filter_congr fun f _ => ?_
    by_cases hf : f = file
    · simp [hf]
    · simp [hf]
  have hsum := ((List.perm_cons_erase hmem).map CachedFile.size).sum_nat
  rw [List.map_cons, List.sum_cons] at hsum
  rw [countedSize, countedSize, ← herase, sizes, sizes, hsum, Nat.add_comm]

/-- What the first pass has counted is what it has not removed. -/
theorem countedSize_aged : cache.countedSize (cache.cached.filter cache.isAged) =
    sizes (cache.cached.filter fun f => isCounted f && !cache.isAged f) := by
  refine congrArg sizes (List.filter_congr fun f hf => ?_)
  simp [List.mem_filter, hf]

/-! ### The second pass -/

theorem evict_sublist (total : ℕ) (files : List CachedFile) : (cache.evict total files).Sublist files := by
  induction files generalizing total with
  | nil => exact List.Sublist.slnil
  | cons file files ih =>
    rw [evict]
    split
    · exact List.nil_sublist _
    · split
      · exact (ih _).cons _
      · split
        · exact (ih _).cons _
        · exact (ih _).cons_cons _

section Second

variable (hnodup : cache.cached.Nodup) (hfails : ∀ path, cache.fails path = false)

include hnodup hfails

/-- **The second pass frees what it can.** -/
theorem evict_total (files gone : List CachedFile) (hfiles : files.Nodup)
    (hcached : ∀ f ∈ files, f ∈ cache.cached ∧ isCounted f ∧ f ∉ gone) :
    cache.countedSize (gone ++ cache.evict (cache.countedSize gone) files) ≤ cache.limit ∨
      ∀ f ∈ files, f ∉ cache.evict (cache.countedSize gone) files → cache.limit < f.size := by
  induction files generalizing gone with
  | nil => exact .inr fun f hf => (nomatch hf)
  | cons file files ih =>
    rw [List.nodup_cons] at hfiles
    obtain ⟨hfile, hcounted, hnot⟩ := hcached file List.mem_cons_self
    have hrest : ∀ f ∈ files, f ∈ cache.cached ∧ isCounted f ∧ f ∉ gone :=
      fun f hf => hcached f (List.mem_cons_of_mem _ hf)
    rw [evict]
    split
    · next hle => exact .inl (by simpa using hle)
    · split
      · next hlarge =>
        -- A file larger than the limit stays.
        refine (ih gone hfiles.2 hrest).imp id fun h f hf hout => ?_
        cases List.mem_cons.mp hf with
        | inl heq => exact heq ▸ hlarge
        | inr hf => exact h f hf hout
      · rw [if_neg (by simp [hfails])]
        have hsize := countedSize_append_singleton hnodup hfile hcounted hnot
        have htotal : cache.countedSize gone - file.size = cache.countedSize (gone ++ [file]) := by omega
        have hnext : ∀ f ∈ files, f ∈ cache.cached ∧ isCounted f ∧ f ∉ gone ++ [file] := by
          intro f hf
          obtain ⟨hf₁, hf₂, hf₃⟩ := hrest f hf
          have hne : f ≠ file := fun heq => hfiles.1 (heq ▸ hf)
          exact ⟨hf₁, hf₂, by simp [hf₃, hne]⟩
        rw [htotal]
        refine (ih (gone ++ [file]) hfiles.2 hnext).imp ?_ fun h f hf hout => ?_
        · intro h
          rwa [List.append_assoc] at h
        · rw [List.mem_cons, not_or] at hout
          cases List.mem_cons.mp hf with
          | inl heq => exact absurd heq hout.1
          | inr hf => exact h f hf hout.2

/-- **The second pass removes the oldest files**, and only while too much is counted. -/
theorem evict_order (files gone : List CachedFile) (hfiles : files.Nodup)
    (hcached : ∀ f ∈ files, f ∈ cache.cached ∧ isCounted f ∧ f ∉ gone)
    (hsorted : files.Pairwise fun f g => f.time ≤ g.time) {earlier later : List CachedFile} {file : CachedFile}
    (hsplit : cache.evict (cache.countedSize gone) files = earlier ++ file :: later) :
    cache.limit < cache.countedSize (gone ++ earlier) ∧
      ∀ g ∈ files, g.size ≤ cache.limit → g.time < file.time → g ∈ earlier := by
  induction files generalizing gone earlier with
  | nil => simp [evict] at hsplit
  | cons first files ih =>
    rw [List.nodup_cons] at hfiles
    rw [List.pairwise_cons] at hsorted
    obtain ⟨hfirst, hcounted, hnot⟩ := hcached first List.mem_cons_self
    have hrest : ∀ f ∈ files, f ∈ cache.cached ∧ isCounted f ∧ f ∉ gone :=
      fun f hf => hcached f (List.mem_cons_of_mem _ hf)
    rw [evict] at hsplit
    split at hsplit
    · simp at hsplit
    · next hgt =>
      split at hsplit
      · next hlarge =>
        obtain ⟨htotal, holder⟩ := ih gone hfiles.2 hrest hsorted.2 hsplit
        refine ⟨htotal, fun g hg hsize htime => ?_⟩
        cases List.mem_cons.mp hg with
        | inl heq => exact absurd hlarge (by rw [← heq]; omega)
        | inr hg => exact holder g hg hsize htime
      · rw [if_neg (by simp [hfails])] at hsplit
        cases earlier with
        | nil =>
          -- The first file to be removed: all others are as old at most.
          obtain ⟨heq, -⟩ := List.cons.inj hsplit
          refine ⟨by simpa using hgt, fun g hg _ htime => ?_⟩
          cases List.mem_cons.mp hg with
          | inl hg => exact absurd htime (by rw [hg, heq]; omega)
          | inr hg => exact absurd (hsorted.1 g hg) (by rw [heq]; omega)
        | cons head earlier =>
          obtain ⟨heq, hsplit⟩ := List.cons.inj hsplit
          have hsize := countedSize_append_singleton hnodup hfirst hcounted hnot
          have htotal : cache.countedSize gone - first.size = cache.countedSize (gone ++ [first]) := by omega
          have hnext : ∀ f ∈ files, f ∈ cache.cached ∧ isCounted f ∧ f ∉ gone ++ [first] := by
            intro f hf
            obtain ⟨hf₁, hf₂, hf₃⟩ := hrest f hf
            have hne : f ≠ first := fun heq => hfiles.1 (heq ▸ hf)
            exact ⟨hf₁, hf₂, by simp [hf₃, hne]⟩
          rw [htotal] at hsplit
          obtain ⟨hlimit, holder⟩ := ih (gone ++ [first]) hfiles.2 hnext hsorted.2 hsplit
          rw [List.append_assoc] at hlimit
          refine ⟨by rwa [← heq], fun g hg hsize htime => ?_⟩
          cases List.mem_cons.mp hg with
          | inl hg => exact List.mem_cons.mpr (.inl (by rw [hg, heq]))
          | inr hg => exact List.mem_cons_of_mem _ (holder g hg hsize htime)

end Second

/-! ### The run -/

/-- The files that the second pass gets, the oldest first. -/
def Cache.byAge (cache : Cache) : List CachedFile :=
  (cache.cached.filter cache.isKept).mergeSort fun a b => a.time ≤ b.time

theorem mem_byAge {file : CachedFile} : file ∈ cache.byAge ↔ file ∈ cache.cached ∧ cache.isKept file := by
  rw [byAge, List.mem_mergeSort, List.mem_filter]

theorem byAge_pairwise : cache.byAge.Pairwise fun f g => f.time ≤ g.time := by
  have h := @List.pairwise_mergeSort _ (fun a b : CachedFile => decide (a.time ≤ b.time))
    (fun a b c hab hbc => by simp only [decide_eq_true_eq] at hab hbc ⊢; omega)
    (fun a b => by simp only [Bool.or_eq_true, decide_eq_true_eq]; omega) (cache.cached.filter cache.isKept)
  exact h.imp fun h => by simpa using h

/-- Nothing that the second pass gets has been removed by the first one. -/
theorem byAge_cached : ∀ f ∈ cache.byAge,
    f ∈ cache.cached ∧ isCounted f ∧ f ∉ cache.cached.filter cache.isAged := by
  intro f hf
  obtain ⟨hmem, hkept⟩ := mem_byAge.mp hf
  refine ⟨hmem, isCounted_of_isKept hkept, fun haged => ?_⟩
  rw [isKept_of_isAged (List.mem_filter.mp haged).2] at hkept
  cases hkept

/-- Without a directory there is no file. -/
theorem cached_eq_nil (h : (cache.downloadDirs.all fun dir => !cache.dirExists dir) = true) : cache.cached = [] := by
  have hnone : cache.downloadDirs.filter cache.dirExists = [] := by
    rw [List.filter_eq_nil_iff]
    simpa using h
  rw [cached, hnone, List.flatMap_nil]

/-- **A run removes what is old**, and then the oldest files while there is too much. -/
theorem cleanCache_eq (hfits : sizes (cache.cached.filter isCounted) < 2 ^ 64) :
    cache.cleanCache = .ok (cache.cached.filter cache.isAged ++
      if 0 < cache.limit ∧ cache.limit < cache.countedSize (cache.cached.filter cache.isAged) then
        cache.evict (cache.countedSize (cache.cached.filter cache.isAged)) cache.byAge
      else []) := by
  rw [cleanCache]
  split
  · next h =>
    have hnil := cached_eq_nil h
    have hage : cache.byAge = [] := by
      rw [byAge, hnil, List.filter_nil, List.mergeSort_nil]
    simp [hnil, hage, evict]
  · rw [scan_eq hfits, ← countedSize_aged, Except.map, ← byAge]
    split
    · rfl
    · rw [List.append_nil]

/-- **The cleaner keeps what it must and frees what it can.** -/
theorem cleanCache_spec (cache : Cache)
    (hdirs : cache.streamDir ≠ cache.downloadDir →
      ¬ cache.streamDir <+: cache.downloadDir ∧ ¬ cache.downloadDir <+: cache.streamDir)
    (hfits : sizes (cache.cached.filter isCounted) < 2 ^ 64) :
    ∃ removed, cache.cleanCache = .ok removed ∧
      (∀ f ∈ removed, f ∈ cache.cached ∧ ".metadata" ∉ f.path ∧ ∀ p ∈ cache.protectedPaths, ¬ p <+: f.path) ∧
      ((∀ path, cache.fails path = false) → 0 < cache.limit →
        (cache.countedSize removed ≤ cache.limit ∨
          ∀ f ∈ cache.cached, isCounted f → ¬ cache.isProtected f.path → f ∉ removed → cache.limit < f.size) ∧
        ∀ earlier f later, removed = earlier ++ f :: later → ¬ cache.isOldFile f →
          cache.limit < cache.countedSize earlier ∧
            ∀ g ∈ cache.cached, isCounted g → ¬ cache.isProtected g.path → g.size ≤ cache.limit →
              g.time < f.time → g ∈ earlier) := by
  have hnodup := nodup_cached hdirs
  have hage : cache.byAge.Nodup := by
    rw [byAge, (List.mergeSort_perm _ _).nodup_iff]
    exact hnodup.filter _
  refine ⟨_, cleanCache_eq hfits, fun f hf => ?_, fun hfails hlimit => ⟨?_, fun earlier f later hsplit hyoung => ?_⟩⟩
  -- each pass removes only what is aged or kept, and nothing of either kind is protected
  · have hkind : f ∈ cache.cached ∧ (cache.isAged f ∨ cache.isKept f) := by
      rw [List.mem_append] at hf
      cases hf with
      | inl hf => exact ⟨(List.mem_filter.mp hf).1, .inl (List.mem_filter.mp hf).2⟩
      | inr hf =>
        split at hf
        · have hmem := mem_byAge.mp ((evict_sublist _ _).subset hf)
          exact ⟨hmem.1, .inr hmem.2⟩
        · cases hf
    obtain ⟨hmetadata, hprotected⟩ := removable hkind.2
    refine ⟨hkind.1, hmetadata, fun p hp hbelow => ?_⟩
    rw [isProtected_iff.mpr ⟨p, hp, hbelow⟩] at hprotected
    cases hprotected
  -- the second pass stops below the limit, or after it has tried everything that fits
  · split
    · refine (evict_total hnodup hfails _ _ hage byAge_cached).imp id fun h f hf hcounted hunprotected hout => ?_
      rw [List.mem_append, not_or] at hout
      cases isAged_or_isKept hfails hcounted hunprotected with
      | inl haged => exact absurd (List.mem_filter.mpr ⟨hf, haged⟩) hout.1
      | inr hkept => exact h f (mem_byAge.mpr ⟨hf, hkept⟩) hout.2
    · next h =>
      rw [List.append_nil]
      exact .inl (by omega)
  · -- A young file is removed in the second pass, behind all that the first one has removed.
    have hold : f ∉ cache.cached.filter cache.isAged := by
      intro hf
      have haged := (List.mem_filter.mp hf).2
      rw [isAged] at haged
      grind
    -- so the place of `f` in the list is behind the end of the first pass
    obtain ⟨before, hearlier, hafter⟩ : ∃ before, earlier = cache.cached.filter cache.isAged ++ before ∧
        (if 0 < cache.limit ∧ cache.limit < cache.countedSize (cache.cached.filter cache.isAged) then
          cache.evict (cache.countedSize (cache.cached.filter cache.isAged)) cache.byAge
        else []) = before ++ f :: later := by
      cases List.append_eq_append_iff.mp hsplit with
      | inl h => exact h
      | inr h =>
        obtain ⟨between, haged, hrest⟩ := h
        cases between with
        | nil => exact ⟨[], by simpa using haged.symm, by simpa using hrest.symm⟩
        | cons head between =>
          have heq : f = head := (List.cons.inj hrest).1
          exact absurd (by rw [haged, heq]; simp) hold
    split at hafter
    · obtain ⟨htotal, holder⟩ := evict_order hnodup hfails _ _ hage byAge_cached byAge_pairwise hafter
      rw [hearlier]
      refine ⟨htotal, fun g hg hcounted hunprotected hsize htime => ?_⟩
      rw [List.mem_append]
      cases isAged_or_isKept hfails hcounted hunprotected with
      | inl haged => exact .inl (List.mem_filter.mpr ⟨hg, haged⟩)
      | inr hkept => exact .inr (holder g (mem_byAge.mpr ⟨hg, hkept⟩) hsize htime)
    · simp at hafter

/-- Two directories with the film that is being watched, an old one, and one that is too much. -/
def watchedFilm : Cache where
  limit := 10
  streamDir := ["cache"]
  downloadDir := ["downloads"]
  streamStats := [⟨"film", ["film/film.mkv"]⟩]
  downloadStats := []
  dirExists _ := true
  walk root :=
    { entries := [.file ⟨root ++ ["film", "film.mkv"], some ⟨7, some 0⟩⟩, .other, .error,
        .file ⟨root ++ ["old.mkv"], some ⟨4, some 0⟩⟩, .file ⟨root ++ ["new.mkv"], some ⟨4, some (2 * thirtyDays)⟩⟩]
      below := by
        intro file hfile
        simp only [List.filterMap_cons, WalkEntry.asFile, List.filterMap_nil, List.mem_cons, List.not_mem_nil,
          or_false] at hfile
        rcases hfile with h | h | h
        · exact h ▸ ⟨_, rfl⟩
        · exact h ▸ ⟨_, rfl⟩
        · exact h ▸ ⟨_, rfl⟩
      nodup := by simp [List.filterMap_cons, WalkEntry.asFile] }
  now := 2 * thirtyDays
  fails _ := false

theorem watchedFilm_cleanCache : ∃ removed, watchedFilm.cleanCache = .ok removed ∧
    (∀ f ∈ removed, ".metadata" ∉ f.path ∧ ¬ ["cache", "film", "film.mkv"] <+: f.path) ∧
    (watchedFilm.countedSize removed ≤ 10 ∨ ∀ f ∈ watchedFilm.cached, isCounted f →
      ¬ watchedFilm.isProtected f.path → f ∉ removed → 10 < f.size) := by
  obtain ⟨removed, hrun, hstay, hfree⟩ := cleanCache_spec watchedFilm (fun _ => by decide) (by decide)
  refine ⟨removed, hrun, fun f hf => ?_, (hfree (fun _ => rfl) (by decide)).1⟩
  obtain ⟨-, hmetadata, hprotected⟩ := hstay f hf
  exact ⟨hmetadata, hprotected _ (by decide)⟩

end StreamServer.CacheCleaner

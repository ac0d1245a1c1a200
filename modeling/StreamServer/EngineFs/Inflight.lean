import StreamServer.EngineFs.OpensubHash
import StreamServer.Lib.SingleFlight

/-!
# Calculations that requests share

An engine keeps the hash of OpenSubtitles and what a probe has found for each of its files.  Both take
long, and a player asks for them several times at once, so the requests for a file share one
calculation: two tables of single flights, which differ in what they keep.  A probe that has found
nothing to play is handed out, but not kept, so that a later request can do better.  A backend that does
not manage playback has every request for a hash calculate it.

## Main definitions

* `HashRequests`, `getOpensubHash` — the requests for hashes.
* `runProbe`, `getProbeResult` — a probe, and the requests for them.
* `ProbeSetting`, `Probed` — what probes can meet, and what they should come to.

## Main results

* `opensubHash_shared` — **one calculation at a time for a file, and never another hash than that
  of the file.**
* `probeResult_shared` — **one probe at a time for a file; what is kept can be played**, and what
  cannot comes from the stream, as does what is found of an incomplete file.

## References

`enginefs/src/engine.rs`, `get_opensub_hash`, `get_probe_result`, `run_probe`; `enginefs/src/hls.rs`,
`is_hls_ready`.
-/

namespace StreamServer.EngineFs

open Readers

/-- The requests for something of a file of an engine. -/
abbrev Flights (υ : Type) := SingleFlight ℕ String υ

/-! ### Hashes -/

/-- The error of a hash whose reader has not come in time. -/
def hashTimedOut : String := "OpenSub hash reader timed out after 15 seconds"

/-- What a calculation can come to, whose reader can plan. -/
def HashCalculates (checks : Bool) (files : List FileLayout) (fileIdx : ℕ)
    (result : Except String String) : Prop :=
  ∃ a : Attempt, a.Truthful files ∧ a.Fits checks files ∧
    calculateOpensubHash checks files fileIdx a = .done result

/-- What a shared calculation can come to: it is cut off after a time. -/
def HashComputes (checks : Bool) (files : List FileLayout) (fileIdx : ℕ)
    (result : Except String String) : Prop :=
  result = .error hashTimedOut ∨ HashCalculates checks files fileIdx result

/-- The requests for hashes: those that share, and those that calculate for themselves, with the file
and what has come of it. -/
structure HashRequests where
  flights : Flights String
  alone : ℕ → Option (ℕ × Option (Except String String))

/-- Nobody has called. -/
def HashRequests.new : HashRequests := ⟨.new, fun _ => none⟩

/-- The steps of the calls of `get_opensub_hash`. -/
inductive HashStep
  | shared (a : SingleFlight.Action ℕ String String)
  /-- A call that calculates at once. -/
  | start (i fileIdx : ℕ)
  | finish (i fileIdx : ℕ) (result : Except String String)
  | drop (i : ℕ)

section GetOpensubHash

variable (manages checks : Bool) (files : List FileLayout)

/-- The shared requests.  Every hash is kept. -/
def hashFlights : GuardedSystem (Flights String) (SingleFlight.Action ℕ String String) :=
  SingleFlight.flights (HashComputes checks files) fun _ => true

/-- The step can be taken. -/
def HashStep.guard (s : HashRequests) : HashStep → Prop
  | .shared a => manages = true ∧ (hashFlights checks files).guard s.flights a
  | .start i _ => manages = false ∧ s.alone i = none
  | .finish i fileIdx result =>
      s.alone i = some (fileIdx, none) ∧ HashCalculates checks files fileIdx result
  | .drop i => s.alone i ≠ none

/-- The requests once the step is taken. -/
def HashStep.effect (s : HashRequests) : HashStep → HashRequests
  | .shared a => { s with flights := (hashFlights checks files).effect s.flights a }
  | .start i fileIdx => { s with alone := Function.update s.alone i (some (fileIdx, none)) }
  | .finish i fileIdx result =>
      { s with alone := Function.update s.alone i (some (fileIdx, some result)) }
  | .drop i => { s with alone := Function.update s.alone i none }

/-- The requests of `get_opensub_hash`, for a backend that manages playback or for one that does not. -/
def getOpensubHash : GuardedSystem HashRequests HashStep where
  guard := HashStep.guard manages checks files
  effect := HashStep.effect checks files

end GetOpensubHash

/-- The hash of a file of the torrent. -/
def IsHashOf (files : List FileLayout) (fileIdx : ℕ) (hash : String) : Prop :=
  ∃ L, files[fileIdx]? = some L ∧ hash = hex16 (opensubSum L.fileSize L.fileByte)

section Hashes

variable {manages checks : Bool} {files : List FileLayout}

theorem isHashOf_of_calculates {fileIdx : ℕ} {hash : String}
    (h : HashCalculates checks files fileIdx (.ok hash)) : IsHashOf files fileIdx hash := by
  obtain ⟨a, ha, hf, hdone⟩ := h
  have hspec : HashesFile files fileIdx (calculateOpensubHash checks files fileIdx a) :=
    calculateOpensubHash_spec ha hf
  rw [hdone] at hspec
  exact hspec

theorem isHashOf_of_computes {fileIdx : ℕ} {hash : String}
    (h : HashComputes checks files fileIdx (.ok hash)) : IsHashOf files fileIdx hash := by
  rcases h with h | h
  · cases h
  · exact isHashOf_of_calculates h

/-- What holds of the requests in every run. -/
structure HashRequests.Sound (manages checks : Bool) (files : List FileLayout) (s : HashRequests) :
    Prop where
  flights : (hashFlights checks files).Reach GuardedSystem.anyStep .new s.flights
  unshared : manages = false → s.flights = .new
  alone : manages = true → ∀ i, s.alone i = none
  right : ∀ i fileIdx hash, s.alone i = some (fileIdx, some (.ok hash)) → IsHashOf files fileIdx hash

/-- One step of a call that calculates for itself. -/
theorem HashRequests.Sound.call {s : HashRequests} (h : s.Sound manages checks files) {i : ℕ}
    {call : Option (ℕ × Option (Except String String))} (hmanages : manages = false)
    (hright : ∀ fileIdx hash, call = some (fileIdx, some (.ok hash)) → IsHashOf files fileIdx hash) :
    HashRequests.Sound manages checks files { s with alone := Function.update s.alone i call } := by
  refine ⟨h.flights, h.unshared, fun hnot => ?_, fun j fileIdx hash hj => ?_⟩
  · rw [hmanages] at hnot
    cases hnot
  · dsimp only at hj
    rcases eq_or_ne j i with rfl | hne
    · rw [Function.update_self] at hj
      exact hright fileIdx hash hj
    · rw [Function.update_of_ne hne] at hj
      exact h.right j fileIdx hash hj

theorem HashRequests.Sound.step {s : HashRequests} (h : s.Sound manages checks files) {a : HashStep}
    (hg : (getOpensubHash manages checks files).guard s a) :
    HashRequests.Sound manages checks files ((getOpensubHash manages checks files).effect s a) := by
  -- who has a call that calculates for itself has a backend that does not manage playback
  have hunmanaged : ∀ i, s.alone i ≠ none → manages = false := by
    intro i hi
    cases hm : manages with
    | false => rfl
    | true => exact absurd (h.alone hm i) hi
  cases a with
  | shared a =>
    refine ⟨h.flights.step hg.2 trivial, fun hnot => ?_, h.alone, h.right⟩
    rw [hg.1] at hnot
    cases hnot
  | start i fileIdx => exact h.call hg.1 (by rintro _ _ ⟨⟩)
  | finish i fileIdx result =>
    refine h.call (hunmanaged i (by rw [hg.1]; exact Option.some_ne_none _)) ?_
    rintro _ hash ⟨⟩
    exact isHashOf_of_calculates hg.2
  | drop i => exact h.call (hunmanaged i hg) (by rintro _ _ ⟨⟩)

theorem HashRequests.sound_of_reach {s : HashRequests}
    (h : (getOpensubHash manages checks files).Reach GuardedSystem.anyStep .new s) :
    s.Sound manages checks files := by
  refine h.invariant ⟨.refl _, fun _ => rfl, fun _ _ => rfl, ?_⟩ fun _ _ hi hg _ => hi.step hg
  rintro i fileIdx hash ⟨⟩

/-- The shared requests among all. -/
theorem reach_shared {flights : Flights String}
    (h : (hashFlights checks files).Reach GuardedSystem.anyStep .new flights) :
    (getOpensubHash true checks files).Reach GuardedSystem.anyStep .new ⟨flights, fun _ => none⟩ := by
  revert h
  suffices hlift : ∀ flights', (hashFlights checks files).Reach GuardedSystem.anyStep .new flights' →
      (fun u => (getOpensubHash true checks files).Reach GuardedSystem.anyStep .new
        ⟨u, fun _ => none⟩) flights' from hlift flights
  intro flights' h
  apply h.invariant
  · exact .refl _
  · intro u a hu hg _
    exact hu.step (a := HashStep.shared a) ⟨rfl, hg⟩ trivial

end Hashes

/-- What a probe has found, as far as it matters: the duration, unless that is no number, and the
types of the streams. -/
structure ProbeResult where
  duration : Option ℚ
  codecTypes : List String
  deriving DecidableEq

/-- `is_hls_ready`. -/
def ProbeResult.isHlsReady (res : ProbeResult) : Bool :=
  res.duration.any (fun duration => 0 < duration) &&
    res.codecTypes.any fun codecType => codecType == "video" || codecType == "audio"

/-- What a probe meets: the backend, the file on disk, and what `probe_video` comes to when it is
called first, and when it is called again. -/
structure ProbeAttempt where
  managesPlaybackLifecycle : Bool
  prepared : Except String Unit
  isFileComplete : Bool
  filePath : Option String
  probeVideo : String → Except String ProbeResult
  probeAgain : String → Except String ProbeResult

/-- What the probe reads from. -/
inductive ProbeSource
  | localFile
  | streamUrl
  deriving DecidableEq

/-- What is probed first.  A file that is not complete is full of holes on disk, so that a backend
that can tell has it probed through the stream. -/
def ProbeAttempt.target (a : ProbeAttempt) (fallbackUrl : String) : String × ProbeSource :=
  if !a.managesPlaybackLifecycle || a.isFileComplete then
    match a.filePath with
    | some path => (path, .localFile)
    | none => (fallbackUrl, .streamUrl)
  else (fallbackUrl, .streamUrl)

/-- `run_probe`. -/
def runProbe (a : ProbeAttempt) (fallbackUrl : String) : Except String ProbeResult := do
  if !a.managesPlaybackLifecycle then a.prepared
  let (path, source) := a.target fallbackUrl
  let res ← a.probeVideo path
  if !res.isHlsReady && source = .localFile then a.probeAgain fallbackUrl
  else return res

/-- What the probes of an engine can meet: the backend, the paths of its files on disk and the addresses
of their streams, and what probing a path can come to. -/
structure ProbeSetting where
  managesPlaybackLifecycle : Bool
  onDisk : ℕ → String → Prop
  streamed : ℕ → String → Prop
  /-- The backend may find the file to be complete. -/
  completes : ℕ → Prop
  finds : String → Except String ProbeResult → Prop
  /-- Every request has an address. -/
  exists_streamed : ∀ fileIdx, ∃ url, streamed fileIdx url
  /-- A probe comes to something. -/
  exists_finds : ∀ path, ∃ result, finds path result

/-- What the probe of a file meets is possible in the setting. -/
structure ProbeAttempt.Possible (p : ProbeSetting) (fileIdx : ℕ) (a : ProbeAttempt)
    (fallbackUrl : String) : Prop where
  manages : a.managesPlaybackLifecycle = p.managesPlaybackLifecycle
  complete : a.isFileComplete = true → p.completes fileIdx
  disk : ∀ path, a.filePath = some path → p.onDisk fileIdx path
  stream : p.streamed fileIdx fallbackUrl
  first : ∀ path, p.finds path (a.probeVideo path)
  again : ∀ path, p.finds path (a.probeAgain path)

/-- What a probe can come to; the stream has the address one of the requests gave. -/
def ProbeComputes (p : ProbeSetting) (fileIdx : ℕ) (result : Except String ProbeResult) : Prop :=
  ∃ a fallbackUrl, ProbeAttempt.Possible p fileIdx a fallbackUrl ∧ runProbe a fallbackUrl = result

/-- The requests of `get_probe_result`.  What can be played is kept. -/
def getProbeResult (p : ProbeSetting) :
    GuardedSystem (Flights ProbeResult) (SingleFlight.Action ℕ String ProbeResult) :=
  SingleFlight.flights (ProbeComputes p) ProbeResult.isHlsReady

/-- This can be found by probing the file through its stream; or it can be played, and be found by
probing the file on disk, which is not known to be incomplete. -/
def Probed (p : ProbeSetting) (fileIdx : ℕ) (res : ProbeResult) : Prop :=
  (∃ url, p.streamed fileIdx url ∧ p.finds url (.ok res)) ∨
    res.isHlsReady = true ∧ (p.managesPlaybackLifecycle = true → p.completes fileIdx) ∧
      ∃ path, p.onDisk fileIdx path ∧ p.finds path (.ok res)

theorem target_streamUrl {a : ProbeAttempt} {fallbackUrl : String}
    (h : (a.target fallbackUrl).2 ≠ .localFile) :
    a.target fallbackUrl = (fallbackUrl, .streamUrl) := by
  unfold ProbeAttempt.target at h ⊢
  split
  · next hlocal =>
    rw [if_pos hlocal] at h
    split
    · next path hpath => simp [hpath] at h
    · rfl
  · rfl

/-- What a probe that succeeds has found at the first place, and at the second. -/
theorem runProbe_ok {a : ProbeAttempt} {fallbackUrl : String} {res : ProbeResult}
    (h : runProbe a fallbackUrl = .ok res) :
    ∃ first, a.probeVideo (a.target fallbackUrl).1 = .ok first ∧
      (if !first.isHlsReady && (a.target fallbackUrl).2 = .localFile then
        a.probeAgain fallbackUrl else pure first) = .ok res := by
  unfold runProbe at h
  have hrest : (a.probeVideo (a.target fallbackUrl).1 >>= fun first =>
      if !first.isHlsReady && (a.target fallbackUrl).2 = .localFile then
        a.probeAgain fallbackUrl else pure first) = .ok res := by
    cases hm : a.managesPlaybackLifecycle with
    | true =>
      rw [hm] at h
      exact h
    | false =>
      cases hp : a.prepared with
      | ok _ =>
        rw [hm, hp] at h
        exact h
      | error e =>
        rw [hm, hp] at h
        cases h
  cases hprobe : a.probeVideo (a.target fallbackUrl).1 with
  | ok first =>
    rw [hprobe] at hrest
    exact ⟨first, rfl, hrest⟩
  | error e =>
    rw [hprobe] at hrest
    cases hrest

/-- What is probed on disk is not known to be incomplete. -/
theorem target_localFile {a : ProbeAttempt} {fallbackUrl : String}
    (h : (a.target fallbackUrl).2 = .localFile) :
    (a.managesPlaybackLifecycle = true → a.isFileComplete = true) ∧
      a.filePath = some (a.target fallbackUrl).1 := by
  unfold ProbeAttempt.target at h ⊢
  split
  · next hlocal =>
    rw [if_pos hlocal] at h
    refine ⟨fun hmanages => by simpa [hmanages] using hlocal, ?_⟩
    split
    · next path hpath => exact hpath
    · next hnone => simp [hnone] at h
  · next hstream =>
    rw [if_neg hstream] at h
    cases h

/-- **What a probe finds.** -/
theorem probed_of_computes {p : ProbeSetting} {fileIdx : ℕ} {res : ProbeResult}
    (h : ProbeComputes p fileIdx (.ok res)) : Probed p fileIdx res := by
  obtain ⟨a, fallbackUrl, ha, hrun⟩ := h
  obtain ⟨first, hprobe, hres⟩ := runProbe_ok hrun
  by_cases hlocal : (a.target fallbackUrl).2 = .localFile
  · obtain ⟨hcomplete, hpath⟩ := target_localFile hlocal
    cases hready : first.isHlsReady with
    | true =>
      -- what was found on disk is good enough
      rw [if_neg (by simp [hready])] at hres
      obtain rfl : first = res := Except.ok.inj hres
      refine Or.inr ⟨hready, fun hmanages => ha.complete (hcomplete (ha.manages.trans hmanages)), _,
        ha.disk _ hpath, ?_⟩
      rw [← hprobe]
      exact ha.first _
    | false =>
      rw [if_pos (by simp [hready, hlocal])] at hres
      refine Or.inl ⟨fallbackUrl, ha.stream, ?_⟩
      rw [← hres]
      exact ha.again _
  · rw [if_neg (by simp [hlocal])] at hres
    obtain rfl : first = res := Except.ok.inj hres
    rw [target_streamUrl hlocal] at hprobe
    refine Or.inl ⟨fallbackUrl, ha.stream, ?_⟩
    rw [← hprobe]
    exact ha.first _

/-- A probe can come to an end. -/
theorem exists_probeComputes (p : ProbeSetting) (fileIdx : ℕ) :
    ∃ result, ProbeComputes p fileIdx result := by
  obtain ⟨url, hurl⟩ := p.exists_streamed fileIdx
  choose found hfound using p.exists_finds
  exact ⟨_, ⟨p.managesPlaybackLifecycle, .ok (), false, none, found, found⟩, url,
    ⟨rfl, nofun, nofun, hurl, hfound, hfound⟩, rfl⟩

/-- **Requests for probes.**  A file is never probed twice at once, and those that still wait for
what is found wait for the same probe; what is kept can be played; whatever is returned, or kept, can be
found by probing the file through its stream, or else can be played and be found by probing it on disk,
where it is not known to be incomplete; and every request under way can come to its end. -/
theorem probeResult_shared {p : ProbeSetting} {s : Flights ProbeResult}
    (h : (getProbeResult p).Reach GuardedSystem.anyStep .new s) :
    (∀ i j fileIdx cell cell', s.calls i = some ⟨fileIdx, .running cell⟩ →
      s.calls j = some ⟨fileIdx, .running cell'⟩ → i = j) ∧
    (∀ i j call call' cell cell', s.calls i = some call → s.calls j = some call' →
      call.key = call'.key → SingleFlight.awaited call = some cell →
      SingleFlight.awaited call' = some cell' → s.result cell = none → s.result cell' = none →
      cell = cell') ∧
    (∀ i fileIdx res, s.calls i = some ⟨fileIdx, .returned (.ok res)⟩ → Probed p fileIdx res) ∧
    (∀ fileIdx res, s.cache fileIdx = some res → res.isHlsReady = true ∧ Probed p fileIdx res) ∧
    (∀ i call, s.calls i = some call →
      SingleFlight.CanReturn (ProbeComputes p) ProbeResult.isHlsReady s i call.key) := by
  have hs := SingleFlight.sound_of_reach h
  refine ⟨fun _ _ _ _ _ => hs.one_flight, fun _ _ _ _ _ _ => hs.shares, ?_, ?_, ?_⟩
  · intro i fileIdx res hi
    exact probed_of_computes (hs.computed _ (hs.answers hi))
  · intro fileIdx res hcache
    obtain ⟨hready, hmem⟩ := hs.cache fileIdx res hcache
    exact ⟨hready, probed_of_computes (hs.computed _ hmem)⟩
  · intro i call hi
    exact hs.exists_returned (exists_probeComputes p) hi

/-- A file whose copy on disk is full of holes, next to its stream. -/
def sparseFilm : ProbeSetting where
  managesPlaybackLifecycle := true
  onDisk _ path := path = "film.mkv"
  streamed _ url := url = "http://127.0.0.1"
  completes _ := False
  finds path result := result = if path = "film.mkv" then .error "no stream" else .ok ⟨none, ["video"]⟩
  exists_streamed _ := ⟨_, rfl⟩
  exists_finds _ := ⟨_, rfl⟩

/-- An incomplete file: the probe goes through the stream, and what it finds is handed out although
it cannot be played yet. -/
theorem incompleteFile_probed : ∃ s,
    (getProbeResult sparseFilm).Reach GuardedSystem.anyStep .new s ∧
      s.calls 0 = some ⟨0, .returned (.ok ⟨none, ["video"]⟩)⟩ ∧ s.cache 0 = none ∧
        Probed sparseFilm 0 ⟨none, ["video"]⟩ := by
  have hprobe : ProbeComputes sparseFilm 0 (.ok ⟨none, ["video"]⟩) :=
    ⟨⟨true, .ok (), false, some "film.mkv",
      fun path => if path = "film.mkv" then .error "no stream" else .ok ⟨none, ["video"]⟩,
      fun path => if path = "film.mkv" then .error "no stream" else .ok ⟨none, ["video"]⟩⟩,
      "http://127.0.0.1", ⟨rfl, nofun, fun _ h => (Option.some.inj h).symm, rfl, fun _ => rfl,
        fun _ => rfl⟩, rfl⟩
  have hnew : (getProbeResult sparseFilm).Reach GuardedSystem.anyStep .new .new := .refl _
  have hlook := SingleFlight.reach_call (SingleFlight.reach_start hnew 0 0 rfl trivial) .look (i := 0)
    rfl rfl trivial
  have hjoin := SingleFlight.reach_call hlook .join (i := 0) rfl rfl trivial
  have hrun := SingleFlight.reach_call hjoin (.acquire 0) (i := 0) rfl ⟨rfl, rfl, rfl⟩ trivial
  have hdone := SingleFlight.reach_call hrun (.finish 0 (.ok ⟨none, ["video"]⟩)) (i := 0) rfl
    ⟨rfl, hprobe⟩ trivial
  have hleft := SingleFlight.reach_call hdone (.leave 0 (.ok ⟨none, ["video"]⟩)) (i := 0) rfl rfl trivial
  have hend := SingleFlight.reach_call hleft (.store (.ok ⟨none, ["video"]⟩)) (i := 0) rfl rfl trivial
  exact ⟨_, hend, rfl, rfl, (probeResult_shared hend).2.2.1 0 0 _ rfl⟩

end StreamServer.EngineFs

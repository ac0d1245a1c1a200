import StreamServer.Playback.State

/-!
# Requests and the generation

A generation is shared by all readers of one selection, and starting another
cancels them.  This file settles when a request starts one: a request for the
selected file does so exactly when it asks for another native priority, and the
end of HLS playback of some other file does so exactly when there has been HLS
activity on the torrent, whichever file it was for.

## Main definitions

* `FileRequest` — the two requests that select a file.
* `TorrentPlaybackState.KeepsReaders` — an update leaves the readers their generation
  and their token.

## Main results

* `select_fst_of_changed`, `select_keepsReaders_iff` — what `select` does to them.
* `sameFile_keepsReaders_iff` — **a request for the selected file keeps the
  readers exactly when it asks for the selected priority.**
* `endHls_confined_iff` — **`end_hls` of another file is confined to that file
  exactly when there is no HLS activity.**

## References

`enginefs/src/backend/libtorrent/playback.rs`, `start_playback`, `refresh_hls`,
`end_hls`.
-/

namespace StreamServer.Playback

/-- A request that selects a file. -/
inductive FileRequest
  | startPlayback (start : LibtorrentPlaybackStart) (complete : Bool)
  | refreshHls (fileIdx : ℕ) (complete : Bool)
  deriving DecidableEq, Repr

namespace FileRequest

/-- The file the request is for. -/
def fileIdx : FileRequest → ℕ
  | .startPlayback start _ => start.fileIdx
  | .refreshHls fileIdx _ => fileIdx

/-- The native priority the request asks for. -/
def nativePriority (st : TorrentPlaybackState) : FileRequest → ℤ
  | .startPlayback start complete => st.startPriority start complete
  | .refreshHls _ complete => TorrentPlaybackState.hlsPriority complete

/-- Serve the request under the lock of the state. -/
def perform (r : FileRequest) (st : TorrentPlaybackState) (now : ℕ) (seedingEnabled : Bool) :
    Except String (TorrentPlaybackState × Selection) :=
  match r with
  | .startPlayback start complete => st.startPlayback now seedingEnabled start complete
  | .refreshHls fileIdx complete => .ok (st.refreshHls now seedingEnabled fileIdx complete)

end FileRequest

namespace TorrentPlaybackState

/-- The update leaves every reader its generation and its token. -/
structure KeepsReaders (st st' : TorrentPlaybackState) : Prop where
  generation : st'.generation = st.generation
  cancellation : st'.cancellation = st.cancellation

variable (st : TorrentPlaybackState) (now fileIdx : ℕ) (nativePriority : ℤ)
  (directPermit hlsActivity networkRequired foreground : Bool)

/-! ### What a selection does -/

theorem changes_eq_false_iff :
    st.changes fileIdx nativePriority = false ↔
      st.selectedFile = some fileIdx ∧ st.selectedPriority = nativePriority := by
  simp [changes]

theorem select_fst_of_unchanged (h : st.changes fileIdx nativePriority = false) :
    (st.select now fileIdx nativePriority directPermit hlsActivity networkRequired foreground).1 =
      st.grant now directPermit hlsActivity networkRequired foreground := by
  simp [select, h]

theorem select_fst_of_changed (h : st.changes fileIdx nativePriority = true) :
    (st.select now fileIdx nativePriority directPermit hlsActivity networkRequired foreground).1 =
      (st.reselect fileIdx nativePriority).grant now directPermit hlsActivity networkRequired
        foreground := by
  simp [select, h]

/-- A selection keeps the readers exactly when it changes nothing. -/
theorem select_keepsReaders_iff :
    st.KeepsReaders
        (st.select now fileIdx nativePriority directPermit hlsActivity networkRequired
          foreground).1 ↔
      st.changes fileIdx nativePriority = false := by
  constructor
  · intro h
    by_contra hchanged
    rw [Bool.not_eq_false] at hchanged
    rw [select_fst_of_changed st now fileIdx nativePriority directPermit hlsActivity
      networkRequired foreground hchanged] at h
    exact st.cancellation.renew_ne h.cancellation
  · intro h
    rw [select_fst_of_unchanged st now fileIdx nativePriority directPermit hlsActivity
      networkRequired foreground h]
    exact ⟨rfl, rfl⟩

/-- A request for the selected file is never rejected. -/
theorem perform_eq_select {r : FileRequest} {f : ℕ} (hsel : st.selectedFile = some f)
    (hf : r.fileIdx = f) (seedingEnabled : Bool) :
    ∃ directPermit hlsActivity networkRequired foreground,
      r.perform st now seedingEnabled =
        .ok (st.select now f (r.nativePriority st) directPermit hlsActivity networkRequired
          foreground) := by
  subst hf
  cases r with
  | startPlayback start complete =>
    refine ⟨true, false, !complete || seedingEnabled, start.intent.isForeground, ?_⟩
    have hnot : ¬(!start.intent.isForeground ∧ 0 < st.activeForegroundPermits ∧
        st.selectedFile ≠ some start.fileIdx) := fun h => h.2.2 hsel
    simp only [FileRequest.perform, startPlayback, if_neg hnot]
    rfl
  | refreshHls fileIdx complete =>
    exact ⟨false, true, !complete || seedingEnabled, false, rfl⟩

/-- **When a request for the selected file keeps its readers.**  It is granted,
and every reader keeps generation and token, exactly when the native priority it
asks for is the selected one. -/
theorem sameFile_keepsReaders_iff {f : ℕ} (hsel : st.selectedFile = some f) (r : FileRequest)
    (hf : r.fileIdx = f) (seedingEnabled : Bool) :
    (∃ granted, r.perform st now seedingEnabled = .ok granted ∧ st.KeepsReaders granted.1) ↔
      r.nativePriority st = st.selectedPriority := by
  obtain ⟨direct, hls, network, fg, hperform⟩ := perform_eq_select st now hsel hf seedingEnabled
  constructor
  · rintro ⟨granted, hgranted, hkeeps⟩
    obtain rfl := Except.ok.inj (hperform.symm.trans hgranted)
    rw [select_keepsReaders_iff, changes_eq_false_iff] at hkeeps
    exact hkeeps.2.symm
  · intro hpriority
    refine ⟨_, hperform, ?_⟩
    rw [select_keepsReaders_iff, changes_eq_false_iff]
    exact ⟨hsel, hpriority.symm⟩

/-- The state of a torrent whose file 7 is streamed by one reader. -/
def streaming : TorrentPlaybackState :=
  (new.select 0 7 1 true false true true).1

/-- A second range request for the streamed file keeps the reader. -/
theorem secondRange_keepsReaders :
    let r : FileRequest := .startPlayback ⟨7, 2, 4096, .directSeek⟩ false
    ∃ granted, r.perform streaming 10 true = .ok granted ∧ streaming.KeepsReaders granted.1 :=
  (sameFile_keepsReaders_iff streaming 10 (f := 7) rfl
    (.startPlayback ⟨7, 2, 4096, .directSeek⟩ false) rfl true).mpr (by decide)

/-- A range request for the streamed file, once that file is complete, cancels
the reader that streams it. -/
theorem completedFile_cancels_reader :
    ∃ (st : TorrentPlaybackState) (f token : ℕ) (r : FileRequest) (granted : _ × Selection),
      st.selectedFile = some f ∧ 0 < st.directPermits.count st.generation ∧
        token = st.cancellation.current ∧ r.fileIdx = f ∧
        r.perform st 10 true = .ok granted ∧ granted.1.generation ≠ st.generation ∧
        token ∈ granted.1.cancellation.cancelled :=
  ⟨streaming, 7, 1, .startPlayback ⟨7, 2, 4096, .directSeek⟩ true,
    streaming.select 10 7 0 true false true true, rfl, by decide, rfl, rfl, rfl, by decide,
    by decide⟩

/-! ### Ending HLS playback -/

/-- The end of HLS playback leaves the selection of the torrent and its phase
alone, and starts no pause. -/
structure Confined (st : TorrentPlaybackState) (result : TorrentPlaybackState × EndHls) : Prop where
  selectedFile : result.1.selectedFile = st.selectedFile
  generation : result.1.generation = st.generation
  cancellation : result.1.cancellation = st.cancellation
  priorityWindows : result.1.priorityWindows = st.priorityWindows
  phase : result.1.phase = st.phase
  noPause : ∀ generation, result.2 ≠ .performPause generation

/-- **When `end_hls` of another file is confined to that file**: exactly when
the torrent has seen no HLS activity, of whatever file, that is still
remembered. -/
theorem endHls_confined_iff {f g : ℕ} (hsel : st.selectedFile = some g) (hfg : f ≠ g)
    (seedingEnabled : Bool) :
    st.Confined (st.endHls seedingEnabled f) ↔ st.hlsLastActivity = none := by
  have hother : st.selectedFile ≠ some f := by
    rw [hsel]
    exact fun h => hfg (Option.some.inj h).symm
  constructor
  · intro h
    by_contra hactive
    have hpaused : (st.endHls seedingEnabled f).1 = st.beginPause := by
      rw [endHls, if_neg fun hguard => hactive hguard.2]
    have hnone := h.selectedFile
    rw [hpaused, hsel] at hnone
    cases hnone
  · intro hnone
    rw [endHls, if_pos ⟨hother, hnone⟩]
    exact ⟨rfl, rfl, rfl, rfl, rfl, fun _ h => by cases h⟩

/-- Ending HLS playback of a file nobody streams leaves the streamed file
alone. -/
theorem endHls_confined_streaming : streaming.Confined (streaming.endHls false 2) :=
  (endHls_confined_iff streaming (f := 2) (g := 7) rfl (by decide) false).mpr rfl

/-- An HLS session of file 2, a switch to file 7 with a reader, and the end of
the session one second later: the reader is cancelled and the torrent paused. -/
theorem endHls_pauses_other_file :
    ∃ (st : TorrentPlaybackState) (f g token : ℕ),
      st = ((new.refreshHls 0 false 2 false).1.select 500 7 1 true false true true).1 ∧
        st.selectedFile = some g ∧ f ≠ g ∧ st.hlsIsActive 1000 = true ∧
        0 < st.directPermits.count st.generation ∧ token = st.cancellation.current ∧
        (st.endHls false f).1.selectedFile = none ∧
        token ∈ (st.endHls false f).1.cancellation.cancelled ∧
        ¬ st.Confined (st.endHls false f) :=
  ⟨_, 2, 7, 2, rfl, rfl, by decide, by decide, by decide, by decide, rfl, by decide,
    fun h => absurd h.selectedFile (by decide)⟩

end TorrentPlaybackState

end StreamServer.Playback

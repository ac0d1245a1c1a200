import Mathlib.Data.Finset.Insert
import StreamServer.Playback.Windows

/-!
# The native torrent

What the coordinator can observe and change of the torrent inside the native
library.  The library is not part of the repository; the model has the effects
its interface documents: pausing and resuming take effect at once, a vector of
file priorities resets the priority of every piece to that of its files and is
ignored by a seed, and the operations on pieces change the named pieces only.

## Main definitions

* `TorrentLayout` — the files of the torrent and the pieces they lie in.
* `Native` — the native torrent.
* `Native.setFilePriorities`, `Native.applyChanges` — how its priorities change.

## Main results

* `Native.piece_applyChanges` — applying a list of changes, in the order of the
  three native calls, is following it piece by piece.

## References

`enginefs/src/backend/libtorrent/playback.rs`, `apply_piece_priority_changes`,
`desired_priorities`; `bindings/libtorrent-sys/cpp/wrapper.cpp`.
-/

namespace StreamServer.Playback

/-- A file and the pieces it lies in. -/
structure FileInfo where
  offset : ℤ
  size : ℤ
  firstPiece : ℤ
  lastPiece : ℤ
  deriving DecidableEq, Repr, Inhabited

/-- The files of a torrent and the length of its pieces. -/
structure TorrentLayout where
  files : List FileInfo
  pieceLength : ℕ
  deriving DecidableEq, Repr, Inhabited

/-- The file lies, in part, in the piece. -/
def FileInfo.Contains (file : FileInfo) (piece : ℤ) : Prop :=
  file.firstPiece ≤ piece ∧ piece ≤ file.lastPiece

instance (file : FileInfo) (piece : ℤ) : Decidable (file.Contains piece) :=
  inferInstanceAs (Decidable (_ ∧ _))

namespace TorrentLayout

/-- The file of that index lies, in part, in the piece. -/
def FileContains (L : TorrentLayout) (fileIdx : ℕ) (piece : ℤ) : Prop :=
  ∃ file ∈ L.files[fileIdx]?, file.Contains piece

instance (L : TorrentLayout) (fileIdx : ℕ) (piece : ℤ) : Decidable (L.FileContains fileIdx piece) :=
  inferInstanceAs (Decidable (∃ file ∈ L.files[fileIdx]?, file.Contains piece))

/-- The vector that gives one file the priority and every other file none. -/
def desiredPriorities (L : TorrentLayout) (fileIdx : ℕ) (priority : ℤ) : List ℤ :=
  (List.replicate L.files.length 0).set fileIdx priority

/-- The priority a piece has from its files alone. -/
def fileBaseline (L : TorrentLayout) (priorities : List ℤ) (piece : ℤ) : ℤ :=
  ((L.files.zip priorities).filter fun file => file.1.Contains piece).foldr
    (fun file greatest => max file.2 greatest) 0

end TorrentLayout

/-- The native torrent. -/
structure Native where
  layout : TorrentLayout
  isPaused : Bool
  isSeeding : Bool
  hasMetadata : Bool
  filePriorities : List ℤ
  piecePriority : ℤ → ℤ
  pieceDeadline : ℤ → Option ℤ
  /-- The pieces that have been verified. -/
  verified : Finset ℤ
  /-- The last vector of file priorities handed to the torrent. -/
  submitted : Option (List ℤ)

namespace Native

/-- What the torrent holds for a piece. -/
def piece (n : Native) (p : ℤ) : NativePiece := ⟨n.piecePriority p, n.pieceDeadline p⟩

/-- Every piece of the file has been verified. -/
def FileVerified (n : Native) (fileIdx : ℕ) : Prop :=
  ∀ p, n.layout.FileContains fileIdx p → p ∈ n.verified

instance (n : Native) (fileIdx : ℕ) : Decidable (n.FileVerified fileIdx) :=
  decidable_of_iff
    (∀ file ∈ n.layout.files[fileIdx]?, ∀ k < (file.lastPiece + 1 - file.firstPiece).toNat,
      file.firstPiece + (k : ℤ) ∈ n.verified) <| by
    constructor
    · rintro h p ⟨file, hfile, hfirst, hlast⟩
      have hp := h file hfile (p - file.firstPiece).toNat (by omega)
      rwa [show file.firstPiece + ((p - file.firstPiece).toNat : ℤ) = p by omega] at hp
    · intro h file hfile k hk
      exact h _ ⟨file, hfile, by omega, by omega⟩

/-- A seed ignores file priorities. -/
def setFilePriorities (n : Native) (priorities : List ℤ) : Native :=
  { n with
    submitted := some priorities
    filePriorities := if n.isSeeding then n.filePriorities else priorities
    piecePriority := if n.isSeeding then n.piecePriority else n.layout.fileBaseline priorities }

/-- `clear_piece_deadlines`. -/
def clearPieceDeadlines (n : Native) : Native := { n with pieceDeadline := fun _ => none }

/-- `reset_piece_deadline`. -/
def resetPieceDeadline (n : Native) (p : ℤ) : Native :=
  { n with pieceDeadline := Function.update n.pieceDeadline p none }

/-- `set_piece_deadline`. -/
def setPieceDeadline (n : Native) (p deadlineMs : ℤ) : Native :=
  { n with pieceDeadline := Function.update n.pieceDeadline p (some deadlineMs) }

/-- Set the priorities of some pieces, one after the other. -/
def assignAll (priority : ℤ → ℤ) (priorities : List (ℤ × ℤ)) : ℤ → ℤ :=
  priorities.foldl (fun priority p => Function.update priority p.1 p.2) priority

/-- The pieces of the list get their priorities. -/
def setPiecePriorities (n : Native) (priorities : List (ℤ × ℤ)) : Native :=
  { n with piecePriority := assignAll n.piecePriority priorities }

end Native

/-- Whether a change takes the deadline off its piece. -/
def PiecePriorityChange.resetsDeadline : PiecePriorityChange → Bool
  | .reset _ => true
  | .apply assignment => assignment.deadlineMs.isNone

namespace Native

/-- The first native pass over a list of changes: deadlines that go. -/
def resetDeadlines (n : Native) (changes : List PiecePriorityChange) : Native :=
  changes.foldl (fun n change =>
    if change.resetsDeadline then n.resetPieceDeadline change.piece else n) n

/-- The last native pass over a list of changes: deadlines that are set. -/
def setDeadlines (n : Native) (changes : List PiecePriorityChange) : Native :=
  changes.foldl (fun n change =>
    match change with
    | .apply ⟨piece, _, some deadlineMs⟩ => n.setPieceDeadline piece deadlineMs
    | _ => n) n

/-- `apply_piece_priority_changes`, with the torrent found. -/
def applyChanges (n : Native) (baseline : ℤ) (changes : List PiecePriorityChange) : Native :=
  ((n.resetDeadlines changes).setPiecePriorities
    (changes.map fun change => (change.piece, (change.native baseline).priority))).setDeadlines
    changes

/-! ### Applying changes -/

@[simp] theorem piecePriority_resetDeadlines (n : Native) (changes : List PiecePriorityChange) :
    (n.resetDeadlines changes).piecePriority = n.piecePriority := by
  unfold resetDeadlines
  induction changes generalizing n with
  | nil => rfl
  | cons c changes ih =>
    rw [List.foldl_cons, ih]
    split <;> rfl

@[simp] theorem piecePriority_setDeadlines (n : Native) (changes : List PiecePriorityChange) :
    (n.setDeadlines changes).piecePriority = n.piecePriority := by
  unfold setDeadlines
  induction changes generalizing n with
  | nil => rfl
  | cons c changes ih =>
    rw [List.foldl_cons, ih]
    split <;> rfl

/-- The deadline of a piece after the first pass. -/
theorem pieceDeadline_resetDeadlines (n : Native) (changes : List PiecePriorityChange) (p : ℤ) :
    (n.resetDeadlines changes).pieceDeadline p =
      if ∃ c ∈ changes, c.piece = p ∧ c.resetsDeadline = true then none
      else n.pieceDeadline p := by
  unfold resetDeadlines
  induction changes generalizing n with
  | nil => simp
  | cons c changes ih =>
    rw [List.foldl_cons, ih]
    simp only [List.exists_mem_cons_iff]
    by_cases hc : c.resetsDeadline = true
    · by_cases hp : c.piece = p
      · simp [hc, hp, resetPieceDeadline]
      · simp [hc, hp, resetPieceDeadline, Function.update_of_ne (Ne.symm hp)]
    · simp [hc]

/-- A piece that no change names keeps its deadline. -/
theorem pieceDeadline_setDeadlines_of_notMem (n : Native) (changes : List PiecePriorityChange)
    {p : ℤ} (h : ∀ c ∈ changes, c.piece ≠ p) :
    (n.setDeadlines changes).pieceDeadline p = n.pieceDeadline p := by
  unfold setDeadlines
  induction changes generalizing n with
  | nil => rfl
  | cons c changes ih =>
    rw [List.foldl_cons, ih _ fun d hd => h d (List.mem_cons_of_mem _ hd)]
    have hc := h c List.mem_cons_self
    split
    · exact Function.update_of_ne (Ne.symm hc) _ _
    · rfl

/-- When no piece is named twice, a named piece has the deadline its change
sets, or the one it had before the pass. -/
theorem pieceDeadline_setDeadlines_of_mem (n : Native) {changes : List PiecePriorityChange}
    {c : PiecePriorityChange} (hnd : (changes.map PiecePriorityChange.piece).Nodup)
    (hc : c ∈ changes) (baseline : ℤ) :
    (n.setDeadlines changes).pieceDeadline c.piece =
      if c.resetsDeadline then n.pieceDeadline c.piece else (c.native baseline).deadlineMs := by
  unfold setDeadlines
  induction changes generalizing n with
  | nil => cases hc
  | cons d changes ih =>
    rw [List.map_cons, List.nodup_cons] at hnd
    rw [List.foldl_cons]
    rcases List.mem_cons.mp hc with rfl | hc
    · have hlater : ∀ e ∈ changes, e.piece ≠ c.piece := fun e he heq =>
        hnd.1 (heq ▸ List.mem_map_of_mem he)
      refine (pieceDeadline_setDeadlines_of_notMem _ changes hlater).trans ?_
      match c with
      | .reset q => rfl
      | .apply ⟨q, priority, none⟩ => rfl
      | .apply ⟨q, priority, some deadline⟩ => exact Function.update_self ..
    · rw [ih _ hnd.2 hc]
      have hne : d.piece ≠ c.piece := fun heq => hnd.1 (heq ▸ List.mem_map_of_mem hc)
      match d with
      | .reset q => rfl
      | .apply ⟨q, priority, none⟩ => rfl
      | .apply ⟨q, priority, some deadline⟩ =>
        have hkeep : (n.setPieceDeadline q deadline).pieceDeadline c.piece =
            n.pieceDeadline c.piece := Function.update_of_ne (Ne.symm hne) _ _
        simp only [hkeep]

theorem assignAll_of_notMem {priorities : List (ℤ × ℤ)} {p : ℤ}
    (h : ∀ q ∈ priorities, q.1 ≠ p) (f : ℤ → ℤ) : assignAll f priorities p = f p := by
  unfold assignAll
  induction priorities generalizing f with
  | nil => rfl
  | cons q priorities ih =>
    rw [List.foldl_cons, ih fun r hr => h r (List.mem_cons_of_mem _ hr)]
    exact Function.update_of_ne (Ne.symm (h q List.mem_cons_self)) _ _

theorem assignAll_of_mem {priorities : List (ℤ × ℤ)} {p v : ℤ}
    (hnd : (priorities.map Prod.fst).Nodup) (hp : (p, v) ∈ priorities) (f : ℤ → ℤ) :
    assignAll f priorities p = v := by
  unfold assignAll
  induction priorities generalizing f with
  | nil => cases hp
  | cons r priorities ih =>
    rw [List.map_cons, List.nodup_cons] at hnd
    rw [List.foldl_cons]
    rcases List.mem_cons.mp hp with rfl | hp
    · have hlater : ∀ s ∈ priorities, s.1 ≠ p := by
        intro s hs heq
        exact hnd.1 (heq ▸ List.mem_map.mpr ⟨s, hs, rfl⟩)
      exact (assignAll_of_notMem hlater _).trans (Function.update_self ..)
    · exact ih hnd.2 hp _

theorem piecePriority_applyChanges (n : Native) (baseline : ℤ)
    (changes : List PiecePriorityChange) :
    (n.applyChanges baseline changes).piecePriority =
      assignAll n.piecePriority
        (changes.map fun change => (change.piece, (change.native baseline).priority)) := by
  rw [applyChanges, piecePriority_setDeadlines]
  show assignAll (n.resetDeadlines changes).piecePriority _ = _
  rw [piecePriority_resetDeadlines]

/-- **Applying a list of changes** that names no piece twice puts on each piece
what following the list piece by piece puts on it. -/
theorem piece_applyChanges (n : Native) (baseline : ℤ) {changes : List PiecePriorityChange}
    (hnd : (changes.map PiecePriorityChange.piece).Nodup) (p : ℤ) :
    (n.applyChanges baseline changes).piece p = foldChanges baseline n.piece changes p := by
  have hkeys : (changes.map fun c => (c.piece, (c.native baseline).priority)).map Prod.fst =
      changes.map PiecePriorityChange.piece := by
    rw [List.map_map]
    rfl
  -- a piece has one change at most, so the last one for it is the only one
  by_cases hp : ∃ c ∈ changes, c.piece = p
  · obtain ⟨c, hc, rfl⟩ := hp
    rw [foldChanges_of_mem hnd hc]
    have hpriority : (n.applyChanges baseline changes).piecePriority c.piece =
        (c.native baseline).priority := by
      rw [piecePriority_applyChanges]
      exact assignAll_of_mem (hkeys.symm ▸ hnd) (List.mem_map.mpr ⟨c, hc, rfl⟩) _
    have hdeadline : (n.applyChanges baseline changes).pieceDeadline c.piece =
        (c.native baseline).deadlineMs := by
      rw [applyChanges, pieceDeadline_setDeadlines_of_mem _ hnd hc baseline]
      split
      · next hreset =>
        refine (pieceDeadline_resetDeadlines n changes c.piece).trans ?_
        rw [if_pos ⟨c, hc, rfl, hreset⟩]
        match c, hreset with
        | .reset q, _ => rfl
        | .apply ⟨q, priority, none⟩, _ => rfl
      · rfl
    rw [piece, hpriority, hdeadline]
  · have hno : ∀ c ∈ changes, c.piece ≠ p := fun c hc h => hp ⟨c, hc, h⟩
    rw [foldChanges_of_notMem hno]
    have hpriority : (n.applyChanges baseline changes).piecePriority p = n.piecePriority p := by
      rw [piecePriority_applyChanges]
      refine assignAll_of_notMem ?_ _
      intro q hq
      obtain ⟨c, hc, rfl⟩ := List.mem_map.mp hq
      exact hno c hc
    have hdeadline : (n.applyChanges baseline changes).pieceDeadline p = n.pieceDeadline p := by
      rw [applyChanges, pieceDeadline_setDeadlines_of_notMem _ _ hno]
      refine (pieceDeadline_resetDeadlines n changes p).trans (if_neg ?_)
      exact fun ⟨c, hc, heq, _⟩ => hno c hc heq
    rw [piece, hpriority, hdeadline]
    rfl

/-! ### What applying changes leaves alone -/

/-- The torrents agree on everything but their pieces. -/
structure SameBut (n m : Native) : Prop where
  layout : m.layout = n.layout
  isPaused : m.isPaused = n.isPaused
  isSeeding : m.isSeeding = n.isSeeding
  hasMetadata : m.hasMetadata = n.hasMetadata
  filePriorities : m.filePriorities = n.filePriorities
  verified : m.verified = n.verified
  submitted : m.submitted = n.submitted

theorem SameBut.refl (n : Native) : n.SameBut n := ⟨rfl, rfl, rfl, rfl, rfl, rfl, rfl⟩

theorem SameBut.trans {n m k : Native} (h : n.SameBut m) (h' : m.SameBut k) : n.SameBut k :=
  ⟨h'.1.trans h.1, h'.2.trans h.2, h'.3.trans h.3, h'.4.trans h.4, h'.5.trans h.5,
    h'.6.trans h.6, h'.7.trans h.7⟩

private theorem sameBut_foldl {α : Type*} {f : Native → α → Native}
    (h : ∀ (n : Native) (a : α), n.SameBut (f n a)) (l : List α) (n : Native) :
    n.SameBut (l.foldl f n) := by
  induction l generalizing n with
  | nil => exact .refl n
  | cons a l ih => exact (h n a).trans (ih _)

theorem sameBut_applyChanges (n : Native) (baseline : ℤ) (changes : List PiecePriorityChange) :
    n.SameBut (n.applyChanges baseline changes) := by
  have hreset : n.SameBut (n.resetDeadlines changes) := by
    refine sameBut_foldl ?_ changes n
    intro m c
    split <;> exact ⟨rfl, rfl, rfl, rfl, rfl, rfl, rfl⟩
  have hset : ∀ (m : Native) (l : List (ℤ × ℤ)), m.SameBut (m.setPiecePriorities l) :=
    fun _ _ => ⟨rfl, rfl, rfl, rfl, rfl, rfl, rfl⟩
  refine (hreset.trans (hset _ _)).trans (sameBut_foldl ?_ changes _)
  intro m c
  split <;> exact ⟨rfl, rfl, rfl, rfl, rfl, rfl, rfl⟩

section

variable (n : Native) (baseline : ℤ) (changes : List PiecePriorityChange)

@[simp] theorem layout_applyChanges : (n.applyChanges baseline changes).layout = n.layout :=
  (n.sameBut_applyChanges baseline changes).layout

@[simp] theorem isPaused_applyChanges : (n.applyChanges baseline changes).isPaused = n.isPaused :=
  (n.sameBut_applyChanges baseline changes).isPaused

@[simp] theorem isSeeding_applyChanges :
    (n.applyChanges baseline changes).isSeeding = n.isSeeding :=
  (n.sameBut_applyChanges baseline changes).isSeeding

@[simp] theorem hasMetadata_applyChanges :
    (n.applyChanges baseline changes).hasMetadata = n.hasMetadata :=
  (n.sameBut_applyChanges baseline changes).hasMetadata

@[simp] theorem filePriorities_applyChanges :
    (n.applyChanges baseline changes).filePriorities = n.filePriorities :=
  (n.sameBut_applyChanges baseline changes).filePriorities

@[simp] theorem verified_applyChanges : (n.applyChanges baseline changes).verified = n.verified :=
  (n.sameBut_applyChanges baseline changes).verified

@[simp] theorem submitted_applyChanges :
    (n.applyChanges baseline changes).submitted = n.submitted :=
  (n.sameBut_applyChanges baseline changes).submitted

end

end Native

end StreamServer.Playback

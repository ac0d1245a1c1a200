import Mathlib.Data.List.Sort
import Mathlib.Order.Bounds.Basic
import StreamServer.Lib.HashTable

/-!
# Piece-priority windows

Every open reader of the selected file leases a *window* of pieces: for each
piece a download priority and possibly a deadline.  Windows of different readers
overlap, so the coordinator keeps, next to the windows themselves, the
*effective* lease of each piece, and answers every change of a window with the
list of changes the native torrent has to make.

The two derived structures must not drift from the windows.  The abstract
statement is `IsMerged`: the lease merged from a set of leases has the greatest
priority and the earliest deadline of the set.  `Coherent` says that the
effective leases are the merged ones, and `nativeView` what the native torrent
holds for a piece when it has followed every change.

Hash tables are iterated in an unspecified order.  Each operation takes that
order as an argument, and no statement depends on it.

## Main definitions

* `ActivePriorityWindows` — the windows and the effective leases.
* `ActivePriorityWindows.replace`, `release`, `clearTracking`,
  `markPieceVerified` — its operations.
* `IsMerged`, `ActivePriorityWindows.Coherent` — what they must maintain.
* `foldChanges` — following a list of changes on a native map.

## Main results

* `reconcile_spec` — what one reconciliation does to both derived structures.
* `activePriorityWindows_agree` — **both agree with the windows after any
  sequence of operations.**

## References

`enginefs/src/backend/libtorrent/playback.rs`, `ActivePriorityWindows`.
-/

namespace StreamServer.Playback

/-- One lease on a piece. -/
structure LibtorrentPiecePriority where
  piece : ℤ
  priority : ℤ
  deadlineMs : Option ℤ
  deriving DecidableEq, Repr, Inhabited

/-- A change the native torrent has to make to one piece. -/
inductive PiecePriorityChange
  /-- The piece takes this lease. -/
  | apply (assignment : LibtorrentPiecePriority)
  /-- The piece goes back to the priority of its file, without a deadline. -/
  | reset (piece : ℤ)
  deriving DecidableEq, Repr

/-- The piece a change is about; the sort key of `reconcile`. -/
def PiecePriorityChange.piece : PiecePriorityChange → ℤ
  | .apply assignment => assignment.piece
  | .reset piece => piece

/-- The leases of one stream, by piece. -/
abbrev Window := AList fun _ : ℤ => LibtorrentPiecePriority

/-- The order in which one call walks its hash tables: the set of affected
pieces in `reconcile`, the windows in `effective_for`. -/
structure IterationOrder where
  pieces : List ℤ → List ℤ
  windows : List Window → List Window
  pieces_perm : ∀ l, (pieces l).Perm l
  windows_perm : ∀ l, (windows l).Perm l

/-- Walking every table in the order it is stored in. -/
def IterationOrder.stored : IterationOrder where
  pieces := id
  windows := id
  pieces_perm := fun _ => .refl _
  windows_perm := fun _ => .refl _

instance : Inhabited IterationOrder := ⟨.stored⟩

/-- The windows of the open streams and the effective lease of each piece. -/
structure ActivePriorityWindows where
  streams : AList fun _ : ℕ => Window
  effective : Window

instance : Inhabited ActivePriorityWindows := ⟨⟨∅, ∅⟩⟩

/-! ### Merging leases -/

/-- The earlier of two deadlines, either of which may be missing. -/
def earlierDeadline : Option ℤ → Option ℤ → Option ℤ
  | some left, some right => some (min left right)
  | some deadline, none => some deadline
  | none, some deadline => some deadline
  | none, none => none

/-- The lease two leases on `piece` combine to. -/
def mergeLeases (piece : ℤ) (left right : LibtorrentPiecePriority) :
    LibtorrentPiecePriority where
  piece := piece
  priority := max left.priority right.priority
  deadlineMs := earlierDeadline left.deadlineMs right.deadlineMs

/-- The lease `m` has the greatest priority of the set and its earliest
deadline, if any member has a deadline. -/
structure MergesTo (leases : Set LibtorrentPiecePriority) (m : LibtorrentPiecePriority) :
    Prop where
  priority : IsGreatest (LibtorrentPiecePriority.priority '' leases) m.priority
  deadline_some : ∀ d, m.deadlineMs = some d → IsLeast {d | ∃ l ∈ leases, l.deadlineMs = some d} d
  deadline_none : m.deadlineMs = none → ∀ l ∈ leases, l.deadlineMs = none

/-- The lease of `piece` merged from a set of leases: none from no lease, and
otherwise a lease on that piece with the greatest priority and earliest
deadline. -/
def IsMerged (piece : ℤ) (leases : Set LibtorrentPiecePriority) :
    Option LibtorrentPiecePriority → Prop
  | none => leases = ∅
  | some m => m.piece = piece ∧ MergesTo leases m

theorem MergesTo.nonempty {leases : Set LibtorrentPiecePriority} {m : LibtorrentPiecePriority}
    (h : MergesTo leases m) : leases.Nonempty := by
  obtain ⟨l, hl, -⟩ := h.priority.1
  exact ⟨l, hl⟩

theorem mergesTo_singleton (a : LibtorrentPiecePriority) : MergesTo {a} a where
  priority := by simp
  deadline_some := by
    intro d hd
    simp [hd]
  deadline_none := by
    intro h l hl
    rw [Set.mem_singleton_iff] at hl
    exact hl ▸ h

/-- A deadline is least in a union when it is the earlier of two that are least
in the parts. -/
private theorem isLeast_deadlines_union {s t : Set LibtorrentPiecePriority} {d e : ℤ}
    (hs : IsLeast {d | ∃ l ∈ s, l.deadlineMs = some d} d)
    (ht : IsLeast {d | ∃ l ∈ t, l.deadlineMs = some d} e) :
    IsLeast {d | ∃ l ∈ s ∪ t, l.deadlineMs = some d} (min d e) := by
  have hset : {d | ∃ l ∈ s ∪ t, l.deadlineMs = some d}
      = {d | ∃ l ∈ s, l.deadlineMs = some d} ∪ {d | ∃ l ∈ t, l.deadlineMs = some d} := by
    ext x
    simp [or_and_right, exists_or]
  rw [hset]
  exact hs.union ht

/-- The deadlines of a set of leases without deadlines are none. -/
private theorem deadlines_eq_of_none {s t : Set LibtorrentPiecePriority}
    (hs : ∀ l ∈ s, l.deadlineMs = none) :
    {d | ∃ l ∈ s ∪ t, l.deadlineMs = some d} = {d | ∃ l ∈ t, l.deadlineMs = some d} := by
  ext x
  constructor
  · rintro ⟨l, hl | hl, hx⟩
    · rw [hs l hl] at hx; cases hx
    · exact ⟨l, hl, hx⟩
  · rintro ⟨l, hl, hx⟩
    exact ⟨l, Or.inr hl, hx⟩

/-- Merging two merged leases gives the lease merged from both sets. -/
theorem mergesTo_union {piece : ℤ} {s t : Set LibtorrentPiecePriority}
    {a b : LibtorrentPiecePriority} (ha : MergesTo s a) (hb : MergesTo t b) :
    MergesTo (s ∪ t) (mergeLeases piece a b) where
  priority := by
    rw [Set.image_union]
    exact ha.priority.union hb.priority
  deadline_some := by
    intro d hd
    cases hda : a.deadlineMs with
    | none =>
      cases hdb : b.deadlineMs with
      | none => simp [mergeLeases, earlierDeadline, hda, hdb] at hd
      | some e =>
        simp only [mergeLeases, earlierDeadline, hda, hdb, Option.some.injEq] at hd
        rw [deadlines_eq_of_none (ha.deadline_none hda), ← hd]
        exact hb.deadline_some e hdb
    | some e =>
      cases hdb : b.deadlineMs with
      | none =>
        simp only [mergeLeases, earlierDeadline, hda, hdb, Option.some.injEq] at hd
        rw [Set.union_comm, deadlines_eq_of_none (hb.deadline_none hdb), ← hd]
        exact ha.deadline_some e hda
      | some f =>
        simp only [mergeLeases, earlierDeadline, hda, hdb, Option.some.injEq] at hd
        rw [← hd]
        exact isLeast_deadlines_union (ha.deadline_some e hda) (hb.deadline_some f hdb)
  deadline_none := by
    intro h
    cases hda : a.deadlineMs <;> cases hdb : b.deadlineMs <;>
      simp [mergeLeases, earlierDeadline, hda, hdb] at h
    rintro l (hl | hl)
    · exact ha.deadline_none hda l hl
    · exact hb.deadline_none hdb l hl

/-- A set of leases merges to at most one lease of a piece. -/
theorem IsMerged.unique {piece : ℤ} {leases : Set LibtorrentPiecePriority} :
    ∀ {r r' : Option LibtorrentPiecePriority},
      IsMerged piece leases r → IsMerged piece leases r' → r = r' := by
  intro r r' h h'
  cases r with
  | none =>
    cases r' with
    | none => rfl
    | some m' => exact absurd h h'.2.nonempty.ne_empty
  | some m =>
    cases r' with
    | none => exact absurd h' h.2.nonempty.ne_empty
    | some m' =>
      have hprio : m.priority = m'.priority := h.2.priority.unique h'.2.priority
      have hdead : m.deadlineMs = m'.deadlineMs := by
        cases hm : m.deadlineMs with
        | none =>
          cases hm' : m'.deadlineMs with
          | none => rfl
          | some d =>
            obtain ⟨l, hl, hd⟩ := (h'.2.deadline_some d hm').1
            rw [h.2.deadline_none hm l hl] at hd
            cases hd
        | some d =>
          cases hm' : m'.deadlineMs with
          | none =>
            obtain ⟨l, hl, hd⟩ := (h.2.deadline_some d hm).1
            rw [h'.2.deadline_none hm' l hl] at hd
            cases hd
          | some d' => rw [(h.2.deadline_some d hm).unique (h'.2.deadline_some d' hm')]
      obtain ⟨p, pr, dl⟩ := m
      obtain ⟨p', pr', dl'⟩ := m'
      simp only at hprio hdead
      rw [show p = p' from h.1.trans h'.1.symm, hprio, hdead]

/-! ### The operations -/

namespace ActivePriorityWindows

/-- The lease of `piece` merged over all windows, taken in the given order. -/
def effectiveFor (w : ActivePriorityWindows) (order : IterationOrder) (piece : ℤ) :
    Option LibtorrentPiecePriority :=
  ((order.windows w.streams.values).filterMap fun window => window.lookup piece).reduce?
    (mergeLeases piece)

/-- The change that brings `piece` to the lease `next`. -/
def changeTo (piece : ℤ) : Option LibtorrentPiecePriority → PiecePriorityChange
  | some next => .apply next
  | none => .reset piece

/-- The body of the loop of `reconcile`: recompute one piece and record the
change if its lease is a different one. -/
def reconcilePiece (order : IterationOrder)
    (acc : ActivePriorityWindows × List PiecePriorityChange) (piece : ℤ) :
    ActivePriorityWindows × List PiecePriorityChange :=
  let next := acc.1.effectiveFor order piece
  if acc.1.effective.lookup piece = next then acc
  else
    match next with
    | some next =>
        ({ acc.1 with effective := acc.1.effective.insert piece next },
          acc.2 ++ [.apply next])
    | none =>
        ({ acc.1 with effective := acc.1.effective.erase piece }, acc.2 ++ [.reset piece])

/-- Recompute the effective leases of the affected pieces, and list what
changed, by piece. -/
def reconcile (w : ActivePriorityWindows) (order : IterationOrder) (affected : List ℤ) :
    ActivePriorityWindows × List PiecePriorityChange :=
  let result := (order.pieces affected).foldl (reconcilePiece order) (w, [])
  (result.1, result.2.insertionSort fun a b => a.piece ≤ b.piece)

/-- The window made of a list of assignments: negative pieces are dropped, and
of two assignments of one piece the later stays. -/
def windowOf (assignments : List LibtorrentPiecePriority) : Window :=
  AList.collect LibtorrentPiecePriority.piece
    (assignments.filter fun assignment => 0 ≤ assignment.piece)

/-- Replace the window of a stream. -/
def replace (w : ActivePriorityWindows) (order : IterationOrder) (streamId : ℕ)
    (assignments : List LibtorrentPiecePriority) :
    ActivePriorityWindows × List PiecePriorityChange :=
  let replacement := windowOf assignments
  let previous := (w.streams.lookup streamId).elim [] AList.keys
  reconcile { w with streams := w.streams.insert streamId replacement } order
    (replacement.keys ∪ previous)

/-- Drop the window of a stream. -/
def release (w : ActivePriorityWindows) (order : IterationOrder) (streamId : ℕ) :
    ActivePriorityWindows × List PiecePriorityChange :=
  match w.streams.lookup streamId with
  | none => (w, [])
  | some previous =>
      reconcile { w with streams := w.streams.erase streamId } order previous.keys

/-- Forget every window, without telling the native torrent. -/
def clearTracking (_w : ActivePriorityWindows) : ActivePriorityWindows := ⟨∅, ∅⟩

/-- A verified piece needs no lease any more. -/
def markPieceVerified (w : ActivePriorityWindows) (piece : ℤ) : ActivePriorityWindows where
  streams := w.streams.mapValues fun window => window.erase piece
  effective := w.effective.erase piece

/-! ### The stored leases -/

/-- The leases on a piece, over all stored windows. -/
def leases (w : ActivePriorityWindows) (piece : ℤ) : Set LibtorrentPiecePriority :=
  {l | ∃ streamId window, w.streams.lookup streamId = some window ∧ window.lookup piece = some l}

/-- Every stored lease is filed under its own piece. -/
def Keyed (w : ActivePriorityWindows) : Prop :=
  ∀ piece, ∀ l ∈ w.leases piece, l.piece = piece

/-- The effective leases are those merged from the stored windows. -/
structure Coherent (w : ActivePriorityWindows) : Prop where
  keyed : w.Keyed
  effective : ∀ piece, IsMerged piece (w.leases piece) (w.effective.lookup piece)

theorem leases_of_streams_eq {w w' : ActivePriorityWindows} (h : w'.streams = w.streams)
    (piece : ℤ) : w'.leases piece = w.leases piece := by
  rw [leases, leases, h]

theorem effectiveFor_of_streams_eq {w w' : ActivePriorityWindows} (h : w'.streams = w.streams)
    (order : IterationOrder) (piece : ℤ) :
    w'.effectiveFor order piece = w.effectiveFor order piece := by
  rw [effectiveFor, effectiveFor, h]

/-- The values the reduction of `effective_for` runs over are the leases. -/
private theorem mem_filterMap_windows {w : ActivePriorityWindows} {order : IterationOrder}
    {piece : ℤ} {l : LibtorrentPiecePriority} :
    l ∈ (order.windows w.streams.values).filterMap (fun window => window.lookup piece)
      ↔ l ∈ w.leases piece := by
  simp only [List.mem_filterMap, (order.windows_perm _).mem_iff, AList.mem_values, leases,
    Set.mem_ofPred_eq]
  constructor
  · rintro ⟨window, ⟨s, hs⟩, hl⟩
    exact ⟨s, window, hs, hl⟩
  · rintro ⟨s, window, hs, hl⟩
    exact ⟨window, ⟨s, hs⟩, hl⟩

/-- Merging a set of leases filed under `piece` gives `a`. -/
private def Filed (piece : ℤ) (s : Set LibtorrentPiecePriority) (a : LibtorrentPiecePriority) :
    Prop :=
  (∀ l ∈ s, l.piece = piece) → a.piece = piece ∧ MergesTo s a

private theorem filed_singleton (piece : ℤ) (a : LibtorrentPiecePriority) :
    Filed piece {a} a := fun ha => ⟨ha a rfl, mergesTo_singleton a⟩

private theorem filed_union (piece : ℤ) (s t : Set LibtorrentPiecePriority)
    (a b : LibtorrentPiecePriority) (hs : Filed piece s a) (ht : Filed piece t b) :
    Filed piece (s ∪ t) (mergeLeases piece a b) := fun hst =>
  ⟨rfl, mergesTo_union (hs fun l hl => hst l (Or.inl hl)).2
    (ht fun l hl => hst l (Or.inr hl)).2⟩

/-- **What `effective_for` computes**, in whatever order the windows are
walked: the lease merged from all of them. -/
theorem effectiveFor_isMerged {w : ActivePriorityWindows} (hw : w.Keyed)
    (order : IterationOrder) (piece : ℤ) :
    IsMerged piece (w.leases piece) (w.effectiveFor order piece) := by
  have hset : {x | x ∈ (order.windows w.streams.values).filterMap
      (fun window => window.lookup piece)} = w.leases piece :=
    Set.ext fun _ => mem_filterMap_windows
  cases h : w.effectiveFor order piece with
  | none =>
    rw [effectiveFor, List.reduce?_eq_none] at h
    rw [h] at hset
    simpa [IsMerged] using hset.symm
  | some m =>
    rw [effectiveFor] at h
    -- The piece of a single lease is right because leases are filed under their
    -- piece; the piece of a merged one because the merge writes it.
    have hm : Filed piece _ m :=
      List.reduce?_induction (filed_singleton piece) (filed_union piece) h
    rw [hset] at hm
    exact hm (hw piece)

/-! ### Reconciliation -/

/-- A list of changes leads from one table of effective leases to another: it
names each piece whose lease differs once, in ascending order, with its new
lease. -/
structure Tracks (before after : Window) (changes : List PiecePriorityChange) : Prop where
  ascending : (changes.map PiecePriorityChange.piece).Pairwise (· < ·)
  mem_iff : ∀ c, c ∈ changes ↔
    ∃ piece, before.lookup piece ≠ after.lookup piece ∧ c = changeTo piece (after.lookup piece)

theorem piece_changeTo {piece : ℤ} {leases : Set LibtorrentPiecePriority}
    {r : Option LibtorrentPiecePriority} (h : IsMerged piece leases r) :
    (changeTo piece r).piece = piece := by
  cases r with
  | none => rfl
  | some m => exact h.1

/-- One turn of the loop of `reconcile`. -/
theorem reconcilePiece_spec (order : IterationOrder)
    (acc : ActivePriorityWindows × List PiecePriorityChange) (piece : ℤ) :
    (reconcilePiece order acc piece).1.streams = acc.1.streams ∧
      (∀ q, (reconcilePiece order acc piece).1.effective.lookup q =
        if q = piece then acc.1.effectiveFor order piece else acc.1.effective.lookup q) ∧
      (reconcilePiece order acc piece).2 = acc.2 ++
        if acc.1.effective.lookup piece = acc.1.effectiveFor order piece then []
        else [changeTo piece (acc.1.effectiveFor order piece)] := by
  unfold reconcilePiece
  by_cases h : acc.1.effective.lookup piece = acc.1.effectiveFor order piece
  · refine ⟨by simp [h], fun q => ?_, by simp [h]⟩
    by_cases hq : q = piece
    · subst hq; simp [h]
    · simp [h, hq]
  · cases hnext : acc.1.effectiveFor order piece with
    | none =>
      rw [hnext] at h
      simp only [h, if_false, changeTo, true_and, and_true]
      intro q
      rw [AList.lookup_erase_eq_ite]
    | some m =>
      rw [hnext] at h
      simp only [h, if_false, changeTo, true_and, and_true]
      intro q
      rw [AList.lookup_insert_eq_ite]

/-- The loop of `reconcile`: each piece it has been through has its recomputed
lease, and is listed if that lease is new.  The windows stay as they are, so
every turn recomputes from the same ones. -/
theorem foldl_reconcilePiece (order : IterationOrder) :
    ∀ (pieces : List ℤ) (acc : ActivePriorityWindows × List PiecePriorityChange),
      pieces.Nodup →
      (pieces.foldl (reconcilePiece order) acc).1.streams = acc.1.streams ∧
        (∀ q, (pieces.foldl (reconcilePiece order) acc).1.effective.lookup q =
          if q ∈ pieces then acc.1.effectiveFor order q else acc.1.effective.lookup q) ∧
        (pieces.foldl (reconcilePiece order) acc).2 = acc.2 ++ pieces.filterMap fun q =>
          if acc.1.effective.lookup q = acc.1.effectiveFor order q then none
          else some (changeTo q (acc.1.effectiveFor order q)) := by
  intro pieces
  induction pieces with
  | nil => intro acc _; simp
  | cons p pieces ih =>
    intro acc hnd
    rw [List.nodup_cons] at hnd
    obtain ⟨hs, he, hc⟩ := reconcilePiece_spec order acc p
    obtain ⟨ihs, ihe, ihc⟩ := ih (reconcilePiece order acc p) hnd.2
    rw [List.foldl_cons]
    refine ⟨ihs.trans hs, fun q => ?_, ?_⟩
    · rw [ihe, he, effectiveFor_of_streams_eq hs]
      by_cases hq : q = p
      · subst hq; simp
      · simp [hq]
    · rw [ihc, hc, List.append_assoc, List.filterMap_cons]
      congr 1
      -- the other pieces are not touched, so they are compared with what they were
      have htail : ∀ q ∈ pieces,
          (reconcilePiece order acc p).1.effective.lookup q = acc.1.effective.lookup q := by
        intro q hq
        rw [he, if_neg]
        rintro rfl
        exact hnd.1 hq
      have hrest : pieces.filterMap (fun q =>
            if (reconcilePiece order acc p).1.effective.lookup q
              = (reconcilePiece order acc p).1.effectiveFor order q then none
            else some (changeTo q ((reconcilePiece order acc p).1.effectiveFor order q)))
          = pieces.filterMap fun q =>
            if acc.1.effective.lookup q = acc.1.effectiveFor order q then none
            else some (changeTo q (acc.1.effectiveFor order q)) := by
        refine List.filterMap_congr fun q hq => ?_
        rw [htail q hq, effectiveFor_of_streams_eq hs]
      rw [hrest]
      split <;> simp

theorem reconcile_streams (w : ActivePriorityWindows) (order : IterationOrder) {affected : List ℤ}
    (hnd : affected.Nodup) : (w.reconcile order affected).1.streams = w.streams :=
  (foldl_reconcilePiece order _ (w, []) ((order.pieces_perm affected).nodup_iff.mpr hnd)).1

theorem lookup_reconcile (w : ActivePriorityWindows) (order : IterationOrder)
    {affected : List ℤ} (hnd : affected.Nodup) (piece : ℤ) :
    (w.reconcile order affected).1.effective.lookup piece =
      if piece ∈ affected then w.effectiveFor order piece else w.effective.lookup piece := by
  have hperm := order.pieces_perm affected
  have h := (foldl_reconcilePiece order _ (w, []) (hperm.nodup_iff.mpr hnd)).2.1 piece
  simp only [hperm.mem_iff] at h
  exact h

/-- The changes of a reconciliation, before they are sorted. -/
theorem reconcile_changes_perm (w : ActivePriorityWindows) (order : IterationOrder)
    {affected : List ℤ} (hnd : affected.Nodup) :
    (w.reconcile order affected).2.Perm ((order.pieces affected).filterMap fun q =>
      if w.effective.lookup q = w.effectiveFor order q then none
      else some (changeTo q (w.effectiveFor order q))) := by
  have h := (foldl_reconcilePiece order _ (w, [])
    ((order.pieces_perm affected).nodup_iff.mpr hnd)).2.2
  rw [List.nil_append] at h
  have hsort := List.perm_insertionSort (fun a b : PiecePriorityChange => a.piece ≤ b.piece)
    ((order.pieces affected).foldl (reconcilePiece order) (w, [])).2
  exact hsort.trans (.of_eq h)

theorem mem_reconcile_changes {w : ActivePriorityWindows} {order : IterationOrder}
    {affected : List ℤ} (hnd : affected.Nodup) {c : PiecePriorityChange} :
    c ∈ (w.reconcile order affected).2 ↔ ∃ piece ∈ affected,
      w.effective.lookup piece ≠ w.effectiveFor order piece ∧
        c = changeTo piece (w.effectiveFor order piece) := by
  rw [(reconcile_changes_perm w order hnd).mem_iff, List.mem_filterMap]
  constructor
  · rintro ⟨q, hq, hcq⟩
    split at hcq
    · cases hcq
    · next hne =>
      rw [Option.some.injEq] at hcq
      exact ⟨q, (order.pieces_perm affected).mem_iff.mp hq, hne, hcq.symm⟩
  · rintro ⟨q, hq, hne, rfl⟩
    exact ⟨q, (order.pieces_perm affected).mem_iff.mpr hq, by rw [if_neg hne]⟩

/-- No piece is listed twice: the affected pieces are distinct, and a change is
about the piece it was recorded for. -/
theorem nodup_reconcile_changes {w : ActivePriorityWindows} (hw : w.Keyed)
    (order : IterationOrder) {affected : List ℤ} (hnd : affected.Nodup) :
    ((w.reconcile order affected).2.map PiecePriorityChange.piece).Nodup := by
  have hpiece : ∀ q, (changeTo q (w.effectiveFor order q)).piece = q := fun q =>
    piece_changeTo (effectiveFor_isMerged hw order q)
  rw [((reconcile_changes_perm w order hnd).map _).nodup_iff, List.map_filterMap]
  refine List.Nodup.filterMap ?_ ((order.pieces_perm affected).nodup_iff.mpr hnd)
  intro p q c hp hq
  have key : ∀ r, c ∈ Option.map PiecePriorityChange.piece
      (if w.effective.lookup r = w.effectiveFor order r then none
        else some (changeTo r (w.effectiveFor order r))) → r = c := by
    intro r hr
    split at hr
    · simp at hr
    · simpa [hpiece r] using hr
  exact (key p hp).trans (key q hq).symm

theorem ascending_reconcile_changes {w : ActivePriorityWindows} (hw : w.Keyed)
    (order : IterationOrder) {affected : List ℤ} (hnd : affected.Nodup) :
    ((w.reconcile order affected).2.map PiecePriorityChange.piece).Pairwise (· < ·) := by
  have hle : ((w.reconcile order affected).2.map PiecePriorityChange.piece).Pairwise (· ≤ ·) := by
    rw [List.pairwise_map]
    exact List.pairwise_insertionSort (fun a b : PiecePriorityChange => a.piece ≤ b.piece) _
  have hnodup := nodup_reconcile_changes hw order hnd
  exact (hle.and hnodup).imp fun ⟨hab, hne⟩ => lt_of_le_of_ne hab hne

/-- **What one reconciliation does.**  If the leases of all pieces outside the
affected ones are right beforehand, then all are right afterwards, and the
returned list leads from the old effective leases to the new ones. -/
theorem reconcile_spec {w : ActivePriorityWindows} (hw : w.Keyed) (order : IterationOrder)
    {affected : List ℤ} (hnd : affected.Nodup)
    (hout : ∀ piece, piece ∉ affected →
      IsMerged piece (w.leases piece) (w.effective.lookup piece)) :
    (w.reconcile order affected).1.Coherent ∧
      Tracks w.effective (w.reconcile order affected).1.effective
        (w.reconcile order affected).2 := by
  have hleases := leases_of_streams_eq (reconcile_streams w order hnd)
  refine ⟨⟨fun piece l hl => ?_, fun piece => ?_⟩, ascending_reconcile_changes hw order hnd,
    fun c => ?_⟩
  · rw [hleases] at hl
    exact hw piece l hl
  · rw [hleases, lookup_reconcile w order hnd]
    split
    · exact effectiveFor_isMerged hw order piece
    · next h => exact hout piece h
  · rw [mem_reconcile_changes hnd]
    constructor
    · rintro ⟨q, hq, hne, rfl⟩
      have hnew := lookup_reconcile w order hnd q
      rw [if_pos hq] at hnew
      exact ⟨q, by rwa [hnew], by rw [hnew]⟩
    · rintro ⟨q, hne, rfl⟩
      rw [lookup_reconcile w order hnd] at hne ⊢
      by_cases hq : q ∈ affected
      · rw [if_pos hq] at hne ⊢
        exact ⟨q, hq, hne, rfl⟩
      · rw [if_neg hq] at hne
        exact absurd rfl hne

/-! ### The operations on the leases -/

/-- The leases by stream and piece: the content of the windows without their
representation. -/
def table (w : ActivePriorityWindows) (streamId : ℕ) (piece : ℤ) :
    Option LibtorrentPiecePriority :=
  (w.streams.lookup streamId).bind fun window => window.lookup piece

theorem mem_leases {w : ActivePriorityWindows} {piece : ℤ} {l : LibtorrentPiecePriority} :
    l ∈ w.leases piece ↔ ∃ streamId, w.table streamId piece = some l := by
  simp only [leases, table, Set.mem_ofPred_eq, Option.bind_eq_some_iff]

/-- The last assignment of a piece in a list, negative pieces left out. -/
def lastAssignment (assignments : List LibtorrentPiecePriority) (piece : ℤ) :
    Option LibtorrentPiecePriority :=
  (assignments.filter fun a => 0 ≤ a.piece ∧ a.piece = piece).getLast?

theorem lookup_windowOf (assignments : List LibtorrentPiecePriority) (piece : ℤ) :
    (windowOf assignments).lookup piece = lastAssignment assignments piece := by
  rw [windowOf, AList.lookup_collect, List.filter_filter, lastAssignment]
  congr 2
  funext a
  rw [Bool.eq_iff_iff]
  simp [and_comm]

theorem piece_of_lastAssignment {assignments : List LibtorrentPiecePriority} {piece : ℤ}
    {l : LibtorrentPiecePriority} (h : lastAssignment assignments piece = some l) :
    l ∈ assignments ∧ 0 ≤ l.piece ∧ l.piece = piece := by
  have := List.mem_of_getLast? h
  simpa using this

@[simp] theorem table_insert (w : ActivePriorityWindows) (streamId : ℕ) (window : Window) :
    table { w with streams := w.streams.insert streamId window } =
      Function.update w.table streamId fun piece => window.lookup piece := by
  funext s piece
  by_cases h : s = streamId
  · subst h; simp [table]
  · simp [table, AList.lookup_insert_ne h, Function.update_of_ne h]

@[simp] theorem table_erase (w : ActivePriorityWindows) (streamId : ℕ) :
    table { w with streams := w.streams.erase streamId } =
      Function.update w.table streamId fun _ => none := by
  funext s piece
  by_cases h : s = streamId
  · subst h; simp [table]
  · simp [table, AList.lookup_erase_ne h, Function.update_of_ne h]

@[simp] theorem table_clearTracking (w : ActivePriorityWindows) (streamId : ℕ) (piece : ℤ) :
    w.clearTracking.table streamId piece = none := by
  simp [table, clearTracking]

@[simp] theorem table_markPieceVerified (w : ActivePriorityWindows) (piece : ℤ) (streamId : ℕ)
    (q : ℤ) : (w.markPieceVerified piece).table streamId q =
      if q = piece then none else w.table streamId q := by
  simp only [table, markPieceVerified, AList.lookup_mapValues]
  cases w.streams.lookup streamId with
  | none => simp
  | some window => simp [AList.lookup_erase_eq_ite]

theorem table_of_streams_eq {w w' : ActivePriorityWindows} (h : w'.streams = w.streams) :
    w'.table = w.table := by
  funext s piece
  rw [table, table, h]

theorem keyed_iff {w : ActivePriorityWindows} :
    w.Keyed ↔ ∀ streamId piece l, w.table streamId piece = some l → l.piece = piece := by
  simp only [Keyed, mem_leases]
  exact ⟨fun h s p l hl => h p l ⟨s, hl⟩, fun h p l ⟨s, hl⟩ => h s p l hl⟩

/-- A window replaced in a coherent state: only the pieces of the old and of the
new window have other leases than before. -/
theorem replace_spec {w : ActivePriorityWindows} (hw : w.Coherent) (order : IterationOrder)
    (streamId : ℕ) (assignments : List LibtorrentPiecePriority) :
    (w.replace order streamId assignments).1.table =
        Function.update w.table streamId (lastAssignment assignments) ∧
      (w.replace order streamId assignments).1.Coherent ∧
      Tracks w.effective (w.replace order streamId assignments).1.effective
        (w.replace order streamId assignments).2 := by
  set inserted : ActivePriorityWindows :=
    { w with streams := w.streams.insert streamId (windowOf assignments) } with hinserted
  set previous := (w.streams.lookup streamId).elim [] AList.keys with hprevious
  have htable : inserted.table = Function.update w.table streamId (lastAssignment assignments) := by
    rw [hinserted, table_insert]
    congr 1
    funext piece
    exact lookup_windowOf assignments piece
  have hkeyed : inserted.Keyed := by
    rw [keyed_iff, htable]
    intro s piece l hl
    by_cases hs : s = streamId
    · subst hs
      rw [Function.update_self] at hl
      exact (piece_of_lastAssignment hl).2.2
    · rw [Function.update_of_ne hs] at hl
      exact keyed_iff.mp hw.keyed s piece l hl
  have hpn : previous.Nodup := by
    rw [hprevious]
    cases w.streams.lookup streamId with
    | none => exact List.nodup_nil
    | some window => exact window.keys_nodup
  -- a piece in neither window has the leases it had, so it need not be reconciled
  have hout : ∀ piece, piece ∉ (windowOf assignments).keys ∪ previous →
      IsMerged piece (inserted.leases piece) (inserted.effective.lookup piece) := by
    intro piece hpiece
    rw [List.mem_union_iff, not_or, ← AList.mem_keys, ← AList.lookup_eq_none,
      lookup_windowOf] at hpiece
    have hold : w.table streamId piece = none := by
      rw [table]
      cases hl : w.streams.lookup streamId with
      | none => rfl
      | some window =>
        rw [hprevious, hl] at hpiece
        exact AList.lookup_eq_none.mpr fun h => hpiece.2 (AList.mem_keys.mp h)
    have hsame : inserted.leases piece = w.leases piece := by
      ext l
      rw [mem_leases, mem_leases, htable]
      refine exists_congr fun s => ?_
      by_cases hs : s = streamId
      · subst hs; rw [Function.update_self, hpiece.1, hold]
      · rw [Function.update_of_ne hs]
    rw [hsame]
    exact hw.effective piece
  obtain ⟨hcoh, htracks⟩ := reconcile_spec hkeyed order (List.Nodup.union _ hpn) hout
  refine ⟨?_, hcoh, htracks⟩
  rw [← htable]
  exact table_of_streams_eq (reconcile_streams inserted order (List.Nodup.union _ hpn))

/-- A window released in a coherent state. -/
theorem release_spec {w : ActivePriorityWindows} (hw : w.Coherent) (order : IterationOrder)
    (streamId : ℕ) :
    (w.release order streamId).1.table = Function.update w.table streamId (fun _ => none) ∧
      (w.release order streamId).1.Coherent ∧
      Tracks w.effective (w.release order streamId).1.effective (w.release order streamId).2 := by
  unfold release
  cases hl : w.streams.lookup streamId with
  | none =>
    refine ⟨?_, hw, List.Pairwise.nil, fun c => by simp⟩
    have hrow : w.table streamId = fun _ => none := by
      funext piece
      rw [table, hl]
      rfl
    rw [← hrow, Function.update_eq_self]
  | some previous =>
    set erased : ActivePriorityWindows := { w with streams := w.streams.erase streamId }
    have htable : erased.table = Function.update w.table streamId fun _ => none :=
      table_erase w streamId
    have hkeyed : erased.Keyed := by
      rw [keyed_iff, htable]
      intro s piece l hs
      by_cases h : s = streamId
      · subst h; rw [Function.update_self] at hs; cases hs
      · rw [Function.update_of_ne h] at hs
        exact keyed_iff.mp hw.keyed s piece l hs
    -- a piece outside of the window that goes has the leases it had
    have hout : ∀ piece, piece ∉ previous.keys →
        IsMerged piece (erased.leases piece) (erased.effective.lookup piece) := by
      intro piece hpiece
      have hold : w.table streamId piece = none := by
        rw [table, hl]
        exact AList.lookup_eq_none.mpr fun h => hpiece (AList.mem_keys.mp h)
      have hsame : erased.leases piece = w.leases piece := by
        ext l
        rw [mem_leases, mem_leases, htable]
        refine exists_congr fun s => ?_
        by_cases h : s = streamId
        · subst h; rw [Function.update_self, hold]
        · rw [Function.update_of_ne h]
      rw [hsame]
      exact hw.effective piece
    obtain ⟨hcoh, htracks⟩ := reconcile_spec hkeyed order previous.keys_nodup hout
    refine ⟨?_, hcoh, htracks⟩
    rw [← htable]
    exact table_of_streams_eq (reconcile_streams erased order previous.keys_nodup)

theorem coherent_clearTracking (w : ActivePriorityWindows) : w.clearTracking.Coherent where
  keyed := by
    rw [keyed_iff]
    intro s piece l h
    simp at h
  effective := by
    intro piece
    have hnone : w.clearTracking.effective.lookup piece = none := by simp [clearTracking]
    rw [hnone, IsMerged, Set.eq_empty_iff_forall_notMem]
    intro l hl
    rw [mem_leases] at hl
    simp at hl

theorem coherent_empty : (default : ActivePriorityWindows).Coherent :=
  coherent_clearTracking default

theorem coherent_markPieceVerified {w : ActivePriorityWindows} (hw : w.Coherent) (piece : ℤ) :
    (w.markPieceVerified piece).Coherent where
  keyed := by
    rw [keyed_iff]
    intro s q l h
    rw [table_markPieceVerified] at h
    split at h
    · cases h
    · exact keyed_iff.mp hw.keyed s q l h
  effective := by
    intro q
    have heff : (w.markPieceVerified piece).effective.lookup q =
        if q = piece then none else w.effective.lookup q :=
      AList.lookup_erase_eq_ite piece q w.effective
    have hleases : ∀ l, l ∈ (w.markPieceVerified piece).leases q ↔ q ≠ piece ∧ l ∈ w.leases q := by
      intro l
      simp only [mem_leases, table_markPieceVerified]
      by_cases h : q = piece <;> simp [h]
    rw [heff]
    split
    · next h =>
      rw [IsMerged, Set.eq_empty_iff_forall_notMem]
      exact fun l hl => ((hleases l).mp hl).1 h
    · next h =>
      have hsame : (w.markPieceVerified piece).leases q = w.leases q :=
        Set.ext fun l => (hleases l).trans (and_iff_right h)
      rw [hsame]
      exact hw.effective q

end ActivePriorityWindows

/-! ### Following the changes -/

/-- What the native torrent holds for one piece. -/
structure NativePiece where
  priority : ℤ
  deadlineMs : Option ℤ
  deriving DecidableEq, Repr

/-- What the native torrent should hold for a piece with the given effective
lease: the lease, or the priority of its file and no deadline. -/
def nativeView (baseline : ℤ) : Option LibtorrentPiecePriority → NativePiece
  | some lease => ⟨lease.priority, lease.deadlineMs⟩
  | none => ⟨baseline, none⟩

/-- What one change puts on its piece. -/
def PiecePriorityChange.native (baseline : ℤ) : PiecePriorityChange → NativePiece
  | .apply assignment => ⟨assignment.priority, assignment.deadlineMs⟩
  | .reset _ => ⟨baseline, none⟩

/-- Follow a list of changes, in order, on a native map. -/
def foldChanges (baseline : ℤ) (native : ℤ → NativePiece) (changes : List PiecePriorityChange) :
    ℤ → NativePiece :=
  changes.foldl (fun native change =>
    Function.update native change.piece (change.native baseline)) native

@[simp] theorem foldChanges_nil (baseline : ℤ) (native : ℤ → NativePiece) :
    foldChanges baseline native [] = native := rfl

theorem foldChanges_of_notMem {baseline : ℤ} {piece : ℤ} :
    ∀ {changes : List PiecePriorityChange} {native : ℤ → NativePiece},
      (∀ c ∈ changes, c.piece ≠ piece) → foldChanges baseline native changes piece = native piece := by
  intro changes
  induction changes with
  | nil => intro native _; rfl
  | cons c changes ih =>
    intro native h
    rw [foldChanges, List.foldl_cons]
    refine (ih fun d hd => h d (List.mem_cons_of_mem _ hd)).trans ?_
    rw [Function.update_of_ne (h c List.mem_cons_self).symm]

/-- When no piece is named twice, each named piece ends up with its change. -/
theorem foldChanges_of_mem {baseline : ℤ} {c : PiecePriorityChange} :
    ∀ {changes : List PiecePriorityChange} {native : ℤ → NativePiece},
      (changes.map PiecePriorityChange.piece).Nodup → c ∈ changes →
        foldChanges baseline native changes c.piece = c.native baseline := by
  intro changes
  induction changes with
  | nil => intro native _ hc; cases hc
  | cons d changes ih =>
    intro native hnd hc
    rw [List.map_cons, List.nodup_cons] at hnd
    rw [foldChanges, List.foldl_cons]
    rcases List.mem_cons.mp hc with rfl | hc
    · refine (foldChanges_of_notMem fun e he heq => hnd.1 ?_).trans (Function.update_self ..)
      exact heq ▸ List.mem_map_of_mem he
    · exact ih hnd.2 hc

namespace ActivePriorityWindows

theorem native_changeTo (baseline : ℤ) (piece : ℤ) (r : Option LibtorrentPiecePriority) :
    (changeTo piece r).native baseline = nativeView baseline r := by
  cases r <;> rfl

/-- **Following the changes of one operation** takes every piece from its old
effective lease to its new one. -/
theorem foldChanges_of_tracks {before after : Window} {changes : List PiecePriorityChange}
    (h : Tracks before after changes) {baseline : ℤ} {native : ℤ → NativePiece} {piece : ℤ}
    (hpiece : ∀ q, before.lookup q ≠ after.lookup q → (changeTo q (after.lookup q)).piece = q)
    (hbefore : native piece = nativeView baseline (before.lookup piece)) :
    foldChanges baseline native changes piece = nativeView baseline (after.lookup piece) := by
  by_cases heq : before.lookup piece = after.lookup piece
  · rw [← heq, ← hbefore]
    refine foldChanges_of_notMem fun c hc => ?_
    obtain ⟨q, hq, rfl⟩ := (h.mem_iff c).mp hc
    rw [hpiece q hq]
    rintro rfl
    exact hq heq
  · have hmem := (h.mem_iff _).mpr ⟨piece, heq, rfl⟩
    have hnd : (changes.map PiecePriorityChange.piece).Nodup :=
      h.ascending.imp fun hlt => ne_of_lt hlt
    have hfold : foldChanges baseline native changes (changeTo piece (after.lookup piece)).piece =
        (changeTo piece (after.lookup piece)).native baseline := foldChanges_of_mem hnd hmem
    rwa [hpiece piece heq, native_changeTo] at hfold

end ActivePriorityWindows

/-! ### Sequences of operations -/

/-- An operation on the windows. -/
inductive WindowOp
  | replace (streamId : ℕ) (assignments : List LibtorrentPiecePriority)
  | release (streamId : ℕ)
  | markPieceVerified (piece : ℤ)
  | clearTracking
  deriving DecidableEq, Repr

namespace WindowOp

/-- Perform an operation: the new windows and the changes it returns. -/
def perform (op : WindowOp) (order : IterationOrder) (w : ActivePriorityWindows) :
    ActivePriorityWindows × List PiecePriorityChange :=
  match op with
  | .replace streamId assignments => w.replace order streamId assignments
  | .release streamId => w.release order streamId
  | .markPieceVerified piece => (w.markPieceVerified piece, [])
  | .clearTracking => (w.clearTracking, [])

/-- What an operation means for the leases, whatever their representation. -/
def lease (op : WindowOp) (leases : ℕ → ℤ → Option LibtorrentPiecePriority) :
    ℕ → ℤ → Option LibtorrentPiecePriority :=
  match op with
  | .replace streamId assignments =>
      Function.update leases streamId (ActivePriorityWindows.lastAssignment assignments)
  | .release streamId => Function.update leases streamId fun _ => none
  | .markPieceVerified piece => fun streamId q => if q = piece then none else leases streamId q
  | .clearTracking => fun _ _ => none

end WindowOp

/-- Perform a sequence of operations, each walking its tables in its own order;
the lists of changes are returned in the order they were emitted. -/
def runOps (w : ActivePriorityWindows) :
    List (IterationOrder × WindowOp) → ActivePriorityWindows × List (List PiecePriorityChange)
  | [] => (w, [])
  | (order, op) :: ops =>
      let step := op.perform order w
      let rest := runOps step.1 ops
      (rest.1, step.2 :: rest.2)

/-- The leases after a sequence of operations. -/
def runLeases (leases : ℕ → ℤ → Option LibtorrentPiecePriority) (ops : List WindowOp) :
    ℕ → ℤ → Option LibtorrentPiecePriority :=
  ops.foldl (fun leases op => op.lease leases) leases

namespace WindowOp

open ActivePriorityWindows

/-- **What one operation does.**  It refines the abstract operation, keeps the
effective leases merged, and returns an ascending list of changes whose
following keeps every piece at its effective lease. -/
theorem perform_spec {w : ActivePriorityWindows} (hw : w.Coherent) (op : WindowOp)
    (order : IterationOrder) :
    (op.perform order w).1.table = op.lease w.table ∧
      (op.perform order w).1.Coherent ∧
      ((op.perform order w).2.map PiecePriorityChange.piece).Pairwise (· < ·) ∧
      ∀ (baseline : ℤ) (native : ℤ → NativePiece) (piece : ℤ),
        op ≠ .clearTracking → op ≠ .markPieceVerified piece →
        native piece = nativeView baseline (w.effective.lookup piece) →
        foldChanges baseline native (op.perform order w).2 piece =
          nativeView baseline ((op.perform order w).1.effective.lookup piece) := by
  cases op with
  | replace streamId assignments =>
    obtain ⟨htable, hcoh, htracks⟩ := replace_spec hw order streamId assignments
    exact ⟨htable, hcoh, htracks.ascending, fun baseline native piece _ _ hn =>
      foldChanges_of_tracks htracks (fun q _ => piece_changeTo (hcoh.effective q)) hn⟩
  | release streamId =>
    obtain ⟨htable, hcoh, htracks⟩ := release_spec hw order streamId
    exact ⟨htable, hcoh, htracks.ascending, fun baseline native piece _ _ hn =>
      foldChanges_of_tracks htracks (fun q _ => piece_changeTo (hcoh.effective q)) hn⟩
  | markPieceVerified q =>
    refine ⟨funext fun s => funext fun p => table_markPieceVerified w q s p,
      coherent_markPieceVerified hw q, List.Pairwise.nil, ?_⟩
    intro baseline native piece _ hne hn
    have hpq : piece ≠ q := fun h => hne (h ▸ rfl)
    rw [perform, foldChanges_nil, hn]
    show _ = nativeView baseline ((w.effective.erase q).lookup piece)
    rw [AList.lookup_erase_ne hpq]
  | clearTracking =>
    exact ⟨funext fun s => funext fun p => table_clearTracking w s p, coherent_clearTracking w,
      List.Pairwise.nil, fun _ _ _ h => absurd rfl h⟩

end WindowOp

namespace ActivePriorityWindows

/-- A whole sequence refines the abstract one and keeps the windows coherent. -/
theorem runOps_spec : ∀ (ops : List (IterationOrder × WindowOp)) {w : ActivePriorityWindows},
    w.Coherent →
      (runOps w ops).1.table = runLeases w.table (ops.map Prod.snd) ∧ (runOps w ops).1.Coherent ∧
      ∀ changes ∈ (runOps w ops).2,
        (changes.map PiecePriorityChange.piece).Pairwise (· < ·) := by
  intro ops
  induction ops with
  | nil => intro w hw; exact ⟨rfl, hw, by simp [runOps]⟩
  | cons op ops ih =>
    intro w hw
    obtain ⟨order, op⟩ := op
    obtain ⟨htable, hcoh, hasc, -⟩ := op.perform_spec hw order
    obtain ⟨ihtable, ihcoh, ihasc⟩ := ih hcoh
    refine ⟨?_, ihcoh, ?_⟩
    · rw [runOps, List.map_cons, runLeases, List.foldl_cons, ← htable]
      exact ihtable
    · intro changes hmem
      rcases List.mem_cons.mp hmem with rfl | hmem
      · exact hasc
      · exact ihasc changes hmem

/-- Following the emitted lists, without a `clear_tracking` in between, keeps
every piece that is not verified meanwhile at its effective lease. -/
theorem foldChanges_runOps {baseline piece : ℤ} :
    ∀ (ops : List (IterationOrder × WindowOp)) {w : ActivePriorityWindows}
      {native : ℤ → NativePiece}, w.Coherent →
      (∀ o ∈ ops, o.2 ≠ .clearTracking) → (∀ o ∈ ops, o.2 ≠ .markPieceVerified piece) →
      native piece = nativeView baseline (w.effective.lookup piece) →
      (runOps w ops).2.foldl (foldChanges baseline) native piece =
        nativeView baseline ((runOps w ops).1.effective.lookup piece) := by
  intro ops
  induction ops with
  | nil => intro w native _ _ _ hn; exact hn
  | cons op ops ih =>
    intro w native hw hclear hmark hn
    obtain ⟨order, op⟩ := op
    obtain ⟨-, hcoh, -, hfold⟩ := op.perform_spec hw order
    refine ih hcoh (fun o ho => hclear o (List.mem_cons_of_mem _ ho))
      (fun o ho => hmark o (List.mem_cons_of_mem _ ho)) ?_
    exact hfold baseline native piece (hclear _ List.mem_cons_self)
      (hmark _ List.mem_cons_self) hn

theorem runOps_append (w : ActivePriorityWindows) (xs ys : List (IterationOrder × WindowOp)) :
    runOps w (xs ++ ys) =
      ((runOps (runOps w xs).1 ys).1, (runOps w xs).2 ++ (runOps (runOps w xs).1 ys).2) := by
  induction xs generalizing w with
  | nil => rfl
  | cons x xs ih => simp [runOps, ih]

/-- Nothing is tracked at the start, nor right after a `clear_tracking`. -/
theorem lookup_effective_of_afresh {pre : List (IterationOrder × WindowOp)}
    (hpre : pre = [] ∨ ∃ order, pre.getLast? = some (order, .clearTracking)) (piece : ℤ) :
    (runOps default pre).1.effective.lookup piece = none := by
  rcases hpre with rfl | ⟨order, hlast⟩
  · exact AList.lookup_empty piece
  · obtain ⟨init, rfl⟩ := List.getLast?_eq_some_iff.mp hlast
    rw [runOps_append]
    exact AList.lookup_empty piece

/-- A piece has an effective lease when some stored window contains it. -/
theorem Coherent.mem_effective {w : ActivePriorityWindows} (hw : w.Coherent) (piece : ℤ) :
    piece ∈ w.effective ↔
      ∃ streamId window, w.streams.lookup streamId = some window ∧ piece ∈ window := by
  have hmerged := hw.effective piece
  have hleases : (w.leases piece).Nonempty ↔
      ∃ streamId window, w.streams.lookup streamId = some window ∧ piece ∈ window := by
    constructor
    · rintro ⟨l, s, window, hs, hl⟩
      exact ⟨s, window, hs, AList.lookup_isSome.mp (by rw [hl]; rfl)⟩
    · rintro ⟨s, window, hs, hp⟩
      obtain ⟨l, hl⟩ := Option.isSome_iff_exists.mp (AList.lookup_isSome.mpr hp)
      exact ⟨l, s, window, hs, hl⟩
  rw [← hleases, ← AList.lookup_isSome]
  cases h : w.effective.lookup piece with
  | none =>
    rw [h] at hmerged
    simp [show w.leases piece = ∅ from hmerged]
  | some m =>
    rw [h] at hmerged
    simp [hmerged.2.nonempty]

/-- **The derived structures agree with the windows.**  After any sequence of
operations, walking the tables in any orders, the effective leases are exactly
those merged from the stored windows, which hold what the operations mean; every
emitted list names its pieces once, in ascending order; and a native map that
starts at the baseline when nothing is tracked and follows the lists holds, for
every piece not verified since, its effective lease or the baseline. -/
theorem activePriorityWindows_agree (pre seg : List (IterationOrder × WindowOp)) (baseline : ℤ)
    (hpre : pre = [] ∨ ∃ order, pre.getLast? = some (order, .clearTracking))
    (hseg : ∀ o ∈ seg, o.2 ≠ .clearTracking) :
    (runOps default (pre ++ seg)).1.table =
        runLeases (fun _ _ => none) ((pre ++ seg).map Prod.snd) ∧
      (∀ piece, piece ∈ (runOps default (pre ++ seg)).1.effective ↔
        ∃ streamId window, (runOps default (pre ++ seg)).1.streams.lookup streamId = some window ∧
          piece ∈ window) ∧
      (∀ piece, IsMerged piece ((runOps default (pre ++ seg)).1.leases piece)
        ((runOps default (pre ++ seg)).1.effective.lookup piece)) ∧
      (∀ changes ∈ (runOps default (pre ++ seg)).2,
        (changes.map PiecePriorityChange.piece).Pairwise (· < ·)) ∧
      ∀ piece, (∀ o ∈ seg, o.2 ≠ .markPieceVerified piece) →
        (runOps (runOps default pre).1 seg).2.foldl (foldChanges baseline)
            (fun _ => nativeView baseline none) piece =
          nativeView baseline ((runOps default (pre ++ seg)).1.effective.lookup piece) := by
  obtain ⟨htable, hcoh, hasc⟩ := runOps_spec (pre ++ seg) coherent_empty
  refine ⟨?_, hcoh.mem_effective, hcoh.effective, hasc, fun piece hmark => ?_⟩
  · rw [htable]
    congr 1
  · have hstart := (runOps_spec pre coherent_empty).2.1
    have hnone : nativeView baseline none =
        nativeView baseline ((runOps default pre).1.effective.lookup piece) := by
      rw [lookup_effective_of_afresh hpre]
    rw [foldChanges_runOps seg hstart hseg hmark hnone, runOps_append]

/-- Two streams that overlap on one piece, after an earlier selection was
dropped. -/
theorem overlapping_streams_agree :
    let pre : List (IterationOrder × WindowOp) :=
      [(.stored, .replace 3 [⟨10, 7, some 0⟩]), (.stored, .clearTracking)]
    let seg : List (IterationOrder × WindowOp) :=
      [(.stored, .replace 1 [⟨10, 7, some 500⟩]), (.stored, .replace 2 [⟨10, 4, some 100⟩])]
    (runOps (runOps default pre).1 seg).2.foldl (foldChanges 1) (fun _ => nativeView 1 none) 10 =
      ⟨7, some 100⟩ :=
  ((activePriorityWindows_agree
    [(.stored, .replace 3 [⟨10, 7, some 0⟩]), (.stored, .clearTracking)]
    [(.stored, .replace 1 [⟨10, 7, some 500⟩]), (.stored, .replace 2 [⟨10, 4, some 100⟩])] 1
    (Or.inr ⟨.stored, rfl⟩) (by simp)).2.2.2.2 10 (by simp)).trans (by decide)

end ActivePriorityWindows

end StreamServer.Playback

import StreamServer.Readers.DiskBytes
import StreamServer.Readers.Readiness

/-!
# What waiting for a file comes to

A request that waits has an answer in time: at most a look every 25 milliseconds, after the first few.
The answer is about the pieces from its place on, one behind the other: either all that are wanted were
ready at one look, or the time was over, and the answer is the longest such run that there was at any
look.  Only pieces of the file are touched meanwhile, and what is put into the piece cache is what the
memory storage has.

## Main definitions

* `IsRun` — the length of a run of pieces.
* `Wait.Available` — a piece can be read.
* `Paced` — the looks are as far apart as the pauses between them.
* `Wait.Answer` — what the answer is, by what there was to see.
* `Wait.Allowed` — what waiting may do to others.

## Main results

* `Wait.isRun_readyPieces` — what one look finds.
* `Wait.loop_spec` — what the loop comes to.
* `waitForPieceReady_answer` — **what a request comes to.**

## References

`enginefs/src/backend/libtorrent/handle.rs`, `disk_readiness_target_pieces`, `wait_for_piece_ready`.
-/

namespace StreamServer.Readers

open Checked Playback

/-! ### Runs of pieces -/

/-- From a piece on, so many are such, and no more up to the bound. -/
structure IsRun (P : ℤ → Prop) (first : ℤ) (bound n : ℕ) : Prop where
  le : n ≤ bound
  all : ∀ k : ℕ, k < n → P (first + k)
  maximal : n < bound → ¬ P (first + n)

/-- The run of those that pass a test. -/
theorem isRun_takeWhile {P : ℤ → Prop} {p : ℤ → Bool} {first : ℤ} {bound : ℕ}
    (hp : ∀ k : ℕ, k < bound → (p (first + k) = true ↔ P (first + k))) :
    IsRun P first bound
      ((((List.range bound).map fun k : ℕ => first + k).takeWhile p).length) := by
  -- by induction on the length: the run of the rest begins one piece later
  induction bound generalizing first with
  | zero => exact ⟨Nat.le_refl 0, fun k hk => (nomatch hk), fun h => (nomatch h)⟩
  | succ bound ih =>
    have hshift : ∀ k : ℕ, first + 1 + k = first + (k + 1 : ℕ) := by
      intro k
      omega
    have htail : IsRun P (first + 1) bound _ := ih fun k hk => by
      rw [hshift]
      exact hp (k + 1) (Nat.succ_lt_succ hk)
    have hmap : ((List.range (bound + 1)).map fun k : ℕ => first + k) =
        first :: (List.range bound).map fun k : ℕ => first + 1 + k := by
      rw [List.range_succ_eq_map, List.map_cons, List.map_map]
      congr 1
      · omega
      · apply List.map_congr_left
        intro k _
        exact (hshift k).symm
    have hfirst := hp 0 (Nat.succ_pos bound)
    rw [Nat.cast_zero, Int.add_zero] at hfirst
    rw [hmap, List.takeWhile_cons]
    split
    · next hpass =>
      rw [List.length_cons]
      refine ⟨Nat.succ_le_succ htail.le, ?_, ?_⟩
      · intro k hk
        cases k with
        | zero =>
          rw [Nat.cast_zero, Int.add_zero]
          exact hfirst.mp hpass
        | succ k =>
          rw [← hshift]
          exact htail.all k (Nat.lt_of_succ_lt_succ hk)
      · intro hlt
        rw [← hshift]
        exact htail.maximal (Nat.lt_of_succ_lt_succ hlt)
    · next hfail =>
      refine ⟨Nat.zero_le _, fun k hk => (nomatch hk), fun _ => ?_⟩
      rw [List.length_nil, Nat.cast_zero, Int.add_zero]
      exact mt hfirst.mpr hfail

/-- There is one run only. -/
theorem IsRun.unique {P : ℤ → Prop} {first : ℤ} {bound n n' : ℕ} (h : IsRun P first bound n)
    (h' : IsRun P first bound n') : n = n' := by
  rcases Nat.lt_trichotomy n n' with hlt | heq | hgt
  · exact absurd (h'.all n hlt) (h.maximal (Nat.lt_of_lt_of_le hlt h'.le))
  · exact heq
  · exact absurd (h.all n' hgt) (h'.maximal (Nat.lt_of_lt_of_le hgt h.le))

/-- A run of fewer pieces, where the others are not such. -/
theorem IsRun.extend {P : ℤ → Prop} {first : ℤ} {bound bound' n : ℕ} (h : IsRun P first bound n)
    (hle : bound ≤ bound') (hnot : bound < bound' → ¬ P (first + bound)) :
    IsRun P first bound' n := by
  refine ⟨Nat.le_trans h.le hle, h.all, fun hlt => ?_⟩
  rcases Nat.lt_or_eq_of_le h.le with hshort | rfl
  · exact h.maximal hshort
  · exact hnot hlt

/-! ### What one look finds -/

/-- The torrent has the piece. -/
def TorrentView.Has (t : TorrentView) (piece : ℤ) : Prop :=
  ∃ numPieces, t.numPieces = some numPieces ∧ piece < numPieces ∧ t.present piece = true

namespace Wait

variable {w : Wait} {o : Observation} {t : TorrentView} {s : WaitState}

/-- A piece of a file of fewer than `2 ^ 31` pieces is waited for. -/
structure Inside (w : Wait) : Prop where
  first_nonneg : 0 ≤ w.firstPiece.toInt
  first_le : w.firstPiece.toInt ≤ w.piece.toInt
  le_last : w.piece.toInt ≤ w.lastPiece.toInt
  last_lt : w.lastPiece.toInt < 2 ^ 31 - 1

theorem targetPieces_pos (hw : w.Inside) : 0 < w.targetPieces := by
  obtain ⟨h₁, h₂, h₃, h₄⟩ := hw
  rw [targetPieces, diskReadinessTargetPieces]
  simp only [saturatingI32, DISK_READINESS_MAX_PIECES]
  split
  · omega
  · omega

theorem targetPieces_le (hw : w.Inside) :
    (w.targetPieces : ℤ) ≤ w.lastPiece.toInt - w.piece.toInt + 1 := by
  obtain ⟨h₁, h₂, h₃, h₄⟩ := hw
  rw [targetPieces, diskReadinessTargetPieces]
  simp only [saturatingI32, DISK_READINESS_MAX_PIECES]
  split
  · omega
  · omega

theorem clusterEnd_eq (hw : w.Inside) : w.clusterEnd = w.piece.toInt + w.targetPieces - 1 := by
  have hle := targetPieces_le hw
  exact min_eq_right (by omega)

theorem cluster_eq (hw : w.Inside) :
    w.cluster = (List.range w.targetPieces).map fun k : ℕ => w.piece.toInt + k := by
  rw [cluster, clusterEnd_eq hw]
  congr 2
  omega

/-- The pieces of the cluster that the torrent has. -/
theorem isRun_leading (hw : w.Inside) : IsRun t.Has w.piece.toInt w.targetPieces (w.leading t) := by
  have hpos := targetPieces_pos hw
  have hpiece : 0 ≤ w.piece.toInt := le_trans hw.first_nonneg hw.first_le
  rw [leading, presence, TorrentView.piecePresence, clusterEnd_eq hw]
  cases hnum : t.numPieces with
  | none =>
    refine ⟨Nat.zero_le _, fun k hk => (nomatch hk), fun _ => ?_⟩
    rintro ⟨numPieces, hsome, -⟩
    rw [hnum] at hsome
    cases hsome
  | some numPieces =>
    have hnone : ∀ piece, numPieces ≤ piece → ¬ t.Has piece := by
      rintro piece hle ⟨n, hsome, hlt, -⟩
      rw [hnum, Option.some.injEq] at hsome
      omega
    dsimp only
    split
    · next hout =>
      refine ⟨Nat.zero_le _, fun k hk => (nomatch hk), fun _ => hnone _ ?_⟩
      rw [List.takeWhile_nil, List.length_nil, Nat.cast_zero, Int.add_zero]
      omega
    · next hin =>
      -- the native library lists no more pieces than the torrent has
      have hlen : (List.range (min (w.piece.toInt + w.targetPieces - 1) (numPieces - 1) -
          w.piece.toInt + 1).toNat) = List.range (min w.targetPieces (numPieces - w.piece.toInt).toNat) := by
        congr 1
        omega
      rw [hlen]
      have hmap : ∀ m : ℕ, (((List.range m).map fun k : ℕ => t.present (w.piece.toInt + k)).takeWhile
          id).length = (((List.range m).map fun k : ℕ => w.piece.toInt + k).takeWhile t.present).length := by
        intro m
        have hcomp : ((List.range m).map fun k : ℕ => t.present (w.piece.toInt + k)) =
            ((List.range m).map fun k : ℕ => w.piece.toInt + k).map t.present := by
          rw [List.map_map]
          rfl
        rw [hcomp, List.takeWhile_map, List.length_map, Function.id_comp]
      rw [hmap]
      apply IsRun.extend (isRun_takeWhile ?_) (Nat.min_le_left _ _)
      · intro hlt
        apply hnone
        omega
      · intro k hk
        constructor
        · intro hp
          exact ⟨numPieces, hnum, by omega, hp⟩
        · rintro ⟨n, -, -, hp⟩
          exact hp

/-- A piece can be read: from disk, or from the piece cache, if it is in there or can be carried into it
with all those in front of it. -/
def Available (w : Wait) (o : Observation) (t : TorrentView) (piece : ℤ) : Prop :=
  match w.storageMode with
  | .diskBacked => t.Has piece
  | .memoryOnly => o.hasPiece piece = true ∨
      (∀ q, w.piece.toInt ≤ q → q ≤ piece → t.Has q) ∧ o.memoryPiece piece ≠ []

/-- A piece that is in the cache, or comes into it. -/
def fills (o : Observation) (memoryPiecesToCache : List ℤ) (piece : ℤ) : Bool :=
  o.hasPiece piece || (decide (piece ∈ memoryPiecesToCache) && decide (o.memoryPiece piece ≠ []))

theorem fill_fst (o : Observation) (memoryPiecesToCache pieces : List ℤ) :
    (fill o memoryPiecesToCache pieces).1 = (pieces.takeWhile (fills o memoryPiecesToCache)).length := by
  induction pieces with
  | nil => rfl
  | cons piece pieces ih =>
    rw [fill, List.takeWhile_cons, fills]
    by_cases hcached : o.hasPiece piece = true
    · rw [if_pos hcached, hcached, Bool.true_or, if_pos rfl, List.length_cons, ← ih]
    · by_cases hmem : piece ∈ memoryPiecesToCache
      · by_cases hnil : o.memoryPiece piece = []
        · simp [hcached, hmem, hnil]
        · simp [hcached, hmem, hnil, ih]
      · simp [hcached, hmem]

theorem fill_snd {memoryPiecesToCache pieces : List ℤ} {e : Effect}
    (h : e ∈ (fill o memoryPiecesToCache pieces).2) : ∃ piece ∈ pieces, o.hasPiece piece = false ∧
      o.memoryPiece piece ≠ [] ∧
        (e = .putPiece piece (o.memoryPiece piece) ∨ e = .notifyPieceFinished piece) := by
  induction pieces with
  | nil => cases h
  | cons piece pieces ih =>
    have hlater : e ∈ (fill o memoryPiecesToCache pieces).2 → ∃ q ∈ piece :: pieces,
        o.hasPiece q = false ∧ o.memoryPiece q ≠ [] ∧
          (e = .putPiece q (o.memoryPiece q) ∨ e = .notifyPieceFinished q) := by
      intro hmem
      obtain ⟨q, hq, hrest⟩ := ih hmem
      exact ⟨q, List.mem_cons_of_mem _ hq, hrest⟩
    rw [fill] at h
    split at h
    · exact hlater h
    · next hcached =>
      split at h
      · split at h
        · cases h
        · next hne =>
          have hhere : ∀ e' : Effect, e' = .putPiece piece (o.memoryPiece piece) ∨
              e' = .notifyPieceFinished piece → ∃ q ∈ piece :: pieces,
                o.hasPiece q = false ∧ o.memoryPiece q ≠ [] ∧
                  (e' = .putPiece q (o.memoryPiece q) ∨ e' = .notifyPieceFinished q) :=
            fun e' he' => ⟨piece, List.mem_cons_self, Bool.eq_false_iff.mpr hcached, hne, he'⟩
          rcases List.mem_cons.mp h with rfl | h
          · exact hhere _ (.inl rfl)
          · rcases List.mem_cons.mp h with rfl | h
            · exact hhere _ (.inr rfl)
            · exact hlater h
      · cases h

/-- A piece of the cluster is among the first ones exactly if it comes before the end of them. -/
theorem mem_take_cluster (hw : w.Inside) {n k : ℕ} (hk : k < w.targetPieces) :
    w.piece.toInt + k ∈ w.cluster.take n ↔ k < n := by
  rw [cluster_eq hw, ← List.map_take, List.take_range, List.mem_map]
  constructor
  · rintro ⟨m, hm, heq⟩
    rw [List.mem_range] at hm
    omega
  · intro hlt
    exact ⟨k, List.mem_range.mpr (Nat.lt_min.mpr ⟨hlt, hk⟩), rfl⟩

/-- **What one look finds.** -/
theorem isRun_readyPieces (hw : w.Inside) (o : Observation) (t : TorrentView) :
    IsRun (w.Available o t) w.piece.toInt w.targetPieces (w.readyPieces o t).1 := by
  have hlead : IsRun t.Has w.piece.toInt w.targetPieces (w.leading t) := isRun_leading hw
  cases hmode : w.storageMode with
  | diskBacked =>
    have heq : w.Available o t = t.Has := by
      funext piece
      rw [Available, hmode]
    rw [heq, readyPieces, hmode]
    exact hlead
  | memoryOnly =>
    rw [readyPieces, hmode]
    dsimp only
    rw [fill_fst]
    nth_rewrite 2 [cluster_eq hw]
    apply isRun_takeWhile
    intro k hk
    rw [fills, Available, hmode, Bool.or_eq_true, Bool.and_eq_true, decide_eq_true_iff,
      decide_eq_true_iff, mem_take_cluster hw hk]
    -- the torrent has all the pieces up to here exactly if its run reaches further
    have hup : k < w.leading t ↔
        ∀ q, w.piece.toInt ≤ q → q ≤ w.piece.toInt + k → t.Has q := by
      constructor
      · intro hlt q hq hqk
        have hall := hlead.all (q - w.piece.toInt).toNat (by omega)
        rwa [Int.toNat_of_nonneg (by omega), add_sub_cancel] at hall
      · intro hall
        by_contra hge
        exact hlead.maximal (by omega) (hall _ (by omega) (by omega))
    rw [hup]

/-! ### The loop -/

/-- What the policy is asked is sound, if the cache is not too large for the pieces. -/
theorem sound_context (hw : w.Inside)
    (hcache : w.cacheSize.toNat / w.pieceLength.toNat % 2 ^ 32 < 2 ^ 31) (rate peers : UInt64)
    (pressure : MemoryPressure) (waits : UInt32) : (w.context rate peers pressure waits).Sound := by
  obtain ⟨h₁, h₂, h₃, h₄⟩ := hw
  refine ⟨?_, ?_, hcache, ?_⟩
  · dsimp only [context]
    omega
  · dsimp only [context]
    omega
  · rintro ⟨-, hsent, -⟩
    cases hsent

/-- What waiting may do: it asks for pieces of the file, and carries such from the memory storage into the
piece cache. -/
def Allowed (w : Wait) (os : List Observation) : Effect → Prop
  | .labelMemoryStorage => w.storageMode = .memoryOnly
  | .setPiecePriorities assignments =>
      ∀ a ∈ assignments, w.firstPiece.toInt ≤ a.1 ∧ a.1 ≤ w.lastPiece.toInt
  | .setPieceDeadline piece _ => w.firstPiece.toInt ≤ piece ∧ piece ≤ w.lastPiece.toInt
  | .putPiece piece data => piece ∈ w.cluster ∧ data ≠ [] ∧
      ∃ o ∈ os, o.hasPiece piece = false ∧ o.memoryPiece piece = data
  | .notifyPieceFinished piece => piece ∈ w.cluster ∧
      ∃ o ∈ os, o.hasPiece piece = false ∧ o.memoryPiece piece ≠ []

theorem Allowed.mono {os os' : List Observation} {e : Effect} (h : w.Allowed os e)
    (hsub : ∀ o ∈ os, o ∈ os') : w.Allowed os' e := by
  cases e with
  | labelMemoryStorage | setPiecePriorities | setPieceDeadline => exact h
  | putPiece piece data =>
    obtain ⟨hpiece, hne, o, ho, hrest⟩ := h
    exact ⟨hpiece, hne, o, hsub o ho, hrest⟩
  | notifyPieceFinished piece =>
    obtain ⟨hpiece, o, ho, hrest⟩ := h
    exact ⟨hpiece, o, hsub o ho, hrest⟩

/-- The policy comes to a decision, and asks for pieces of the file only. -/
theorem decide_allowed (hw : w.Inside) (hlen : w.pieceLength ≠ 0)
    (hcache : w.cacheSize.toNat / w.pieceLength.toNat % 2 ^ 32 < 2 ^ 31) (rate peers : UInt64)
    (pressure : MemoryPressure) (waits : UInt32) (os : List Observation) :
    ∃ d, PlaybackPriorityPolicy.decide (w.context rate peers pressure waits) = .ok d ∧
      ∀ e ∈ decisionEffects d, w.Allowed os e := by
  have hvalid : (w.context rate peers pressure waits).Valid :=
    ⟨hlen, hw.first_le, le_trans hw.first_le hw.le_last⟩
  obtain ⟨v, v', hfits, -, hd⟩ :=
    PriorityContext.decide_eq hvalid (sound_context hw hcache rate peers pressure waits)
  have hinside := PriorityContext.decision_inside hvalid hfits
  refine ⟨_, hd, ?_⟩
  intro e he
  rcases List.mem_cons.mp he with rfl | he
  · intro a ha
    obtain ⟨b, hb, rfl⟩ := List.mem_map.mp ha
    exact hinside b hb
  · obtain ⟨b, hb, rfl⟩ := List.mem_map.mp he
    exact hinside b hb

theorem missing_inside (hw : w.Inside) (t : TorrentView) :
    ∀ a ∈ w.missing t, w.firstPiece.toInt ≤ a.1 ∧ a.1 ≤ w.lastPiece.toInt := by
  intro a h
  obtain ⟨⟨present, k⟩, hmem, ha⟩ := List.mem_filterMap.mp h
  have hlen : (w.presence t).length ≤ w.targetPieces := by
    rw [presence, TorrentView.piecePresence, clusterEnd_eq hw]
    cases t.numPieces with
    | none => exact Nat.zero_le _
    | some numPieces =>
      dsimp only
      split
      · exact Nat.zero_le _
      · rw [List.length_map, List.length_range]
        omega
  have hk : k < (w.presence t).length := by
    have hlt := List.snd_lt_of_mem_zipIdx hmem
    simpa using hlt
  have hle := targetPieces_le hw
  obtain ⟨h₁, h₂, h₃, h₄⟩ := hw
  cases present with
  | true => cases ha
  | false =>
    cases ha
    dsimp only [saturatingI32]
    omega

theorem reassert_allowed (hw : w.Inside) (now : ℕ) (os : List Observation) :
    ∀ e ∈ (w.reassert s now t).2, w.Allowed os e := by
  rw [reassert]
  split
  · intro e he
    rcases List.mem_cons.mp he with rfl | he
    · intro a ha
      obtain ⟨b, hb, rfl⟩ := List.mem_map.mp ha
      exact missing_inside hw t b hb
    · obtain ⟨b, hb, rfl⟩ := List.mem_map.mp he
      exact missing_inside hw t b hb
  · exact fun e he => (nomatch he)

/-- The policy being asked again changes nothing that counts. -/
theorem replan_eq (hw : w.Inside) (hlen : w.pieceLength ≠ 0)
    (hcache : w.cacheSize.toNat / w.pieceLength.toNat % 2 ^ 32 < 2 ^ 31) (os : List Observation) :
    ∃ s' effects, w.replan s t = .ok (s', effects) ∧ s'.bestReadyPieces = s.bestReadyPieces ∧
      s'.pollIntervalMs = s.pollIntervalMs ∧ ∀ e ∈ effects, w.Allowed os e := by
  rw [replan]
  split
  · obtain ⟨d, hd, hallowed⟩ := decide_allowed hw hlen hcache t.downloadRate t.numPeers .normal 1 os
    rw [hd]
    exact ⟨_, _, rfl, rfl, rfl, hallowed⟩
  · exact ⟨_, _, rfl, rfl, rfl, fun e he => (nomatch he)⟩

theorem readyPieces_allowed {os : List Observation} (ho : o ∈ os) :
    ∀ e ∈ (w.readyPieces o t).2, w.Allowed os e := by
  rw [readyPieces]
  cases w.storageMode with
  | diskBacked => exact fun e he => (nomatch he)
  | memoryOnly =>
    intro e he
    obtain ⟨piece, hpiece, hcached, hne, rfl | rfl⟩ := fill_snd he
    · exact ⟨hpiece, hne, o, ho, hcached, rfl⟩
    · exact ⟨hpiece, o, ho, hcached, hne⟩

/-- **One look** finds what there is, and goes on from the best so far. -/
theorem look_eq (hw : w.Inside) (hlen : w.pieceLength ≠ 0)
    (hcache : w.cacheSize.toNat / w.pieceLength.toNat % 2 ^ 32 < 2 ^ 31) (s : WaitState)
    (t : TorrentView) {os : List Observation} (ho : o ∈ os) :
    ∃ s' effects, w.look s o t = .ok ((w.readyPieces o t).1, s', effects) ∧
      s'.bestReadyPieces = max s.bestReadyPieces (w.readyPieces o t).1 ∧
      s'.pollIntervalMs = s.pollIntervalMs ∧ s'.lastPeers = t.numPeers ∧
      s'.lastRate = t.downloadRate ∧ ∀ e ∈ effects, w.Allowed os e := by
  have hreassert : ((w.reassert s o.now t).1).bestReadyPieces = s.bestReadyPieces ∧
      ((w.reassert s o.now t).1).pollIntervalMs = s.pollIntervalMs := by
    rw [reassert]
    split
    · exact ⟨rfl, rfl⟩
    · exact ⟨rfl, rfl⟩
  obtain ⟨s', replanned, hreplan, hbest, hpoll, hallowed⟩ :=
    replan_eq (s := (w.reassert s o.now t).1) (t := t) hw hlen hcache os
  rw [look]
  dsimp only
  rw [hreplan]
  refine ⟨_, _, rfl, ?_, ?_, rfl, rfl, ?_⟩
  · dsimp only
    rw [hbest, hreassert.1]
  · dsimp only
    rw [hpoll, hreassert.2]
  · intro e he
    rcases List.mem_append.mp he with he | he
    · rcases List.mem_append.mp he with he | he
      · exact reassert_allowed hw o.now os e he
      · exact hallowed e he
    · exact readyPieces_allowed ho e he

/-- What was ready at a look. -/
def readyAt (w : Wait) (o : Observation) : ℕ :=
  match o.torrent with
  | .error _ => 0
  | .ok t => (w.readyPieces o t).1

/-- A look that does not end the loop: there is time, and the torrent, and pieces are missing. -/
structure Short (w : Wait) (o : Observation) : Prop where
  in_time : o.now < w.timeout
  found : ∃ t, o.torrent = .ok t
  short : w.readyAt o < w.targetPieces

/-- The best of some looks. -/
structure IsBest (w : Wait) (os : List Observation) (n : ℕ) : Prop where
  le : ∀ o ∈ os, w.readyAt o ≤ n
  attained : n = 0 ∨ ∃ o ∈ os, w.readyAt o = n

theorem IsBest.append {os : List Observation} {n : ℕ} (h : w.IsBest os n) (o : Observation) :
    w.IsBest (os ++ [o]) (max n (w.readyAt o)) := by
  constructor
  · intro b hb
    rcases List.mem_append.mp hb with hb | hb
    · exact Nat.le_trans (h.le b hb) (Nat.le_max_left _ _)
    · rw [List.mem_singleton.mp hb]
      exact Nat.le_max_right _ _
  · rcases Nat.le_total n (w.readyAt o) with hle | hle
    · exact .inr ⟨o, List.mem_append_right _ List.mem_cons_self, (Nat.max_eq_right hle).symm⟩
    · rw [Nat.max_eq_left hle]
      rcases h.attained with hzero | ⟨b, hb, heq⟩
      · exact .inl hzero
      · exact .inr ⟨b, List.mem_append_left _ hb, heq⟩

/-- What the answer is, by the look that ends the loop and those before it. -/
inductive Answer (w : Wait) (before : List Observation) (o : Observation) :
    Except String PieceReadiness → Prop
  /-- The time is over: the answer is the best there was. -/
  | expired {r : PieceReadiness} (htime : w.timeout ≤ o.now) (hbest : w.IsBest before r.readyPieces)
      (hready : r.ready = decide (0 < r.readyPieces)) (htarget : r.targetPieces = w.targetPieces)
      (hpiece : r.piece = w.piece.toInt) (helapsed : r.elapsedMs = o.now) : Answer w before o (.ok r)
  | notFound {e : String} (htime : o.now < w.timeout) (htorrent : o.torrent = .error e) :
      Answer w before o (.error (notFound e))
  /-- All the pieces are ready. -/
  | complete {t : TorrentView} (htime : o.now < w.timeout) (htorrent : o.torrent = .ok t)
      (hready : w.readyAt o = w.targetPieces) :
      Answer w before o (.ok (w.complete o t w.targetPieces))

/-- **What the loop comes to**, if there is enough to see: the first look that ends it answers. -/
theorem loop_spec (hw : w.Inside) (hlen : w.pieceLength ≠ 0)
    (hcache : w.cacheSize.toNat / w.pieceLength.toNat % 2 ^ 32 < 2 ^ 31) (all before : List Observation)
    (os : List Observation) (hall : ∀ o ∈ os, o ∈ all) (s : WaitState)
    (hs : w.IsBest before s.bestReadyPieces) :
    (∃ result effects short o later, w.loop s os = .ok (result, effects) ∧ os = short ++ o :: later ∧
      (∀ b ∈ short, w.Short b) ∧ w.Answer (before ++ short) o result ∧
      ∀ e ∈ effects, w.Allowed all e) ∨
    ∀ o ∈ os, o.now < w.timeout := by
  -- by induction on the looks: `before` are those that fell short, and their best is in the state
  induction os generalizing s before with
  | nil => exact .inr fun o ho => (nomatch ho)
  | cons o os ih =>
    have hnone : ∀ e ∈ ([] : List Effect), w.Allowed all e := fun e he => (nomatch he)
    rw [loop]
    by_cases htime : w.timeout ≤ o.now
    · rw [if_pos htime]
      refine .inl ⟨_, _, [], o, os, rfl, rfl, fun b hb => (nomatch hb), ?_, hnone⟩
      rw [List.append_nil]
      exact .expired htime hs rfl rfl rfl rfl
    · rw [if_neg htime]
      have hin := Nat.lt_of_not_le htime
      cases htorrent : o.torrent with
      | error e =>
        exact .inl ⟨_, _, [], o, os, rfl, rfl, fun b hb => (nomatch hb), .notFound hin htorrent, hnone⟩
      | ok t =>
        have hat : w.readyAt o = (w.readyPieces o t).1 := by rw [readyAt, htorrent]
        obtain ⟨s', effects, hlook, hbest, -, -, -, hallowed⟩ :=
          look_eq hw hlen hcache s t (hall o List.mem_cons_self)
        dsimp only
        rw [hlook, ok_bind]
        dsimp only
        -- a run is never longer than the target, so what is enough is the target
        by_cases hfull : w.targetPieces ≤ (w.readyPieces o t).1
        · rw [if_pos hfull]
          have heq : (w.readyPieces o t).1 = w.targetPieces :=
            Nat.le_antisymm (isRun_readyPieces hw o t).le hfull
          refine .inl ⟨_, _, [], o, os, rfl, rfl, fun b hb => (nomatch hb), ?_, hallowed⟩
          rw [heq]
          exact .complete hin htorrent (hat.trans heq)
        · rw [if_neg hfull]
          have hshort : w.Short o := ⟨hin, ⟨t, htorrent⟩, by rw [hat]; exact Nat.lt_of_not_le hfull⟩
          have hnext : w.IsBest (before ++ [o]) s'.bestReadyPieces := by
            rw [hbest, ← hat]
            exact hs.append o
          rcases ih (before ++ [o]) (fun b hb => hall b (List.mem_cons_of_mem _ hb))
            { s' with pollIntervalMs := min (s'.pollIntervalMs * 2) 25 } hnext with hdone | hlate
          · obtain ⟨result, later, short, o', rest, hloop, rfl, hshorts, hanswer, hlater⟩ := hdone
            rw [hloop]
            refine .inl ⟨result, effects ++ later, o :: short, o', rest, rfl, rfl, ?_, ?_, ?_⟩
            · intro b hb
              rcases List.mem_cons.mp hb with rfl | hb
              · exact hshort
              · exact hshorts b hb
            · rwa [List.append_assoc] at hanswer
            · intro e he
              rcases List.mem_append.mp he with he | he
              · exact hallowed e he
              · exact hlater e he
          · right
            intro b hb
            rcases List.mem_cons.mp hb with rfl | hb
            · exact hin
            · exact hlate b hb

/-! ### The clock -/

/-- The looks are as far apart as the pauses between them, which are doubled up to 25 milliseconds. -/
def Paced : ℕ → List Observation → Prop
  | _, [] => True
  | interval, o :: os =>
      (∀ o' ∈ os.head?, o.now + interval ≤ o'.now) ∧ Paced (min (interval * 2) 25) os

/-- Looks that are all in time are no more than one in 25 milliseconds, but for the first ones. -/
theorem Paced.length_lt {os : List Observation} {interval timeout : ℕ} (h : Paced interval (o :: os))
    (hlow : 5 ≤ interval) (hhigh : interval ≤ 25) (htime : ∀ b ∈ o :: os, b.now < timeout) :
    o.now + 25 * os.length <
      timeout + (25 - interval) + (25 - min (interval * 2) 25) + (25 - min (interval * 4) 25) := by
  induction os generalizing o interval with
  | nil =>
    have hlt := htime o List.mem_cons_self
    rw [List.length_nil]
    omega
  | cons o' os ih =>
    obtain ⟨hnext, hrest⟩ := h
    have hstep := hnext o' (Option.mem_some_self o')
    have hlt := ih hrest (by omega) (Nat.min_le_right _ _)
      fun b hb => htime b (List.mem_cons_of_mem _ hb)
    rw [List.length_cons]
    omega

/-- **The time will be over.** -/
theorem Paced.exists_late {os : List Observation} {timeout : ℕ} (h : Paced 5 os)
    (hlong : timeout + 65 ≤ 25 * os.length) : ¬ ∀ o ∈ os, o.now < timeout := by
  intro htime
  cases os with
  | nil => exact absurd hlong (by rw [List.length_nil]; omega)
  | cons o os =>
    have hlt := h.length_lt (Nat.le_refl 5) (by omega) htime
    rw [List.length_cons] at hlong
    omega

end Wait

/-! ### The request -/

/-- The native library's entry for a file. -/
structure TorrentFile.Describes (file : TorrentFile) (pieceLength : UInt64) (L : FileLayout) : Prop where
  offset : file.offset = L.fileOffset
  pieceLength : pieceLength.toNat = L.pieceLength
  firstPiece : file.firstPiece.toInt = L.firstPiece
  lastPiece : file.lastPiece.toInt = L.lastPiece

variable {L : FileLayout} {file : TorrentFile} {a : Arrival} {fileIdx offset timeout : ℕ}

/-- What a request for a place of a file waits for. -/
def LibtorrentTorrentHandle.waitAt (h : LibtorrentTorrentHandle) (intent : PlaybackIntent)
    (timeout : ℕ) (a : Arrival) (file : TorrentFile) (L : FileLayout) (offset : ℕ) : Wait :=
  h.wait intent timeout a file (Int32.ofNat (L.pieceOf offset))

theorem toInt_pieceOf (h : offset < L.fileSize) :
    (Int32.ofNat (L.pieceOf offset)).toInt = L.pieceOf offset := by
  exact Int32.toInt_ofNat_of_lt (FileLayout.pieceOf_lt h)

theorem inside_waitAt (h : LibtorrentTorrentHandle) (intent : PlaybackIntent)
    (hfile : file.Describes a.pieceLength L) (hoffset : offset < L.fileSize)
    (hlast : L.lastPiece < 2 ^ 31 - 1) : (h.waitAt intent timeout a file L offset).Inside := by
  have hpiece := FileLayout.pieceOf_inside hoffset
  have hzero : L.firstPiece = L.pieceOf 0 := by
    have hfirst : L.fileOffset / L.pieceLength = L.pieceOf 0 := rfl
    rw [FileLayout.firstPiece, hfirst, FileLayout.asI32_piece (Nat.zero_lt_of_lt hoffset)]
  constructor
  · change 0 ≤ file.firstPiece.toInt
    rw [hfile.firstPiece, hzero]
    exact Int.natCast_nonneg _
  · change file.firstPiece.toInt ≤ (Int32.ofNat (L.pieceOf offset)).toInt
    rw [hfile.firstPiece, toInt_pieceOf hoffset]
    exact hpiece.1
  · change (Int32.ofNat (L.pieceOf offset)).toInt ≤ file.lastPiece.toInt
    rw [hfile.lastPiece, toInt_pieceOf hoffset]
    exact hpiece.2
  · change file.lastPiece.toInt < 2 ^ 31 - 1
    rw [hfile.lastPiece]
    exact hlast

/-- **What a request comes to**, for a place inside its file.  With looks at pauses that are doubled from
5 up to 25 milliseconds, it has an answer no later than the time allows.  The answer is that of the first
look that ends the waiting: the torrent is gone; or all the pieces that are wanted, from the one of the
place on, can be read; or the time is over, and the answer is the longest run of pieces that could be
read at any look.  Only pieces of the file are asked for, and only pieces that the memory storage
has are carried into the cache. -/
theorem waitForPieceReady_answer (h : LibtorrentTorrentHandle) (intent : PlaybackIntent)
    {os : List Observation} (hentry : a.files[fileIdx]? = some file)
    (hfile : file.Describes a.pieceLength L) (hoffset : offset < L.fileSize)
    (hlast : L.lastPiece < 2 ^ 31 - 1)
    (hcache : h.cacheSize.toNat / a.pieceLength.toNat % 2 ^ 32 < 2 ^ 31) (hpaced : Wait.Paced 5 os)
    (hlong : timeout + 65 ≤ 25 * os.length) :
    ∃ w result effects short o later, w = h.waitAt intent timeout a file L offset ∧
      h.waitForPieceReady fileIdx offset timeout intent (.ok a) os = .ok (result, effects) ∧
      os = short ++ o :: later ∧ (∀ b ∈ short, w.Short b) ∧ w.Answer short o result ∧
      (∀ b ∈ os, ∀ t, b.torrent = .ok t →
        IsRun (w.Available b t) (L.pieceOf offset) w.targetPieces (w.readyAt b)) ∧
      ∀ e ∈ effects, w.Allowed os e := by
  have hw : (h.waitAt intent timeout a file L offset).Inside :=
    inside_waitAt h intent hfile hoffset hlast
  have hlen : a.pieceLength ≠ 0 := by
    rintro hzero
    have hpos := L.pieceLength_pos
    rw [← hfile.pieceLength, hzero] at hpos
    exact absurd hpos (Nat.lt_irrefl 0)
  have hnone : (h.waitAt intent timeout a file L offset).IsBest [] WaitState.new.bestReadyPieces :=
    ⟨fun b hb => (nomatch hb), .inl rfl⟩
  obtain ⟨d, hd, hbegin⟩ := Wait.decide_allowed hw hlen hcache a.downloadRate a.numPeers
    (h.memoryPressure a.nativeMemoryBytes) 0 os
  -- the answer is the loop's, and its looks reach the end of the time
  rcases Wait.loop_spec hw hlen hcache os [] os (fun o ho => ho) .new hnone with hdone | hlate
  · obtain ⟨result, effects, short, o, later, hloop, hos, hshort, hanswer, hallowed⟩ := hdone
    refine ⟨_, result, h.labels ++ decisionEffects d ++ effects, short, o, later, rfl, ?_, hos, hshort,
      hanswer, ?_, ?_⟩
    · have hsum : file.offset + offset < 2 ^ 64 := by
        have hfits := L.fits
        have htotal := L.total_lt
        rw [hfile.offset]
        omega
      have hposition : Int32.ofNat ((file.offset + offset) / a.pieceLength.toNat) =
          Int32.ofNat (L.pieceOf offset) := by
        rw [hfile.offset, hfile.pieceLength]
        rfl
      -- a place inside the file is in a piece between its first and its last one
      have hrange : ¬ (Int32.ofNat (L.pieceOf offset) < file.firstPiece ∨
          file.lastPiece < Int32.ofNat (L.pieceOf offset)) := by
        have hfirst := hw.first_le
        have hle := hw.le_last
        rintro (hlt | hlt)
        · exact absurd (Int32.lt_iff_toInt_lt.mp hlt) (Int.not_lt.mpr hfirst)
        · exact absurd (Int32.lt_iff_toInt_lt.mp hlt) (Int.not_lt.mpr hle)
      have hwait : h.wait intent timeout a file (Int32.ofNat (L.pieceOf offset)) =
          h.waitAt intent timeout a file L offset := rfl
      rw [LibtorrentTorrentHandle.waitForPieceReady, hentry]
      dsimp only
      rw [if_neg hlen, add_of_lt hsum, ok_bind, hposition, if_neg hrange, hwait, hd, ok_bind, hloop,
        ok_bind]
    · intro b _ t ht
      rw [Wait.readyAt, ht]
      have hrun := Wait.isRun_readyPieces hw b t
      rwa [show (h.waitAt intent timeout a file L offset).piece.toInt = L.pieceOf offset from
        toInt_pieceOf hoffset] at hrun
    · intro e he
      rcases List.mem_append.mp he with he | he
      · rcases List.mem_append.mp he with he | he
        · rw [LibtorrentTorrentHandle.labels] at he
          split at he
          · next hmode =>
            rw [List.mem_singleton.mp he]
            exact hmode
          · cases he
        · exact hbegin e he
      · exact hallowed e he
  · exact absurd hlate (hpaced.exists_late hlong)

/-- A film of two pieces, of which the second one comes between the first and the second look. -/
def filmArrival : Arrival := ⟨[⟨0, 8, 0, 1⟩], 4, 3, 1000, 0, 0⟩

/-- A look at a film of three pieces. -/
def filmLook (now : ℕ) (present : ℤ → Bool) : Observation :=
  ⟨now, .ok ⟨3, 1000, some 2, present⟩, fun _ => false, fun _ => [], now⟩

/-- The pieces of the film arrive in turn. -/
def filmLooks : List Observation :=
  [filmLook 0 (· == 0), filmLook 5 (· ≤ 1), filmLook 15 (· ≤ 1)]

theorem describes_filmArrival : TorrentFile.Describes ⟨0, 8, 0, 1⟩ filmArrival.pieceLength twoPieces :=
  ⟨rfl, rfl, by decide, by decide⟩

/-- A reader of the film waits for its first byte. -/
theorem film_awaited : ∃ w result effects short o later,
    w = (LibtorrentTorrentHandle.mk .diskBacked 0).waitAt .directInitial 10 filmArrival ⟨0, 8, 0, 1⟩
      twoPieces 0 ∧
    (LibtorrentTorrentHandle.mk .diskBacked 0).waitForPieceReady 0 0 10 .directInitial (.ok filmArrival)
      filmLooks = .ok (result, effects) ∧
    filmLooks = short ++ o :: later ∧ w.Answer short o result := by
  obtain ⟨w, result, effects, short, o, later, hw, hrun, hlooks, -, hanswer, -⟩ :=
    @waitForPieceReady_answer twoPieces ⟨0, 8, 0, 1⟩ filmArrival 0 0 10 (.mk .diskBacked 0)
      .directInitial filmLooks rfl describes_filmArrival (Nat.succ_pos 7) (by decide) (by decide)
      (by simp [Wait.Paced, filmLooks, filmLook]) (by decide)
  exact ⟨w, result, effects, short, o, later, hw, hrun, hlooks, hanswer⟩

end StreamServer.Readers

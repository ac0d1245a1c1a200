import StreamServer.Metadata.Keyframes

/-!
# Walking through the Cues

A well-formed Cues element is a tree: cue points, which have a time and track positions, which have the
position of a cluster.  The code does not walk through this tree.  It looks for the byte of an id, and so
may take a byte of a time, a size or a track number for the beginning of an element.

## Main definitions

* `TrackTree`, `PointTree`, `CuesTree` — well-formed elements with their children.
* `CuesTree.walk` — the first position of each of the first 50 cue points, found by a walk.
* `PointTree.Clear` — in front of the first track positions, and of the first position in them, there is
  no byte that is taken for the beginning of such an element.

## Main results

* `parseCuePoint_tree` — the position of a clear cue point is found.
* `parseCuePoints_walk` — **the code finds what the walk finds**, if the cue points are clear.

## References

`enginefs/src/backend/metadata.rs`, `parse_cue_points` and `parse_cue_point`.
-/

namespace StreamServer.Metadata

/-! ### Trees -/

/-- The id of CueTime. -/
def cueTimeId : List UInt8 := [0xB3]

/-- Elements in a row. -/
def row (children : List Element) : List UInt8 := children.flatMap Element.bytes

/-- The child is a CueClusterPosition. -/
def isPosition (child : Element) : Bool := child.id.bytes == cueClusterPositionId

/-- Track positions, with the position of a cluster among the children. -/
structure TrackTree where
  element : Element
  children : List Element
  id_eq : element.id.bytes = cueTrackPositionsId
  payload_eq : element.payload = row children
  position_mem : ∃ child ∈ children, isPosition child = true
  position_le : ∀ child ∈ children, isPosition child = true → child.payload.length ≤ 8

/-- A child of a cue point. -/
inductive PointChild
  | track (tree : TrackTree)
  | other (element : Element) (id_ne : element.id.bytes ≠ cueTrackPositionsId)

/-- The element that the child is. -/
def PointChild.element : PointChild → Element
  | track tree => tree.element
  | other element _ => element

/-- The child, if it holds track positions. -/
def PointChild.track? : PointChild → Option TrackTree
  | track tree => some tree
  | other _ _ => none

/-- The child holds track positions. -/
def PointChild.isTrack (child : PointChild) : Bool := child.track?.isSome

/-- A cue point, with a time and track positions among the children. -/
structure PointTree where
  element : Element
  children : List PointChild
  id_eq : element.id.bytes = cuePointId
  payload_eq : element.payload = row (children.map PointChild.element)
  time_mem : ∃ child ∈ children, child.element.id.bytes = cueTimeId
  track_mem : ∃ child ∈ children, child.isTrack = true

/-- The Cues, with the cue points as the children. -/
structure CuesTree where
  element : Element
  points : List PointTree
  id_eq : element.id.bytes = cuesId
  payload_eq : element.payload = row (points.map PointTree.element)

/-- The first position in track positions. -/
def TrackTree.walk (tree : TrackTree) : Option ℕ :=
  (tree.children.find? isPosition).map fun position => bigEndian 0 position.payload

/-- The first position in a cue point. -/
def PointTree.walk (tree : PointTree) : Option ℕ :=
  (tree.children.findSome? PointChild.track?).bind TrackTree.walk

/-- **The walk**: the first position of each of the first 50 cue points. -/
def CuesTree.walk (tree : CuesTree) : List ℕ := (tree.points.take 50).filterMap PointTree.walk

/-! ### Bytes that are taken for an element -/

/-- The number that is read if the bytes at hand are taken for the position of a cluster. -/
def positionAt (data : List UInt8) : Option ℕ :=
  match headerAt cueClusterPositionId data with
  | some (psize, pheader) =>
      let pdata := data.drop pheader
      if psize ≤ pdata.length then some (bigEndian 0 (pdata.take psize) % 2 ^ 64) else none
  | none => none

/-- What stands in front of the first position. -/
def TrackTree.front (tree : TrackTree) : List UInt8 :=
  row (tree.children.takeWhile fun child => !isPosition child)

/-- What stands in front of the first track positions. -/
def PointTree.front (tree : PointTree) : List UInt8 :=
  row ((tree.children.takeWhile fun child => !child.isTrack).map PointChild.element)

/-- No byte in front of the first track positions is taken for their beginning, and none in front of the
first position in them for its beginning. -/
structure PointTree.Clear (tree : PointTree) : Prop where
  track : ∀ k < tree.front.length,
    headerAt cueTrackPositionsId (tree.element.payload.drop k) = none
  position : ∀ track, tree.children.findSome? PointChild.track? = some track →
    ∀ k < track.front.length, positionAt (tree.element.payload.drop
      (tree.front.length + track.element.toHeader.bytes.length + k)) = none

/-! ### The first child -/

/-- A list in which there is something begins with what comes before it. -/
theorem exists_first {α : Type} {p : α → Bool} {list : List α} (h : ∃ a ∈ list, p a = true) :
    ∃ a rest, p a = true ∧ list.find? p = some a ∧
      list = list.takeWhile (fun a => !p a) ++ a :: rest := by
  induction list with
  | nil =>
    obtain ⟨a, ha, -⟩ := h
    cases ha
  | cons b list ih =>
    cases hb : p b with
    | true => exact ⟨b, list, hb, by rw [List.find?_cons_of_pos hb], by simp [hb]⟩
    | false =>
      obtain ⟨a, ha, hpa⟩ := h
      have hmem : a ∈ list := by
        rcases List.mem_cons.mp ha with rfl | ha
        · rw [hb] at hpa
          cases hpa
        · exact ha
      obtain ⟨a', rest, hpa', hfind, hsplit⟩ := ih ⟨a, hmem, hpa⟩
      refine ⟨a', rest, hpa', by rw [List.find?_cons_of_neg (by simp [hb]), hfind], ?_⟩
      rw [List.takeWhile_cons_of_pos (by simp [hb]), List.cons_append, ← hsplit]

theorem row_append (children children' : List Element) :
    row (children ++ children') = row children ++ row children' := List.flatMap_append

theorem row_cons (child : Element) (children : List Element) :
    row (child :: children) = child.bytes ++ row children := List.flatMap_cons

theorem TrackTree.exists_position (tree : TrackTree) : ∃ (position : Element) (after : List UInt8),
    position.id.bytes = cueClusterPositionId ∧ position.payload.length ≤ 8 ∧
      tree.walk = some (bigEndian 0 position.payload) ∧
      tree.element.payload = tree.front ++ (position.bytes ++ after) := by
  obtain ⟨position, rest, hposition, hfind, hsplit⟩ := exists_first tree.position_mem
  refine ⟨position, row rest, by simpa [isPosition] using hposition,
    tree.position_le position (List.mem_of_find?_eq_some hfind) hposition,
    by rw [walk, hfind, Option.map_some], ?_⟩
  have hrow := congrArg row hsplit
  rw [row_append, row_cons] at hrow
  rw [tree.payload_eq]
  exact hrow

theorem PointTree.exists_track (tree : PointTree) : ∃ (track : TrackTree) (after : List UInt8),
    tree.children.findSome? PointChild.track? = some track ∧
      tree.element.payload = tree.front ++ (track.element.bytes ++ after) := by
  obtain ⟨child, rest, hchild, hfind, hsplit⟩ := exists_first tree.track_mem
  cases child with
  | other _ _ => cases hchild
  | track track =>
    refine ⟨track, row (rest.map PointChild.element), ?_, ?_⟩
    · rw [hsplit, List.findSome?_append, List.findSome?_eq_none_iff.mpr, Option.none_or]
      · rfl
      · intro child hmem
        have hnot := List.all_eq_true.mp List.all_takeWhile child hmem
        simpa [PointChild.isTrack] using hnot
    · have hrow := congrArg (fun children => row (children.map PointChild.element)) hsplit
      rw [List.map_append, List.map_cons, row_append, row_cons] at hrow
      rw [tree.payload_eq]
      exact hrow

/-! ### The position of a cue point -/

theorem trackPositionsStep_eq (trackSize : ℕ) (data : List UInt8) :
    trackPositionsStep trackSize data = if trackSize ≤ 1 then .stop none
      else match positionAt data with
        | some position => .stop (some position)
        | none => .advance (trackSize - 1) 0 := by
  rw [trackPositionsStep, positionAt]
  split
  · rfl
  · cases headerAt cueClusterPositionId data with
    | none => rfl
    | some header =>
      dsimp only
      split <;> rfl

/-- The first position in track positions is found, if nothing in front of it is taken for one. -/
theorem parseTrackPositions_tree (tree : TrackTree) (after : List UInt8)
    (h : ∀ k < tree.front.length, positionAt ((tree.element.payload ++ after).drop k) = none) :
    parseTrackPositions tree.element.payload.length (tree.element.payload ++ after) = tree.walk := by
  obtain ⟨position, rest, hid, hle, hwalk, hpayload⟩ := tree.exists_position
  have hheader := position.toHeader.two_le_length
  have hlength := position.length_bytes
  have hsize := congrArg List.length hpayload
  rw [List.length_append, List.length_append] at hsize
  have hdata : tree.element.payload ++ after =
      tree.front ++ (position.bytes ++ (rest ++ after)) := by
    rw [hpayload, List.append_assoc, List.append_assoc]
  rw [hdata] at h ⊢
  have hnoise : ∀ k < tree.front.length,
      trackPositionsStep (tree.element.payload.length - k)
          ((tree.front ++ (position.bytes ++ (rest ++ after))).drop k) =
        .advance (tree.element.payload.length - (k + 1)) 0 := by
    intro k hk
    rw [trackPositionsStep_eq, if_neg (by omega), h k hk, Nat.sub_sub]
  have hpass : scan trackPositionsStep (fun _ => none) 0 tree.element.payload.length
        (tree.front ++ (position.bytes ++ (rest ++ after))) =
      scan trackPositionsStep (fun _ => none) 0 (tree.element.payload.length - tree.front.length)
        (position.bytes ++ (rest ++ after)) :=
    scan_pass (fun k => tree.element.payload.length - k) tree.front _ hnoise
  rw [parseTrackPositions, hpass]
  refine scan_stop (by simp [position.bytes_ne_nil]) ?_
  have hcut := bigEndian_mod hle
  rw [show 256 ^ 8 = 2 ^ 64 by decide] at hcut
  rw [trackPositionsStep, if_neg (by omega), headerAt_element position _ hid]
  dsimp only
  rw [position.drop_header, if_pos (by simp), List.take_left' rfl, hcut, hwalk]

/-- **The position of a clear cue point is found.** -/
theorem parseCuePoint_tree {tree : PointTree} (h : tree.Clear) :
    parseCuePoint tree.element.payload = tree.walk := by
  obtain ⟨track, after, htrack, hpayload⟩ := tree.exists_track
  have hheader := track.element.toHeader.two_le_length
  have hlength := track.element.length_bytes
  have hnone := h.track
  have hposition := h.position track htrack
  rw [hpayload] at hnone hposition ⊢
  have hnoise : ∀ k < tree.front.length,
      cuePointStep () ((tree.front ++ (track.element.bytes ++ after)).drop k) = .advance () 0 := by
    intro k hk
    have hleft := length_drop_noise (track.element.bytes ++ after) hk
    rw [List.length_append] at hleft
    rw [cuePointStep, if_neg (by omega), hnone k hk]
  have hfront : ∀ k < track.front.length,
      positionAt ((track.element.payload ++ after).drop k) = none := by
    intro k hk
    have hat := hposition k hk
    rwa [Nat.add_assoc, List.drop_append, List.drop_eq_nil_of_le (by omega), List.nil_append,
      Nat.add_sub_cancel_left, ← List.drop_drop, track.element.drop_header] at hat
  have hfound := parseTrackPositions_tree track after hfront
  obtain ⟨position, -, -, -, hwalk, -⟩ := track.exists_position
  rw [parseCuePoint, scan_noise hnoise]
  refine scan_stop (by simp [track.element.bytes_ne_nil]) ?_
  rw [cuePointStep, if_neg (by rw [List.length_append]; omega),
    headerAt_element track.element _ track.id_eq]
  dsimp only
  rw [track.element.drop_header, min_eq_left (by simp), hfound, hwalk]
  dsimp only
  rw [PointTree.walk, htrack, Option.bind_some, hwalk]

theorem PointTree.walk_isSome (tree : PointTree) : tree.walk.isSome = true := by
  obtain ⟨track, -, htrack, -⟩ := tree.exists_track
  obtain ⟨position, -, -, -, hwalk, -⟩ := track.exists_position
  rw [walk, htrack, Option.bind_some, hwalk]
  rfl

/-! ### The Cues -/

/-- The loop over the Cues takes up one cue point. -/
theorem scan_pointTree {tree : PointTree} (h : tree.Clear) (rest : List UInt8) {positions : List ℕ}
    (hpositions : positions.length < 50) :
    scan cuePointsStep id 0 positions (tree.element.bytes ++ rest) =
      scan cuePointsStep id 0 (positions ++ tree.walk.toList) rest := by
  have hheader := tree.element.toHeader.two_le_length
  have hlength := tree.element.length_bytes
  refine scan_jump tree.element.bytes_ne_nil ?_
  rw [cuePointsStep, if_neg (by rw [List.length_append]; omega),
    headerAt_element tree.element _ tree.id_eq]
  dsimp only
  rw [tree.element.drop_header, List.take_left' rfl, parseCuePoint_tree h, hlength]

/-- The loop stops when it has 50 positions. -/
theorem scan_full {positions : List ℕ} (h : 50 ≤ positions.length) (data : List UInt8) :
    scan cuePointsStep id 0 positions data = positions := by
  cases data with
  | nil => exact scan_nil 0
  | cons b data => rw [scan, cuePointsStep, if_pos (Or.inr h)]

/-- **The loop over the Cues**: it takes up the cue points until it has 50 positions. -/
theorem scan_pointTrees {points : List PointTree} {positions : List ℕ}
    (h : ∀ tree ∈ points.take (50 - positions.length), tree.Clear) :
    scan cuePointsStep id 0 positions (row (points.map PointTree.element)) =
      positions ++ (points.take (50 - positions.length)).filterMap PointTree.walk := by
  induction points generalizing positions with
  | nil =>
    rw [List.take_nil, List.filterMap_nil, List.append_nil]
    exact scan_nil 0
  | cons tree points ih =>
    by_cases hfull : 50 ≤ positions.length
    · rw [scan_full hfull, Nat.sub_eq_zero_of_le hfull, List.take_zero, List.filterMap_nil,
        List.append_nil]
    · obtain ⟨n, hn⟩ : ∃ n, 50 - positions.length = n + 1 := ⟨49 - positions.length, by omega⟩
      obtain ⟨position, hposition⟩ := Option.isSome_iff_exists.mp tree.walk_isSome
      rw [hn, List.take_succ_cons] at h ⊢
      have hrest : 50 - (positions ++ [position]).length = n := by
        rw [List.length_append, List.length_singleton]
        omega
      have hclear : ∀ tree' ∈ points.take (50 - (positions ++ [position]).length), tree'.Clear := by
        rw [hrest]
        exact fun tree' htree' => h tree' (List.mem_cons_of_mem _ htree')
      rw [List.map_cons, row_cons, scan_pointTree (h tree List.mem_cons_self) _ (by omega), hposition,
        Option.toList_some, ih hclear, hrest, List.filterMap_cons, hposition]
      simp

/-- **The code finds what the walk finds**, if no byte of the first 50 cue points is taken for the
beginning of an element that it does not begin. -/
theorem parseCuePoints_walk {cues : CuesTree} (h : ∀ tree ∈ cues.points.take 50, tree.Clear) :
    parseCuePoints cues.element.bytes = cues.walk := by
  have hheader : 5 ≤ cues.element.toHeader.bytes.length := by
    simp only [Header.bytes, List.length_append, cues.id_eq, Vint.length_bytes]
    have hid : cuesId.length = 4 := rfl
    omega
  have hlength := cues.element.length_bytes
  have hat := headerAt_element cues.element [] cues.id_eq
  have hdrop := cues.element.drop_header []
  rw [List.append_nil] at hat hdrop
  rw [parseCuePoints, skipCuesHeader, if_neg (by omega), hat]
  dsimp only
  rw [hdrop, List.append_nil, cues.payload_eq, @scan_pointTrees cues.points [] h]
  rfl

/-! ### A cue point -/

/-- Track 1, with a cluster at 4660. -/
def sampleTrack : TrackTree where
  element :=
    { id := .short 0x37
      size := .short 0x07
      payload := [0xF7, 0x81, 0x01, 0xF1, 0x82, 0x12, 0x34]
      size_eq := by decide }
  children :=
    [{ id := .short 0x77
       size := .short 0x01
       payload := [0x01]
       size_eq := by decide },
     { id := .short 0x71
       size := .short 0x02
       payload := [0x12, 0x34]
       size_eq := by decide }]
  id_eq := by decide
  payload_eq := by decide
  position_mem := by decide
  position_le := by decide

/-- A time of two bytes. -/
def sampleTime (a b : UInt8) : Element where
  id := .short 0x33
  size := .short 0x02
  payload := [a, b]
  size_eq := Eq.trans (b := 2) (by decide) rfl

theorem sampleTime_id (a b : UInt8) : (sampleTime a b).id.bytes ≠ cueTrackPositionsId := by
  have hid : (sampleTime a b).id.bytes = cueTimeId := rfl
  rw [hid]
  decide

/-- A cue point with this time. -/
def samplePoint (a b : UInt8) : PointTree where
  element :=
    { id := .short 0x3B
      size := .short 0x0D
      payload := (sampleTime a b).bytes ++ sampleTrack.element.bytes
      size_eq := Eq.trans (b := 13) (by decide) rfl }
  children := [.other (sampleTime a b) (sampleTime_id a b), .track sampleTrack]
  id_eq := by rfl
  payload_eq := by rfl
  time_mem := ⟨.other (sampleTime a b) (sampleTime_id a b), List.mem_cons_self, rfl⟩
  track_mem := ⟨.track sampleTrack, List.mem_cons_of_mem _ List.mem_cons_self, rfl⟩

/-- Cues of one point, whose time is written in two bytes. -/
def sampleCues (a b : UInt8) : CuesTree where
  element :=
    { id := .four 0x0C 0x53 0xBB 0x6B
      size := .short 0x0F
      payload := (samplePoint a b).element.bytes
      size_eq := Eq.trans (b := 15) (by decide) rfl }
  points := [samplePoint a b]
  id_eq := by rfl
  payload_eq := by rfl

/-- Track 2, with a cluster at 22136. -/
def otherTrack : TrackTree where
  element :=
    { id := .short 0x37
      size := .short 0x07
      payload := [0xF7, 0x81, 0x02, 0xF1, 0x82, 0x56, 0x78]
      size_eq := by decide }
  children :=
    [{ id := .short 0x77
       size := .short 0x01
       payload := [0x02]
       size_eq := by decide },
     { id := .short 0x71
       size := .short 0x02
       payload := [0x56, 0x78]
       size_eq := by decide }]
  id_eq := by decide
  payload_eq := by decide
  position_mem := by decide
  position_le := by decide

/-- A cue point at time 9 with the positions of two tracks. -/
def doublePoint : PointTree where
  element :=
    { id := .short 0x3B
      size := .short 0x16
      payload := (sampleTime 0 9).bytes ++ (otherTrack.element.bytes ++ sampleTrack.element.bytes)
      size_eq := Eq.trans (b := 22) (by decide) rfl }
  children :=
    [.other (sampleTime 0 9) (sampleTime_id 0 9), .track otherTrack, .track sampleTrack]
  id_eq := by rfl
  payload_eq := by rfl
  time_mem := ⟨.other (sampleTime 0 9) (sampleTime_id 0 9), List.mem_cons_self, rfl⟩
  track_mem := ⟨.track sampleTrack, by simp, rfl⟩

/-- Two cue points. -/
def twoCues : CuesTree where
  element :=
    { id := .four 0x0C 0x53 0xBB 0x6B
      size := .short 0x27
      payload := (samplePoint 0 5).element.bytes ++ doublePoint.element.bytes
      size_eq := Eq.trans (b := 39) (by decide) rfl }
  points := [samplePoint 0 5, doublePoint]
  id_eq := by rfl
  payload_eq := by rfl

/-- The cluster of each is found, and of two tracks that of the first. -/
theorem twoCues_found : parseCuePoints twoCues.element.bytes = [4660, 22136] := by
  have hclear : ∀ tree ∈ twoCues.points.take 50, tree.Clear := by
    intro tree htree
    have hcases : tree = samplePoint 0 5 ∨ tree = doublePoint := by simpa [twoCues] using htree
    rcases hcases with rfl | rfl
    · refine ⟨by decide, fun track htrack => ?_⟩
      obtain rfl : sampleTrack = track := Option.some.inj htrack
      decide
    · refine ⟨by decide, fun track htrack => ?_⟩
      obtain rfl : otherTrack = track := Option.some.inj htrack
      decide
  exact (parseCuePoints_walk hclear).trans (by decide)

/-- At time 47013 the bytes of the time are taken for track positions, and those of the true ones are
skipped. -/
theorem sampleCues_lost : parseCuePoints (sampleCues 0xB7 0x85).element.bytes = [] ∧
    (sampleCues 0xB7 0x85).walk = [4660] := by
  constructor <;> decide

end StreamServer.Metadata

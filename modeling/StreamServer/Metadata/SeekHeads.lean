import StreamServer.Metadata.Buffers
import StreamServer.Metadata.Cues

/-!
# Walking through a SeekHead

The body of a well-formed SeekHead is a row of Seeks, and a Seek is an id and a position in either order.
Between them there may be elements that say nothing: Void and CRC-32.  The code looks for the two bytes of
an id, and does not pass over these elements, so it may take bytes of them for the beginning of a Seek, of
an id or of a position.

## Main definitions

* `SeekTree`, `HeadChild` — well-formed Seeks, and what a SeekHead is made of.
* `walkHead` — the position of the first Seek for the Cues, found by a walk.
* `ClearHead` — no byte of an element that says nothing is taken for a beginning.
* `LooksInside` — the functions end on a buffer, and look at nothing outside of it.

## Main results

* `parseSeekElement_tree` — a clear Seek is read.
* `seekHead_walk` — **the functions look at nothing outside, and find what the walk finds** in a clear
  SeekHead.

## References

`enginefs/src/backend/metadata.rs`, `parse_seek_head` and `parse_seek_element`.
-/

namespace StreamServer.Metadata

open Checked

/-! ### Trees -/

/-- The id of Void. -/
def voidId : List UInt8 := [0xEC]

/-- The id of CRC-32. -/
def crcId : List UInt8 := [0xBF]

/-- An element that says nothing. -/
structure Filler where
  element : Element
  id_eq : element.id.bytes = voidId ∨ element.id.bytes = crcId

/-- What a Seek is made of. -/
inductive SeekChild
  | field (kind : SeekFieldKind) (element : Element) (id_eq : element.id.bytes = kind.elementId)
      (length_le : element.payload.length ≤ kind.maxLength)
  | filler (gap : Filler)

/-- The element that the child is. -/
def SeekChild.element : SeekChild → Element
  | field _ element _ _ => element
  | filler gap => gap.element

/-- The number in a field of this kind. -/
def SeekChild.value? (kind : SeekFieldKind) : SeekChild → Option ℕ
  | field kind' element _ _ => if kind' = kind then some (bigEndian 0 element.payload) else none
  | filler _ => none

/-- A Seek: one id and one position. -/
structure SeekTree where
  element : Element
  children : List SeekChild
  id_eq : element.id.bytes = seekId
  payload_eq : element.payload = row (children.map SeekChild.element)
  one : ∀ kind, (children.filterMap (SeekChild.value? kind)).length = 1

/-- What a SeekHead is made of. -/
inductive HeadChild
  | seek (tree : SeekTree)
  | filler (gap : Filler)

/-- The element that the child is. -/
def HeadChild.element : HeadChild → Element
  | seek tree => tree.element
  | filler gap => gap.element

/-- The number in the field of this kind. -/
def SeekTree.value (tree : SeekTree) (kind : SeekFieldKind) : ℕ :=
  (tree.children.findSome? (SeekChild.value? kind)).getD 0

/-- **The walk**: the position in the first Seek whose id is that of the Cues. -/
def walkHead : List HeadChild → Option ℕ
  | [] => none
  | .seek tree :: children =>
      if tree.value .id = CUES then some (tree.value .position) else walkHead children
  | .filler _ :: children => walkHead children

/-- The body of a SeekHead. -/
def headBody (children : List HeadChild) : List UInt8 := row (children.map HeadChild.element)

/-! ### Bytes that are taken for a beginning -/

/-- No byte of an element is taken for the beginning of one with this id. -/
def Passed (id : List UInt8) (element : Element) (rest : List UInt8) : Prop :=
  ∀ k < element.bytes.length, headerAt id ((element.bytes ++ rest).drop k) = none

/-- No byte of what says nothing in a Seek is taken for the beginning of a field. -/
def ClearFields : List SeekChild → Prop
  | [] => True
  | .field _ _ _ _ :: children => ClearFields children
  | .filler gap :: children =>
      (∀ kind : SeekFieldKind, Passed kind.elementId gap.element
        (row (children.map SeekChild.element))) ∧ ClearFields children

/-- No byte of what says nothing is taken for a beginning, as far as the first Seek for the Cues. -/
def ClearHead : List HeadChild → Prop
  | [] => True
  | .seek tree :: children =>
      ClearFields tree.children ∧ (tree.value .id ≠ CUES → ClearHead children)
  | .filler gap :: children =>
      Passed seekId gap.element (headBody children) ∧ ClearHead children

/-- The functions end on a buffer, and look at nothing outside of it. -/
structure LooksInside (data : List UInt8) : Prop where
  seekHead : ∃ position, seekHeadChecked data = .ok position
  seekElement : ∃ position, seekElementChecked data = .ok position
  cuePoints : ∃ positions, cuePointsChecked data = .ok positions

/-! ### Seeks are read -/

/-- What is known when a child has been seen. -/
def SeekState.see (s : SeekState) : SeekChild → SeekState
  | .field .id element _ _ => { s with seekId := some (bigEndian 0 element.payload) }
  | .field .position element _ _ => { s with seekPosition := some (bigEndian 0 element.payload) }
  | .filler _ => s

theorem headerLength_of_id {element : Element} {id : List UInt8} (h : element.id.bytes = id) :
    id.length + 1 ≤ element.toHeader.bytes.length := by
  simp only [Header.bytes, List.length_append, h, Vint.length_bytes]
  omega

/-- The loop over a Seek takes up a field. -/
theorem seekElementStep_field (kind : SeekFieldKind) (element : Element)
    (hid : element.id.bytes = kind.elementId) (hle : element.payload.length ≤ kind.maxLength)
    (s : SeekState) (rest : List UInt8) : seekElementStep s (element.bytes ++ rest) =
      .advance (s.see (.field kind element hid hle)) (element.bytes.length - 1) := by
  have hheader := headerLength_of_id hid
  have hlength := element.length_bytes
  have hmod := bigEndian_mod hle
  have htwo : kind.elementId.length = 2 := by cases kind <;> rfl
  rw [seekElementStep, if_neg (by rw [List.length_append]; omega)]
  cases kind with
  | id =>
    rw [show 256 ^ SeekFieldKind.id.maxLength = 2 ^ 32 by decide] at hmod
    have hat : headerAt seekIdId (element.bytes ++ rest) =
        some (element.payload.length, element.toHeader.bytes.length) :=
      headerAt_element element rest hid
    rw [hat]
    dsimp only
    rw [element.drop_header, if_pos (by simp), List.take_left' rfl, hmod, hlength]
    rfl
  | position =>
    rw [show 256 ^ SeekFieldKind.position.maxLength = 2 ^ 64 by decide] at hmod
    have hother : headerAt seekIdId (element.bytes ++ rest) = none := by
      refine headerAt_other element rest ?_ ?_
      · rw [hid]
        rfl
      · rw [hid]
        decide
    have hat : headerAt seekPositionId (element.bytes ++ rest) =
        some (element.payload.length, element.toHeader.bytes.length) :=
      headerAt_element element rest hid
    rw [hother]
    dsimp only
    rw [hat]
    dsimp only
    rw [element.drop_header, if_pos (by simp), List.take_left' rfl, hmod, hlength]
    rfl

/-- A row of children with a field in it is longer than two bytes. -/
theorem foldl_see_of_short {children : List SeekChild}
    (h : (row (children.map SeekChild.element)).length ≤ 2) (s : SeekState) :
    children.foldl SeekState.see s = s := by
  induction children generalizing s with
  | nil => rfl
  | cons child children ih =>
    rw [List.map_cons, row_cons, List.length_append] at h
    cases child with
    | field kind element hid hle =>
      have hheader := headerLength_of_id hid
      have hlength := element.length_bytes
      have htwo : kind.elementId.length = 2 := by cases kind <;> rfl
      simp only [SeekChild.element] at h
      omega
    | filler gap => exact ih (by omega) s

/-- **The loop over a Seek** takes up its fields, if nothing else is taken for one. -/
theorem scan_seekChildren {children : List SeekChild} (h : ClearFields children) (s : SeekState) :
    scan seekElementStep SeekState.cuesPosition 0 s (row (children.map SeekChild.element)) =
      (children.foldl SeekState.see s).cuesPosition := by
  induction children generalizing s with
  | nil => exact scan_nil 0
  | cons child children ih =>
    rw [List.map_cons, row_cons]
    cases child with
    | field kind element hid hle =>
      rw [ClearFields] at h
      exact Eq.trans (scan_jump element.bytes_ne_nil
        (seekElementStep_field kind element hid hle s (row (children.map SeekChild.element)))) (ih h _)
    | filler gap =>
      rw [ClearFields] at h
      refine scan_pass_or_stop (ih h.2 s) fun k hk => ?_
      rw [SeekChild.element] at hk ⊢
      rw [seekElementStep]
      by_cases hshort : ((gap.element.bytes ++
          row (children.map SeekChild.element)).drop k).length ≤ 2
      · right
        have hrest : (row (children.map SeekChild.element)).length ≤ 2 := by
          rw [List.length_drop, List.length_append] at hshort
          omega
        rw [if_pos hshort]
        exact congrArg (ScanStep.stop ∘ SeekState.cuesPosition) (foldl_see_of_short hrest s).symm
      · left
        have hnoId := h.1 .id k hk
        have hnoPosition := h.1 .position k hk
        simp only [SeekFieldKind.elementId] at hnoId hnoPosition
        rw [if_neg hshort, hnoId]
        dsimp only
        rw [hnoPosition]

/-- What is known when all children have been seen: the last of each. -/
theorem foldl_see (children : List SeekChild) (s : SeekState) : children.foldl SeekState.see s =
    ⟨(children.filterMap (SeekChild.value? .id)).getLast?.or s.seekId,
      (children.filterMap (SeekChild.value? .position)).getLast?.or s.seekPosition⟩ := by
  induction children generalizing s with
  | nil => rfl
  | cons child children ih =>
    rw [List.foldl_cons, ih]
    cases child with
    | field kind element hid hle =>
      cases kind <;> simp [SeekState.see, SeekChild.value?, List.getLast?_cons]
    | filler gap => simp [SeekState.see, SeekChild.value?]

theorem SeekTree.value_eq (tree : SeekTree) (kind : SeekFieldKind) :
    (tree.children.filterMap (SeekChild.value? kind)).getLast? = some (tree.value kind) := by
  obtain ⟨n, hn⟩ := List.length_eq_one_iff.mp (tree.one kind)
  rw [value, ← List.head?_filterMap, hn]
  rfl

/-- **A clear Seek is read.** -/
theorem parseSeekElement_tree {tree : SeekTree} (h : ClearFields tree.children) :
    parseSeekElement tree.element.payload =
      if tree.value .id = CUES then some (tree.value .position) else none := by
  rw [parseSeekElement, tree.payload_eq, scan_seekChildren h, foldl_see, tree.value_eq,
    tree.value_eq]
  rfl

/-! ### The SeekHead -/

/-- The loop over a SeekHead stops at a Seek for the Cues, and passes over another. -/
theorem seekHeadStep_tree {tree : SeekTree} (h : ClearFields tree.children) (rest : List UInt8) :
    seekHeadStep () (tree.element.bytes ++ rest) =
      if tree.value .id = CUES then .stop (some (tree.value .position))
      else .advance () (tree.element.bytes.length - 1) := by
  have hheader := headerLength_of_id tree.id_eq
  have hlength := tree.element.length_bytes
  have htwo : seekId.length = 2 := rfl
  rw [seekHeadStep, if_neg (by rw [List.length_append]; omega),
    headerAt_element tree.element rest tree.id_eq]
  dsimp only
  rw [tree.element.drop_header, List.take_left' rfl, parseSeekElement_tree h]
  by_cases htarget : tree.value .id = CUES
  · rw [if_pos htarget, if_pos htarget]
  · rw [if_neg htarget, if_neg htarget, hlength]

/-- A row of children with a Seek in it is longer than two bytes. -/
theorem walkHead_of_short {children : List HeadChild} (h : (headBody children).length ≤ 2) :
    walkHead children = none := by
  induction children with
  | nil => rfl
  | cons child children ih =>
    rw [headBody, List.map_cons, row_cons, List.length_append] at h
    cases child with
    | seek tree =>
      have hheader := headerLength_of_id tree.id_eq
      have hlength := tree.element.length_bytes
      have htwo : seekId.length = 2 := rfl
      simp only [HeadChild.element] at h
      omega
    | filler gap =>
      have hrest : (headBody children).length ≤ 2 := by
        rw [headBody]
        omega
      exact ih hrest

/-- **The code finds what the walk finds** in a clear SeekHead. -/
theorem parseSeekHead_walk {children : List HeadChild} (h : ClearHead children) :
    parseSeekHead (headBody children) = walkHead children := by
  induction children with
  | nil => exact scan_nil 0
  | cons child children ih =>
    have hbody : headBody (child :: children) = child.element.bytes ++ headBody children := by
      rw [headBody, List.map_cons, row_cons, headBody]
    rw [hbody]
    cases child with
    | seek tree =>
      rw [ClearHead] at h
      have hstep := seekHeadStep_tree h.1 (headBody children)
      rw [walkHead]
      by_cases htarget : tree.value .id = CUES
      · rw [if_pos htarget] at hstep ⊢
        exact scan_stop (List.append_ne_nil_of_left_ne_nil tree.element.bytes_ne_nil _) hstep
      · rw [if_neg htarget] at hstep ⊢
        exact Eq.trans (scan_jump tree.element.bytes_ne_nil hstep) (ih (h.2 htarget))
    | filler gap =>
      rw [ClearHead] at h
      refine scan_pass_or_stop (ih h.2) fun k hk => ?_
      rw [HeadChild.element] at hk ⊢
      rw [seekHeadStep]
      by_cases hshort : ((gap.element.bytes ++ headBody children).drop k).length ≤ 2
      · right
        have hrest : (headBody children).length ≤ 2 := by
          rw [List.length_drop, List.length_append] at hshort
          omega
        rw [if_pos hshort, walkHead, walkHead_of_short hrest]
      · left
        rw [if_neg hshort, h.1 k hk]

theorem looksInside {data : List UInt8} (h : data.length < 2 ^ 63) : LooksInside data where
  seekHead := ⟨_, seekHeadChecked_eq h⟩
  seekElement := ⟨_, seekElementChecked_eq h⟩
  cuePoints := ⟨_, cuePointsChecked_eq h⟩

/-- **The functions end on every buffer, and look at nothing outside; in a clear SeekHead they find what
the walk finds.** -/
theorem seekHead_walk {data : List UInt8} {children : List HeadChild} (hdata : data.length < 2 ^ 63)
    (hbody : (headBody children).length < 2 ^ 63) (hclear : ClearHead children) :
    LooksInside data ∧ seekHeadChecked (headBody children) = .ok (walkHead children) := by
  refine ⟨looksInside hdata, ?_⟩
  rw [seekHeadChecked_eq hbody, parseSeekHead_walk hclear]

/-! ### A SeekHead -/

/-- A Seek for the Cues, at 19. -/
def sampleSeek : SeekTree where
  element :=
    { id := .two 0x0D 0xBB
      size := .short 0x0B
      payload := [0x53, 0xAB, 0x84, 0x1C, 0x53, 0xBB, 0x6B, 0x53, 0xAC, 0x81, 0x13]
      size_eq := by decide }
  children :=
    [.field .id
      { id := .two 0x13 0xAB
        size := .short 0x04
        payload := [0x1C, 0x53, 0xBB, 0x6B]
        size_eq := by decide } (by decide) (by decide),
     .field .position
      { id := .two 0x13 0xAC
        size := .short 0x01
        payload := [0x13]
        size_eq := by decide } (by decide) (by decide)]
  id_eq := by decide
  payload_eq := by decide
  one := by
    intro kind
    cases kind <;> decide

/-- Three bytes that say nothing. -/
def sampleVoid (a b c : UInt8) : Filler where
  element :=
    { id := .short 0x6C
      size := .short 0x03
      payload := [a, b, c]
      size_eq := Eq.trans (b := 3) (by decide) rfl }
  id_eq := Or.inl rfl

/-- A seek head with padding in front of its entry. -/
def sampleHead (a b c : UInt8) : List HeadChild := [.filler (sampleVoid a b c), .seek sampleSeek]

/-- Behind zeros the Seek is found. -/
theorem sampleHead_found : LooksInside (headBody (sampleHead 0 0 0)) ∧
    seekHeadChecked (headBody (sampleHead 0 0 0)) = .ok (some 19) := by
  have hclear : ClearHead (sampleHead 0 0 0) := by
    refine ⟨?_, ⟨trivial, fun hne => absurd (by decide) hne⟩⟩
    unfold Passed
    decide
  have hlength : (headBody (sampleHead 0 0 0)).length < 2 ^ 63 := by decide
  have hspec := seekHead_walk hlength hlength hclear
  have hwalk : walkHead (sampleHead 0 0 0) = some 19 := by decide
  rw [hwalk] at hspec
  exact hspec

/-- Bytes of a Void element are taken for the beginning of a Seek, and the true one is passed over. -/
theorem sampleHead_lost : walkHead (sampleHead 0x4D 0xBB 0x83) = some 19 ∧
    seekHeadChecked (headBody (sampleHead 0x4D 0xBB 0x83)) = .ok none := by
  decide

end StreamServer.Metadata

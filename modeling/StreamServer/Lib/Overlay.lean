import Mathlib.Data.List.Basic
import Mathlib.Data.List.Induction

/-!
# Buffers that grow by blocks

A buffer is written block by block, in any order.  It grows to the end of the block that
reaches furthest, and what lies before that and has not been written is filled up with a
value that nobody has written.  So the values of a buffer are those of the blocks exactly if
the blocks leave no gap.

* `Block`, `Block.put` — a block of values and where it goes, and writing it.
* `overlay` — the buffer a list of blocks makes.
* `getElem?_overlay` — a value of the buffer was written, or fills a gap.
* `overlay_written_iff` — **all values were written exactly if there is no gap.**
* `latest`, `extent` — the value written last at a position, and how far the blocks reach.
* `getElem?_overlay_eq` — **the buffer, value by value.**
* `overlay_eq_of_agree` — blocks of one buffer that leave no gap make that buffer, in any order.
-/

section Overlay

variable {α : Type*} {fill : α}

/-- Values, and the place they are written to. -/
structure Block (α : Type*) where
  start : ℕ
  data : List α
  deriving DecidableEq, Repr

namespace Block

/-- The end of the block. -/
def stop (b : Block α) : ℕ := b.start + b.data.length

/-- The block has the value at a position. -/
def Holds (b : Block α) (i : ℕ) (x : α) : Prop := b.start ≤ i ∧ b.data[i - b.start]? = some x

theorem Holds.lt_stop {b : Block α} {i : ℕ} {x : α} (h : b.Holds i x) : i < b.stop := by
  obtain ⟨hle, hx⟩ := h
  have := (List.getElem?_eq_some_iff.mp hx).1
  unfold stop
  omega

theorem exists_holds {b : Block α} {i : ℕ} (hle : b.start ≤ i) (hlt : i < b.stop) :
    ∃ x, b.Holds i x := by
  have hi : i - b.start < b.data.length := by
    unfold stop at hlt
    omega
  exact ⟨b.data[i - b.start], hle, List.getElem?_eq_getElem hi⟩

/-- The buffer made long enough for a block. -/
def room (fill : α) (b : Block α) (buffer : List α) : List α :=
  buffer ++ List.replicate (b.stop - buffer.length) fill

/-- The block written into a buffer. -/
def put (fill : α) (b : Block α) (buffer : List α) : List α :=
  (b.room fill buffer).take b.start ++ b.data ++ (b.room fill buffer).drop b.stop

theorem length_room (fill : α) (b : Block α) (buffer : List α) :
    (b.room fill buffer).length = max buffer.length b.stop := by
  simp only [room, List.length_append, List.length_replicate]
  omega

@[simp] theorem length_put (b : Block α) (buffer : List α) :
    (b.put fill buffer).length = max buffer.length b.stop := by
  have hroom := length_room fill b buffer
  have hstop : b.stop = b.start + b.data.length := rfl
  simp only [put, List.length_append, List.length_take, List.length_drop]
  omega

/-- Inside the block the buffer has its values. -/
theorem getElem?_put_inside {b : Block α} {buffer : List α} {i : ℕ} (hle : b.start ≤ i)
    (hlt : i < b.stop) : (b.put fill buffer)[i]? = b.data[i - b.start]? := by
  have hroom := length_room fill b buffer
  have hstop : b.stop = b.start + b.data.length := rfl
  have htake : ((b.room fill buffer).take b.start).length = b.start := by
    rw [List.length_take]
    omega
  rw [put, List.append_assoc, List.getElem?_append_right (by omega), htake,
    List.getElem?_append_left (by omega)]

/-- Outside the block the buffer is what it was, and filled up to its end. -/
theorem getElem?_put_outside {b : Block α} {buffer : List α} {i : ℕ}
    (h : i < b.start ∨ b.stop ≤ i) :
    (b.put fill buffer)[i]? = (b.room fill buffer)[i]? := by
  have hroom := length_room fill b buffer
  have hstop : b.stop = b.start + b.data.length := rfl
  have htake : ((b.room fill buffer).take b.start).length = b.start := by
    rw [List.length_take]
    omega
  rcases h with hlt | hle
  · rw [put, List.append_assoc, List.getElem?_append_left (by omega),
      List.getElem?_take_of_lt hlt]
  · rw [put, List.getElem?_append_right (by simp only [List.length_append]; omega),
      List.length_append, htake, List.getElem?_drop]
    congr 1
    omega

end Block

/-- The buffer that blocks make, the latest one last. -/
def overlay (fill : α) (blocks : List (Block α)) : List α :=
  blocks.foldl (fun buffer b => b.put fill buffer) []

@[simp] theorem overlay_nil : overlay fill [] = [] := rfl

theorem overlay_concat (blocks : List (Block α)) (b : Block α) :
    overlay fill (blocks ++ [b]) = b.put fill (overlay fill blocks) := by
  simp [overlay, List.foldl_append]

/-- A block reaches over a position. -/
def Covered (blocks : List (Block α)) (i : ℕ) : Prop := ∃ b ∈ blocks, b.start ≤ i ∧ i < b.stop

instance (blocks : List (Block α)) (i : ℕ) : Decidable (Covered blocks i) :=
  inferInstanceAs (Decidable (∃ b ∈ blocks, _ ∧ _))

theorem covered_concat {blocks : List (Block α)} {b : Block α} {i : ℕ} :
    Covered (blocks ++ [b]) i ↔ Covered blocks i ∨ b.start ≤ i ∧ i < b.stop := by
  simp only [Covered, List.mem_append, List.mem_singleton]
  constructor
  · rintro ⟨c, hc | rfl, hi⟩
    · exact Or.inl ⟨c, hc, hi⟩
    · exact Or.inr hi
  · rintro (⟨c, hc, hi⟩ | hi)
    · exact ⟨c, Or.inl hc, hi⟩
    · exact ⟨b, Or.inr rfl, hi⟩

/-- The buffer reaches as far as its blocks. -/
theorem lt_length_overlay {blocks : List (Block α)} {i : ℕ} (h : Covered blocks i) :
    i < (overlay fill blocks).length := by
  induction blocks using List.reverseRecOn with
  | nil => simp [Covered] at h
  | append_singleton blocks b ih =>
    rw [overlay_concat, Block.length_put]
    rcases covered_concat.mp h with hbefore | hin
    · have := ih hbefore
      omega
    · omega

/-- **A value of the buffer was written, or fills a gap.** -/
theorem getElem?_overlay {blocks : List (Block α)} {i : ℕ} {x : α}
    (h : (overlay fill blocks)[i]? = some x) :
    (∃ b ∈ blocks, b.Holds i x) ∨ ¬ Covered blocks i := by
  induction blocks using List.reverseRecOn with
  | nil => simp at h
  | append_singleton blocks b ih =>
    rw [overlay_concat] at h
    by_cases hin : b.start ≤ i ∧ i < b.stop
    · rw [Block.getElem?_put_inside hin.1 hin.2] at h
      exact Or.inl ⟨b, by simp, hin.1, h⟩
    · rw [Block.getElem?_put_outside (by omega), Block.room] at h
      have hrest : ¬ Covered (blocks ++ [b]) i ↔ ¬ Covered blocks i := by
        rw [covered_concat]
        simp [hin]
      rw [hrest]
      by_cases hlen : i < (overlay fill blocks).length
      · -- it was there before
        rw [List.getElem?_append_left hlen] at h
        rcases ih h with ⟨c, hc, hholds⟩ | hgap
        · exact Or.inl ⟨c, by simp [hc], hholds⟩
        · exact Or.inr hgap
      · exact Or.inr fun hcovered => hlen (lt_length_overlay hcovered)

/-- **All values were written exactly if there is no gap.** -/
theorem overlay_written_iff {blocks : List (Block α)} :
    (∀ i x, (overlay fill blocks)[i]? = some x → ∃ b ∈ blocks, b.Holds i x) ↔
      ∀ i < (overlay fill blocks).length, Covered blocks i := by
  constructor
  · intro hwritten i hi
    obtain ⟨b, hb, hholds⟩ := hwritten i _ (List.getElem?_eq_getElem hi)
    exact ⟨b, hb, hholds.1, hholds.lt_stop⟩
  · intro hcovered i x hx
    have hi := (List.getElem?_eq_some_iff.mp hx).1
    exact (getElem?_overlay hx).resolve_right (not_not_intro (hcovered i hi))

/-! ### The value written last -/

/-- The value that has been written last at a position. -/
def latest (blocks : List (Block α)) (i : ℕ) : Option α :=
  blocks.foldl (fun x b => if b.start ≤ i ∧ i < b.stop then b.data[i - b.start]? else x) none

/-- How far the blocks reach. -/
def extent (blocks : List (Block α)) : ℕ := blocks.foldl (fun n b => max n b.stop) 0

@[simp] theorem latest_nil (i : ℕ) : latest ([] : List (Block α)) i = none := rfl

theorem latest_concat (blocks : List (Block α)) (b : Block α) (i : ℕ) :
    latest (blocks ++ [b]) i =
      if b.start ≤ i ∧ i < b.stop then b.data[i - b.start]? else latest blocks i := by
  simp [latest, List.foldl_append]

theorem extent_concat (blocks : List (Block α)) (b : Block α) :
    extent (blocks ++ [b]) = max (extent blocks) b.stop := by
  simp [extent, List.foldl_append]

@[simp] theorem length_overlay (blocks : List (Block α)) :
    (overlay fill blocks).length = extent blocks := by
  induction blocks using List.reverseRecOn with
  | nil => rfl
  | append_singleton blocks b ih => rw [overlay_concat, Block.length_put, extent_concat, ih]

theorem lt_extent_of_latest {blocks : List (Block α)} {i : ℕ} {x : α}
    (h : latest blocks i = some x) : i < extent blocks := by
  induction blocks using List.reverseRecOn with
  | nil => cases h
  | append_singleton blocks b ih =>
    rw [latest_concat] at h
    rw [extent_concat]
    split at h
    · omega
    · have := ih h
      omega

/-- What has been written last at a position is what some block has there. -/
theorem holds_of_latest {blocks : List (Block α)} {i : ℕ} {x : α} (h : latest blocks i = some x) :
    ∃ b ∈ blocks, b.Holds i x := by
  induction blocks using List.reverseRecOn with
  | nil => cases h
  | append_singleton blocks b ih =>
    rw [latest_concat] at h
    split at h
    · next hin => exact ⟨b, by simp, hin.1, h⟩
    · obtain ⟨c, hc, hholds⟩ := ih h
      exact ⟨c, by simp [hc], hholds⟩

/-- Something has been written last wherever a block reaches. -/
theorem latest_of_covered {blocks : List (Block α)} {i : ℕ} (h : Covered blocks i) :
    ∃ x, latest blocks i = some x := by
  induction blocks using List.reverseRecOn with
  | nil => simp [Covered] at h
  | append_singleton blocks b ih =>
    rw [latest_concat]
    split
    · next hin =>
      obtain ⟨x, -, hx⟩ := Block.exists_holds hin.1 hin.2
      exact ⟨x, hx⟩
    · next hout => exact ih ((covered_concat.mp h).resolve_right hout)

/-- **The buffer, value by value**: the latest one, or what fills a gap. -/
theorem getElem?_overlay_eq (blocks : List (Block α)) (i : ℕ) :
    (overlay fill blocks)[i]? =
      if i < extent blocks then some ((latest blocks i).getD fill) else none := by
  induction blocks using List.reverseRecOn with
  | nil => simp [extent]
  | append_singleton blocks b ih =>
    rw [overlay_concat, extent_concat, latest_concat]
    by_cases hin : b.start ≤ i ∧ i < b.stop
    · obtain ⟨x, -, hx⟩ := Block.exists_holds hin.1 hin.2
      rw [Block.getElem?_put_inside hin.1 hin.2, if_pos hin, if_pos (by omega), hx]
      rfl
    · rw [Block.getElem?_put_outside (by omega), if_neg hin, Block.room]
      by_cases hlt : i < extent blocks
      · rw [List.getElem?_append_left (by rwa [length_overlay]), ih, if_pos hlt,
          if_pos (by omega)]
      · -- beyond what was there, nothing has been written
        have hnone : latest blocks i = none := by
          by_contra hsome
          obtain ⟨x, hx⟩ := Option.ne_none_iff_exists'.mp hsome
          exact hlt (lt_extent_of_latest hx)
        rw [List.getElem?_append_right (by rw [length_overlay]; omega), length_overlay, hnone,
          List.getElem?_replicate]
        by_cases hstop : i < b.stop
        · rw [if_pos (by omega), if_pos (by omega)]
          rfl
        · rw [if_neg (by omega), if_neg (by omega)]

/-- A stretch of a buffer that blocks make is made of the values written last. -/
theorem overlay_slice (blocks : List (Block α)) {start length : ℕ}
    (h : start + length ≤ extent blocks) :
    ((overlay fill blocks).drop start).take length =
      (List.range length).map fun k => (latest blocks (start + k)).getD fill := by
  apply List.ext_getElem?
  intro k
  rw [List.getElem?_take, List.getElem?_drop, getElem?_overlay_eq, List.getElem?_map]
  by_cases hk : k < length
  · rw [if_pos hk, if_pos (by omega), List.getElem?_range hk]
    rfl
  · rw [if_neg hk, List.getElem?_eq_none (by rw [List.length_range]; omega)]
    rfl

/-- Blocks cut out of a buffer. -/
def Agree (blocks : List (Block α)) (buffer : List α) : Prop :=
  ∀ b ∈ blocks, b.stop ≤ buffer.length ∧ b.data = (buffer.drop b.start).take b.data.length

instance [DecidableEq α] (blocks : List (Block α)) (buffer : List α) :
    Decidable (Agree blocks buffer) := inferInstanceAs (Decidable (∀ b ∈ blocks, _ ∧ _))

/-- What such a block has, the buffer has there. -/
theorem Agree.getElem? {blocks : List (Block α)} {buffer : List α} (h : Agree blocks buffer)
    {b : Block α} (hb : b ∈ blocks) {i : ℕ} {x : α} (hx : b.Holds i x) : buffer[i]? = some x := by
  obtain ⟨hle, hget⟩ := hx
  have hlt := (List.getElem?_eq_some_iff.mp hget).1
  rw [(h b hb).2, List.getElem?_take_of_lt hlt, List.getElem?_drop] at hget
  rwa [Nat.add_sub_cancel' hle] at hget

/-- They do not reach further than the buffer. -/
theorem extent_le_of_agree {blocks : List (Block α)} {buffer : List α} (h : Agree blocks buffer) :
    extent blocks ≤ buffer.length := by
  induction blocks using List.reverseRecOn with
  | nil => exact Nat.zero_le _
  | append_singleton blocks b ih =>
    have hbefore := ih fun c hc => h c (by simp [hc])
    have hlast := (h b (by simp)).1
    rw [extent_concat]
    omega

/-- **Blocks of one buffer that leave no gap make that buffer**, in whatever order they come. -/
theorem overlay_eq_of_agree {blocks : List (Block α)} {buffer : List α} (h : Agree blocks buffer)
    (hcovered : ∀ i < buffer.length, Covered blocks i) : overlay fill blocks = buffer := by
  apply List.ext_getElem?
  intro i
  rw [getElem?_overlay_eq]
  by_cases hlt : i < buffer.length
  · obtain ⟨x, hx⟩ := latest_of_covered (hcovered i hlt)
    obtain ⟨b, hb, hholds⟩ := holds_of_latest hx
    rw [if_pos (lt_extent_of_latest hx), hx, h.getElem? hb hholds]
    rfl
  · have hext := extent_le_of_agree h
    rw [if_neg (by omega), List.getElem?_eq_none (by omega)]

end Overlay

import Mathlib.Algebra.BigOperators.Group.Finset.Basic
import Mathlib.Algebra.Ring.Nat
import StreamServer.Readers.ReadExact

/-!
# The hash of OpenSubtitles

Subtitles are looked up by a hash of the file: its length, and the first and the last 64 KiB taken
as little-endian words, all added up in a machine word.  The server reads both parts through the
reader of the torrent, which brings the bytes in portions, as the pieces come.

## Main definitions

* `opensubSum` — the hash in terms of the bytes of the file: the byte at an offset of a part counts
  as many times as its place in its word says.
* `Attempt`, `calculateOpensubHash` — the calculation, and what it meets.

## Main results

* `addWords_eq` — the loop adds the bytes up so.
* `calculateOpensubHash_spec` — **whatever the portions, the calculation comes to the hash of the
  file**, or fails, or waits.
* `calculateOpensubHash_done` — **it comes to an end**, if the reader does not fail and never waits.

## References

`enginefs/src/engine.rs`, `calculate_opensub_hash`.
-/

namespace StreamServer.EngineFs

open Readers

/-! ### Words -/

/-- `u64::from_le_bytes`. -/
def fromLeBytes : List UInt8 → ℕ
  | [] => 0
  | b :: rest => b.toNat + 256 * fromLeBytes rest

/-- `chunks(8)`. -/
def chunks (data : List UInt8) : List (List UInt8) :=
  (List.range ((data.length + 7) / 8)).map fun k => (data.drop (8 * k)).take 8

/-- A chunk is copied into a buffer of eight zeros. -/
def word (chunk : List UInt8) : ℕ := fromLeBytes (chunk ++ List.replicate (8 - chunk.length) 0)

/-- `wrapping_add`. -/
def wrappingAdd (a b : ℕ) : ℕ := (a + b) % 2 ^ 64

/-- The words of a part are added to the hash. -/
def addWords (hash : ℕ) (data : List UInt8) : ℕ :=
  (chunks data).foldl (fun hash chunk => wrappingAdd hash (word chunk)) hash

/-- `format!("{:016x}", hash)`. -/
def hex16 (hash : ℕ) : String :=
  let digits := Nat.toDigits 16 hash
  String.ofList (List.replicate (16 - digits.length) '0' ++ digits)

/-- The bytes from an offset on, each as many times as its place in its word says. -/
def weighted : ℕ → List UInt8 → ℕ
  | _, [] => 0
  | i, b :: rest => b.toNat * 256 ^ (i % 8) + weighted (i + 1) rest

theorem weighted_append (i : ℕ) (a b : List UInt8) :
    weighted i (a ++ b) = weighted i a + weighted (i + a.length) b := by
  induction a generalizing i with
  | nil => simp [weighted]
  | cons x a ih =>
    rw [List.cons_append, weighted, weighted, ih, List.length_cons,
      show i + 1 + a.length = i + (a.length + 1) by omega, Nat.add_assoc]

theorem fromLeBytes_append_zeros (data : List UInt8) (n : ℕ) :
    fromLeBytes (data ++ List.replicate n 0) = fromLeBytes data := by
  induction data with
  | nil =>
    induction n with
    | zero => rfl
    | succ n ih =>
      rw [List.nil_append] at ih ⊢
      change 0 + 256 * fromLeBytes (List.replicate n 0) = 0
      rw [ih]
      rfl
  | cons b data ih => rw [List.cons_append, fromLeBytes, fromLeBytes, ih]

/-- What a chunk that starts at place `j` of a word counts. -/
theorem weighted_eq_fromLeBytes {i j : ℕ} {chunk : List UInt8} (hi : i % 8 = j)
    (hlen : j + chunk.length ≤ 8) : weighted i chunk = 256 ^ j * fromLeBytes chunk := by
  induction chunk generalizing i j with
  | nil => simp [weighted, fromLeBytes]
  | cons b chunk ih =>
    rw [List.length_cons] at hlen
    rw [weighted, fromLeBytes, hi]
    cases chunk with
    | nil => simp [weighted, fromLeBytes, Nat.mul_comm]
    | cons c chunk =>
      rw [List.length_cons] at hlen ih
      rw [ih (show (i + 1) % 8 = j + 1 by omega) (by omega), Nat.pow_succ, Nat.mul_add,
        Nat.mul_comm b.toNat, Nat.mul_assoc]

theorem word_eq_weighted {k : ℕ} {chunk : List UInt8} (hlen : chunk.length ≤ 8) :
    word chunk = weighted (8 * k) chunk := by
  rw [word, fromLeBytes_append_zeros, weighted_eq_fromLeBytes (j := 0) (by omega) (by omega)]
  simp

/-- **The loop adds up the bytes**, each with the weight of its place. -/
theorem addWords_eq (hash : ℕ) (data : List UInt8) :
    addWords hash data % 2 ^ 64 = (hash + weighted 0 data) % 2 ^ 64 := by
  have key : ∀ n, 8 * n ≤ data.length + 7 →
      ((List.range n).map fun k => (data.drop (8 * k)).take 8).foldl
        (fun hash chunk => wrappingAdd hash (word chunk)) hash % 2 ^ 64 =
      (hash + weighted 0 (data.take (8 * n))) % 2 ^ 64 := by
    intro n
    induction n with
    | zero => simp [weighted]
    | succ n ih =>
      intro hn
      have hprefix : data.take (8 * (n + 1)) = data.take (8 * n) ++ (data.drop (8 * n)).take 8 := by
        rw [Nat.mul_add_one, List.take_add]
      have hlen : (data.take (8 * n)).length = 8 * n := by
        rw [List.length_take]
        omega
      have hword : word ((data.drop (8 * n)).take 8) = weighted (8 * n) ((data.drop (8 * n)).take 8) :=
        word_eq_weighted (by rw [List.length_take]; omega)
      rw [List.range_succ, List.map_append, List.foldl_append, hprefix, weighted_append, hlen,
        Nat.zero_add, ← Nat.add_assoc, Nat.add_mod, ← ih (by omega)]
      simp only [List.map_cons, List.map_nil, List.foldl_cons, List.foldl_nil, wrappingAdd, hword,
        Nat.add_mod, Nat.mod_mod]
  have hall := key ((data.length + 7) / 8) (by omega)
  rwa [List.take_of_length_le (by omega)] at hall

theorem addWords_lt {hash : ℕ} (h : hash < 2 ^ 64) (data : List UInt8) :
    addWords hash data < 2 ^ 64 := by
  unfold addWords
  generalize chunks data = words
  induction words generalizing hash with
  | nil => exact h
  | cons chunk words ih => exact ih (Nat.mod_lt _ (by norm_num))

/-! ### The hash of a file -/

/-- `CHUNK_SIZE` of `opensub_hash.rs`. -/
def hashChunkSize : ℕ := 65536

/-- How long the first and the last part of a file are. -/
def partSize (size : ℕ) : ℕ := min size hashChunkSize

/-- The hash, in terms of the bytes of the file. -/
def opensubSum (size : ℕ) (byte : ℕ → UInt8) : ℕ :=
  (size + ∑ i ∈ Finset.range (partSize size), (byte i).toNat * 256 ^ (i % 8) +
    ∑ i ∈ Finset.range (partSize size), (byte (size - partSize size + i)).toNat * 256 ^ (i % 8)) %
      2 ^ 64

theorem weighted_stretch (byte : ℕ → UInt8) (start len : ℕ) :
    weighted 0 (stretch byte start len) =
      ∑ i ∈ Finset.range len, (byte (start + i)).toNat * 256 ^ (i % 8) := by
  induction len with
  | zero => rfl
  | succ len ih =>
    rw [stretch_add, weighted_append, ih, Finset.sum_range_succ, length_stretch]
    simp [stretch, weighted]

/-- **Adding up both parts comes to the hash.** -/
theorem addWords_parts {size : ℕ} (hsize : size < 2 ^ 64) (byte : ℕ → UInt8) :
    addWords (addWords size (stretch byte 0 (partSize size)))
      (stretch byte (size - partSize size) (partSize size)) = opensubSum size byte := by
  have hhead := addWords_lt hsize (stretch byte 0 (partSize size))
  have hsum := addWords_eq (addWords size (stretch byte 0 (partSize size)))
    (stretch byte (size - partSize size) (partSize size))
  rw [Nat.mod_eq_of_lt (addWords_lt hhead _), Nat.add_mod, addWords_eq, ← Nat.add_mod,
    weighted_stretch, weighted_stretch] at hsum
  simpa only [opensubSum, Nat.zero_add] using hsum

/-! ### The calculation -/

/-- What a calculation meets: the files, once the metadata is there; the reader that is opened; and
the answers its polls get. -/
structure Attempt where
  resolved : Bool
  /-- Whether the file is complete, and the piece its priorities are planned from. -/
  opened : Option (Bool × ℤ)
  plannings : ℕ → Planning
  polls : ℕ → FileStream → MemoryInput
  /-- How many polls there are before the calculation is given up. -/
  budget : ℕ

/-- The error for an index that is not in the torrent. -/
def fileNotFound : String := "File not found"

/-- The error for a torrent without the file. -/
def noFileHandle : String := "failed to get file handle"

/-- One part of the file: a seek, and a buffer that is read full. -/
def readPart (checks : Bool) (L : FileLayout) (a : Attempt) (w : ℕ) (start budget : ℕ)
    (s : FileStream) : Progress IoError (FileStream × List UInt8 × ℕ) :=
  match s.seek checks L (a.plannings w) (a.plannings (w + 1)) start with
  | none => .panicked
  | some s => readExact (FileStream.pollsOf checks L a.polls) (partSize L.fileSize) budget s []

/-- `calculate_opensub_hash`. -/
def calculateOpensubHash (checks : Bool) (files : List FileLayout) (fileIdx : ℕ) (a : Attempt) :
    Progress String String :=
  match (if a.resolved then files else [])[fileIdx]? with
  | none => .done (.error fileNotFound)
  | some L =>
      match a.opened with
      | none => .done (.error noFileHandle)
      | some (isComplete, startPiece) =>
          match readPart checks L a 0 0 a.budget (.new isComplete startPiece) with
          | .waiting => .waiting
          | .panicked => .panicked
          | .done (.error e) => .done (.error e.message)
          | .done (.ok (s, head, budget)) =>
              match readPart checks L a 2 (L.fileSize - hashChunkSize) budget s with
              | .waiting => .waiting
              | .panicked => .panicked
              | .done (.error e) => .done (.error e.message)
              | .done (.ok (_, tail, _)) =>
                  .done (.ok (hex16 (addWords (addWords L.fileSize head) tail)))

/-- The caches tell the truth about the pieces of every file. -/
def Attempt.Truthful (files : List FileLayout) (a : Attempt) : Prop :=
  ∀ L ∈ files, ∀ n s, (a.polls n s).Truthful L s

/-- The numbers of the plannings fit, unless the reader is opened for a complete file. -/
def Attempt.Fits (checks : Bool) (files : List FileLayout) (a : Attempt) : Prop :=
  ∀ startPiece, a.opened = some (false, startPiece) → ∀ L ∈ files,
    (∀ w, (a.plannings w).Fits checks L) ∧ ∀ n s, (a.polls n s).Fits checks L

/-- Nothing goes wrong, and every poll finds its piece. -/
structure Attempt.Prompt (a : Attempt) : Prop where
  resolved : a.resolved = true
  opened : a.opened ≠ none
  succeeds : ∀ n s, (a.polls n s).Succeeds
  found : ∀ n s, (a.polls n s).cached ≠ none

variable {files : List FileLayout} {fileIdx : ℕ} {L : FileLayout} {a : Attempt}
  {checks isComplete : Bool}

/-- A part is read from where it starts. -/
theorem readPart_spec (hpolls : ∀ n s, (a.polls n s).Truthful L s)
    (hfits : isComplete = false →
      (∀ w, (a.plannings w).Fits checks L) ∧ ∀ n s, (a.polls n s).Fits checks L)
    {s : FileStream} {pos start : ℕ} (hs : s.Stands isComplete L pos)
    (hstart : start + partSize L.fileSize ≤ L.fileSize) (w n : ℕ) :
    Fills (FileStream.Stands isComplete L) L.fileByte start (partSize L.fileSize)
      (readPart checks L a w start n s) := by
  obtain ⟨t, ht, htstands⟩ := FileStream.stands_seek (fun h => (hfits h).1 w)
    (fun h => (hfits h).1 (w + 1)) hs (show start ≤ L.fileSize by omega)
  unfold readPart
  rw [ht]
  exact (FileStream.streams_pollRead hpolls fun h => (hfits h).2).readExact_spec htstands rfl
    (Nat.zero_le _)

theorem stands_new (L : FileLayout) (isComplete : Bool) (startPiece : ℤ) :
    (FileStream.new isComplete startPiece).Stands isComplete L 0 :=
  ⟨⟨Nat.zero_le _, by simp [FileStream.new]⟩, rfl, rfl⟩

theorem tail_fits (size : ℕ) : size - hashChunkSize + partSize size ≤ size ∧
    size - hashChunkSize = size - partSize size := by
  unfold partSize
  omega

/-- What the calculation should come to. -/
def HashesFile (files : List FileLayout) (fileIdx : ℕ) : Progress String String → Prop
  | .waiting | .done (.error _) => True
  | .panicked => False
  | .done (.ok hash) =>
      ∃ L, files[fileIdx]? = some L ∧ hash = hex16 (opensubSum L.fileSize L.fileByte)

/-- **Whatever the portions in which the reader brings the bytes, the calculation comes to the hash
of the file**, or it fails, or it waits. -/
theorem calculateOpensubHash_spec (ha : a.Truthful files) (hf : a.Fits checks files) :
    HashesFile files fileIdx (calculateOpensubHash checks files fileIdx a) := by
  unfold calculateOpensubHash
  split
  · trivial
  next L hfile =>
  obtain ⟨hresolved, hL⟩ : a.resolved = true ∧ files[fileIdx]? = some L := by
    cases hr : a.resolved with
    | false => simp [hr] at hfile
    | true => exact ⟨rfl, by simpa [hr] using hfile⟩
  have hpolls := ha L (List.mem_of_getElem? hL)
  split
  · trivial
  next isComplete startPiece hopened =>
  have hfits : isComplete = false →
      (∀ w, (a.plannings w).Fits checks L) ∧ ∀ n s, (a.polls n s).Fits checks L := by
    rintro rfl
    exact hf startPiece hopened L (List.mem_of_getElem? hL)
  -- the head is read from the start, the tail from where the reader stands then
  have hhead := readPart_spec hpolls hfits (stands_new L isComplete startPiece)
    (show 0 + partSize L.fileSize ≤ L.fileSize by unfold partSize; omega) 0 a.budget
  split
  · trivial
  · next hpanic =>
    rw [hpanic] at hhead
    exact hhead
  · trivial
  next s head budget hdone =>
  rw [hdone] at hhead
  obtain ⟨hbytes, hstands⟩ := hhead
  obtain ⟨hinside, hsame⟩ := tail_fits L.fileSize
  have htail := readPart_spec hpolls hfits hstands hinside 2 budget
  split
  · trivial
  · next hpanic =>
    rw [hpanic] at htail
    exact htail
  · trivial
  next s' tail budget' hdone' =>
  rw [hdone'] at htail
  refine ⟨L, hL, ?_⟩
  have hlt : L.fileSize < 2 ^ 64 := by
    have hfits := L.fits
    have htotal := L.total_lt
    omega
  rw [hbytes, htail.1, hsame, addWords_parts hlt]

/-! ### Coming to an end -/

/-- A poll that finds its piece does not wait. -/
theorem neverWaits_pollRead {i : ℕ → FileStream → MemoryInput}
    (hfound : ∀ n s, (i n s).cached ≠ none) :
    NeverWaits (FileStream.pollsOf checks L i) (FileStream.Stands isComplete L) := by
  rintro n room s pos - s' hpoll
  obtain ⟨data, hdata⟩ := Option.ne_none_iff_exists'.mp (hfound n s)
  rcases FileStream.pollRead_cases hpoll with ⟨-, hr⟩ | ⟨-, -, hr⟩ | ⟨-, -, -, last, hr⟩
  · cases hr
  · cases hr
  · unfold FileStream.readPiece at hr
    dsimp only at hr
    split at hr
    · cases hr
    · split at hr
      · cases hr
      · rw [hdata] at hr
        cases hr

/-- **The calculation comes to an end** if nothing goes wrong and every poll finds its piece: it
takes no more polls than there are bytes in both parts. -/
theorem calculateOpensubHash_done (ha : a.Truthful files) (hf : a.Fits checks files)
    (hprompt : a.Prompt) (hfile : files[fileIdx]? = some L) (hbudget : 2 * partSize L.fileSize ≤ a.budget) :
    calculateOpensubHash checks files fileIdx a =
      .done (.ok (hex16 (opensubSum L.fileSize L.fileByte))) := by
  have hpolls := ha L (List.mem_of_getElem? hfile)
  obtain ⟨⟨isComplete, startPiece⟩, hopened⟩ := Option.ne_none_iff_exists'.mp hprompt.opened
  have hfits : isComplete = false →
      (∀ w, (a.plannings w).Fits checks L) ∧ ∀ n s, (a.polls n s).Fits checks L := by
    rintro rfl
    exact hf startPiece hopened L (List.mem_of_getElem? hfile)
  have hstreams := FileStream.streams_pollRead hpolls fun h => (hfits h).2
  have hfail := FileStream.neverFails_pollRead hpolls (fun h => (hfits h).2) hprompt.succeeds
  have hwait : NeverWaits (FileStream.pollsOf checks L a.polls) (FileStream.Stands isComplete L) :=
    neverWaits_pollRead hprompt.found
  -- each part is read, and leaves enough polls for the other
  have hpart : ∀ w start n s pos, s.Stands isComplete L pos → start + partSize L.fileSize ≤ L.fileSize →
      partSize L.fileSize ≤ n → ∃ s' bytes m, readPart checks L a w start n s =
        .done (.ok (s', bytes, m)) ∧ n ≤ m + partSize L.fileSize ∧
          s'.Stands isComplete L (start + partSize L.fileSize) := by
    intro w start n s pos hs hstart hn
    obtain ⟨t, ht, htstands⟩ := FileStream.stands_seek (fun h => (hfits h).1 w)
      (fun h => (hfits h).1 (w + 1)) hs (show start ≤ L.fileSize by omega)
    obtain ⟨s', bytes, m, hdone, hm⟩ :=
      @Streams.readExact_done _ _ _ _ _ _ _ hstreams hfail hwait hstart n t [] htstands hn
    have hread : readPart checks L a w start n s = .done (.ok (s', bytes, m)) := by
      rw [readPart, ht]
      exact hdone
    have hfills := readPart_spec hpolls hfits hs hstart w n
    rw [hread] at hfills
    exact ⟨s', bytes, m, hread, hm, hfills.2⟩
  obtain ⟨s, head, m, hhead, hm, hstands⟩ := hpart 0 0 a.budget _ 0
    (stands_new L isComplete startPiece) (by unfold partSize; omega) (by omega)
  obtain ⟨s', tail, m', htail, -, -⟩ := hpart 2 (L.fileSize - hashChunkSize) m s _ hstands
    (tail_fits L.fileSize).1 (by omega)
  have hspec : HashesFile files fileIdx (calculateOpensubHash checks files fileIdx a) :=
    calculateOpensubHash_spec ha hf
  have hcalc : calculateOpensubHash checks files fileIdx a =
      .done (.ok (hex16 (addWords (addWords L.fileSize head) tail))) := by
    rw [calculateOpensubHash, hprompt.resolved, if_pos rfl, hfile]
    dsimp only
    rw [hopened]
    dsimp only
    rw [hhead]
    dsimp only
    rw [htail]
  rw [hcalc] at hspec ⊢
  obtain ⟨L', hL', hhash⟩ := hspec
  obtain rfl : L = L' := Option.some.inj (hfile.symm.trans hL')
  rw [hhash]

/-- **The calculation is right, and total**, if the reader can plan: it never comes to another hash
than that of the file, and comes to that one if nothing goes wrong. -/
theorem calculateOpensubHash_correct (checks : Bool) (fileIdx : ℕ) (ha : a.Truthful files)
    (hf : a.Fits checks files) :
    HashesFile files fileIdx (calculateOpensubHash checks files fileIdx a) ∧
      (a.Prompt → ∀ L, files[fileIdx]? = some L → 2 * partSize L.fileSize ≤ a.budget →
        calculateOpensubHash checks files fileIdx a =
          .done (.ok (hex16 (opensubSum L.fileSize L.fileByte)))) :=
  ⟨calculateOpensubHash_spec ha hf, fun hprompt _ hfile hbudget =>
    calculateOpensubHash_done ha hf hprompt hfile hbudget⟩

/-- A file of nine bytes behind three others, in pieces of five bytes. -/
def nineBytes : FileLayout where
  pieceLength := 5
  fileOffset := 3
  fileSize := 9
  totalSize := 12
  content := UInt8.ofNat
  pieceLength_pos := Nat.succ_pos 4
  fits := Nat.le_refl 12
  total_lt := Nat.lt_of_lt_of_le (Nat.lt_succ_self 12) (Nat.le_of_ble_eq_true rfl)
  pieces_lt := Nat.le_of_ble_eq_true rfl
  pieceLength_lt := Nat.lt_of_lt_of_le (Nat.lt_succ_self 5) (Nat.le_of_ble_eq_true rfl)

/-- Every poll finds its piece in the piece cache. -/
def cachedAttempt : Attempt where
  resolved := true
  opened := some (false, 0)
  plannings _ := idlePlanning
  polls _ s :=
    { remaining := 0
      cancelled := false
      now := 0
      planning := idlePlanning
      replanning := some idlePlanning
      cached := some (nineBytes.pieceBytes (nineBytes.pieceOf s.currentPos))
      lookup := .missed
      havePiece := true
      stored := [] }
  budget := 18

theorem cachedAttempt_truthful : cachedAttempt.Truthful [nineBytes] := by
  intro L hL n s
  obtain rfl := List.mem_singleton.mp hL
  exact ⟨fun data hd => (Option.some.inj hd).symm, fun data hd => by cases hd⟩

theorem cachedAttempt_fits (checks : Bool) : cachedAttempt.Fits checks [nineBytes] := by
  intro startPiece _ L hL
  obtain rfl := List.mem_singleton.mp hL
  have hfits : idlePlanning.Fits checks nineBytes := idlePlanning_fits checks (by decide)
  exact ⟨fun _ => hfits, fun _ _ => ⟨hfits, fun p hp => Option.some.inj hp ▸ hfits⟩⟩

theorem cachedAttempt_prompt : cachedAttempt.Prompt where
  resolved := rfl
  opened := by simp [cachedAttempt]
  succeeds _ _ := ⟨rfl, by simp [cachedAttempt]⟩
  found := by simp [cachedAttempt]

/-- Its hash: 9 + 2·(3 + 4·256 + … + 10·256⁷) + 11 + 11, as the ninth byte is a word of its own. -/
theorem nineBytes_hashed : calculateOpensubHash true [nineBytes] 0 cachedAttempt =
    .done (.ok (hex16 (opensubSum 9 nineBytes.fileByte))) :=
  (calculateOpensubHash_correct true 0 cachedAttempt_truthful (cachedAttempt_fits true)).2
    cachedAttempt_prompt nineBytes rfl (by decide)

example : opensubSum 9 nineBytes.fileByte = 0x1412100e0c0a0825 := by decide

example : hex16 0x1412100e0c0a0825 = "1412100e0c0a0825" := by decide

end StreamServer.EngineFs

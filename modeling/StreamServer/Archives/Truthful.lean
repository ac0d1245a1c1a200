import StreamServer.Archives.Extraction

/-!
# What an extraction says in the end

The cache of a task should end complete, with all the bytes of the entry, or with an error.
For zip archives it does.  The task for rar archives drops the result of the decompression and
does not flush the file, so that an entry that breaks off, or whose last bytes are not in the file yet or
cannot be written, counts as complete.  The task for 7z archives says nothing if one of its first steps
fails, and bad data count as the end of the entry.

## Main definitions

* `pieces` — the writes that `write_all` makes of a piece of the entry.
* `NoneFails`, `EarlierFails` — how the writes go.
* `CacheWriter.Truthful` — what a cache should say.
* `Extraction` — a task and all that happens to it; `Extraction.Sound` — the condition.

## Main results

* `writePieces_spec` — what a sequence of writes in the background comes to.
* `zipTask_truthful`, `rarTask_truthful_iff`, `sevenZTask_truthful_iff` — the three tasks.
* `Extraction.truthful_iff` — an extraction ends truthfully just if the condition holds.

## References

`server/src/archives/{zip,rar,sevenz}.rs`.
-/

namespace StreamServer.Archives

open Readers CacheWriter

variable {entry : List UInt8} (disk : ℕ → WriteOutcome)

/-! ### Writes -/

/-- The writes that are made of some bytes. -/
def pieces : ℕ → List UInt8 → List (List UInt8)
  | 0, _ => []
  | _ + 1, [] => []
  | fuel + 1, a :: data =>
      (a :: data).take maxBufSize :: pieces fuel ((a :: data).drop maxBufSize)

/-- All the writes, for the pieces a decompression hands out. -/
def allPieces (chunks : List (List UInt8)) : List (List UInt8) :=
  chunks.flatMap fun chunk => pieces chunk.length chunk

/-- No write fails. -/
def NoneFails : ℕ → List (List UInt8) → Prop
  | _, [] => True
  | i, piece :: later => ¬ (disk i).Fails piece ∧ NoneFails (i + 1) later

/-- A write fails that is not the last. -/
def EarlierFails : ℕ → List (List UInt8) → Prop
  | _, [] => False
  | i, piece :: later => ((disk i).Fails piece ∧ later ≠ []) ∨ EarlierFails (i + 1) later

theorem flatten_pieces (fuel : ℕ) {data : List UInt8} (h : data.length ≤ fuel) :
    (pieces fuel data).flatten = data := by
  induction fuel generalizing data with
  | zero => simp [pieces, List.eq_nil_of_length_eq_zero (Nat.le_zero.mp h)]
  | succ fuel ih =>
    cases data with
    | nil => rfl
    | cons a data =>
      have hshort : ((a :: data).drop maxBufSize).length ≤ fuel := by
        rw [List.length_drop, List.length_cons, maxBufSize]
        rw [List.length_cons] at h
        omega
      rw [pieces, List.flatten_cons, ih hshort, List.take_append_drop]

theorem length_pieces (fuel : ℕ) (data : List UInt8) :
    ∀ piece ∈ pieces fuel data, piece.length ≤ maxBufSize := by
  induction fuel generalizing data with
  | zero => simp [pieces]
  | succ fuel ih =>
    cases data with
    | nil => simp [pieces]
    | cons a data =>
      rw [pieces, List.forall_mem_cons]
      exact ⟨List.length_take_le _ _, ih _⟩

theorem length_allPieces (chunks : List (List UInt8)) :
    ∀ piece ∈ allPieces chunks, piece.length ≤ maxBufSize := by
  intro piece hpiece
  obtain ⟨chunk, -, hmem⟩ := List.mem_flatMap.mp hpiece
  exact length_pieces _ _ piece hmem

/-- A write is of some bytes. -/
theorem ne_nil_of_mem_allPieces {chunks : List (List UInt8)} :
    ∀ piece ∈ allPieces chunks, piece ≠ [] := by
  have hpieces : ∀ fuel data, ∀ piece ∈ pieces fuel data, piece ≠ [] := by
    intro fuel
    induction fuel with
    | zero => simp [pieces]
    | succ fuel ih =>
      intro data
      cases data with
      | nil => simp [pieces]
      | cons a data =>
        rw [pieces, List.forall_mem_cons]
        exact ⟨by simp [maxBufSize], ih _⟩
  intro piece hpiece
  obtain ⟨chunk, -, hmem⟩ := List.mem_flatMap.mp hpiece
  exact hpieces _ _ piece hmem

theorem flatten_allPieces (chunks : List (List UInt8)) :
    (allPieces chunks).flatten = chunks.flatten := by
  induction chunks with
  | nil => rfl
  | cons chunk chunks ih =>
    rw [allPieces, List.flatMap_cons, List.flatten_append, flatten_pieces _ le_rfl, ← allPieces,
      ih, List.flatten_cons]

namespace WriteOutcome

variable {outcome : WriteOutcome} {data : List UInt8}

/-- Either the disk takes everything, or something is missing. -/
theorem taken_of_not_fails (h : ¬ outcome.Fails data) :
    outcome.taken data = data ∧ outcome.result data = .ok () := by
  cases outcome with
  | none => exact ⟨rfl, rfl⟩
  | some failure =>
    rcases Nat.lt_or_ge failure.1 data.length with hlt | hge
    · exact absurd ⟨failure.2, if_pos hlt⟩ h
    · exact ⟨List.take_of_length_le hge, if_neg (not_lt_of_ge hge)⟩

theorem length_taken_of_fails (h : outcome.Fails data) :
    (outcome.taken data).length < data.length := by
  obtain ⟨error, h⟩ := h
  cases outcome with
  | none => cases h
  | some failure =>
    rw [result] at h
    split at h
    · next hlt =>
      rw [taken, List.length_take]
      omega
    · cases h

end WriteOutcome

/-! ### Writing in the background -/

namespace CacheWriter

/-- One write after another. -/
def writePieces : CacheWriter → List (List UInt8) → CacheWriter × Except IoError Unit
  | w, [] => (w, .ok ())
  | w, piece :: later =>
      match w.pollWrite disk piece with
      | (w, .error error) => (w, .error error)
      | (w, .ok _) => writePieces w later

theorem writePieces_append (w : CacheWriter) (ps qs : List (List UInt8)) :
    w.writePieces disk (ps ++ qs) =
      match w.writePieces disk ps with
      | (w, .error error) => (w, .error error)
      | (w, .ok ()) => w.writePieces disk qs := by
  induction ps generalizing w with
  | nil => rfl
  | cons p ps ih =>
    rw [List.cons_append, writePieces, writePieces]
    cases w.pollWrite disk p with
    | mk w result =>
      cases result with
      | error error => rfl
      | ok n => exact ih w

/-- A write takes no more than it can. -/
theorem pollWrite_take (w : CacheWriter) (data : List UInt8) :
    w.pollWrite disk (data.take maxBufSize) = w.pollWrite disk data := by
  unfold pollWrite
  rw [List.take_take, Nat.min_self]

theorem pollWrite_ok {w w' : CacheWriter} {data : List UInt8} {n : ℕ}
    (h : w.pollWrite disk data = (w', .ok n)) : n = (data.take maxBufSize).length := by
  unfold pollWrite at h
  split at h
  · cases h
  · rw [Prod.mk.injEq, Except.ok.injEq] at h
    exact h.2.symm

theorem writeLoop_eq (fuel : ℕ) (w : CacheWriter) (data : List UInt8) :
    writeLoop disk fuel w data = w.writePieces disk (pieces fuel data) := by
  induction fuel generalizing w data with
  | zero => rfl
  | succ fuel ih =>
    cases data with
    | nil => rfl
    | cons a data =>
      rw [writeLoop, pieces, writePieces, pollWrite_take]
      cases hpoll : w.pollWrite disk (a :: data) with
      | mk w' result =>
        cases result with
        | error error => rfl
        | ok n =>
          have hdrop : (a :: data).drop n = (a :: data).drop maxBufSize := by
            rw [pollWrite_ok disk hpoll, List.length_take]
            rcases Nat.le_total maxBufSize (a :: data).length with hle | hle
            · rw [Nat.min_eq_left hle]
            · rw [Nat.min_eq_right hle, List.drop_length, List.drop_eq_nil_of_le hle]
          dsimp only
          rw [ih, hdrop]

theorem writeChunks_eq (w : CacheWriter) (chunks : List (List UInt8)) :
    w.writeChunks disk chunks = w.writePieces disk (allPieces chunks) := by
  induction chunks generalizing w with
  | nil => rfl
  | cons chunk chunks ih =>
    rw [writeChunks, allPieces, List.flatMap_cons, writePieces_append, writeAll, writeLoop_eq]
    cases w.writePieces disk (pieces chunk.length chunk) with
    | mk w result =>
      cases result with
      | error error => rfl
      | ok => exact ih w

/-- What a writer says after some writes that have all been taken up. -/
structure Took (w w' : CacheWriter) (data : List UInt8) : Prop where
  writtenBytes : w'.snapshot.writtenBytes = w.snapshot.writtenBytes + data.length
  isComplete : w'.snapshot.isComplete = w.snapshot.isComplete
  error : w'.snapshot.error = w.snapshot.error

theorem Took.trans {w w' w'' : CacheWriter} {data more : List UInt8} (h : Took w w' data)
    (h' : Took w' w'' more) : Took w w'' (data ++ more) where
  writtenBytes := by rw [h'.writtenBytes, h.writtenBytes, List.length_append, Nat.add_assoc]
  isComplete := h'.isComplete.trans h.isComplete
  error := h'.error.trans h.error

/-- Waiting for the write in the background changes nothing that is said. -/
theorem settle_took (w : CacheWriter) : Took w (w.settle disk).1 [] := by
  unfold settle
  cases w.background with
  | none => exact ⟨rfl, rfl, rfl⟩
  | some piece => exact ⟨rfl, rfl, rfl⟩

/-- Where the writer is behind some writes: all but the last are in the file, and the last is in the
background. -/
structure Left (w w' : CacheWriter) (all : List (List UInt8)) : Prop where
  idle : all = [] → w'.background = none ∧ w'.content = w.content
  busy : ∀ front last, all = front ++ [last] → w'.background = some last ∧
    w'.writes = w.writes + front.length ∧ w'.content = w.content ++ front.flatten

/-- One more write in front, which has come to its end. -/
theorem Left.cons {w w₁ w' : CacheWriter} {b p : List UInt8} {ps : List (List UInt8)}
    (h : Left w₁ w' (p :: ps)) (hwrites : w₁.writes = w.writes + 1)
    (hcontent : w₁.content = w.content ++ b) : Left w w' (b :: p :: ps) where
  idle := by simp
  busy := by
    intro front last hall
    cases front with
    | nil => simp at hall
    | cons c front =>
      rw [List.cons_append, List.cons.injEq] at hall
      obtain ⟨rfl, hall⟩ := hall
      obtain ⟨hbackground, hcount, hfile⟩ := h.busy front last hall
      refine ⟨hbackground, ?_, ?_⟩
      · rw [hcount, hwrites, List.length_cons]
        omega
      · rw [hfile, hcontent, List.flatten_cons, List.append_assoc]

/-- **What a sequence of writes comes to**: with what is in the background at first, an error is seen just
if a write fails that is not the last; else only the last of them is still in the background. -/
theorem writePieces_spec (w : CacheWriter) (ps : List (List UInt8))
    (hshort : ∀ piece ∈ ps, piece.length ≤ maxBufSize) :
    (EarlierFails disk w.writes (w.background.toList ++ ps) ∧
        ∃ w' error, w.writePieces disk ps = (w', .error error)) ∨
      ∃ w', w.writePieces disk ps = (w', .ok ()) ∧ Took w w' ps.flatten ∧
        ¬ EarlierFails disk w.writes (w.background.toList ++ ps) ∧
          Left w w' (w.background.toList ++ ps) := by
  induction ps generalizing w with
  | nil =>
    refine Or.inr ⟨w, rfl, ⟨rfl, rfl, rfl⟩, ?_, ?_⟩
    · cases w.background with
      | none => simp [EarlierFails]
      | some b => simp [EarlierFails]
    · cases hb : w.background with
      | none => exact ⟨fun _ => ⟨hb, rfl⟩, by simp⟩
      | some b =>
        refine ⟨by simp, fun front last hall => ?_⟩
        obtain ⟨rfl, rfl⟩ : front = [] ∧ b = last := by
          cases front with
          | nil => simpa using hall
          | cons c front => simp at hall
        exact ⟨hb, rfl, by simp⟩
  | cons p ps ih =>
    rw [List.forall_mem_cons] at hshort
    have hpiece : p.take maxBufSize = p := List.take_of_length_le hshort.1
    rw [writePieces, pollWrite, settle]
    cases hb : w.background with
    | none =>
      rw [hpiece]
      -- nothing is in the background before this write
      rcases ih { w.publish p.length with background := some p } hshort.2 with
        hseen | ⟨w', hwrite, htook, hnot, hleft⟩
      · exact Or.inl hseen
      · have hfirst : Took w { w.publish p.length with background := some p } p := ⟨rfl, rfl, rfl⟩
        refine Or.inr ⟨w', hwrite, ?_, hnot, ⟨by simp, hleft.busy⟩⟩
        rw [List.flatten_cons]
        exact hfirst.trans htook
    | some b =>
      dsimp only
      by_cases hfails : (disk w.writes).Fails b
      · obtain ⟨error, herror⟩ := hfails
        rw [herror]
        exact Or.inl ⟨Or.inl ⟨⟨error, herror⟩, by simp⟩, _, error, rfl⟩
      · obtain ⟨htaken, hresult⟩ := WriteOutcome.taken_of_not_fails hfails
        have hearlier : EarlierFails disk w.writes (b :: p :: ps) ↔
            EarlierFails disk (w.writes + 1) (p :: ps) := by
          rw [EarlierFails, or_iff_right fun h => hfails h.1]
        rw [hresult, hpiece]
        dsimp only
        rcases ih { (({ w.give disk b with background := none } : CacheWriter).publish p.length) with
            background := some p } hshort.2 with hseen | ⟨w', hwrite, htook, hnot, hleft⟩
        · exact Or.inl ⟨hearlier.mpr hseen.1, hseen.2⟩
        · have hfirst : Took w { (({ w.give disk b with background := none } : CacheWriter).publish
              p.length) with background := some p } p := ⟨rfl, rfl, rfl⟩
          refine Or.inr ⟨w', hwrite, ?_, fun h => hnot (hearlier.mp h), ?_⟩
          · rw [List.flatten_cons]
            exact hfirst.trans htook
          · exact hleft.cons rfl (by rw [publish, give, htaken])

theorem noneFails_append (i : ℕ) (front later : List (List UInt8)) :
    NoneFails disk i (front ++ later) ↔
      NoneFails disk i front ∧ NoneFails disk (i + front.length) later := by
  induction front generalizing i with
  | nil => simp [NoneFails]
  | cons piece front ih =>
    rw [List.cons_append, NoneFails, NoneFails, ih, and_assoc, List.length_cons, Nat.add_assoc,
      Nat.add_comm 1 front.length]

theorem noneFails_of_not_earlierFails {i : ℕ} {front : List (List UInt8)} {last : List UInt8}
    (h : ¬ EarlierFails disk i (front ++ [last])) : NoneFails disk i front := by
  induction front generalizing i with
  | nil => trivial
  | cons piece front ih =>
    rw [List.cons_append, EarlierFails, not_or] at h
    exact ⟨fun hfails => h.1 ⟨hfails, by simp⟩, ih h.2⟩

/-- **Where the last write is waited for**: the file holds all of it just if no write fails, and else the
error is seen. -/
theorem Left.settle {w w' : CacheWriter} {all : List (List UInt8)} (h : Left w w' all)
    (hnot : ¬ EarlierFails disk w.writes all) :
    (NoneFails disk w.writes all ∧ (w'.settle disk).1.content = w.content ++ all.flatten ∧
        (w'.settle disk).2 = .ok ()) ∨
      (¬ NoneFails disk w.writes all ∧
        (w'.settle disk).1.content.length < w.content.length + all.flatten.length ∧
          ∃ error, (w'.settle disk).2 = .error error) := by
  rcases List.eq_nil_or_concat' all with rfl | ⟨front, last, rfl⟩
  · obtain ⟨hidle, hcontent⟩ := h.idle rfl
    left
    rw [CacheWriter.settle, hidle]
    exact ⟨trivial, by simpa using hcontent, rfl⟩
  · obtain ⟨hbusy, hwrites, hcontent⟩ := h.busy front last rfl
    have hfront := noneFails_of_not_earlierFails disk hnot
    rw [CacheWriter.settle, hbusy, noneFails_append, hwrites]
    by_cases hfails : (disk (w.writes + front.length)).Fails last
    · right
      have hlost := WriteOutcome.length_taken_of_fails hfails
      obtain ⟨error, herror⟩ := hfails
      refine ⟨fun hall => hall.2.1 ⟨error, herror⟩, ?_, error, herror⟩
      simp only [give, hcontent, hwrites, List.length_append, List.flatten_append, List.flatten_cons,
        List.flatten_nil, List.length_nil]
      omega
    · left
      obtain ⟨htaken, hresult⟩ := WriteOutcome.taken_of_not_fails hfails
      refine ⟨⟨hfront, hfails, trivial⟩, ?_, hresult⟩
      simp [give, hcontent, hwrites, htaken]

/-- **Where it is not**, the last bytes are not in the file. -/
theorem Left.short {w w' : CacheWriter} {all : List (List UInt8)} (h : Left w w' all)
    (hall : all ≠ []) (hne : ∀ piece ∈ all, piece ≠ []) :
    w'.content.length < w.content.length + all.flatten.length := by
  obtain ⟨front, last, rfl⟩ := (List.eq_nil_or_concat' all).resolve_left hall
  obtain ⟨-, -, hcontent⟩ := h.busy front last rfl
  have hlast : 0 < last.length := List.length_pos_iff.mpr (hne last (by simp))
  simp only [hcontent, List.length_append, List.flatten_append, List.flatten_cons,
    List.flatten_nil, List.length_nil]
  omega

/-- **Writing at once**: an error is seen just if a write fails. -/
theorem writeChunksSync_spec (w : CacheWriter) (chunks : List (List UInt8)) :
    (¬ NoneFails disk w.writes chunks ∧
        ∃ w' error, w.writeChunksSync disk chunks = (w', .error error)) ∨
      ∃ w', w.writeChunksSync disk chunks = (w', .ok ()) ∧ Took w w' chunks.flatten ∧
        NoneFails disk w.writes chunks ∧ w'.content = w.content ++ chunks.flatten := by
  induction chunks generalizing w with
  | nil => exact Or.inr ⟨w, rfl, ⟨rfl, rfl, rfl⟩, trivial, by simp⟩
  | cons chunk chunks ih =>
    rw [writeChunksSync, writeAllSync]
    by_cases hfails : (disk w.writes).Fails chunk
    · obtain ⟨error, herror⟩ := hfails
      rw [herror]
      exact Or.inl ⟨fun hnone => hnone.1 ⟨error, herror⟩, _, error, rfl⟩
    · obtain ⟨htaken, hresult⟩ := WriteOutcome.taken_of_not_fails hfails
      have hnone : NoneFails disk w.writes (chunk :: chunks) ↔
          NoneFails disk (w.writes + 1) chunks := by
        simp [NoneFails, hfails]
      have hlater := ih ((w.give disk chunk).publish chunk.length)
      rw [hresult, hnone, List.flatten_cons, htaken]
      simp only [give, publish, htaken] at hlater ⊢
      rcases hlater with hseen | ⟨w', hwrite, htook, hgood, hcontent⟩
      · exact Or.inl hseen
      · refine Or.inr ⟨w', hwrite, ⟨?_, htook.isComplete, htook.error⟩, hgood, ?_⟩
        · rw [htook.writtenBytes, List.length_append, Nat.add_assoc]
        · rw [hcontent, List.append_assoc]

/-! ### What a cache says -/

/-- **An error is set, or the cache is complete and all the bytes of the entry are there.** -/
def Truthful (w : CacheWriter) (entry : List UInt8) : Prop :=
  w.snapshot.error ≠ none ∨
    (w.snapshot.isComplete = true ∧ w.content = entry ∧ w.snapshot.writtenBytes = entry.length)

theorem setError_truthful (w : CacheWriter) (error : String) : (w.setError error).Truthful entry :=
  Or.inl (Option.some_ne_none error)

/-- Without an error all depends on the bytes. -/
theorem finish_truthful_iff {w : CacheWriter} {data : List UInt8} (htook : Took .new w data) :
    w.finish.Truthful entry ↔ w.content = entry ∧ data.length = entry.length := by
  have herror : w.finish.snapshot.error = none := htook.error
  have hwritten : w.finish.snapshot.writtenBytes = data.length := by
    have hnew := htook.writtenBytes
    rwa [show (new.snapshot.writtenBytes) = 0 from rfl, Nat.zero_add] at hnew
  rw [Truthful, herror, hwritten]
  simp [finish]

end CacheWriter

/-! ### The tasks -/

variable {disk}

/-- **Zip archives.** -/
theorem zipTask_truthful (entryReader : Bool) (d : Decompression IoError entry) :
    (zipTask disk entryReader d).Truthful entry := by
  rw [zipTask]
  cases entryReader with
  | false => exact setError_truthful _ _
  | true =>
    rw [if_pos rfl, copy, writeChunks_eq]
    rcases writePieces_spec disk .new (allPieces d.chunks) (length_allPieces d.chunks) with
      ⟨-, w', error, hwrite⟩ | ⟨w', hwrite, htook, hnot, hleft⟩
    · rw [hwrite]
      exact setError_truthful _ _
    · rw [hwrite]
      dsimp only
      cases hresult : d.result with
      | error error => exact setError_truthful _ _
      | ok =>
        have hend := hleft.settle disk hnot
        have hflushed := htook.trans (settle_took disk w')
        rw [flush]
        rcases hsettle : w'.settle disk with ⟨w'', result⟩
        rw [hsettle] at hend hflushed
        rcases hend with ⟨-, hcontent, hok⟩ | ⟨-, -, error, herror⟩
        · obtain rfl : result = .ok () := hok
          have hall : (allPieces d.chunks).flatten = entry := by
            rw [flatten_allPieces, d.chunks_whole hresult]
          refine (finish_truthful_iff hflushed).mpr ⟨hcontent.trans hall, ?_⟩
          rw [List.append_nil, hall]
        · obtain rfl : result = .error error := herror
          exact setError_truthful _ _

/-- **Rar archives.** -/
theorem rarTask_truthful_iff (reopened : Except String Unit) (landed : Bool)
    (d : Decompression ℤ entry) :
    (rarTask disk reopened landed d).Truthful entry ↔
      reopened ≠ .ok () ∨ EarlierFails disk 0 (allPieces d.chunks) ∨
        (NoneFails disk 0 (allPieces d.chunks) ∧ d.chunks.flatten = entry ∧
          (landed = true ∨ entry = [])) := by
  unfold rarTask
  cases reopened with
  | error error => exact iff_of_true (setError_truthful _ _) (Or.inl (by simp))
  | ok =>
    rw [writeChunks_eq]
    have hflatten := flatten_allPieces d.chunks
    -- either a write reports an earlier failure, or all of the pieces are taken
    rcases writePieces_spec disk .new (allPieces d.chunks) (length_allPieces d.chunks) with
      ⟨hearlier, w', error, hwrite⟩ | ⟨w', hwrite, htook, hnot, hleft⟩
    · rw [hwrite]
      exact iff_of_true (setError_truthful _ _) (Or.inr (Or.inl hearlier))
    · have hnot' : ¬ EarlierFails disk 0 (allPieces d.chunks) := hnot
      have hleft' : Left .new w' (allPieces d.chunks) := hleft
      have hempty : (CacheWriter.new).content = [] := rfl
      rw [hwrite]
      simp only [hnot', ne_eq, not_true_eq_false, false_or]
      cases landed with
      -- the background has taken the last piece in before the task is finished
      | true =>
        rw [if_pos rfl, finish_truthful_iff (htook.trans (settle_took disk w')), List.append_nil,
          hflatten]
        rcases hleft'.settle disk hnot' with ⟨hnone, hcontent, -⟩ | ⟨hsome, hshort, -⟩
        · have hnone' : NoneFails disk 0 (allPieces d.chunks) := hnone
          rw [hcontent, hempty, List.nil_append, hflatten]
          simp only [hnone', true_and, true_or, and_true]
          exact and_iff_left_of_imp fun heq => congrArg List.length heq
        · -- something is missing
          refine iff_of_false ?_ fun hall => hsome hall.1
          rintro ⟨hcontent, hlength⟩
          rw [hcontent, hempty, hflatten, List.length_nil] at hshort
          omega
      -- the last piece is still on the way: the task is truthful only if there is none
      | false =>
        rw [if_neg Bool.false_ne_true, finish_truthful_iff htook, hflatten]
        by_cases hnil : allPieces d.chunks = []
        · have hchunks : d.chunks.flatten = [] := by rw [← hflatten, hnil, List.flatten_nil]
          obtain ⟨-, hcontent⟩ := hleft'.idle hnil
          rw [hcontent, hempty, hchunks, hnil]
          simp only [NoneFails, true_and, Bool.false_eq_true, false_or]
          constructor
          · rintro ⟨rfl, -⟩
            exact ⟨rfl, rfl⟩
          · rintro ⟨rfl, -⟩
            exact ⟨rfl, rfl⟩
        · have hshort := hleft'.short hnil ne_nil_of_mem_allPieces
          rw [hempty, hflatten, List.length_nil] at hshort
          refine iff_of_false ?_ ?_
          · rintro ⟨hcontent, hlength⟩
            rw [hcontent] at hshort
            omega
          · rintro ⟨-, hwhole, hcases⟩
            obtain rfl : entry = [] := hcases.resolve_left Bool.false_ne_true
            rw [hwhole] at hshort
            simp at hshort

/-- What the code of the library makes of the cache. -/
theorem returned_truthful_iff {w : CacheWriter} {data : List UInt8} (htook : Took .new w data)
    (code : ℤ) :
    (match (w, extract.returned code) with
      | (w, .error error) => w.setError error
      | (w, .ok ()) => w.finish).Truthful entry ↔
      code ≠ sOk ∨ (w.content = entry ∧ data.length = entry.length) := by
  unfold extract.returned
  by_cases hcode : code = 0
  · have hok : ¬ code ≠ sOk := fun hne => hne hcode
    rw [if_neg (not_not_intro hcode)]
    simp only [hok, false_or]
    exact finish_truthful_iff htook
  · rw [if_pos hcode]
    exact iff_of_true (setError_truthful _ _) (Or.inl hcode)

/-- **7z archives.** -/
theorem sevenZTask_truthful_iff (steps : SevenZSteps) (d : Decompression DecodeResult entry) :
    (sevenZTask disk steps d).Truthful entry ↔
      steps.all = true ∧
        (¬ NoneFails disk 0 d.chunks ∨ (∃ result, d.result = .error result ∧ result.extract ≠ sOk) ∨
          d.chunks.flatten = entry) := by
  unfold sevenZTask
  cases hsteps : steps.all with
  | false =>
    -- neither complete nor an error
    refine iff_of_false ?_ (fun hall => Bool.false_ne_true hall.1)
    rw [if_neg Bool.false_ne_true]
    simp [Truthful, CacheWriter.new]
  | true =>
    rw [if_pos rfl, extract]
    simp only [true_and]
    rcases writeChunksSync_spec disk .new d.chunks with
      ⟨hfails, w', error, hwrite⟩ | ⟨w', hwrite, htook, hnone, hcontent⟩
    · rw [hwrite]
      exact iff_of_true (setError_truthful _ _) (Or.inl hfails)
    · have hnone' : NoneFails disk 0 d.chunks := hnone
      have hall : w'.content = d.chunks.flatten := hcontent
      have hlength : d.chunks.flatten = entry → d.chunks.flatten.length = entry.length :=
        congrArg List.length
      rw [hwrite]
      cases hresult : d.result with
      | error result =>
        refine (returned_truthful_iff htook result.extract).trans ?_
        rw [hall, and_iff_left_of_imp hlength]
        simp [hnone']
      | ok u =>
        cases u
        refine (returned_truthful_iff htook (DecodeResult.extract ⟨sOk, false⟩)).trans ?_
        rw [hall, and_iff_left_of_imp hlength]
        simp [hnone', DecodeResult.extract]

/-! ### All kinds -/

/-- A task, and what happens to it. -/
inductive Extraction (entry : List UInt8)
  | zip (disk : ℕ → WriteOutcome) (entryReader : Bool) (d : Decompression IoError entry)
  | rar (disk : ℕ → WriteOutcome) (reopened : Except String Unit) (landed : Bool)
    (d : Decompression ℤ entry)
  | sevenZ (disk : ℕ → WriteOutcome) (steps : SevenZSteps) (d : Decompression DecodeResult entry)

namespace Extraction

/-- How the cache is left. -/
def run : Extraction entry → CacheWriter
  | zip disk entryReader d => zipTask disk entryReader d
  | rar disk reopened landed d => rarTask disk reopened landed d
  | sevenZ disk steps d => sevenZTask disk steps d

/-- What goes wrong is seen.  For rar archives: the archive cannot be opened again, or a write
fails that is not the last, or nothing goes wrong and the last write has come to its end before the cache
is said to be complete.  For 7z archives: the first steps go well, and a write fails, or the decoder ends
with an error that is not about the data, or the entry is whole. -/
def Seen : Extraction entry → Prop
  | zip _ _ _ => True
  | rar disk reopened landed d =>
      reopened ≠ .ok () ∨ EarlierFails disk 0 (allPieces d.chunks) ∨
        (NoneFails disk 0 (allPieces d.chunks) ∧ d.chunks.flatten = entry ∧
          (landed = true ∨ entry = []))
  | sevenZ disk steps d =>
      steps.all = true ∧
        (¬ NoneFails disk 0 d.chunks ∨ (∃ result, d.result = .error result ∧ result.extract ≠ sOk) ∨
          d.chunks.flatten = entry)

/-- **An extraction ends truthfully just if what goes wrong is seen.** -/
theorem truthful_iff (x : Extraction entry) : x.run.Truthful entry ↔ x.Seen := by
  cases x with
  | zip disk entryReader d => exact iff_of_true (zipTask_truthful entryReader d) trivial
  | rar disk reopened landed d => exact rarTask_truthful_iff reopened landed d
  | sevenZ disk steps d => exact sevenZTask_truthful_iff steps d

/-- A rar archive whose data break off in the middle of the entry. -/
def brokenOff : Extraction [1, 2, 3] :=
  .rar (fun _ => none) (.ok ()) true ⟨[[1, 2]], .error 12, by simp⟩

/-- A rar archive with nothing wrong, whose last write is still in the background in the end. -/
def tooEarly : Extraction [1, 2, 3] :=
  .rar (fun _ => none) (.ok ()) false ⟨[[1, 2], [3]], .ok (), fun _ => rfl⟩

/-- A 7z archive that cannot be opened again. -/
def goneAway : Extraction [1, 2, 3] :=
  .sevenZ (fun _ => none) ⟨false, true, true, true⟩ ⟨[[1, 2, 3]], .ok (), fun _ => rfl⟩

/-- The first two are complete with two bytes of three; the third is never complete, and has no
error. -/
theorem untruthful : ¬ brokenOff.run.Truthful [1, 2, 3] ∧ ¬ tooEarly.run.Truthful [1, 2, 3] ∧
    ¬ goneAway.run.Truthful [1, 2, 3] := by
  have hbroken : brokenOff.run = ⟨[1, 2], ⟨2, true, none⟩, 1, none⟩ := by decide
  have hearly : tooEarly.run = ⟨[1, 2], ⟨3, true, none⟩, 1, some [3]⟩ := by decide
  have hgone : goneAway.run = ⟨[], ⟨0, false, none⟩, 0, none⟩ := by decide
  rw [hbroken, hearly, hgone]
  simp [Truthful]

end Extraction

end StreamServer.Archives

import Mathlib.Data.List.Sort
import StreamServer.Nzb.YEnc

/-!
# A file that is read segment by segment

A file lies in articles, one for each segment.  The reader fetches them in the order of their
numbers, one at a time, and hands out what a segment decodes to before it turns to the next.  A
fetch that fails ends a read, and the next read fetches the segment again.

What comes from outside in a read is how the fetches stand when they are looked at; that of a
segment which is fetched comes to the body of its article.

## Main definitions

* `NzbFileStream.pollRead` — a read.
* `NzbFile.content` — what the segments decode to, in the order of their numbers.
* `Reading` — the reader, and what it has handed out.
* `Reading.InOrder` — what has been handed out, and what is left in the buffer, are the first segments.

## Main results

* `Reading.InOrder.pollRead` — a read keeps the order.
* `segments_delivered` — **every segment is delivered once, in order.**

## References

`server/src/archives/nzb/stream.rs`, `NzbFileStream`.
-/

namespace StreamServer.Nzb

/-- `NzbSegment`, the fields that a stream uses. -/
structure NzbSegment where
  number : ℕ
  id : String
  deriving DecidableEq, Repr

/-- `NzbFile`, less its subject and groups. -/
structure NzbFile where
  segments : List NzbSegment
  deriving DecidableEq, Repr

/-- How a fetch stands when it is looked at. -/
inductive Fetch
  | pending
  | fetched
  | failed (message : String)
  /-- The task of the fetch has died. -/
  | died (message : String)
  deriving DecidableEq, Repr

/-- The kinds of the errors that a read gives. -/
inductive ErrorKind
  | invalidData
  | other
  deriving DecidableEq, Repr

/-- What a read comes to. -/
inductive ReadPoll
  | pending
  | ready (bytes : List UInt8)
  | failed (kind : ErrorKind) (message : String)
  deriving DecidableEq, Repr

/-- The bytes that a poll has brought. -/
def ReadPoll.bytes : ReadPoll → List UInt8
  | .ready bytes => bytes
  | _ => []

/-- `NzbFileStream`. -/
structure NzbFileStream where
  segments : List NzbSegment
  currentSegmentIdx : ℕ
  /-- What has been decoded and waits to be read. -/
  buffer : List UInt8
  fetching : Bool
  /-- The segment that is being fetched. -/
  fetchFuture : Option NzbSegment
  deriving DecidableEq, Repr

/-- The segments, sorted by number; those of one number stay in their order. -/
def NzbFile.sorted (file : NzbFile) : List NzbSegment :=
  file.segments.insertionSort (·.number ≤ ·.number)

namespace NzbFileStream

/-- `NzbFileStream::new`. -/
def new (file : NzbFile) : NzbFileStream := ⟨file.sorted, 0, [], false, none⟩

/-- Without a fetch, that of the next segment is started. -/
def startFetch (s : NzbFileStream) : NzbFileStream :=
  match s.fetchFuture, s.segments[s.currentSegmentIdx]? with
  | none, some segment => { s with fetchFuture := some segment, fetching := true }
  | _, _ => s

/-- The fetch is done with. -/
def endFetch (s : NzbFileStream) : NzbFileStream := { s with fetchFuture := none, fetching := false }

/-- The next segment has been decoded. -/
def advance (s : NzbFileStream) (decoded : List UInt8) : NzbFileStream :=
  { s.endFetch with buffer := decoded, currentSegmentIdx := s.currentSegmentIdx + 1 }

variable (body : String → List UInt8) (remaining : ℕ)

/-- What comes of looking at the fetch: the read ends, or the loop goes on. -/
def pollFetch (s : NzbFileStream) (answer : Fetch) : Option ReadPoll × NzbFileStream :=
  match answer, s.fetchFuture with
  | .fetched, some segment =>
      match decodeYenc (body segment.id) with
      | .ok decoded => (none, s.advance decoded)
      | .error message => (some (.failed .invalidData message), s.endFetch)
  | .failed message, some _ => (some (.failed .other message), s.endFetch)
  | .died message, some _ => (some (.failed .other message), s.endFetch)
  | _, _ => (some .pending, s)

/-- **A read**, with room for `remaining` bytes; a turn of the loop looks at the fetch once. -/
def pollRead : List Fetch → NzbFileStream → ReadPoll × NzbFileStream
  | answers, s =>
      if s.buffer ≠ [] then
        (.ready (s.buffer.take remaining), { s with buffer := s.buffer.drop remaining })
      else if s.segments.length ≤ s.currentSegmentIdx ∧ s.fetchFuture = none then (.ready [], s)
      else
        match answers with
        | [] => (.pending, s.startFetch)
        | answer :: answers =>
            match s.startFetch.pollFetch body answer with
            | (some p, s) => (p, s)
            | (none, s) => pollRead answers s

end NzbFileStream

/-! ### What is delivered -/

variable (body : String → List UInt8)

/-- What a segment decodes to. -/
def NzbSegment.decoded (segment : NzbSegment) : List UInt8 :=
  match decodeYenc (body segment.id) with
  | .ok decoded => decoded
  | .error _ => []

/-- What the first segments decode to. -/
def NzbFile.upTo (file : NzbFile) (n : ℕ) : List UInt8 :=
  ((file.sorted.take n).map (NzbSegment.decoded body)).flatten

/-- **What the segments decode to**, in the order of their numbers. -/
def NzbFile.content (file : NzbFile) : List UInt8 := (file.sorted.map (NzbSegment.decoded body)).flatten

theorem NzbFile.upTo_prefix (file : NzbFile) (n : ℕ) : file.upTo body n <+: file.content body := by
  rw [upTo, content]
  exact ((List.take_prefix n file.sorted).map _).flatten

theorem NzbFile.upTo_of_length_le {file : NzbFile} {n : ℕ} (h : file.sorted.length ≤ n) :
    file.upTo body n = file.content body := by
  rw [upTo, content, List.take_of_length_le h]

theorem NzbFile.upTo_succ {file : NzbFile} {n : ℕ} {segment : NzbSegment}
    (h : file.sorted[n]? = some segment) :
    file.upTo body (n + 1) = file.upTo body n ++ segment.decoded body := by
  rw [upTo, upTo, List.take_add_one, h, List.map_append, List.flatten_append]
  simp

/-- The reader, and what it has handed out. -/
structure Reading where
  stream : NzbFileStream
  delivered : List UInt8
  deriving DecidableEq, Repr

namespace Reading

/-- A reader of the file that has read nothing. -/
def new (file : NzbFile) : Reading := ⟨.new file, []⟩

/-- A read, with the room there is and what is seen of the fetches. -/
def poll (r : Reading) (call : ℕ × List Fetch) : Reading :=
  let outcome := r.stream.pollRead body call.1 call.2
  ⟨outcome.2, r.delivered ++ outcome.1.bytes⟩

/-- **What has been handed out, and what is left in the buffer, are the first segments**, and the
fetch is that of the next. -/
structure InOrder (file : NzbFile) (r : Reading) : Prop where
  sorted : r.stream.segments = file.sorted
  delivers : r.delivered ++ r.stream.buffer = file.upTo body r.stream.currentSegmentIdx
  next : ∀ segment ∈ r.stream.fetchFuture,
    file.sorted[r.stream.currentSegmentIdx]? = some segment

end Reading

/-! ### One read -/

section Read

variable {body} {remaining : ℕ} {answers : List Fetch} {s : NzbFileStream} {file : NzbFile}
  {delivered : List UInt8}

namespace Reading.InOrder

/-- The fetch that is started is that of the next segment. -/
theorem startFetch (h : InOrder body file ⟨s, delivered⟩) : InOrder body file ⟨s.startFetch, delivered⟩ := by
  rw [NzbFileStream.startFetch]
  split
  · next segment hnone hsegment =>
    constructor
    · exact h.sorted
    · exact h.delivers
    · intro segment' heq
      obtain rfl : segment = segment' := Option.some.inj heq
      rw [← h.sorted]
      exact hsegment
  · exact h

/-- After a fetch that failed the segment is still the next. -/
theorem endFetch (h : InOrder body file ⟨s, delivered⟩) : InOrder body file ⟨s.endFetch, delivered⟩ := by
  constructor
  · exact h.sorted
  · exact h.delivers
  · intro segment heq
    cases heq

/-- Looking at a fetch hands nothing out, and comes to no end of the file. -/
theorem pollFetch (h : InOrder body file ⟨s, delivered⟩) (hbuffer : s.buffer = []) (answer : Fetch) :
    InOrder body file ⟨(s.pollFetch body answer).2, delivered⟩ ∧
      ∀ p ∈ (s.pollFetch body answer).1, p.bytes = [] ∧ p ≠ .ready [] := by
  have hfailed : ∀ kind message, (ReadPoll.failed kind message).bytes = [] ∧
      ReadPoll.failed kind message ≠ .ready [] := fun kind message => ⟨rfl, by simp⟩
  unfold NzbFileStream.pollFetch
  split
  · next segment hfetch =>
    have hsegment := h.next segment hfetch
    split
    · next decoded hdecode =>
      refine ⟨⟨h.sorted, ?_, fun segment' heq => ?_⟩, fun p hp => ?_⟩
      · have hold := h.delivers
        rw [hbuffer, List.append_nil] at hold
        have hseg : segment.decoded body = decoded := by rw [NzbSegment.decoded, hdecode]
        calc delivered ++ decoded
            = file.upTo body s.currentSegmentIdx ++ segment.decoded body := by rw [← hold, hseg]
          _ = file.upTo body (s.currentSegmentIdx + 1) := (NzbFile.upTo_succ body hsegment).symm
      · cases heq
      · cases hp
    · refine ⟨h.endFetch, fun p hp => ?_⟩
      cases hp
      exact hfailed _ _
  · refine ⟨h.endFetch, fun p hp => ?_⟩
    cases hp
    exact hfailed _ _
  · refine ⟨h.endFetch, fun p hp => ?_⟩
    cases hp
    exact hfailed _ _
  · refine ⟨h, fun p hp => ?_⟩
    cases hp
    exact ⟨rfl, by simp⟩

/-- Bytes go from the buffer to the reader. -/
theorem take (h : InOrder body file ⟨s, delivered⟩) (n : ℕ) :
    InOrder body file ⟨{ s with buffer := s.buffer.drop n }, delivered ++ s.buffer.take n⟩ := by
  constructor
  · exact h.sorted
  · have hall := h.delivers
    rw [← List.take_append_drop n s.buffer, ← List.append_assoc] at hall
    exact hall
  · exact h.next

/-- Behind the last segment nothing is left. -/
theorem delivered_eq (h : InOrder body file ⟨s, delivered⟩) (hbuffer : s.buffer = [])
    (hend : s.segments.length ≤ s.currentSegmentIdx) : delivered = file.content body := by
  have hall := h.delivers
  rw [hbuffer, List.append_nil] at hall
  exact hall.trans (NzbFile.upTo_of_length_le body (h.sorted ▸ hend))

/-- **A read keeps the order**, and comes to the end only behind the last segment. -/
theorem pollRead (h : InOrder body file ⟨s, delivered⟩) :
    InOrder body file ⟨(s.pollRead body remaining answers).2,
      delivered ++ (s.pollRead body remaining answers).1.bytes⟩ ∧
    ((s.pollRead body remaining answers).1 = .ready [] → 0 < remaining →
      delivered = file.content body) := by
  -- the induction is on what is seen of the fetches, one for each turn of the loop
  induction answers generalizing s with
  | nil =>
    rw [NzbFileStream.pollRead]
    split
    · next hbuffer =>
      refine ⟨h.take remaining, fun hnil hpos => absurd ?_ hbuffer⟩
      simpa [Nat.pos_iff_ne_zero.mp hpos] using hnil
    · next hbuffer =>
      split
      · next hend =>
        exact ⟨by simpa [ReadPoll.bytes] using h, fun _ _ => h.delivered_eq (not_not.mp hbuffer) hend.1⟩
      · exact ⟨by simpa [ReadPoll.bytes] using h.startFetch, fun hnil => by simp at hnil⟩
  | cons answer answers ih =>
    rw [NzbFileStream.pollRead]
    split
    · next hbuffer =>
      refine ⟨h.take remaining, fun hnil hpos => absurd ?_ hbuffer⟩
      simpa [Nat.pos_iff_ne_zero.mp hpos] using hnil
    · next hbuffer =>
      split
      · next hend =>
        exact ⟨by simpa [ReadPoll.bytes] using h, fun _ _ => h.delivered_eq (not_not.mp hbuffer) hend.1⟩
      · have hempty : s.startFetch.buffer = [] := by
          rw [NzbFileStream.startFetch]
          split <;> exact not_not.mp hbuffer
        obtain ⟨hnext, hpoll⟩ := h.startFetch.pollFetch hempty answer
        split
        · next p s' heq =>
          rw [heq] at hnext hpoll
          obtain ⟨hbytes, hne⟩ := hpoll p rfl
          exact ⟨by simpa [hbytes] using hnext, fun hnil => absurd hnil hne⟩
        · next s' heq =>
          rw [heq] at hnext
          exact ih hnext

end Reading.InOrder

/-- **Every segment is delivered once, in order.**  Whatever the reads and the fetches come to, what has
been delivered and what is left in the buffer are the first segments; and a read of nothing means that
there is nothing more. -/
theorem segments_delivered (body : String → List UInt8) (file : NzbFile) (calls : List (ℕ × List Fetch)) :
    let r := calls.foldl (Reading.poll body) (Reading.new file)
    r.delivered <+: file.content body ∧
      r.delivered ++ r.stream.buffer = file.upTo body r.stream.currentSegmentIdx ∧
      ∀ remaining answers, 0 < remaining →
        (r.stream.pollRead body remaining answers).1 = .ready [] → r.delivered = file.content body := by
  have hnew : Reading.InOrder body file (Reading.new file) := by
    refine ⟨rfl, rfl, fun segment heq => ?_⟩
    cases heq
  have hrun : Reading.InOrder body file (calls.foldl (Reading.poll body) (Reading.new file)) := by
    induction calls using List.reverseRecOn with
    | nil => exact hnew
    | append_singleton calls call ih =>
      rw [List.foldl_append]
      exact ih.pollRead.1
  refine ⟨?_, hrun.delivers, fun remaining answers hpos hnil => hrun.pollRead.2 hnil hpos⟩
  have hprefix := List.prefix_append (calls.foldl (Reading.poll body) (Reading.new file)).delivered
    (calls.foldl (Reading.poll body) (Reading.new file)).stream.buffer
  rw [hrun.delivers] at hprefix
  exact hprefix.trans (file.upTo_prefix body _)

end Read

end StreamServer.Nzb

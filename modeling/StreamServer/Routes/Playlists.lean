import StreamServer.Routes.Hls

/-!
# The entries of a playlist

A playlist has an entry for each segment, and the name in the entry is read as the segment that it
is written for.

* `segmentOf_segmentName` — a name is read as the segment that it names.
* `uriLines_getStreamPlaylist` — what a client finds in a playlist.
-/

namespace StreamServer.Routes

open Router Uri

/-! ### Names of segments -/

variable {track : Option ℕ} {i : ℕ}

/-- What stands in the name of a segment in front of its ending. -/
def segmentStem (track : Option ℕ) (i : ℕ) : List Char :=
  match track with
  | some audioIdx => "audio-".toList ++ Nat.toDigits 10 audioIdx ++ '-' :: Nat.toDigits 10 i
  | none => Nat.toDigits 10 i

theorem segmentStem_none : segmentStem none i = Nat.toDigits 10 i := rfl

theorem segmentStem_some (k : ℕ) : segmentStem (some k) i =
    "audio-".toList ++ Nat.toDigits 10 k ++ '-' :: Nat.toDigits 10 i := rfl

theorem segmentName_eq : segmentName track i = segmentStem track i ++ ".ts".toList := by
  cases track with
  | none => rfl
  | some audioIdx => rfl

theorem mem_segmentName {c : Char} (h : c ∈ segmentName track i) :
    c.isDigit = true ∨ c ∈ "audio-.ts".toList := by
  have hjoin : "audio-.ts".toList = "audio-".toList ++ ".ts".toList := by decide
  rw [segmentName_eq] at h
  rw [hjoin]
  rcases List.mem_append.mp h with h | h
  · cases track with
    | none => exact Or.inl (Decimal.isDigit_of_mem h)
    | some audioIdx =>
      rcases List.mem_append.mp h with h | h
      · rcases List.mem_append.mp h with h | h
        · exact Or.inr (List.mem_append_left ".ts".toList h)
        · exact Or.inl (Decimal.isDigit_of_mem h)
      · rcases List.mem_cons.mp h with rfl | h
        · exact Or.inr (by decide)
        · exact Or.inl (Decimal.isDigit_of_mem h)
  · exact Or.inr (List.mem_append_right "audio-".toList h)

/-- A character that is neither a digit nor one of a few others is not in a name. -/
theorem ne_of_mem_segmentName {c d : Char} (h : c ∈ segmentName track i)
    (hd : d.isDigit = false ∧ d ∉ "audio-.ts".toList) : c ≠ d := by
  intro heq
  subst heq
  rcases mem_segmentName h with hdigit | hmem
  · rw [hd.1] at hdigit
    cases hdigit
  · exact hd.2 hmem

theorem suffix_segmentName : ".ts".toList <:+ segmentName track i := by
  rw [segmentName_eq]
  exact List.suffix_append _ _

theorem segmentName_ne {word : List Char} (h : ¬ ".ts".toList <:+ word) :
    segmentName track i ≠ word := by
  intro heq
  exact h (heq ▸ suffix_segmentName)

/-- No other ending stands there. -/
theorem not_suffix_segmentName {word : List Char} (hlength : 3 ≤ word.length)
    (h : ¬ ".ts".toList <:+ word) : ¬ word <:+ segmentName track i := by
  intro hword
  exact h (List.suffix_of_suffix_length_le suffix_segmentName hword hlength)

/-- A name begins with a digit or with `a`. -/
theorem head_segmentName : ∃ c, (segmentName track i).head? = some c ∧
    (c.isDigit = true ∨ c = 'a') := by
  cases track with
  | none =>
    obtain ⟨c, rest, hdigits⟩ := List.exists_cons_of_ne_nil (Nat.toDigits_ne_nil (n := i) (b := 10))
    have hc : c ∈ Nat.toDigits 10 i := hdigits ▸ List.mem_cons_self
    refine ⟨c, ?_, Or.inl (Decimal.isDigit_of_mem hc)⟩
    rw [segmentName_eq, segmentStem_none, hdigits]
    rfl
  | some audioIdx => exact ⟨'a', rfl, Or.inr rfl⟩

theorem not_begins_segmentName {c : Char} {word : List Char}
    (hc : c.isDigit = false ∧ c ≠ 'a') : ¬ c :: word <+: segmentName track i := by
  intro h
  obtain ⟨rest, hrest⟩ := h
  obtain ⟨d, hd, hdigit⟩ := @head_segmentName track i
  rw [← hrest] at hd
  cases hd
  rcases hdigit with hdigit | rfl
  · rw [hc.1] at hdigit
    cases hdigit
  · exact hc.2 rfl

/-- The last character in front of the ending is a digit. -/
theorem not_suffix_segmentStem : ¬ ".ts".toList <:+ segmentStem track i := by
  intro h
  obtain ⟨front, hfront⟩ : ∃ front, segmentStem track i = front ++ Nat.toDigits 10 i := by
    cases track with
    | none => exact ⟨[], rfl⟩
    | some audioIdx => exact ⟨"audio-".toList ++ Nat.toDigits 10 audioIdx ++ ['-'], by simp [segmentStem_some]⟩
  obtain ⟨rest, hrest⟩ := h
  have hlast : (segmentStem track i).getLast? = (Nat.toDigits 10 i).getLast? := by
    rw [hfront, List.getLast?_append_of_ne_nil _ Nat.toDigits_ne_nil]
  have hs : (segmentStem track i).getLast? = some 's' := by
    rw [← hrest, List.getLast?_append_of_ne_nil _ (by decide)]
    rfl
  exact Decimal.notMem_digits (by decide) (List.mem_of_getLast? (hlast.symm.trans hs))

theorem trimEndMatches_segmentName :
    (segmentName track i).trimEndMatches ".ts".toList = segmentStem track i := by
  rw [segmentName_eq]
  exact List.trimEndMatches_append (by decide) not_suffix_segmentStem

/-- **A name is read as the segment that it names.** -/
theorem segmentOf_segmentName (hi : i < 2 ^ 64) (htrack : ∀ k ∈ track, k < 2 ^ 64) :
    segmentOf (String.ofList (segmentName track i)) = .ok (i, track) := by
  rw [segmentOf, @String.toList_ofList (segmentName track i), trimEndMatches_segmentName]
  cases track with
  | none =>
    have hnot : ¬ "audio-".toList <+: Nat.toDigits 10 i := by
      intro h
      exact Decimal.notMem_digits (by decide) (h.subset (List.mem_cons_self (a := 'a')))
    rw [segmentStem_none, if_neg hnot, parseUsize, Decimal.parse_digits hi]
  | some k =>
    have hsplit : (segmentStem (some k) i).splitOn '-' =
        ["audio".toList, Nat.toDigits 10 k, Nat.toDigits 10 i] := by
      have hpieces : ∀ piece ∈ ["audio".toList, Nat.toDigits 10 k, Nat.toDigits 10 i],
          '-' ∉ piece := by
        intro piece hpiece
        simp only [List.mem_cons, List.not_mem_nil, or_false] at hpiece
        rcases hpiece with rfl | rfl | rfl
        · decide
        · exact Decimal.notMem_digits (by decide)
        · exact Decimal.notMem_digits (by decide)
      rw [← List.splitOn_intercalate '-' hpieces (by simp)]
      simp [segmentStem_some]
    have haudio : "audio-".toList <+: segmentStem (some k) i := by
      rw [segmentStem_some, List.append_assoc]
      exact List.prefix_append _ _
    rw [if_pos haudio, hsplit]
    dsimp only
    rw [parseUsize, parseUsize, Decimal.parse_digits hi, Decimal.parse_digits (htrack k rfl)]
    rfl

/-! ### Lines of playlists -/

/-- A text on one line. -/
def OneLine (text : List Char) : Prop := ∀ c ∈ text, c ≠ '\n' ∧ c ≠ '\r'

theorem OneLine.append {text text' : List Char} (h : OneLine text) (h' : OneLine text') :
    OneLine (text ++ text') := by
  intro c hc
  rcases List.mem_append.mp hc with hc | hc
  · exact h c hc
  · exact h' c hc

theorem oneLine_digits {text : List Char} (h : ∀ c ∈ text, c.isDigit = true) : OneLine text := by
  intro c hc
  constructor
  · intro heq
    exact absurd (h c hc) (by rw [heq]; decide)
  · intro heq
    exact absurd (h c hc) (by rw [heq]; decide)

theorem oneLine_number (n : ℕ) : OneLine (Nat.toDigits 10 n) :=
  oneLine_digits fun _ hc => Decimal.isDigit_of_mem hc

theorem oneLine_single {c : Char} (h : c ≠ '\n' ∧ c ≠ '\r') : OneLine [c] := by
  intro d hd
  rwa [List.mem_singleton.mp hd]

theorem oneLine_fixedSix (q : ℚ) : OneLine (fixedSix q) := by
  have hsign : ∀ negative : Prop, [Decidable negative] →
      OneLine (if negative then ['-'] else []) := by
    intro negative _
    split
    · exact oneLine_single (by decide)
    · exact fun _ hc => absurd hc List.not_mem_nil
  have hdecimals : OneLine (['.'] ++ Decimal.padded 6
      ((roundHalfEven (q * 1000000)).natAbs % 1000000)) :=
    (oneLine_single (by decide)).append
      (oneLine_digits fun _ hc => Decimal.isDigit_of_mem_padded hc)
  exact ((hsign _).append (oneLine_number _)).append hdecimals

theorem oneLine_query (query : Query) : OneLine query.1.toList := by
  intro c hc
  constructor
  · intro heq
    exact absurd (query.2 c hc) (by rw [heq]; decide)
  · intro heq
    exact absurd (query.2 c hc) (by rw [heq]; decide)

/-- The entry of a segment. -/
def segmentUri (track : Option ℕ) (query : Query) (i : ℕ) : List Char :=
  "./".toList ++ segmentName track i ++ '?' :: query.1.toList

theorem oneLine_segmentUri (track : Option ℕ) (query : Query) (i : ℕ) :
    OneLine (segmentUri track query i) := by
  have hname : OneLine (segmentName track i) := fun c hc =>
    ⟨ne_of_mem_segmentName hc (by decide), ne_of_mem_segmentName hc (by decide)⟩
  have hbase : OneLine "./".toList := by
    unfold OneLine
    decide
  exact (hbase.append hname).append ((oneLine_single (by decide)).append (oneLine_query query))

/-- A line that is a tag. -/
def IsTag (line : List Char) : Prop := line.head? = some '#' ∧ OneLine line

theorem IsTag.append {line text : List Char} (h : IsTag line) (htext : OneLine text) :
    IsTag (line ++ text) :=
  ⟨by rw [List.head?_append, h.1, Option.some_or], h.2.append htext⟩

theorem filter_tags {lines : List (List Char)} (h : ∀ line ∈ lines, IsTag line) :
    lines.filter isUriLine = [] := by
  rw [List.filter_eq_nil_iff]
  intro line hline huri
  rw [isUriLine, (h line hline).1] at huri
  cases huri

theorem isUriLine_segmentUri (track : Option ℕ) (query : Query) (i : ℕ) :
    isUriLine (segmentUri track query i) = true := rfl

/-- What a client finds in lines that are put together. -/
theorem uriLines_flatten {lines : List (List Char)} (h : ∀ line ∈ lines, OneLine line) :
    uriLines (lines.flatMap fun line => line ++ ['\n']) = lines.filter isUriLine := by
  rw [uriLines, List.textLines_flatten]
  intro line hline
  exact ⟨fun hmem => (h line hline _ hmem).1 rfl,
    fun hlast => (h line hline _ (List.mem_of_getLast? hlast)).2 rfl⟩

theorem isTag_reloadable {line : List Char} (h : line ∈ reloadableLines) : IsTag line := by
  revert line
  unfold IsTag OneLine
  decide

theorem isTag_head {line : List Char} {maxDuration : ℕ} (h : line ∈ headLines maxDuration) :
    IsTag line := by
  have hfixed : ∀ line ∈ ["#EXTM3U".toList, "#EXT-X-VERSION:3".toList,
      "#EXT-X-TARGETDURATION:".toList, "#EXT-X-MEDIA-SEQUENCE:0".toList,
      "#EXT-X-PLAYLIST-TYPE:VOD".toList], IsTag line := by
    unfold IsTag OneLine
    decide
  simp only [headLines, List.mem_cons, List.not_mem_nil, or_false] at h hfixed
  rcases h with h | h | h | h | h
  · exact hfixed line (Or.inl h)
  · exact hfixed line (Or.inr (Or.inl h))
  · rw [h]
    exact (hfixed _ (Or.inr (Or.inr (Or.inl rfl)))).append (oneLine_number maxDuration)
  · exact hfixed line (Or.inr (Or.inr (Or.inr (Or.inl h))))
  · exact hfixed line (Or.inr (Or.inr (Or.inr (Or.inr h))))

theorem isTag_extinf (duration : ℚ) : IsTag (extinf duration) := by
  have hfixed : IsTag "#EXTINF:".toList ∧ OneLine [','] := by
    unfold IsTag OneLine
    decide
  exact (hfixed.1.append (oneLine_fixedSix duration)).append hfixed.2

theorem isTag_endlist : IsTag endlist := by
  unfold IsTag OneLine
  decide

/-- **What a client finds in a playlist**: an entry for each segment. -/
theorem uriLines_getStreamPlaylist (probe : ProbeResult) (track : Option ℕ) (query : Query) :
    uriLines (getStreamPlaylist probe "./".toList track query.1.toList) =
      (List.range (getSegments probe.duration).length).map (segmentUri track query) := by
  rw [getStreamPlaylist, streamPlaylistLines]
  dsimp only
  split
  · next hnone =>
    rw [hnone, uriLines_flatten fun line hline => (isTag_reloadable hline).2,
      filter_tags fun line hline => isTag_reloadable hline]
    rfl
  · rw [uriLines_flatten, List.filter_append, List.filter_append,
      filter_tags fun line hline => isTag_head hline, List.filter_flatMap]
    · -- of the two lines of a segment the second is its entry
      have hentry : ∀ entry : (ℚ × ℚ) × ℕ, ([extinf entry.1.2,
          segmentUri track query entry.2].filter isUriLine) = [segmentUri track query entry.2] := by
        intro entry
        rw [List.filter_cons_of_neg, List.filter_cons_of_pos (isUriLine_segmentUri _ _ _),
          List.filter_nil]
        rw [isUriLine, (isTag_extinf entry.1.2).1]
        decide
      have hend : [endlist].filter isUriLine = [] :=
        filter_tags fun line hline => List.mem_singleton.mp hline ▸ isTag_endlist
      rw [hend, List.append_nil, List.nil_append, List.range_eq_range', ← List.zipIdx_map_snd,
        List.map_map, List.map_eq_flatMap]
      exact congrArg (List.flatMap · _) (funext hentry)
    · intro line hline
      rw [List.mem_append, List.mem_append, List.mem_flatMap, List.mem_singleton] at hline
      rcases hline with (hline | ⟨entry, -, hline⟩) | rfl
      · exact (isTag_head hline).2
      · rcases List.mem_pair.mp hline with rfl | rfl
        · exact (isTag_extinf _).2
        · exact oneLine_segmentUri _ _ _
      · exact isTag_endlist.2

end StreamServer.Routes

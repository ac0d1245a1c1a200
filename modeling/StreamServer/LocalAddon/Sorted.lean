import StreamServer.LocalAddon.Checked

/-!
# One parser

The parser is modelled twice: with its machine integers and panics, and without them, for torrents that
are accepted.  The first model keeps the entries of a dictionary in the order of their keys, as a tree
does, and the second one with the last one read in front.  But for that they read the same.

## Main definitions

* `BValue.sorted` — the value with the entries of its dictionaries in the order of the keys.
* `IsRead` — the second model reads this chunk, whatever comes behind it.

## Main results

* `sortedEntries_toMap` — both models insert the same entries.
* `begins` — what the second model reads, the first one reads.
* `isRead_value` — what is written for a value is read by the second model.
* `parseBencodeChecked_ok_iff` — **the models agree**.

## References

`server/src/local_addon/torrent.rs`, `parse_bencode`.
-/

namespace StreamServer.LocalAddon

open Checked

/-! ### The order of the entries -/

mutual

/-- The value with the entries of its dictionaries in the order of the keys. -/
def BValue.sorted : BValue → BValue
  | .int i => .int i
  | .str bytes => .str bytes
  | .list values => .list (sortedList values)
  | .dict entries => .dict (sortedEntries entries)

/-- The same for the values of a list. -/
def sortedList : List BValue → List BValue
  | [] => []
  | val :: vals => val.sorted :: sortedList vals

/-- The entries in the order of their keys. -/
def sortedEntries : List (Bytes × BValue) → List (Bytes × BValue)
  | [] => []
  | (key, val) :: entries => treeInsert key val.sorted (sortedEntries entries)

end

variable {key key' : Bytes} {val val' : BValue}

/-- Keys are compared in full. -/
theorem lt_or_eq_or_gt (key key' : Bytes) : key < key' ∨ key = key' ∨ key' < key := by
  by_contra hnot
  rw [not_or, not_or] at hnot
  exact hnot.2.1 (List.le_antisymm (List.not_lt.mp hnot.2.2) (List.not_lt.mp hnot.1))

/-- The later value of a key takes the place of the earlier one. -/
theorem treeInsert_self (map : List (Bytes × BValue)) :
    treeInsert key val (treeInsert key val' map) = treeInsert key val map := by
  induction map with
  | nil => simp [treeInsert, List.lt_irrefl]
  | cons entry map ih =>
    simp only [treeInsert]
    split
    · simp [treeInsert, List.lt_irrefl]
    · next hlt =>
      split
      · next hgt => rw [treeInsert, if_neg hlt, if_pos hgt, ih]
      · simp [treeInsert, List.lt_irrefl]

/-- The values of two keys come to stand in order. -/
theorem treeInsert_comm (hne : key ≠ key') (map : List (Bytes × BValue)) :
    treeInsert key val (treeInsert key' val' map) = treeInsert key' val' (treeInsert key val map) := by
  induction map with
  | nil =>
    rcases lt_or_eq_or_gt key key' with hlt | heq | hlt
    · simp [treeInsert, hlt, List.lt_asymm hlt]
    · exact absurd heq hne
    · simp [treeInsert, hlt, List.lt_asymm hlt]
  | cons entry map ih =>
    obtain ⟨present, stored⟩ := entry
    -- both keys against that of the entry, and against each other where they come before it
    rcases lt_or_eq_or_gt key present with hlt | heq | hlt <;>
      rcases lt_or_eq_or_gt key' present with hlt' | heq' | hlt'
    · rcases lt_or_eq_or_gt key key' with h | heq | h
      · simp [treeInsert, hlt, hlt', h, List.lt_asymm h]
      · exact absurd heq hne
      · simp [treeInsert, hlt, hlt', h, List.lt_asymm h]
    · subst heq'
      simp [treeInsert, hlt, List.lt_asymm hlt, List.lt_irrefl]
    · have h := List.lt_trans hlt hlt'
      simp [treeInsert, hlt, hlt', List.lt_asymm hlt', h, List.lt_asymm h]
    · subst heq
      simp [treeInsert, hlt', List.lt_asymm hlt', List.lt_irrefl]
    · exact absurd (heq.trans heq'.symm) hne
    · subst heq
      simp [treeInsert, hlt', List.lt_asymm hlt', List.lt_irrefl]
    · have h := List.lt_trans hlt' hlt
      simp [treeInsert, hlt, hlt', List.lt_asymm hlt, h, List.lt_asymm h]
    · subst heq'
      simp [treeInsert, hlt, List.lt_asymm hlt, List.lt_irrefl]
    · simp [treeInsert, hlt, hlt', List.lt_asymm hlt, List.lt_asymm hlt', ih]

/-- What `insert` drops is replaced in the tree. -/
theorem treeInsert_filter (map : List (Bytes × BValue)) :
    treeInsert key val (sortedEntries (map.filter fun entry => entry.1 != key)) =
      treeInsert key val (sortedEntries map) := by
  induction map with
  | nil => rfl
  | cons entry map ih =>
    obtain ⟨key', val'⟩ := entry
    by_cases heq : key' = key
    · subst heq
      rw [List.filter_cons_of_neg (by simp), ih, sortedEntries, treeInsert_self]
    · rw [List.filter_cons_of_pos (by simpa using heq), sortedEntries, sortedEntries,
        treeInsert_comm (Ne.symm heq), ih, treeInsert_comm heq]

theorem sortedEntries_insert (map : List (Bytes × BValue)) :
    sortedEntries (insert map key val) = treeInsert key val.sorted (sortedEntries map) := by
  rw [insert, sortedEntries, treeInsert_filter]

/-- **Both models insert the same entries.** -/
theorem sortedEntries_toMap (entries : List Entry) : sortedEntries (toMap entries) =
    insertAll [] (entries.map fun entry => (entry.key, entry.val.sorted)) := by
  suffices h : ∀ map,
      sortedEntries (entries.foldl (fun map entry => insert map entry.key entry.val) map) =
        insertAll (sortedEntries map) (entries.map fun entry => (entry.key, entry.val.sorted)) from h []
  induction entries with
  | nil => exact fun map => rfl
  | cons entry entries ih =>
    intro map
    rw [List.foldl_cons, ih, sortedEntries_insert]
    rfl

/-! ### What the second model reads is read by the first -/

variable {fuel : ℕ} {bytes rest : Bytes}

/-- A chunk of this length comes first, from which the first model reads the value. -/
def Begins (bytes : Bytes) (r : BValue × ℕ) : Prop :=
  ∃ chunk tail, bytes = chunk ++ tail ∧ r.2 = chunk.length ∧ Parses chunk r.1.sorted

/-- Such chunks for the values of a list come first, and an `e` behind them. -/
def BeginsList (bytes : Bytes) (r : List BValue × ℕ) : Prop :=
  ∃ chunks tail, bytes = chunks.flatten ++ 101 :: tail ∧ r.2 = chunks.flatten.length + 1 ∧
    List.Forall₂ Parses chunks (sortedList r.1)

/-- Such chunks for the entries of a dictionary come first, and an `e` behind them. -/
def BeginsDict (bytes : Bytes) (r : List Entry × ℕ) : Prop :=
  ∃ chunks tail, bytes = joined chunks ++ 101 :: tail ∧ r.2 = (joined chunks).length + 1 ∧
    List.Forall₂ ParsesEntry chunks (r.1.map fun entry => (entry.key, entry.val.sorted))

theorem colon_notMem {c : UInt8} {digits : Bytes} (hc : isDigit c = true) (hcolon : 58 ∉ digits) :
    58 ∉ c :: digits := by
  intro hmem
  rcases List.mem_cons.mp hmem with heq | hmem
  · exact (isDigit_ne hc).2.2.2.2 heq.symm
  · exact hcolon hmem

/-- What stands behind a colon. -/
theorem drop_colon (front rest : Bytes) : (front ++ 58 :: rest).drop (front.length + 1) = rest := by
  rw [← List.drop_drop, List.drop_left]
  rfl

/-- What the second model does with an integer. -/
theorem parseInt_eq {s : Bytes} (hs : 101 ∉ s) (rest : Bytes) :
    parseInt (105 :: (s ++ 101 :: rest)) = (parseI64 s).map fun i => (.int i, s.length + 2) := by
  have hnot : 101 ∉ 105 :: s := by
    intro hmem
    rcases List.mem_cons.mp hmem with heq | hmem
    · exact absurd heq (by decide)
    · exact hs hmem
  have htake : (105 :: s ++ 101 :: rest).take (s.length + 1) = 105 :: s := by
    rw [← List.length_cons (a := 105), List.take_left]
  rw [← List.cons_append, parseInt, idxOf?_first hnot, List.length_cons]
  simp only [Option.bind_eq_bind, Option.bind_some, htake, List.drop_succ_cons, List.drop_zero]
  cases parseI64 s <;> rfl

theorem begins_int {r : BValue × ℕ} (h : parseInt (105 :: rest) = some r) : Begins (105 :: rest) r := by
  by_cases hmem : 101 ∈ rest
  · obtain ⟨s, tail, rfl, hs⟩ := List.eq_append_cons_of_mem hmem
    rw [parseInt_eq hs, Option.map_eq_some_iff] at h
    obtain ⟨i, hi, rfl⟩ := h
    exact ⟨105 :: (s ++ [101]), tail, by simp, by simp, parses_int hs hi⟩
  · have hnone : (105 :: rest).idxOf? 101 = none := by
      rw [List.idxOf?_eq_none_iff]
      simpa using hmem
    rw [parseInt, hnone] at h
    cases h

theorem begins_str {c : UInt8} (hc : isDigit c = true) {r : BValue × ℕ}
    (h : parseStr (c :: rest) = some r) : Begins (c :: rest) r := by
  obtain ⟨colon, len, hcolon, hlen, hin, rfl⟩ := parseStr_eq h
  have hmem : 58 ∈ rest := by
    have hmem : 58 ∈ c :: rest := by
      by_contra hnot
      rw [List.idxOf?_eq_none_iff.mpr hnot] at hcolon
      cases hcolon
    rcases List.mem_cons.mp hmem with heq | hmem
    · exact absurd heq.symm (isDigit_ne hc).2.2.2.2
    · exact hmem
  obtain ⟨digits, tail, rfl, hdigits⟩ := List.eq_append_cons_of_mem hmem
  rw [← List.cons_append] at hcolon hlen hin ⊢
  obtain rfl : colon = (c :: digits).length := by
    rw [idxOf?_first (colon_notMem hc hdigits)] at hcolon
    exact (Option.some.inj hcolon).symm
  rw [List.take_left] at hlen
  rw [List.length_append, List.length_cons (a := 58)] at hin
  have hbody : (tail.take len).length = len := by
    rw [List.length_take]
    omega
  rw [drop_colon]
  refine ⟨c :: digits ++ 58 :: tail.take len, tail.drop len, by simp, ?_, ?_⟩
  · rw [List.length_append, List.length_cons (a := 58), hbody]
    dsimp only
    omega
  · exact parses_str hc hdigits (by rw [hlen, hbody])

theorem begins_parse (hlist : ∀ bytes r, listLoop fuel bytes = some r → BeginsList bytes r)
    (hdict : ∀ bytes r, dictLoop fuel bytes = some r → BeginsDict bytes r) {r : BValue × ℕ}
    (h : parse (fuel + 1) bytes = some r) : Begins bytes r := by
  cases bytes with
  | nil =>
    rw [parse] at h
    cases h
  | cons c rest =>
    rw [parse] at h
    split at h
    · next hi =>
      subst hi
      exact begins_int h
    split at h
    · next hl =>
      subst hl
      simp only [Option.bind_eq_bind, Option.bind_eq_some_iff, Option.pure_def, Option.some.injEq] at h
      obtain ⟨⟨values, len⟩, hloop, rfl⟩ := h
      obtain ⟨chunks, tail, rfl, hlen, hchunks⟩ := hlist _ _ hloop
      exact ⟨108 :: (chunks.flatten ++ [101]), tail, by simp, by simpa using hlen, parses_list hchunks⟩
    split at h
    · next hd =>
      subst hd
      simp only [Option.bind_eq_bind, Option.bind_eq_some_iff, Option.pure_def, Option.some.injEq] at h
      obtain ⟨⟨entries, len⟩, hloop, rfl⟩ := h
      obtain ⟨chunks, tail, rfl, hlen, hchunks⟩ := hdict _ _ hloop
      refine ⟨100 :: (joined chunks ++ [101]), tail, by simp, by simpa using hlen, ?_⟩
      rw [BValue.sorted, sortedEntries_toMap]
      exact parses_dict hchunks
    split at h
    · next hdigit => exact begins_str hdigit h
    · cases h

theorem begins_listLoop (hparse : ∀ bytes r, parse fuel bytes = some r → Begins bytes r)
    (hlist : ∀ bytes r, listLoop fuel bytes = some r → BeginsList bytes r) {r : List BValue × ℕ}
    (h : listLoop (fuel + 1) bytes = some r) : BeginsList bytes r := by
  cases bytes with
  | nil =>
    rw [listLoop] at h
    cases h
  | cons c rest =>
    rw [listLoop] at h
    split at h
    · next hend =>
      obtain rfl := Option.some.inj h
      exact ⟨[], rest, by simp [hend], rfl, List.Forall₂.nil⟩
    · simp only [Option.bind_eq_bind, Option.bind_eq_some_iff, Option.pure_def, Option.some.injEq] at h
      obtain ⟨⟨val, len⟩, hval, ⟨values, more⟩, hmore, rfl⟩ := h
      obtain ⟨chunk, tail, hbytes, hlen, hchunk⟩ := hparse _ _ hval
      dsimp only at hlen hmore
      rw [hbytes, hlen, List.drop_left] at hmore
      obtain ⟨chunks, tail', rfl, hlen', hchunks⟩ := hlist _ _ hmore
      refine ⟨chunk :: chunks, tail', by simp [hbytes], ?_, List.Forall₂.cons hchunk hchunks⟩
      rw [List.flatten_cons, List.length_append]
      dsimp only at hlen' ⊢
      omega

theorem begins_dictLoop (hparse : ∀ bytes r, parse fuel bytes = some r → Begins bytes r)
    (hdict : ∀ bytes r, dictLoop fuel bytes = some r → BeginsDict bytes r) {r : List Entry × ℕ}
    (h : dictLoop (fuel + 1) bytes = some r) : BeginsDict bytes r := by
  cases bytes with
  | nil =>
    rw [dictLoop] at h
    cases h
  | cons c rest =>
    rw [dictLoop] at h
    split at h
    · next hend =>
      obtain rfl := Option.some.inj h
      exact ⟨[], rest, by simp [joined, hend], rfl, List.Forall₂.nil⟩
    · simp only [Option.bind_eq_bind, Option.bind_eq_some_iff, Option.pure_def, Option.some.injEq] at h
      obtain ⟨⟨keyVal, keyLen⟩, hkeyVal, key, hkey, ⟨val, valLen⟩, hval, ⟨entries, more⟩, hmore,
        rfl⟩ := h
      obtain ⟨keyChunk, tail, hbytes, hkeyLen, hkeyChunk⟩ := hparse _ _ hkeyVal
      dsimp only at hkeyLen hkey hval hmore
      rw [hbytes, hkeyLen, List.drop_left] at hval
      obtain ⟨chunk, tail', rfl, hvalLen, hchunk⟩ := hparse _ _ hval
      dsimp only at hvalLen
      rw [hbytes, hkeyLen, hvalLen, ← List.append_assoc, ← List.length_append, List.drop_left] at hmore
      obtain ⟨chunks, tail'', rfl, hlen, hchunks⟩ := hdict _ _ hmore
      -- only a string is a key
      obtain rfl : keyVal = .str key := by
        cases keyVal with
        | str _ => rw [Option.some.inj hkey]
        | int _ | list _ | dict _ => cases hkey
      refine ⟨(keyChunk, chunk) :: chunks, tail'', by simp [hbytes, joined], ?_,
        List.Forall₂.cons ⟨hkeyChunk, hchunk⟩ hchunks⟩
      rw [joined, List.flatMap_cons, ← joined, List.length_append, List.length_append]
      dsimp only at hlen ⊢
      omega

theorem begins (fuel : ℕ) : (∀ bytes r, parse fuel bytes = some r → Begins bytes r) ∧
    (∀ bytes r, listLoop fuel bytes = some r → BeginsList bytes r) ∧
    ∀ bytes r, dictLoop fuel bytes = some r → BeginsDict bytes r := by
  induction fuel with
  | zero =>
    refine ⟨fun bytes r h => ?_, fun bytes r h => ?_, fun bytes r h => ?_⟩
    · rw [parse] at h
      cases h
    · rw [listLoop] at h
      cases h
    · rw [dictLoop] at h
      cases h
  | succ fuel ih =>
    obtain ⟨hparse, hlist, hdict⟩ := ih
    exact ⟨fun bytes r => begins_parse hlist hdict, fun bytes r => begins_listLoop hparse hlist,
      fun bytes r => begins_dictLoop hparse hdict⟩

/-! ### What is written for a value is read by the second model -/

/-- The second model reads this chunk, whatever comes behind it. -/
structure IsRead (chunk : Bytes) : Prop where
  head : ∃ c rest, chunk = c :: rest ∧ c ≠ 101
  reads : ∀ rest, ∃ val, parseBencode (chunk ++ rest) = some (val, chunk.length)

theorem isRead_int {chunk : Bytes} (h : IsInt chunk) : IsRead chunk := by
  cases h with
  | @mk s i hs hi =>
    refine ⟨⟨105, s ++ [101], rfl, by decide⟩, fun rest => ⟨.int i, ?_⟩⟩
    have hread : parse 1 (105 :: (s ++ 101 :: rest)) = some (.int i, s.length + 2) := by
      rw [parse, if_pos rfl, parseInt_eq hs, hi]
      rfl
    simpa using parseBencode_of_parse hread

/-- A string is read as a key, too. -/
theorem read_str {chunk : Bytes} (h : IsStr chunk) (rest : Bytes) :
    ∃ key, parseBencode (chunk ++ rest) = some (.str key, chunk.length) := by
  cases h with
  | @mk c digits body hc hcolon hlen =>
    obtain ⟨hi, hl, hd, -, -⟩ := isDigit_ne hc
    have hread : parse 1 (c :: digits ++ 58 :: (body ++ rest)) =
        some (.str body, (c :: digits).length + 1 + body.length) := by
      rw [List.cons_append, parse, if_neg hi, if_neg hl, if_neg hd, if_pos hc, ← List.cons_append,
        parseStr, idxOf?_first (colon_notMem hc hcolon)]
      simp only [Option.bind_eq_bind, Option.bind_some, List.take_left, hlen, drop_colon]
      rw [if_neg (by simp; omega)]
      rfl
    refine ⟨body, ?_⟩
    have hchunk : (c :: digits ++ 58 :: body).length = (c :: digits).length + 1 + body.length := by
      simp
      omega
    rw [hchunk, List.append_assoc, List.cons_append (a := 58)]
    exact parseBencode_of_parse hread

theorem isRead_str {chunk : Bytes} (h : IsStr chunk) : IsRead chunk where
  head := by
    cases h with
    | mk hc hcolon hlen => exact ⟨_, _, rfl, (isDigit_ne hc).2.2.2.1⟩
  reads rest := by
    obtain ⟨key, hkey⟩ := read_str h rest
    exact ⟨_, hkey⟩

/-- With as much fuel as this the chunk is read. -/
theorem parse_of_read {r : BValue × ℕ} (h : parseBencode bytes = some r)
    (hfuel : 2 * bytes.length ≤ fuel) : parse fuel bytes = some r :=
  ((settled _).1 bytes r h).again fuel hfuel

/-- **The loop over a list** reads chunks that stand in a row. -/
theorem listLoop_chunks {chunks : List Bytes} (h : ∀ chunk ∈ chunks, IsRead chunk) (rest : Bytes)
    (hfuel : 2 * (chunks.flatten ++ 101 :: rest).length + 1 ≤ fuel) :
    ∃ vals, listLoop fuel (chunks.flatten ++ 101 :: rest) = some (vals, chunks.flatten.length + 1) := by
  induction chunks generalizing fuel with
  | nil =>
    obtain ⟨fuel, rfl⟩ := Nat.exists_eq_succ_of_ne_zero (by omega : fuel ≠ 0)
    exact ⟨[], by rw [List.flatten_nil, List.nil_append, listLoop, if_pos rfl]; rfl⟩
  | cons chunk chunks ih =>
    obtain ⟨fuel, rfl⟩ := Nat.exists_eq_succ_of_ne_zero (by omega : fuel ≠ 0)
    obtain ⟨⟨c, tail, rfl, hc⟩, hreads⟩ := h chunk List.mem_cons_self
    obtain ⟨val, hval⟩ := hreads (chunks.flatten ++ 101 :: rest)
    rw [List.flatten_cons, List.append_assoc] at hfuel ⊢
    obtain ⟨vals, hvals⟩ := ih (fun chunk hchunk => h chunk (List.mem_cons_of_mem _ hchunk))
      (show 2 * (chunks.flatten ++ 101 :: rest).length + 1 ≤ fuel by
        rw [List.length_append, List.length_cons] at hfuel
        omega)
    refine ⟨val :: vals, ?_⟩
    rw [List.cons_append, listLoop, if_neg hc, ← List.cons_append, parse_of_read hval (by omega)]
    simp only [Option.bind_eq_bind, Option.bind_some, List.drop_left, hvals]
    rw [List.length_append, Nat.add_assoc]
    rfl

/-- **The loop over a dictionary** reads keys and values that stand in a row. -/
theorem dictLoop_chunks {chunks : List (Bytes × Bytes)} (hkeys : ∀ chunk ∈ chunks, IsStr chunk.1)
    (hvals : ∀ chunk ∈ chunks, IsRead chunk.2) (rest : Bytes)
    (hfuel : 2 * (joined chunks ++ 101 :: rest).length + 1 ≤ fuel) :
    ∃ entries, dictLoop fuel (joined chunks ++ 101 :: rest) =
      some (entries, (joined chunks).length + 1) := by
  induction chunks generalizing fuel with
  | nil =>
    obtain ⟨fuel, rfl⟩ := Nat.exists_eq_succ_of_ne_zero (by omega : fuel ≠ 0)
    exact ⟨[], by rw [joined, List.flatMap_nil, List.nil_append, dictLoop, if_pos rfl]; rfl⟩
  | cons chunk chunks ih =>
    obtain ⟨fuel, rfl⟩ := Nat.exists_eq_succ_of_ne_zero (by omega : fuel ≠ 0)
    obtain ⟨key, val⟩ := chunk
    have hkey := hkeys _ List.mem_cons_self
    obtain ⟨⟨c, tail, rfl, hc⟩, -⟩ := isRead_str hkey
    obtain ⟨keyVal, hkeyVal⟩ := read_str hkey (val ++ (joined chunks ++ 101 :: rest))
    obtain ⟨value, hvalue⟩ := (hvals _ List.mem_cons_self).reads (joined chunks ++ 101 :: rest)
    dsimp only at hkeyVal hvalue
    have hjoined : joined ((c :: tail, val) :: chunks) ++ 101 :: rest =
        (c :: tail) ++ (val ++ (joined chunks ++ 101 :: rest)) := by
      simp [joined]
    rw [hjoined] at hfuel ⊢
    have hlength : (c :: tail ++ (val ++ (joined chunks ++ 101 :: rest))).length =
        (c :: tail).length + (val.length + (joined chunks ++ 101 :: rest).length) := by
      rw [List.length_append, List.length_append]
    have hpos : (c :: tail).length = tail.length + 1 := rfl
    obtain ⟨entries, hentries⟩ := ih (fun chunk hchunk => hkeys chunk (List.mem_cons_of_mem _ hchunk))
      (fun chunk hchunk => hvals chunk (List.mem_cons_of_mem _ hchunk))
      (show 2 * (joined chunks ++ 101 :: rest).length + 1 ≤ fuel by omega)
    refine ⟨⟨keyVal, (c :: tail).length, value, val.length⟩ :: entries, ?_⟩
    have hfurther : (c :: tail ++ (val ++ (joined chunks ++ 101 :: rest))).drop
        ((c :: tail).length + val.length) = joined chunks ++ 101 :: rest := by
      rw [← List.drop_drop, List.drop_left, List.drop_left]
    have hvalLength : (val ++ (joined chunks ++ 101 :: rest)).length =
        val.length + (joined chunks ++ 101 :: rest).length := List.length_append
    rw [List.cons_append, dictLoop, if_neg hc, ← List.cons_append, parse_of_read hkeyVal (by omega)]
    simp only [Option.bind_eq_bind, Option.bind_some, BValue.asBytes, List.drop_left]
    rw [parse_of_read hvalue (by omega)]
    simp only [Option.bind_some, hfurther, hentries]
    have htotal : (joined ((c :: tail, val) :: chunks)).length =
        (c :: tail).length + val.length + (joined chunks).length := by
      simp [joined]
      omega
    rw [htotal, Nat.add_assoc _ (joined chunks).length]
    rfl

/-- **What is written for a value is read.** -/
theorem isRead_value {chunk : Bytes} (h : IsValue chunk) : IsRead chunk := by
  induction h with
  | int h => exact isRead_int h
  | str h => exact isRead_str h
  | @list chunks h ih =>
    refine ⟨⟨108, chunks.flatten ++ [101], rfl, by decide⟩, fun rest => ?_⟩
    obtain ⟨vals, hvals⟩ := listLoop_chunks ih rest (Nat.le_refl _)
    refine ⟨.list vals, ?_⟩
    have hbytes : 108 :: (chunks.flatten ++ [101]) ++ rest =
        108 :: (chunks.flatten ++ 101 :: rest) := by
      simp
    have hread : parse (2 * (chunks.flatten ++ 101 :: rest).length + 1 + 1)
        (108 :: (chunks.flatten ++ 101 :: rest)) =
          some (.list vals, chunks.flatten.length + 1 + 1) := by
      rw [parse, if_neg (by decide), if_pos rfl, hvals]
      rfl
    rw [hbytes, List.length_cons, List.length_append]
    exact parseBencode_of_parse hread
  | @dict chunks hkeys hvals ih =>
    refine ⟨⟨100, joined chunks ++ [101], rfl, by decide⟩, fun rest => ?_⟩
    obtain ⟨entries, hentries⟩ := dictLoop_chunks hkeys ih rest (Nat.le_refl _)
    refine ⟨.dict (toMap entries), ?_⟩
    have hbytes : 100 :: (joined chunks ++ [101]) ++ rest = 100 :: (joined chunks ++ 101 :: rest) := by
      simp
    have hread : parse (2 * (joined chunks ++ 101 :: rest).length + 1 + 1)
        (100 :: (joined chunks ++ 101 :: rest)) =
          some (.dict (toMap entries), (joined chunks).length + 1 + 1) := by
      rw [parse, if_neg (by decide), if_neg (by decide), if_pos rfl, hentries]
      rfl
    rw [hbytes, List.length_cons, List.length_append]
    exact parseBencode_of_parse hread

/-- **The models agree**: they read the same values with the same lengths, but for the order of the
entries that the second one keeps. -/
theorem parseBencodeChecked_ok_iff (hlength : bytes.length < 2 ^ 63) {len : ℕ} :
    parseBencodeChecked bytes = .ok (val, len) ↔
      ∃ read, parseBencode bytes = some (read, len) ∧ read.sorted = val := by
  have hfirst : ∀ {read len}, parseBencode bytes = some (read, len) →
      parseBencodeChecked bytes = .ok (read.sorted, len) := by
    intro read len h
    obtain ⟨chunk, tail, rfl, hlen, hparses⟩ := (begins _).1 bytes _ h
    rw [parseBencodeChecked, hparses.reads _ tail (Nat.le_refl _) hlength, ← hlen]
  constructor
  · intro h
    have hspec := outcome_spec hlength
    rw [h] at hspec
    obtain ⟨-, hin, hvalue, -⟩ := hspec
    obtain ⟨read, hread⟩ := (isRead_value hvalue).reads (bytes.drop len)
    rw [List.take_append_drop, List.length_take, Nat.min_eq_left hin] at hread
    refine ⟨read, hread, ?_⟩
    have hboth := (hfirst hread).symm.trans h
    exact (Prod.mk.inj (Except.ok.inj hboth)).1
  · rintro ⟨read, hread, rfl⟩
    exact hfirst hread

end StreamServer.LocalAddon

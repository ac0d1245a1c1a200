import StreamServer.LocalAddon.Sha1
import StreamServer.Nzb.Nntp

/-!
# Torrents of the local addon

A torrent is a bencoded dictionary; it is named by the hash of the text of its `info` entry, and its
files are listed in the value of this entry.  The value is taken from the parsed dictionary.  The text
is looked for in the input: it is what stands behind the first `4:info`.

## Main definitions

* `parseTorrent` — the hash and the files.
* `infoEntry` — the `info` entry of the root, and where its value stands.
* `Unmentioned` — the condition: nothing in front of the entry reads `4:info`.

## Main results

* `extractInfoBytes_eq_iff` — the text that is hashed is that of the entry just if the condition holds.
* `infoHash_iff` — the same, for a torrent that is accepted.

## References

`server/src/local_addon/torrent.rs`, `parse_torrent`, `extract_info_bytes`.
-/

namespace StreamServer.LocalAddon

/-- A part of the input. -/
structure Slice where
  start : ℕ
  len : ℕ
  deriving DecidableEq, Repr

/-- The bytes of the slice. -/
def Slice.of (s : Slice) (bytes : Bytes) : Bytes := (bytes.drop s.start).take s.len

/-- `TorrentFile`. -/
structure TorrentFile where
  path : Bytes
  length : ℕ
  deriving DecidableEq, Repr

/-- `Torrent`. -/
structure Torrent where
  infoHash : String
  files : List TorrentFile
  name : Option Bytes
  deriving DecidableEq, Repr

namespace BValue

/-- A string that is UTF-8. -/
def asStr (val : BValue) : Option Bytes := val.asBytes.filter Nzb.validUtf8

/-- `get` of a dictionary. -/
def get (val : BValue) (key : Bytes) : Option BValue := val.getDict.bind (·.lookup key)

/-- The length of a file, as `u64`. -/
def fileLength (val : BValue) : ℕ :=
  (((val.get [108, 101, 110, 103, 116, 104]).bind getInt).getD 0 % 2 ^ 64).toNat

/-- The name that the `info` dictionary has. -/
def name (val : BValue) : Option Bytes := (val.get [110, 97, 109, 101]).bind asStr

/-- The path of a file among several; what is not a string is left out. -/
def filePath (val : BValue) : Option Bytes :=
  ((val.get [112, 97, 116, 104]).bind getList).bind fun parts =>
    match parts.filterMap asStr with
    | [] => none
    | parts => some ([47].intercalate parts)

/-- The files that are listed in the value of `info`. -/
def files (val : BValue) : List TorrentFile :=
  match (val.get [102, 105, 108, 101, 115]).bind getList with
  | some values => values.filterMap fun val => val.filePath.map fun path => ⟨path, val.fileLength⟩
  | none =>
      match val.name with
      | some name => [⟨name, val.fileLength⟩]
      | none => []

end BValue

/-- `extract_info_bytes`: what stands behind the first `4:info`. -/
def extractInfoBytes (bytes : Bytes) : Option Slice := do
  let at_ ← bytes.occurrence? infoPattern
  let start := at_ + infoPattern.length
  let (_, len) ← parseBencode (bytes.drop start)
  pure ⟨start, len⟩

/-- `parse_torrent`. -/
def parseTorrent (bytes : Bytes) : Except String Torrent := do
  let (root, _) ← (parseBencode bytes).elim (.error "Invalid bencode") .ok
  let dict ← root.getDict.elim (.error "Root not a dict") .ok
  let info ← (dict.lookup infoKey).elim (.error "Missing info dict") .ok
  let infoBytes ← (extractInfoBytes bytes).elim (.error "Could not extract info bytes") .ok
  let _ ← info.getDict.elim (.error "Info not a dict") .ok
  pure ⟨sha1Str (infoBytes.of bytes), info.files, info.name⟩

/-! ### The entry of the root -/

/-- The entries with where their values begin. -/
def locate : ℕ → List Entry → List (ℕ × Entry)
  | _, [] => []
  | offset, entry :: entries =>
      (offset + entry.keyLen, entry) :: locate (offset + entry.keyLen + entry.valLen) entries

/-- The entries of a dictionary that is the whole value. -/
def rootEntries : Bytes → Option (List (ℕ × Entry))
  | [] => none
  | c :: rest =>
      if c = 100 then (dictLoop (2 * rest.length + 1) rest).map fun loop => locate 1 loop.1 else none

/-- **The `info` entry of the root**, and where its value begins; a later one replaces an earlier. -/
def infoEntry (bytes : Bytes) : Option (ℕ × Entry) :=
  (rootEntries bytes).bind fun entries => entries.reverse.find? fun entry => entry.2.key == infoKey

/-- **The condition.**  Nothing in front of the value reads `4:info`, but for its own key. -/
def Unmentioned (bytes : Bytes) (start : ℕ) : Prop :=
  ∀ m, m + infoPattern.length < start → ¬ infoPattern <+: bytes.drop m

/-- Other keys keep their values. -/
theorem lookup_filter_ne {key key' : Bytes} (hne : key' ≠ key) (map : List (Bytes × BValue)) :
    (map.filter fun entry => entry.1 != key).lookup key' = map.lookup key' := by
  induction map with
  | nil => rfl
  | cons entry map ih =>
    obtain ⟨k, v⟩ := entry
    rw [List.filter_cons, List.lookup_cons]
    by_cases hk : k = key
    · subst hk
      rw [beq_eq_false_iff_ne.mpr hne, if_neg (by simp), ih]
    · rw [if_pos (by simpa using hk), List.lookup_cons, ih]

theorem lookup_insert (map : List (Bytes × BValue)) (key key' : Bytes) (val : BValue) :
    (insert map key val).lookup key' = if key == key' then some val else map.lookup key' := by
  rw [insert, List.lookup_cons]
  by_cases heq : key' = key
  · subst heq
    simp
  · rw [beq_eq_false_iff_ne.mpr heq, beq_eq_false_iff_ne.mpr (Ne.symm heq), if_neg Bool.false_ne_true]
    exact lookup_filter_ne heq map

/-- The value of a key is that of its last entry. -/
theorem lookup_toMap (entries : List Entry) (key : Bytes) :
    (toMap entries).lookup key = (entries.reverse.find? (·.key == key)).map (·.val) := by
  induction entries using List.reverseRecOn with
  | nil => rfl
  | append_singleton entries entry ih =>
    rw [toMap, List.foldl_append, ← toMap, List.reverse_append]
    simp only [List.foldl_cons, List.foldl_nil, lookup_insert, List.reverse_cons, List.reverse_nil,
      List.nil_append, List.cons_append, List.find?_cons, ih]
    cases entry.key == key <;> rfl

theorem map_snd_locate (offset : ℕ) (entries : List Entry) :
    (locate offset entries).map (·.2) = entries := by
  induction entries generalizing offset with
  | nil => rfl
  | cons entry entries ih => rw [locate, List.map_cons, ih]

/-- What is read at the place of an entry. -/
structure At (bytes : Bytes) (start : ℕ) (entry : Entry) : Prop where
  inside : entry.keyLen ≤ start
  key : ∃ fuel, parse fuel (bytes.drop (start - entry.keyLen)) = some (.str entry.key, entry.keyLen)
  value : parseBencode (bytes.drop start) = some (entry.val, entry.valLen)

theorem at_of_mem_locate {bytes : Bytes} {fuel offset len : ℕ} {entries : List Entry}
    (h : dictLoop fuel (bytes.drop offset) = some (entries, len)) :
    ∀ e ∈ locate offset entries, At bytes e.1 e.2 := by
  induction entries generalizing fuel offset len with
  | nil =>
    intro e he
    cases he
  | cons entry entries ih =>
    obtain ⟨fuel', hkey, hval, more, hmore⟩ := dictLoop_cons h
    rw [List.drop_drop] at hval hmore
    intro e he
    rcases List.mem_cons.mp he with rfl | he
    · refine ⟨Nat.le_add_left _ _, ⟨fuel', ?_⟩, parseBencode_of_parse hval⟩
      rw [Nat.add_sub_cancel]
      exact hkey
    · rw [← Nat.add_assoc] at hmore
      exact ih hmore e he

/-- The key of the entry stands in front of the value. -/
theorem At.infoPattern {bytes : Bytes} {start : ℕ} {entry : Entry} (h : At bytes start entry)
    (hkey : entry.key = infoKey) :
    6 ≤ start ∧ LocalAddon.infoPattern <+: bytes.drop (start - 6) := by
  obtain ⟨fuel, hparse⟩ := h.key
  rw [hkey] at hparse
  obtain ⟨hlen, hpre⟩ := infoPattern_of_parse hparse
  have hin := h.inside
  rw [List.drop_drop] at hpre
  have hstart : start - entry.keyLen + (entry.keyLen - 6) = start - 6 := by omega
  rw [hstart] at hpre
  exact ⟨by omega, hpre⟩

/-- **The text that is hashed is that of the entry** just if nothing in front of it reads `4:info`. -/
theorem extractInfoBytes_eq_iff {bytes : Bytes} {start : ℕ} {entry : Entry}
    (h : At bytes start entry) (hkey : entry.key = infoKey) :
    extractInfoBytes bytes = some ⟨start, entry.valLen⟩ ↔ Unmentioned bytes start := by
  obtain ⟨hsix, hpre⟩ := h.infoPattern hkey
  have hlength : LocalAddon.infoPattern.length = 6 := rfl
  simp only [extractInfoBytes, Option.bind_eq_bind, Option.bind_eq_some_iff, Option.pure_def,
    Option.some.injEq, Slice.mk.injEq]
  constructor
  · intro hextract
    obtain ⟨n, hn, r, -, hstart, -⟩ := hextract
    obtain ⟨-, -, hnone⟩ := List.occurrence?_eq_some_iff.mp hn
    intro m hm
    exact hnone m (by omega)
  · intro hun
    refine ⟨start - 6, List.occurrence?_eq_some_iff.mpr ⟨?_, hpre, ?_⟩, (entry.val, entry.valLen), ?_, ?_, rfl⟩
    · have hle := hpre.length_le
      rw [List.length_drop] at hle
      omega
    · intro m hm
      exact hun m (by omega)
    · rw [hlength, Nat.sub_add_cancel hsix]
      exact h.value
    · omega

/-- The `info` entry is that of the map. -/
theorem infoEntry_of_lookup {rest : Bytes} {entries : List Entry} {more : ℕ} {info : BValue}
    (hloop : dictLoop (2 * rest.length + 1) rest = some (entries, more))
    (hlook : (toMap entries).lookup infoKey = some info) :
    ∃ start entry, infoEntry (100 :: rest) = some (start, entry) ∧ entry.key = infoKey ∧
      entry.val = info ∧ At (100 :: rest) start entry := by
  rw [lookup_toMap, ← map_snd_locate 1 entries, ← List.map_reverse, List.find?_map,
    Option.map_map, Option.map_eq_some_iff] at hlook
  obtain ⟨⟨start, entry⟩, hfind, rfl⟩ := hlook
  have hinfo : infoEntry (100 :: rest) = some (start, entry) := by
    rw [infoEntry, rootEntries, if_pos rfl, hloop]
    exact hfind
  have hkey : entry.key = infoKey := by
    have hp := List.find?_some hfind
    simpa using hp
  have hmem : (start, entry) ∈ locate 1 entries := by
    have hrev := List.mem_of_find?_eq_some hfind
    exact List.mem_reverse.mp hrev
  have hdrop : dictLoop (2 * rest.length + 1) ((100 :: rest : Bytes).drop 1) = some (entries, more) := hloop
  exact ⟨start, entry, hinfo, hkey, rfl, at_of_mem_locate hdrop _ hmem⟩

/-- A step that needs a value. -/
theorem ok_of_bind {α β : Type} {o : Option α} {message : String} {f : α → Except String β} {b : β}
    (h : (o.elim (.error message) .ok >>= f) = .ok b) : ∃ a, o = some a ∧ f a = .ok b := by
  cases o with
  | none => cases h
  | some a => exact ⟨a, rfl, h⟩

/-- What is accepted has an `info` entry, from which the files are taken; and what is hashed is what
stands behind the first `4:info`. -/
theorem parseTorrent_ok {bytes : Bytes} {torrent : Torrent} (h : parseTorrent bytes = .ok torrent) :
    ∃ start entry hashed, infoEntry bytes = some (start, entry) ∧ entry.key = infoKey ∧
      At bytes start entry ∧ extractInfoBytes bytes = some hashed ∧
      torrent.infoHash = sha1Str (hashed.of bytes) ∧ torrent.files = entry.val.files := by
  obtain ⟨⟨root, len⟩, hroot, h⟩ := ok_of_bind h
  obtain ⟨dict, hdict, h⟩ := ok_of_bind h
  obtain ⟨info, hlook, h⟩ := ok_of_bind h
  obtain ⟨hashed, hextract, h⟩ := ok_of_bind h
  obtain ⟨-, -, h⟩ := ok_of_bind h
  obtain rfl := Except.ok.inj h
  obtain rfl : root = .dict dict := by
    cases root with
    | dict entries => exact congrArg BValue.dict (Option.some.inj hdict)
    | int _ | str _ | list _ => cases hdict
  obtain ⟨rest, entries, more, rfl, hloop, rfl⟩ := parse_dict hroot
  obtain ⟨start, entry, hinfo, hkey, rfl, hat⟩ := infoEntry_of_lookup hloop hlook
  exact ⟨start, entry, hashed, hinfo, hkey, hat, hextract, rfl, rfl⟩

/-- **The torrent is named by the hash of its `info` entry** just if nothing in front of the entry reads
`4:info`.  The files are those of the entry in any case. -/
theorem infoHash_iff {bytes : Bytes} {torrent : Torrent} (h : parseTorrent bytes = .ok torrent) :
    ∃ start entry hashed, infoEntry bytes = some (start, entry) ∧ extractInfoBytes bytes = some hashed ∧
      torrent.infoHash = sha1Str (hashed.of bytes) ∧ torrent.files = entry.val.files ∧
      (hashed = ⟨start, entry.valLen⟩ ↔ Unmentioned bytes start) := by
  obtain ⟨start, entry, hashed, hinfo, hkey, hat, hextract, hhash, hfiles⟩ := parseTorrent_ok h
  refine ⟨start, entry, hashed, hinfo, hextract, hhash, hfiles, ?_⟩
  rw [← extractInfoBytes_eq_iff hat hkey, hextract, Option.some.injEq]

/-- `d8:announce3:abc4:infod4:name1:aee`. -/
def announcedTorrent : Bytes :=
  [100, 56, 58, 97, 110, 110, 111, 117, 110, 99, 101, 51, 58, 97, 98, 99, 52, 58, 105, 110, 102, 111,
    100, 52, 58, 110, 97, 109, 101, 49, 58, 97, 101, 101]

/-- A tracker stands in front of the entry. -/
theorem infoHash_iff_announced : ∃ torrent, parseTorrent announcedTorrent = .ok torrent ∧
    torrent.infoHash = sha1Str ((Slice.mk 22 11).of announcedTorrent) := by
  have hok : parseTorrent announcedTorrent =
      .ok ⟨sha1Str ((Slice.mk 22 11).of announcedTorrent), [⟨[97], 0⟩], some [97]⟩ := by rfl
  have hentry : infoEntry announcedTorrent =
      some (22, ⟨infoKey, 6, .dict [([110, 97, 109, 101], .str [97])], 11⟩) := by rfl
  obtain ⟨start, entry, hashed, hinfo, -, hhash, -, hiff⟩ := infoHash_iff hok
  obtain ⟨rfl, rfl⟩ : start = 22 ∧ entry = ⟨infoKey, 6, .dict [([110, 97, 109, 101], .str [97])], 11⟩ := by
    simpa [hentry, eq_comm] using hinfo
  have hun : Unmentioned announcedTorrent 22 := by
    intro m hm
    have hlength : infoPattern.length = 6 := rfl
    have hfront : ∀ m < 16, ¬ infoPattern <+: announcedTorrent.drop m := by decide
    exact hfront m (by omega)
  rw [hiff.mpr hun] at hhash
  exact ⟨_, hok, hhash⟩

/-- `d8:announce9:4:infoi0e4:infod4:name1:aee`. -/
def mentioningTorrent : Bytes :=
  [100, 56, 58, 97, 110, 110, 111, 117, 110, 99, 101, 57, 58, 52, 58, 105, 110, 102, 111, 105, 48, 101] ++
    [52, 58, 105, 110, 102, 111, 100, 52, 58, 110, 97, 109, 101, 49, 58, 97, 101, 101]

/-- The announce URL reads `4:info`: the torrent is named by the hash of what comes then, and lists the
file of its entry. -/
theorem infoHash_other : ∃ torrent start entry, parseTorrent mentioningTorrent = .ok torrent ∧
    infoEntry mentioningTorrent = some (start, entry) ∧ torrent.files = entry.val.files ∧
      torrent.infoHash ≠ sha1Str ((Slice.mk start entry.valLen).of mentioningTorrent) := by
  refine ⟨⟨sha1Str [105, 48, 101], [⟨[97], 0⟩], some [97]⟩, 28,
    ⟨infoKey, 6, .dict [([110, 97, 109, 101], .str [97])], 11⟩, by rfl, by rfl, by rfl, by decide +kernel⟩

end StreamServer.LocalAddon

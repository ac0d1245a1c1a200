import StreamServer.LocalAddon.Bencode

/-!
# SHA-1

The hash that names a torrent, as the server computes it.

* `processChunk` — 64 bytes.
* `sha1Digest`, `sha1Str` — the hash of a byte string, and its hexadecimal digits.

## References

`server/src/local_addon/torrent.rs`, `Sha1`.
-/

namespace StreamServer.LocalAddon

/-- `Sha1::h`. -/
structure Sha1 where
  a : UInt32
  b : UInt32
  c : UInt32
  d : UInt32
  e : UInt32
  deriving DecidableEq, Repr

/-- `rotate_left(n)`. -/
def rotateLeft (x n : UInt32) : UInt32 := (x <<< n) ||| (x >>> (32 - n))

/-- `u32::from_be_bytes`. -/
def fromBeBytes (bytes : Bytes) : UInt32 := bytes.foldl (fun x b => (x <<< 8) ||| b.toUInt32) 0

/-- `u32::to_be_bytes`. -/
def toBeBytes (x : UInt32) : Bytes :=
  [(x >>> 24).toUInt8, (x >>> 16).toUInt8, (x >>> 8).toUInt8, x.toUInt8]

/-- As many full pieces as there are. -/
def asChunks (size : ℕ) (bytes : Bytes) : List Bytes :=
  (List.range (bytes.length / size)).map fun i => (bytes.drop (size * i)).take size

namespace Sha1

/-- `Sha1::new()`. -/
def new : Sha1 := ⟨0x67452301, 0xEFCDAB89, 0x98BADCFE, 0x10325476, 0xC3D2E1F0⟩

/-- The words behind the first sixteen; the last word comes first. -/
def extend : ℕ → List UInt32 → List UInt32
  | 0, w => w
  | n + 1, w =>
      extend n (rotateLeft (w.getD 2 0 ^^^ w.getD 7 0 ^^^ w.getD 13 0 ^^^ w.getD 15 0) 1 :: w)

/-- What goes into a round. -/
def mix (s : Sha1) (i : ℕ) : UInt32 × UInt32 :=
  if i < 20 then ((s.b &&& s.c) ||| (~~~s.b &&& s.d), 0x5A827999)
  else if i < 40 then (s.b ^^^ s.c ^^^ s.d, 0x6ED9EBA1)
  else if i < 60 then ((s.b &&& s.c) ||| (s.b &&& s.d) ||| (s.c &&& s.d), 0x8F1BBCDC)
  else (s.b ^^^ s.c ^^^ s.d, 0xCA62C1D6)

/-- A round of `process_chunk`. -/
def round (s : Sha1) (word : UInt32 × ℕ) : Sha1 :=
  let (f, k) := s.mix word.2
  ⟨rotateLeft s.a 5 + f + s.e + k + word.1, s.a, rotateLeft s.b 30, s.c, s.d⟩

/-- `process_chunk`. -/
def processChunk (s : Sha1) (chunk : Bytes) : Sha1 :=
  let w := (extend 64 ((asChunks 4 chunk).map fromBeBytes).reverse).reverse
  let t := w.zipIdx.foldl round s
  ⟨s.a + t.a, s.b + t.b, s.c + t.c, s.d + t.d, s.e + t.e⟩

/-- `update()`, over the chunks of the data. -/
def update (s : Sha1) (data : Bytes) : Sha1 := (asChunks 64 data).foldl processChunk s

end Sha1

/-- `while (padded.len() + 8) % 64 != 0 { padded.push(0) }`, of which there are less than 64 rounds. -/
def padLoop : ℕ → Bytes → Bytes
  | 0, padded => padded
  | rounds + 1, padded =>
      if (padded.length + 8) % 64 ≠ 0 then padLoop rounds (padded ++ [0]) else padded

/-- A one, zeros up to eight bytes before the end of a chunk, and the number of bits. -/
def padded (data : Bytes) : Bytes :=
  let bits := data.length * 8
  padLoop 63 (data ++ [0x80]) ++ toBeBytes (UInt32.ofNat (bits / 2 ^ 32)) ++
    toBeBytes (UInt32.ofNat bits)

/-- The digest of the data, as `finalize` gives it. -/
def sha1Digest (data : Bytes) : Bytes :=
  let s := Sha1.new.update (padded data)
  toBeBytes s.a ++ toBeBytes s.b ++ toBeBytes s.c ++ toBeBytes s.d ++ toBeBytes s.e

/-- The hexadecimal digit `n`, in lower case. -/
def hexDigit (n : ℕ) : Char := Char.ofNat (if n < 10 then 48 + n else 87 + n)

/-- `hex::encode`. -/
def hexEncode (bytes : Bytes) : String :=
  String.ofList (bytes.flatMap fun b => [hexDigit (b.toNat / 16), hexDigit (b.toNat % 16)])

/-- The digest as it is written. -/
def sha1Str (data : Bytes) : String := hexEncode (sha1Digest data)

/-- The hash of the empty string. -/
example : sha1Str [] = "da39a3ee5e6b4b0d3255bfef95601890afd80709" := by decide +kernel

end StreamServer.LocalAddon

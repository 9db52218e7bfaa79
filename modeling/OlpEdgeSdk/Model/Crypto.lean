import OlpEdgeSdk.Base.Sha256

/-!
# Hashes of the authentication requests

The signature of a request is a keyed hash that the code computes on its own. A character is a
signed byte, `unsigned char` and `uint32_t` are words of eight and thirty-two bits, a size has
sixty-four. A read behind the end of a vector has no result; the loops over fields of a fixed
size are inside their bounds. The memory of the message schedule is not cleared beyond its
first sixty-four bytes, so what it holds is given.

SOURCE: Crypto.cpp
-/

set_option autoImplicit false

namespace OlpEdgeSdk.Model.Crypto

open OlpEdgeSdk.Base.Sha256 (Byte)

/-! ## Macros -/

/-- SOURCE: Crypto.cpp:36 -/
def rotr (x : BitVec 32) (n : ℕ) : BitVec 32 := (x >>> n) ||| (x <<< (32 - n))

/-- SOURCE: Crypto.cpp:37 -/
def sha256Ch (x y z : BitVec 32) : BitVec 32 := (x &&& y) ^^^ (~~~x &&& z)

/-- SOURCE: Crypto.cpp:38 -/
def sha256Maj (x y z : BitVec 32) : BitVec 32 := (x &&& y) ^^^ (x &&& z) ^^^ (y &&& z)

/-- SOURCE: Crypto.cpp:39 -/
def sha256Sum0 (x : BitVec 32) : BitVec 32 := rotr x 2 ^^^ rotr x 13 ^^^ rotr x 22

/-- SOURCE: Crypto.cpp:40 -/
def sha256Sum1 (x : BitVec 32) : BitVec 32 := rotr x 6 ^^^ rotr x 11 ^^^ rotr x 25

/-- SOURCE: Crypto.cpp:41 -/
def sha256Sigma0 (x : BitVec 32) : BitVec 32 := rotr x 7 ^^^ rotr x 18 ^^^ (x >>> 3)

/-- SOURCE: Crypto.cpp:42 -/
def sha256Sigma1 (x : BitVec 32) : BitVec 32 := rotr x 17 ^^^ rotr x 19 ^^^ (x >>> 10)

/-- SOURCE: Crypto.cpp:44-55 -/
def sha256K : Vector (BitVec 32) 64 :=
  #v[0x428a2f98, 0x71374491, 0xb5c0fbcf, 0xe9b5dba5, 0x3956c25b, 0x59f111f1,
    0x923f82a4, 0xab1c5ed5, 0xd807aa98, 0x12835b01, 0x243185be, 0x550c7dc3,
    0x72be5d74, 0x80deb1fe, 0x9bdc06a7, 0xc19bf174, 0xe49b69c1, 0xefbe4786,
    0x0fc19dc6, 0x240ca1cc, 0x2de92c6f, 0x4a7484aa, 0x5cb0a9dc, 0x76f988da,
    0x983e5152, 0xa831c66d, 0xb00327c8, 0xbf597fc7, 0xc6e00bf3, 0xd5a79147,
    0x06ca6351, 0x14292967, 0x27b70a85, 0x2e1b2138, 0x4d2c6dfc, 0x53380d13,
    0x650a7354, 0x766a0abb, 0x81c2c92e, 0x92722c85, 0xa2bfe8a1, 0xa81a664b,
    0xc24b8b70, 0xc76c51a3, 0xd192e819, 0xd6990624, 0xf40e3585, 0x106aa070,
    0x19a4c116, 0x1e376c08, 0x2748774c, 0x34b0bcb5, 0x391c0cb3, 0x4ed8aa4a,
    0x5b9cca4f, 0x682e6ff3, 0x748f82ee, 0x78a5636f, 0x84c87814, 0x8cc70208,
    0x90befffa, 0xa4506ceb, 0xbef9a3f7, 0xc67178f2]

/-! ## One chunk -/

/-- SOURCE: Crypto.cpp:102-114 -/
def sha256Init : Vector (BitVec 32) 8 :=
  #v[0x6a09e667, 0xbb67ae85, 0x3c6ef372, 0xa54ff53a, 0x510e527f, 0x9b05688c, 0x1f83d9ab,
    0x5be0cd19]

/-- Four bytes of a chunk. SOURCE: Crypto.cpp:176-179 -/
def readWord (currentChunk : List Byte) (index : ℕ) : Option (BitVec 32) := do
  let b₀ ← currentChunk[index]?
  let b₁ ← currentChunk[index + 1]?
  let b₂ ← currentChunk[index + 2]?
  let b₃ ← currentChunk[index + 3]?
  return (b₀.setWidth 32 <<< 24) ||| (b₁.setWidth 32 <<< 16) ||| (b₂.setWidth 32 <<< 8) |||
    b₃.setWidth 32

/-- The first sixteen words, from the `i`-th on. SOURCE: Crypto.cpp:175-179 -/
def loadFrom (currentChunk : List Byte) (startIndex i : ℕ) (w : Vector (BitVec 32) 64) :
    Option (Vector (BitVec 32) 64) :=
  if h : i < 16 then do
    let word ← readWord currentChunk (startIndex + 4 * i)
    loadFrom currentChunk startIndex (i + 1) (w.set i word)
  else some w
termination_by 16 - i

/-- The other words, from the `i`-th on. SOURCE: Crypto.cpp:180-182 -/
def scheduleFrom (i : ℕ) (w : Vector (BitVec 32) 64) : Vector (BitVec 32) 64 :=
  if h : i < 64 then
    scheduleFrom (i + 1)
      (w.set i (sha256Sigma1 w[i - 2] + w[i - 7] + sha256Sigma0 w[i - 15] + w[i - 16]))
  else w
termination_by 64 - i

/-- The body of the loop over the rounds; each line reads what the lines before have written.
SOURCE: Crypto.cpp:189-201 -/
def transformRound (k w : BitVec 32) (workingVar : Vector (BitVec 32) 8) : Vector (BitVec 32) 8 :=
  let t1 := workingVar[7] + sha256Sum1 workingVar[4] +
    sha256Ch workingVar[4] workingVar[5] workingVar[6] + k + w
  let t2 := sha256Sum0 workingVar[0] + sha256Maj workingVar[0] workingVar[1] workingVar[2]
  let workingVar := workingVar.set 7 workingVar[6]
  let workingVar := workingVar.set 6 workingVar[5]
  let workingVar := workingVar.set 5 workingVar[4]
  let workingVar := workingVar.set 4 (workingVar[3] + t1)
  let workingVar := workingVar.set 3 workingVar[2]
  let workingVar := workingVar.set 2 workingVar[1]
  let workingVar := workingVar.set 1 workingVar[0]
  workingVar.set 0 (t1 + t2)

/-- The rounds, from the `i`-th on. SOURCE: Crypto.cpp:188-202 -/
def roundsFrom (w : Vector (BitVec 32) 64) (i : ℕ) (workingVar : Vector (BitVec 32) 8) :
    Vector (BitVec 32) 8 :=
  if h : i < 64 then roundsFrom w (i + 1) (transformRound sha256K[i] w[i] workingVar)
  else workingVar
termination_by 64 - i

/-- The hash value after the sixty-four bytes of a vector from an index on. Of the memory `fresh`
of the message schedule, `memset` clears as many bytes as there are words.
SOURCE: Crypto.cpp:169-209 -/
def sha256Transform (fresh : Vector (BitVec 32) 64) (currentChunk : List Byte)
    (startIndex : ℕ) (hashValue : Vector (BitVec 32) 8) : Option (Vector (BitVec 32) 8) := do
  let w := fresh.mapIdx fun i word => if i < 16 then 0 else word
  let w ← loadFrom currentChunk startIndex 0 w
  let w := scheduleFrom 16 w
  let workingVar := roundsFrom w 0 hashValue
  return hashValue.zipWith (· + ·) workingVar

/-! ## Hashes -/

/-- The bytes of a word of the hash value: the word is shifted by a byte three times.
SOURCE: Crypto.cpp:155-163 -/
def valueBytes (value : BitVec 32) : List Byte :=
  let v3 := value.setWidth 8
  let value := value >>> 8
  let v2 := value.setWidth 8
  let value := value >>> 8
  let v1 := value.setWidth 8
  let value := value >>> 8
  [value.setWidth 8, v1, v2, v3]

/-- What is left of the source behind its whole chunks, padded to one or two chunks.
SOURCE: Crypto.cpp:121-147 -/
def paddedChunks (src : List Byte) : List (List Byte) :=
  let length := src.length
  let chunksCount := length / 64
  let lastChunkSize := length % 64
  let ended := src.drop (chunksCount * 64) ++ [0x80#8]
  let chucksToProcess :=
    if lastChunkSize < 56 then [] else [ended ++ List.replicate (64 - ended.length) 0]
  let lastChunk := if lastChunkSize < 56 then ended else []
  let lastChunk := lastChunk ++ List.replicate (56 - lastChunk.length) 0
  let srcLength : BitVec 64 := BitVec.ofNat 64 (length * 8)
  let lastChunk := lastChunk ++
    [8, 7, 6, 5, 4, 3, 2, 1].map fun i => ((srcLength >>> ((i - 1) * 8)) &&& 0xff).setWidth 8
  chucksToProcess ++ [lastChunk]

/-- The whole chunks are hashed in place, the padded ones after them.
SOURCE: Crypto.cpp:116-167 -/
def sha256 (fresh : Vector (BitVec 32) 64) (src : List Byte) : Option (List Byte) := do
  let chunksCount := src.length / 64
  let hashValue ← (List.range chunksCount).foldlM (fun hashValue i =>
    sha256Transform fresh src (i * 64) hashValue) sha256Init
  let hashValue ← (paddedChunks src).foldlM (fun hashValue chunk =>
    sha256Transform fresh chunk 0 hashValue) hashValue
  return hashValue.toList.flatMap valueBytes

/-- SOURCE: Crypto.cpp:211-217 -/
def toUnsignedCharVector (src : List Int8) : List Byte := src.map Int8.toBitVec

/-- Sixty-four bytes of the key, each changed by one. SOURCE: Crypto.cpp:84-86, 94 -/
def xorBytes (k0 : List Byte) (byte : Byte) : Option (List Byte) :=
  (List.range 64).mapM fun i => do
    let b ← k0[i]?
    return b ^^^ byte

/-- The key, or its hash if it is longer than a chunk, with the zeros that fill a chunk.
SOURCE: Crypto.cpp:70-81 -/
def k0OfKey (fresh : Vector (BitVec 32) 64) (key : List Int8) : Option (List Byte) := do
  let keyVec := toUnsignedCharVector key
  let k0 ← if key.length ≤ 64 then some keyVec else sha256 fresh keyVec
  return k0 ++ List.replicate (64 - k0.length) 0

/-- SOURCE: Crypto.cpp:66-100 -/
def hmacSha256 (fresh : Vector (BitVec 32) 64) (key message : List Int8) :
    Option (List Byte) := do
  let k0 ← k0OfKey fresh key
  let k0XORipad ← xorBytes k0 0x36
  let hk0XORipadMsg ← sha256 fresh (k0XORipad ++ toUnsignedCharVector message)
  let s8 ← xorBytes k0 0x5c
  sha256 fresh (s8 ++ hk0XORipadMsg)

end OlpEdgeSdk.Model.Crypto

import Mathlib.Data.List.Basic
import Mathlib.Data.Nat.NthRoot.Defs
import Mathlib.Data.Nat.Prime.Defs
import Mathlib.Tactic.IntervalCases
import Mathlib.Tactic.Ring

/-!
# SHA-256 and HMAC

The hash function of the Secure Hash Standard (FIPS 180-4) over texts of bits, and the keyed
hash of FIPS 198-1 over any hash of bytes. The constants are what the standard says that they
are, the first bits of the fractional parts of roots of primes.

The length that ends the padding has sixty-four bits; of a text that is longer it is the
length modulo `2 ^ 64`. The standard defines the hash of shorter texts only.
-/

set_option autoImplicit false

namespace OlpEdgeSdk.Base.Sha256

abbrev Byte : Type := BitVec 8

abbrev Word : Type := BitVec 32

/-! ## Bits -/

/-- The bits of a word, the most significant one first. -/
def bitsOf {w : ℕ} (x : BitVec w) : List Bool := (List.range w).map x.getMsbD

/-- The word with some bits. -/
def ofBits (w : ℕ) (l : List Bool) : BitVec w :=
  BitVec.ofNat w (l.foldl (fun n b => 2 * n + b.toNat) 0)

/-- The bits of some bytes. -/
def bits (bytes : List Byte) : List Bool := bytes.flatMap bitsOf

/-! ## Functions of words -/

/-- FIPS 180-4, equation (4.2). -/
def ch (x y z : Word) : Word := (x &&& y) ^^^ (~~~x &&& z)

/-- FIPS 180-4, equation (4.3). -/
def maj (x y z : Word) : Word := (x &&& y) ^^^ (x &&& z) ^^^ (y &&& z)

/-- FIPS 180-4, equation (4.4). -/
def bigSigma0 (x : Word) : Word := x.rotateRight 2 ^^^ x.rotateRight 13 ^^^ x.rotateRight 22

/-- FIPS 180-4, equation (4.5). -/
def bigSigma1 (x : Word) : Word := x.rotateRight 6 ^^^ x.rotateRight 11 ^^^ x.rotateRight 25

/-- FIPS 180-4, equation (4.6). -/
def smallSigma0 (x : Word) : Word := x.rotateRight 7 ^^^ x.rotateRight 18 ^^^ x >>> 3

/-- FIPS 180-4, equation (4.7). -/
def smallSigma1 (x : Word) : Word := x.rotateRight 17 ^^^ x.rotateRight 19 ^^^ x >>> 10

/-! ## Constants -/

/-- The first sixty-four primes. -/
def primes : List ℕ := (List.range 312).filter Nat.Prime

/-- Below `18 ^ 2` a number is a prime if no number below 18 divides it. -/
theorem prime_iff_of_lt {p : ℕ} (h : p < 324) :
    p.Prime ↔ 2 ≤ p ∧ ∀ m < 18, 2 ≤ m → m * m ≤ p → ¬ m ∣ p := by
  rw [Nat.prime_def_le_sqrt]
  constructor
  · rintro ⟨htwo, hdvd⟩
    exact ⟨htwo, fun m _ hm hsq => hdvd m hm (Nat.le_sqrt.mpr hsq)⟩
  · rintro ⟨htwo, hdvd⟩
    refine ⟨htwo, fun m hm hsqrt => ?_⟩
    have hsq : m * m ≤ p := Nat.le_sqrt.mp hsqrt
    have hlt : m < 18 := by
      by_contra hge
      have hlarge : 18 * 18 ≤ m * m := Nat.mul_self_le_mul_self (not_lt.mp hge)
      omega
    exact hdvd m hlt hm hsq

/-- The primes, by trial division. -/
theorem primes_eq_filter : primes = (List.range 312).filter fun p =>
    2 ≤ p ∧ ∀ m < 18, 2 ≤ m → m * m ≤ p → ¬ m ∣ p := by
  apply List.filter_congr
  intro p hp
  have hlt : p < 324 := (List.mem_range.mp hp).trans (by decide)
  rw [decide_eq_decide]
  exact prime_iff_of_lt hlt

/-- The first thirty-two bits of the fractional part of a root. -/
def rootBits (degree p : ℕ) : Word := BitVec.ofNat 32 (Nat.nthRoot degree (p * 2 ^ (32 * degree)))

/-- The constants `K`, from cube roots. FIPS 180-4, section 4.2.2. -/
def constant (t : ℕ) : Word := rootBits 3 (primes.getD t 0)

/-! ## The hash -/

/-- Eight words: a hash value, or the working variables. -/
@[ext] structure State where
  a : Word
  b : Word
  c : Word
  d : Word
  e : Word
  f : Word
  g : Word
  h : Word
deriving DecidableEq, Repr

/-- The first hash value, from square roots. FIPS 180-4, section 5.3.3. -/
def initial : State :=
  ⟨rootBits 2 2, rootBits 2 3, rootBits 2 5, rootBits 2 7, rootBits 2 11, rootBits 2 13,
    rootBits 2 17, rootBits 2 19⟩

/-- A text, a one, as few zeros as leave sixty-four bits to a multiple of 512, and the length.
FIPS 180-4, section 5.1.1. -/
def pad (message : List Bool) : List Bool :=
  message ++ [true] ++ List.replicate ((960 - (message.length + 1) % 512) % 512) false ++
    bitsOf (BitVec.ofNat 64 message.length)

/-- The words of a block of a padded text. FIPS 180-4, section 5.2.1. -/
def block (padded : List Bool) (i t : ℕ) : Word :=
  ofBits 32 ((padded.drop (512 * i + 32 * t)).take 32)

/-- The message schedule of a block. FIPS 180-4, section 6.2.2, step 1. -/
def schedule (words : ℕ → Word) (t : ℕ) : Word :=
  if t < 16 then words t
  else
    smallSigma1 (schedule words (t - 2)) + schedule words (t - 7) +
      smallSigma0 (schedule words (t - 15)) + schedule words (t - 16)
termination_by t

/-- One round. FIPS 180-4, section 6.2.2, step 3. -/
def hashRound (words : ℕ → Word) (v : State) (t : ℕ) : State :=
  let t₁ := v.h + bigSigma1 v.e + ch v.e v.f v.g + constant t + schedule words t
  let t₂ := bigSigma0 v.a + maj v.a v.b v.c
  ⟨t₁ + t₂, v.a, v.b, v.c, v.d + t₁, v.e, v.f, v.g⟩

/-- The sums of words in the same places. FIPS 180-4, section 6.2.2, step 4. -/
def State.add (v hash : State) : State :=
  ⟨v.a + hash.a, v.b + hash.b, v.c + hash.c, v.d + hash.d, v.e + hash.e, v.f + hash.f,
    v.g + hash.g, v.h + hash.h⟩

/-- The hash value after one block more. -/
def compress (hash : State) (words : ℕ → Word) : State :=
  ((List.range 64).foldl (hashRound words) hash).add hash

/-- The last hash value of a padded text. -/
def hashBlocks (padded : List Bool) : State :=
  (List.range (padded.length / 512)).foldl (fun hash i => compress hash (block padded i)) initial

/-- The bytes of a word, the most significant one first. -/
def wordBytes (x : Word) : List Byte :=
  [x.extractLsb' 24 8, x.extractLsb' 16 8, x.extractLsb' 8 8, x.extractLsb' 0 8]

/-- The bytes of a hash value. -/
def State.bytes (hash : State) : List Byte :=
  [hash.a, hash.b, hash.c, hash.d, hash.e, hash.f, hash.g, hash.h].flatMap wordBytes

/-- The hash of some bytes. -/
def digest (message : List Byte) : List Byte := (hashBlocks (pad (bits message))).bytes

/-! ## The keyed hash -/

/-- A key of the size of a block. FIPS 198-1, steps 1 to 3. -/
def blockKey (hash : List Byte → List Byte) (blockSize : ℕ) (key : List Byte) : List Byte :=
  if key.length = blockSize then key
  else if blockSize < key.length then
    hash key ++ List.replicate (blockSize - (hash key).length) 0
  else key ++ List.replicate (blockSize - key.length) 0

/-- FIPS 198-1, steps 4 to 9. -/
def hmac (hash : List Byte → List Byte) (blockSize : ℕ) (key text : List Byte) : List Byte :=
  hash ((blockKey hash blockSize key).map (· ^^^ 0x5c#8) ++
    hash ((blockKey hash blockSize key).map (· ^^^ 0x36#8) ++ text))

/-! ## Bits of bytes -/

@[simp] theorem length_bitsOf {w : ℕ} (x : BitVec w) : (bitsOf x).length = w := by
  simp [bitsOf]

@[simp] theorem bits_nil : bits [] = [] := rfl

theorem bits_cons (b : Byte) (bytes : List Byte) : bits (b :: bytes) = bitsOf b ++ bits bytes :=
  List.flatMap_cons

theorem bits_append (bytes bytes' : List Byte) :
    bits (bytes ++ bytes') = bits bytes ++ bits bytes' :=
  List.flatMap_append

@[simp] theorem length_bits (bytes : List Byte) : (bits bytes).length = 8 * bytes.length := by
  induction bytes with
  | nil => rfl
  | cons b bytes ih =>
    rw [bits_cons, List.length_append, length_bitsOf, ih, List.length_cons]
    omega

theorem drop_bits (n : ℕ) (bytes : List Byte) :
    (bits bytes).drop (8 * n) = bits (bytes.drop n) := by
  induction n generalizing bytes with
  | zero => rfl
  | succ n ih =>
    cases bytes with
    | nil => simp
    | cons b bytes =>
      have hsum : 8 * (n + 1) = 8 + 8 * n := by omega
      rw [bits_cons, hsum, ← List.drop_drop, List.drop_left' (length_bitsOf b), ih,
        List.drop_succ_cons]

theorem take_bits (n : ℕ) (bytes : List Byte) :
    (bits bytes).take (8 * n) = bits (bytes.take n) := by
  induction n generalizing bytes with
  | zero => rfl
  | succ n ih =>
    cases bytes with
    | nil => simp
    | cons b bytes =>
      have hsum : 8 * (n + 1) = (bitsOf b).length + 8 * n := by
        rw [length_bitsOf]
        omega
      rw [bits_cons, hsum, List.take_length_add_append, ih, List.take_succ_cons, bits_cons]

/-- Bits are added to a number from the left. -/
theorem foldl_bits_append (n : ℕ) (l : List Bool) :
    l.foldl (fun n b => 2 * n + b.toNat) n =
      n * 2 ^ l.length + l.foldl (fun n b => 2 * n + b.toNat) 0 := by
  induction l generalizing n with
  | nil => simp
  | cons b l ih =>
    rw [List.foldl_cons, List.foldl_cons, ih, ih (2 * 0 + b.toNat), List.length_cons, Nat.pow_succ]
    ring

theorem foldl_bitsOf_byte (n : ℕ) (b : Byte) :
    (bitsOf b).foldl (fun n b => 2 * n + b.toNat) n = n * 256 + b.toNat := by
  have hzero : ∀ b : Byte, (bitsOf b).foldl (fun n b => 2 * n + b.toNat) 0 = b.toNat := by
    decide
  rw [foldl_bits_append, hzero, length_bitsOf]
  rfl

/-- Four bytes in the bits of a word. -/
theorem ofBits_bits_four (b₀ b₁ b₂ b₃ : Byte) :
    ofBits 32 (bits [b₀, b₁, b₂, b₃]) =
      (b₀.setWidth 32 <<< 24) ||| (b₁.setWidth 32 <<< 16) ||| (b₂.setWidth 32 <<< 8) |||
        b₃.setWidth 32 := by
  have hor : ∀ (n : ℕ) (b : Byte), n <<< 8 ||| b.toNat = n * 256 + b.toNat := by
    intro n b
    rw [← Nat.shiftLeft_add_eq_or_of_lt b.isLt, Nat.shiftLeft_eq]
  have hshift : ∀ (b : Byte) (k : ℕ), k ≤ 24 →
      (b.setWidth 32 <<< k).toNat = b.toNat <<< k := by
    intro b k hk
    have hlt : b.toNat <<< k < 2 ^ 32 := by
      rw [Nat.shiftLeft_eq]
      calc b.toNat * 2 ^ k < 2 ^ 8 * 2 ^ k := Nat.mul_lt_mul_of_pos_right b.isLt (by positivity)
        _ ≤ 2 ^ 8 * 2 ^ 24 := Nat.mul_le_mul_left _ (Nat.pow_le_pow_right (by omega) hk)
        _ = 2 ^ 32 := by norm_num
    have hb : b.toNat < 2 ^ 32 := b.isLt.trans (by norm_num)
    rw [BitVec.toNat_shiftLeft, BitVec.toNat_setWidth, Nat.mod_eq_of_lt hb, Nat.mod_eq_of_lt hlt]
  have hwidth : (b₃.setWidth 32).toNat = b₃.toNat := by
    have hlt := b₃.isLt
    rw [BitVec.toNat_setWidth, Nat.mod_eq_of_lt (by omega)]
  apply BitVec.eq_of_toNat_eq
  rw [BitVec.toNat_or, BitVec.toNat_or, BitVec.toNat_or, hshift b₀ 24 (by omega),
    hshift b₁ 16 (by omega), hshift b₂ 8 (by omega), hwidth]
  -- the two bytes in front, then three, then four
  have hfirst : b₀.toNat <<< 24 ||| b₁.toNat <<< 16 = (b₀.toNat * 256 + b₁.toNat) <<< 16 := by
    rw [← hor, Nat.shiftLeft_or_distrib, ← Nat.shiftLeft_add]
  have hsecond : (b₀.toNat * 256 + b₁.toNat) <<< 16 ||| b₂.toNat <<< 8 =
      ((b₀.toNat * 256 + b₁.toNat) * 256 + b₂.toNat) <<< 8 := by
    rw [← hor (b₀.toNat * 256 + b₁.toNat), Nat.shiftLeft_or_distrib, ← Nat.shiftLeft_add]
  rw [hfirst, hsecond, hor]
  unfold ofBits
  rw [bits_cons, bits_cons, bits_cons, bits_cons, bits_nil, List.append_nil]
  rw [List.foldl_append, List.foldl_append, List.foldl_append, foldl_bitsOf_byte,
    foldl_bitsOf_byte, foldl_bitsOf_byte, foldl_bitsOf_byte, BitVec.toNat_ofNat]
  have h₀ := b₀.isLt
  have h₁ := b₁.isLt
  have h₂ := b₂.isLt
  have h₃ := b₃.isLt
  omega

/-- The bits of a byte of a number of sixty-four bits, counted from its end. -/
theorem bitsOf_byte (x : BitVec 64) {i : ℕ} (hpos : 1 ≤ i) (hle : i ≤ 8) :
    bitsOf (((x >>> ((i - 1) * 8)) &&& 0xff).setWidth 8) =
      ((List.range 8).map (8 * (8 - i) + ·)).map x.getMsbD := by
  unfold bitsOf
  rw [List.map_map]
  apply List.map_congr_left
  intro j hj
  rw [List.mem_range] at hj
  have hmask : (0xff#64).getLsbD (7 - j) = true := by
    interval_cases j <;> rfl
  have hindex : (i - 1) * 8 + (7 - j) = 63 - (8 * (8 - i) + j) := by omega
  have hlt : 8 * (8 - i) + j < 64 := by omega
  have hbit : 7 - j < 8 := by omega
  simp only [Function.comp_apply, BitVec.getMsbD, BitVec.getLsbD_setWidth, BitVec.getLsbD_and,
    BitVec.getLsbD_ushiftRight]
  simp [hj, hlt, hbit, hmask, hindex]

/-- The bytes of a number of sixty-four bits. -/
theorem bits_bytes_of_length (x : BitVec 64) :
    bits ([8, 7, 6, 5, 4, 3, 2, 1].map fun i => ((x >>> ((i - 1) * 8)) &&& 0xff).setWidth 8) =
      bitsOf x := by
  have hbytes : ∀ i ∈ [8, 7, 6, 5, 4, 3, 2, 1],
      bitsOf (((x >>> ((i - 1) * 8)) &&& 0xff).setWidth 8) =
        ((List.range 8).map (8 * (8 - i) + ·)).map x.getMsbD := by
    intro i hi
    apply bitsOf_byte x
    · simp at hi
      omega
    · simp at hi
      omega
  have hrange : [8, 7, 6, 5, 4, 3, 2, 1].flatMap (fun i => (List.range 8).map (8 * (8 - i) + ·)) =
      List.range 64 := by
    decide
  unfold bits
  rw [List.flatMap_map]
  rw [List.flatMap_congr hbytes, ← List.map_flatMap, hrange]
  rfl

/-! ## Hashing bytes -/

/-- The words of sixty-four bytes, from a place on. -/
def wordsAt (bytes : List Byte) (start t : ℕ) : Word :=
  ofBits 32 (bits ((bytes.drop (start + 4 * t)).take 4))

theorem block_bits (bytes : List Byte) (i : ℕ) : block (bits bytes) i = wordsAt bytes (64 * i) := by
  funext t
  have hindex : 512 * i + 32 * t = 8 * (64 * i + 4 * t) := by omega
  unfold block wordsAt
  rw [hindex, drop_bits, ← take_bits]

theorem schedule_of_lt (words : ℕ → Word) {t : ℕ} (h : t < 16) : schedule words t = words t := by
  rw [schedule, if_pos h]

theorem schedule_of_ge (words : ℕ → Word) {t : ℕ} (h : 16 ≤ t) :
    schedule words t = smallSigma1 (schedule words (t - 2)) + schedule words (t - 7) +
      smallSigma0 (schedule words (t - 15)) + schedule words (t - 16) := by
  rw [schedule, if_neg (Nat.not_lt.mpr h)]

theorem schedule_congr {words words' : ℕ → Word} (h : ∀ t < 16, words t = words' t) (t : ℕ) :
    schedule words t = schedule words' t := by
  induction t using Nat.strongRecOn with
  | ind t ih =>
    rcases Nat.lt_or_ge t 16 with hlt | hge
    · rw [schedule_of_lt words hlt, schedule_of_lt words' hlt, h t hlt]
    · rw [schedule_of_ge words hge, schedule_of_ge words' hge, ih (t - 2) (by omega),
        ih (t - 7) (by omega), ih (t - 15) (by omega), ih (t - 16) (by omega)]

/-- Only the first sixteen words of a block matter. -/
theorem compress_congr {words words' : ℕ → Word} (h : ∀ t < 16, words t = words' t)
    (hash : State) : compress hash words = compress hash words' := by
  have hround : hashRound words = hashRound words' := by
    funext v t
    unfold hashRound
    rw [schedule_congr h]
  unfold compress
  rw [hround]

theorem wordsAt_append_left {l : List Byte} (rest : List Byte) {start t : ℕ}
    (h : start + 64 ≤ l.length) (ht : t < 16) :
    wordsAt (l ++ rest) start t = wordsAt l start t := by
  unfold wordsAt
  rw [List.drop_append_of_le_length (by omega), List.take_append_of_le_length]
  rw [List.length_drop]
  omega

theorem wordsAt_append_right (l : List Byte) (rest : List Byte) (start : ℕ) :
    wordsAt (l ++ rest) (l.length + start) = wordsAt rest start := by
  funext t
  unfold wordsAt
  rw [Nat.add_assoc, List.drop_length_add_append]

/-- The hash value after the first `n` blocks of some bytes. -/
def hashedBlocks (bytes : List Byte) (n : ℕ) : State :=
  (List.range n).foldl (fun hash i => compress hash (wordsAt bytes (64 * i))) initial

theorem hashedBlocks_zero (bytes : List Byte) : hashedBlocks bytes 0 = initial := by
  unfold hashedBlocks
  rw [List.range_zero, List.foldl_nil]

theorem hashedBlocks_succ (bytes : List Byte) (n : ℕ) :
    hashedBlocks bytes (n + 1) = compress (hashedBlocks bytes n) (wordsAt bytes (64 * n)) := by
  unfold hashedBlocks
  rw [List.range_succ, List.foldl_append]
  rfl

theorem hashedBlocks_append {l : List Byte} (rest : List Byte) {n : ℕ} (h : 64 * n ≤ l.length) :
    hashedBlocks (l ++ rest) n = hashedBlocks l n := by
  induction n with
  | zero => rw [hashedBlocks_zero, hashedBlocks_zero]
  | succ n ih =>
    rw [hashedBlocks_succ, hashedBlocks_succ, ih (by omega)]
    apply compress_congr
    intro t ht
    exact wordsAt_append_left rest (by omega) ht

/-- **Blocks one after the other**: behind whole blocks each block is hashed on its own. -/
theorem hashedBlocks_append_flatten {l : List Byte} {n : ℕ} (h : l.length = 64 * n)
    {chunks : List (List Byte)} (hchunks : ∀ chunk ∈ chunks, chunk.length = 64) :
    hashedBlocks (l ++ chunks.flatten) (n + chunks.length) =
      chunks.foldl (fun hash chunk => compress hash (wordsAt chunk 0)) (hashedBlocks l n) := by
  induction chunks generalizing l n with
  | nil =>
    rw [List.flatten_nil, List.append_nil]
    rfl
  | cons chunk chunks ih =>
    have hchunk := hchunks chunk List.mem_cons_self
    have hlength : (l ++ chunk).length = 64 * (n + 1) := by
      rw [List.length_append, h, hchunk]
      omega
    have hnext : hashedBlocks (l ++ chunk) (n + 1) =
        compress (hashedBlocks l n) (wordsAt chunk 0) := by
      have hwords := wordsAt_append_right l chunk 0
      rw [Nat.add_zero, h] at hwords
      rw [hashedBlocks_succ, hashedBlocks_append chunk (by omega), hwords]
    have hcount : n + (chunk :: chunks).length = n + 1 + chunks.length := by
      rw [List.length_cons]
      omega
    rw [List.flatten_cons, ← List.append_assoc, hcount, List.foldl_cons, ← hnext]
    exact ih hlength fun other hother => hchunks other (List.mem_cons_of_mem _ hother)

theorem hashBlocks_bits (bytes : List Byte) :
    hashBlocks (bits bytes) = hashedBlocks bytes (bytes.length / 64) := by
  have hlength : 8 * bytes.length / 512 = bytes.length / 64 := by omega
  unfold hashBlocks hashedBlocks
  rw [length_bits, hlength]
  simp only [block_bits]

/-- How many zero bytes follow a text of some bytes. -/
def zeroBytes (length : ℕ) : ℕ := (119 - length % 64) % 64

/-- The bytes of the length of a text of some bytes, in bits. -/
def lengthBytes (length : ℕ) : List Byte :=
  [8, 7, 6, 5, 4, 3, 2, 1].map fun i =>
    ((BitVec.ofNat 64 (length * 8) >>> ((i - 1) * 8)) &&& 0xff).setWidth 8

/-- The padding of bytes. -/
def padBytes (message : List Byte) : List Byte :=
  message ++ [0x80#8] ++ List.replicate (zeroBytes message.length) 0 ++ lengthBytes message.length

theorem bits_replicate_zero (n : ℕ) : bits (List.replicate n 0) = List.replicate (8 * n) false := by
  induction n with
  | zero => rfl
  | succ n ih =>
    have hsum : 8 * (n + 1) = 8 + 8 * n := by omega
    rw [List.replicate_succ, bits_cons, ih, hsum, List.replicate_add]
    rfl

/-- **Padded bytes are padded bits.** -/
theorem pad_bits (message : List Byte) : pad (bits message) = bits (padBytes message) := by
  have hone : bits [0x80#8] = [true] ++ List.replicate 7 false := by decide
  have hzeros : (960 - (8 * message.length + 1) % 512) % 512 =
      7 + 8 * zeroBytes message.length := by
    unfold zeroBytes
    omega
  unfold pad padBytes lengthBytes
  rw [bits_append, bits_append, bits_append, bits_bytes_of_length, bits_replicate_zero, hone,
    length_bits, hzeros, List.replicate_add, Nat.mul_comm message.length 8]
  simp only [List.append_assoc]

@[simp] theorem length_bytes (hash : State) : hash.bytes.length = 32 := rfl

@[simp] theorem length_digest (message : List Byte) : (digest message).length = 32 := rfl

end OlpEdgeSdk.Base.Sha256

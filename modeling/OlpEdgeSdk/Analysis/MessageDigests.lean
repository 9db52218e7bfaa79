import OlpEdgeSdk.Model.Crypto

/-!
# The hashes are SHA-256 and HMAC

The words of a chunk, the message schedule, the rounds and the chunks are taken in turn: each
loop of the code computes what the standard says of the words it has reached. The source is
hashed in place and the padding on its own, and the two are the blocks of the padded source
(`flatten_paddedChunks`).

SOURCE: Crypto.cpp
-/

set_option autoImplicit false

namespace OlpEdgeSdk.Analysis.MessageDigests

open OlpEdgeSdk.Base.Sha256 OlpEdgeSdk.Model.Crypto

/-! ## Functions and constants -/

theorem rotr_eq (x : BitVec 32) {n : ℕ} (h : n < 32) : rotr x n = x.rotateRight n := by
  rw [BitVec.rotateRight_def, Nat.mod_eq_of_lt h]
  rfl

theorem sha256Sum0_eq (x : BitVec 32) : sha256Sum0 x = bigSigma0 x := by
  unfold sha256Sum0 bigSigma0
  rw [rotr_eq x (by omega), rotr_eq x (by omega), rotr_eq x (by omega)]

theorem sha256Sum1_eq (x : BitVec 32) : sha256Sum1 x = bigSigma1 x := by
  unfold sha256Sum1 bigSigma1
  rw [rotr_eq x (by omega), rotr_eq x (by omega), rotr_eq x (by omega)]

theorem sha256Sigma0_eq (x : BitVec 32) : sha256Sigma0 x = smallSigma0 x := by
  unfold sha256Sigma0 smallSigma0
  rw [rotr_eq x (by omega), rotr_eq x (by omega)]

theorem sha256Sigma1_eq (x : BitVec 32) : sha256Sigma1 x = smallSigma1 x := by
  unfold sha256Sigma1 smallSigma1
  rw [rotr_eq x (by omega), rotr_eq x (by omega)]

/-- The table of the code lists the bits of the cube roots of the primes. -/
theorem sha256K_eq_constant : ∀ i : Fin 64, sha256K[i] = constant i := by
  unfold constant
  rw [primes_eq_filter]
  decide +kernel

/-- A vector of eight words as a hash value. -/
def toState (v : Vector (BitVec 32) 8) : State :=
  ⟨v.get 0, v.get 1, v.get 2, v.get 3, v.get 4, v.get 5, v.get 6, v.get 7⟩

theorem vectorGet_eq (v : Vector (BitVec 32) 8) (i : Fin 8) : v.get i = v[i.val] := rfl

theorem toState_sha256Init : toState sha256Init = initial := by
  decide +kernel

/-! ## The message schedule -/

variable {chunk : List Byte} {startIndex : ℕ} {words : ℕ → Word}

theorem readWord_eq {index : ℕ} (h : index + 4 ≤ chunk.length) :
    readWord chunk index = some (ofBits 32 (bits ((chunk.drop index).take 4))) := by
  have hread : ∀ k, chunk[index + k]? = (chunk.drop index)[k]? := fun k => List.getElem?_drop.symm
  have hlength : 4 ≤ (chunk.drop index).length := by
    rw [List.length_drop]
    omega
  have hzero := hread 0
  rw [Nat.add_zero] at hzero
  unfold readWord
  rw [hzero, hread 1, hread 2, hread 3]
  generalize chunk.drop index = rest at hlength
  match rest, hlength with
  | b₀ :: b₁ :: b₂ :: b₃ :: rest, _ => exact congrArg some (ofBits_bits_four b₀ b₁ b₂ b₃).symm

/-- **Loop.** The first sixteen words are those of the chunk. -/
theorem loadFrom_eq (hchunk : startIndex + 64 ≤ chunk.length) {i : ℕ} (hi : i ≤ 16)
    {w : Vector (BitVec 32) 64} (hw : ∀ j (h : j < i), w[j] = wordsAt chunk startIndex j) :
    ∃ w', loadFrom chunk startIndex i w = some w' ∧
      ∀ j (h : j < 16), w'[j] = wordsAt chunk startIndex j := by
  induction hn : 16 - i generalizing i w with
  | zero =>
    obtain rfl : i = 16 := by omega
    refine ⟨w, ?_, hw⟩
    rw [loadFrom, dif_neg (by omega)]
  | succ n ih =>
    rw [loadFrom, dif_pos (by omega), readWord_eq (by omega)]
    apply ih (by omega) _ (by omega)
    intro j hj
    rw [Vector.getElem_set]
    split
    · rename_i heq
      subst heq
      rfl
    · exact hw j (by omega)

/-- **Loop.** The other words follow the recurrence. -/
theorem scheduleFrom_eq {i : ℕ} (hge : 16 ≤ i) (hle : i ≤ 64) {w : Vector (BitVec 32) 64}
    (hw : ∀ j (h : j < i), w[j] = schedule words j) :
    ∀ j (h : j < 64), (scheduleFrom i w)[j] = schedule words j := by
  induction hn : 64 - i generalizing i w with
  | zero =>
    obtain rfl : i = 64 := by omega
    rw [scheduleFrom, dif_neg (by omega)]
    exact hw
  | succ n ih =>
    rw [scheduleFrom, dif_pos (by omega)]
    apply ih (by omega) (by omega) _ (by omega)
    intro j hj
    rw [Vector.getElem_set]
    split
    · rename_i heq
      subst heq
      rw [schedule_of_ge words hge, hw _ (by omega), hw _ (by omega), hw _ (by omega),
        hw _ (by omega), sha256Sigma1_eq, sha256Sigma0_eq]
    · exact hw j (by omega)

/-! ## The rounds -/

/-- **Step.** One round. -/
theorem toState_transformRound {i : ℕ} (hi : i < 64) {w : BitVec 32} (hw : w = schedule words i)
    (v : Vector (BitVec 32) 8) :
    toState (transformRound sha256K[i] w v) = hashRound words (toState v) i := by
  have hk : sha256K[i] = constant i := sha256K_eq_constant ⟨i, hi⟩
  rw [hk, hw]
  unfold transformRound hashRound toState
  simp only [vectorGet_eq, Vector.getElem_set, sha256Sum0_eq, sha256Sum1_eq]
  rfl

/-- **Loop.** The rounds from one on. -/
theorem toState_roundsFrom {w : Vector (BitVec 32) 64}
    (hw : ∀ j (h : j < 64), w[j] = schedule words j) {i : ℕ} (hle : i ≤ 64)
    (v : Vector (BitVec 32) 8) :
    toState (roundsFrom w i v) = (List.range' i (64 - i)).foldl (hashRound words) (toState v) := by
  induction hn : 64 - i generalizing i v with
  | zero =>
    rw [roundsFrom, dif_neg (by omega)]
    rfl
  | succ n ih =>
    have hi : i < 64 := by omega
    rw [roundsFrom, dif_pos hi, ih (by omega) _ (by omega), List.range'_succ, List.foldl_cons,
      toState_transformRound hi (hw i hi)]

/-- **A chunk**: it is inside the vector, and the hash value after it is that of the standard. -/
theorem sha256Transform_eq (fresh : Vector (BitVec 32) 64)
    (hchunk : startIndex + 64 ≤ chunk.length) (hashValue : Vector (BitVec 32) 8) :
    ∃ next, sha256Transform fresh chunk startIndex hashValue = some next ∧
      toState next = compress (toState hashValue) (wordsAt chunk startIndex) := by
  obtain ⟨w, hload, hfirst⟩ := loadFrom_eq hchunk (Nat.zero_le 16)
    (w := fresh.mapIdx fun i word => if i < 16 then 0 else word) (fun j h => absurd h (by omega))
  have hwords : ∀ j (h : j < 64),
      (scheduleFrom 16 w)[j] = schedule (wordsAt chunk startIndex) j := by
    apply scheduleFrom_eq (Nat.le_refl 16) (by omega)
    intro j hj
    rw [hfirst j hj, schedule_of_lt _ hj]
  have hrounds := toState_roundsFrom hwords (Nat.zero_le 64) hashValue
  refine ⟨hashValue.zipWith (· + ·) (roundsFrom (scheduleFrom 16 w) 0 hashValue), ?_, ?_⟩
  · unfold sha256Transform
    dsimp only
    rw [hload]
    rfl
  · unfold compress
    rw [List.range_eq_range', ← hrounds]
    unfold toState State.add
    simp only [vectorGet_eq, Vector.getElem_zipWith, BitVec.add_comm]

/-! ## The hash -/

/-- The bytes behind the whole chunks. -/
def tailOf (src : List Byte) : List Byte := src.drop (src.length / 64 * 64)

theorem length_tailOf (src : List Byte) : (tailOf src).length = src.length % 64 := by
  unfold tailOf
  rw [List.length_drop]
  omega

/-- **The padded chunks** are what is left of the source with its padding. -/
theorem flatten_paddedChunks (src : List Byte) :
    src.take (64 * (src.length / 64)) ++ (paddedChunks src).flatten = padBytes src := by
  have htail := length_tailOf src
  have hsplit : src.take (64 * (src.length / 64)) ++ tailOf src = src := by
    unfold tailOf
    rw [Nat.mul_comm, List.take_append_drop]
  have hchunks : (paddedChunks src).flatten = tailOf src ++ [0x80#8] ++
      List.replicate (zeroBytes src.length) 0 ++ lengthBytes src.length := by
    unfold paddedChunks
    dsimp only
    rw [show src.drop (src.length / 64 * 64) = tailOf src from rfl]
    have hended : (tailOf src ++ [0x80#8]).length = src.length % 64 + 1 := by
      rw [List.length_append, htail]
      rfl
    split
    · have hzeros : 56 - (tailOf src ++ [0x80#8]).length = zeroBytes src.length := by
        unfold zeroBytes
        rw [hended]
        omega
      rw [hzeros, List.nil_append, List.flatten_singleton]
      rfl
    · -- the zeros are those behind the one and those of a chunk without source
      have hzeros : 64 - (tailOf src ++ [0x80#8]).length + 56 = zeroBytes src.length := by
        unfold zeroBytes
        rw [hended]
        omega
      rw [← hzeros, List.replicate_add]
      simp only [List.flatten_append, List.flatten_singleton, List.nil_append, List.append_assoc,
        List.length_nil]
      rfl
  rw [hchunks]
  unfold padBytes
  simp only [← List.append_assoc]
  rw [hsplit]

theorem length_of_mem_paddedChunks {src chunk : List Byte} (h : chunk ∈ paddedChunks src) :
    chunk.length = 64 := by
  have htail := length_tailOf src
  unfold paddedChunks at h
  dsimp only at h
  rw [show src.drop (src.length / 64 * 64) = tailOf src from rfl] at h
  split at h
  · simp at h
    subst h
    simp
    omega
  · simp at h
    rcases h with rfl | rfl
    · simp
      omega
    · simp

/-- Chunks that are hashed one after the other. -/
theorem foldlM_sha256Transform {α : Type} (fresh : Vector (BitVec 32) 64)
    (chunkOf : α → List Byte) (startOf : α → ℕ) (items : List α)
    (h : ∀ x ∈ items, startOf x + 64 ≤ (chunkOf x).length) (hashValue : Vector (BitVec 32) 8) :
    ∃ next, items.foldlM (fun hashValue x =>
        sha256Transform fresh (chunkOf x) (startOf x) hashValue) hashValue = some next ∧
      toState next = items.foldl (fun hash x =>
        compress hash (wordsAt (chunkOf x) (startOf x))) (toState hashValue) := by
  induction items generalizing hashValue with
  | nil => exact ⟨hashValue, rfl, rfl⟩
  | cons x items ih =>
    obtain ⟨middle, hmiddle, hstate⟩ :=
      sha256Transform_eq fresh (h x List.mem_cons_self) hashValue
    obtain ⟨next, hnext, hrest⟩ :=
      ih (fun y hy => h y (List.mem_cons_of_mem x hy)) middle
    refine ⟨next, ?_, ?_⟩
    · rw [List.foldlM_cons, hmiddle]
      exact hnext
    · rw [List.foldl_cons, ← hstate]
      exact hrest

theorem valueBytes_eq (value : BitVec 32) : valueBytes value = wordBytes value := by
  have hbyte : ∀ n, (value >>> n).setWidth 8 = value.extractLsb' n 8 := by
    intro n
    apply BitVec.eq_of_getLsbD_eq
    intro i hi
    simp [hi]
  have hlast : value.setWidth 8 = value.extractLsb' 0 8 := hbyte 0
  have htwice : value >>> 8 >>> 8 = value >>> 16 := (BitVec.shiftRight_add value 8 8).symm
  have hthrice : value >>> 16 >>> 8 = value >>> 24 := (BitVec.shiftRight_add value 16 8).symm
  unfold valueBytes wordBytes
  dsimp only
  rw [htwice, hthrice, hbyte, hbyte, hbyte, hlast]

theorem flatMap_valueBytes (hashValue : Vector (BitVec 32) 8) :
    hashValue.toList.flatMap valueBytes = (toState hashValue).bytes := by
  have hwords : hashValue.toList = [hashValue[0], hashValue[1], hashValue[2], hashValue[3],
      hashValue[4], hashValue[5], hashValue[6], hashValue[7]] := by
    apply List.ext_getElem
    · simp
    · intro i hi hi'
      simp only [Vector.length_toList] at hi
      rw [Vector.getElem_toList]
      interval_cases i <;> rfl
  have hbytes : valueBytes = wordBytes := funext valueBytes_eq
  rw [hwords, hbytes]
  rfl

/-- The hash value after the whole chunks of the source and the padded ones. -/
theorem hashBlocks_eq_foldl (src : List Byte) :
    hashBlocks (pad (bits src)) = (paddedChunks src).foldl (fun hash chunk =>
      compress hash (wordsAt chunk 0)) (hashedBlocks src (src.length / 64)) := by
  have hchunks : ∀ chunk ∈ paddedChunks src, chunk.length = 64 :=
    fun _ => length_of_mem_paddedChunks
  have hwhole : (src.take (64 * (src.length / 64))).length = 64 * (src.length / 64) := by
    rw [List.length_take]
    omega
  have hflatten : (paddedChunks src).flatten.length = 64 * (paddedChunks src).length := by
    rw [List.length_flatten, List.map_congr_left hchunks, List.map_const', List.sum_replicate_nat,
      Nat.mul_comm]
  have hcount : (padBytes src).length / 64 = src.length / 64 + (paddedChunks src).length := by
    rw [← flatten_paddedChunks, List.length_append, hwhole, hflatten]
    omega
  have hsame : hashedBlocks (src.take (64 * (src.length / 64))) (src.length / 64) =
      hashedBlocks src (src.length / 64) := by
    rw [← hashedBlocks_append (src.drop (64 * (src.length / 64))) (Nat.le_of_eq hwhole.symm),
      List.take_append_drop]
  rw [pad_bits, hashBlocks_bits, hcount, ← flatten_paddedChunks,
    hashedBlocks_append_flatten hwhole hchunks, hsame]

/-- **The hash is SHA-256**, of every source and whatever the memory held. -/
theorem sha256_eq (fresh : Vector (BitVec 32) 64) (src : List Byte) :
    sha256 fresh src = some (digest src) := by
  obtain ⟨whole, hwhole, hwholeState⟩ := foldlM_sha256Transform fresh (fun _ => src)
    (fun i => i * 64) (List.range (src.length / 64)) (fun i hi => by
      rw [List.mem_range] at hi
      omega) sha256Init
  obtain ⟨last, hlast, hlastState⟩ := foldlM_sha256Transform fresh id (fun _ => 0)
    (paddedChunks src) (fun chunk hchunk => by
      rw [id_eq, length_of_mem_paddedChunks hchunk]) whole
  have hinPlace : toState whole = hashedBlocks src (src.length / 64) := by
    rw [hwholeState, toState_sha256Init]
    unfold hashedBlocks
    simp only [Nat.mul_comm]
  have hhash : toState last = hashBlocks (pad (bits src)) := by
    rw [hlastState, hinPlace, hashBlocks_eq_foldl]
    rfl
  unfold sha256 digest
  dsimp only
  rw [hwhole, ← hhash, ← flatMap_valueBytes]
  exact congrArg (fun hashValue => hashValue.bind fun hashValue =>
    some (hashValue.toList.flatMap valueBytes)) hlast

/-! ## The keyed hash -/

theorem xorBytes_eq {k0 : List Byte} (h : k0.length = 64) (byte : Byte) :
    xorBytes k0 byte = some (k0.map (· ^^^ byte)) := by
  have hfrom : ∀ rest before : List Byte, (List.range' before.length rest.length).mapM
      (fun i => do
        let b ← (before ++ rest)[i]?
        return b ^^^ byte) = some (rest.map (· ^^^ byte)) := by
    intro rest
    induction rest with
    | nil => exact fun _ => rfl
    | cons b rest ih =>
      intro before
      have hrest : (List.range' (before.length + 1) rest.length).mapM (fun i => do
          let b ← (before ++ b :: rest)[i]?
          return b ^^^ byte) = some (rest.map (· ^^^ byte)) := by
        have hnext := ih (before ++ [b])
        rw [List.length_append, List.append_assoc] at hnext
        exact hnext
      have hhead : (before ++ b :: rest)[before.length]? = some b := by simp
      rw [List.length_cons, List.range'_succ, List.mapM_cons, hhead, hrest]
      rfl
  unfold xorBytes
  rw [List.range_eq_range', ← h]
  exact hfrom k0 []

theorem length_blockKey (key : List Byte) : (blockKey digest 64 key).length = 64 := by
  unfold blockKey
  split
  · rename_i heq
    exact heq
  · split
    · simp
    · simp
      omega

theorem k0OfKey_eq (fresh : Vector (BitVec 32) 64) (key : List Int8) :
    k0OfKey fresh key = some (blockKey digest 64 (toUnsignedCharVector key)) := by
  have hlength : (toUnsignedCharVector key).length = key.length := List.length_map _
  unfold k0OfKey blockKey
  dsimp only
  by_cases hle : key.length ≤ 64
  · rw [if_pos hle, hlength]
    by_cases heq : key.length = 64
    · rw [if_pos heq]
      simp [hlength, heq]
    · rw [if_neg heq, if_neg (by omega)]
      simp [hlength]
  · rw [if_neg hle, sha256_eq, hlength, if_neg (by omega), if_pos (by omega)]
    rfl

/-- **The keyed hash is HMAC**, of every key and every message. -/
theorem hmacSha256_eq (fresh : Vector (BitVec 32) 64) (key message : List Int8) :
    hmacSha256 fresh key message =
      some (hmac digest 64 (toUnsignedCharVector key) (toUnsignedCharVector message)) := by
  have hxor := xorBytes_eq (length_blockKey (toUnsignedCharVector key))
  unfold hmacSha256
  rw [k0OfKey_eq]
  dsimp only [Option.bind_eq_bind, Option.bind_some]
  rw [hxor, hxor]
  dsimp only [Option.bind_some]
  rw [sha256_eq, Option.bind_some, sha256_eq]
  rfl

/-- **Both hashes**, whatever the memory held. -/
theorem hashes_eq (fresh : Vector (BitVec 32) 64) :
    (∀ src : List Byte, sha256 fresh src = some (digest src)) ∧
      ∀ key message : List Int8, hmacSha256 fresh key message =
        some (hmac digest 64 (toUnsignedCharVector key) (toUnsignedCharVector message)) :=
  ⟨sha256_eq fresh, hmacSha256_eq fresh⟩

end OlpEdgeSdk.Analysis.MessageDigests

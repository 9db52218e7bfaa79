import OlpEdgeSdk.Interface.TileTree

/-!
# The 64-bit quad key

`ToQuadKey64` puts the key together from table entries, one for each byte of the row and of
the column; bit by bit the result is the Morton number of the tile. `FromQuadKey64` takes
that number apart again. So the two are inverse on the valid keys and the words whose
highest bit is in an even place.
-/

set_option autoImplicit false

namespace OlpEdgeSdk.Analysis

open OlpEdgeSdk.Base OlpEdgeSdk.Interface OlpEdgeSdk.Model TileKey

/-! ## The encoder, bit by bit -/

/-- The table lists the Morton numbers of the first row of the eighth level, without the
leading one. -/
theorem toList_mortonTable256 : mortonTable256.toList =
    (List.range 256).map fun i => BitVec.ofNat 64 (morton 8 0 i % 2 ^ 16) := by
  decide +kernel

theorem mortonTable256_getD {i : ℕ} (hi : i < 256) :
    mortonTable256.getD i 0#64 = BitVec.ofNat 64 (morton 8 0 i % 2 ^ 16) := by
  rw [Array.getD_eq_getD_getElem?, ← Array.getElem?_toList, toList_mortonTable256,
    List.getElem?_map, List.getElem?_range hi]
  rfl

/-- An entry of the table has the bits of its index in its even places. -/
theorem getLsbD_mortonTable256 {i j : ℕ} (hi : i < 256) (hj : j < 16) :
    (mortonTable256.getD i 0#64).getLsbD j = (j % 2 == 0 && i.testBit (j / 2)) := by
  obtain ⟨heven, hodd⟩ := testBit_morton (l := 8) (i := j / 2) (by omega) 0 i
  rw [mortonTable256_getD hi, BitVec.getLsbD_ofNat, Nat.testBit_mod_two_pow]
  by_cases hparity : j % 2 = 0
  · rw [show 2 * (j / 2) = j by omega] at heven
    simp [hparity, heven, hj]
    omega
  · rw [show 2 * (j / 2) + 1 = j by omega] at hodd
    simp [hparity, hodd]

/-- The bits of a byte take two bytes. -/
theorem mortonTable256_lt {i : ℕ} (hi : i < 256) : (mortonTable256.getD i 0#64).toNat < 2 ^ 16 := by
  have hlt : morton 8 0 i % 2 ^ 16 < 2 ^ 16 := Nat.mod_lt _ (by omega)
  rw [mortonTable256_getD hi, BitVec.toNat_ofNat]
  omega

/-- Where a byte of a word, looked up in the table and shifted, has its bits. -/
theorem getLsbD_mortonByte {word : BitVec 32} {start j : ℕ} :
    (mortonByte word start).getLsbD j =
      (j % 2 == 0 && (decide (j / 2 < 8) && word.getLsbD (start + j / 2))) := by
  have hbyte : ((word >>> start) &&& 0xFF#32).toNat = (word.toNat >>> start) % 2 ^ 8 := by
    rw [BitVec.toNat_and, BitVec.toNat_ushiftRight]
    exact Nat.and_two_pow_sub_one_eq_mod _ 8
  have hlt : (word.toNat >>> start) % 2 ^ 8 < 256 := Nat.mod_lt _ (by omega)
  rw [mortonByte, hbyte]
  by_cases hj : j < 16
  · rw [getLsbD_mortonTable256 hlt hj, Nat.testBit_mod_two_pow, Nat.testBit_shiftRight,
      BitVec.testBit_toNat]
  · have hsmall := mortonTable256_lt hlt
    have hout : ¬ j / 2 < 8 := by omega
    have hzero : (mortonTable256.getD ((word.toNat >>> start) % 2 ^ 8) 0#64).getLsbD j = false := by
      rw [← BitVec.testBit_toNat]
      apply Nat.testBit_lt_two_pow
      exact lt_of_lt_of_le hsmall (Nat.pow_le_pow_right (by omega) (by omega))
    rw [hzero]
    simp [hout]

/-- A byte's table entry at its place in the key has the bits of that byte of the word, in
every other place from the offset on. -/
theorem getLsbD_mortonByte_shiftLeft (word : BitVec 32) (byte : ℕ) {offset j : ℕ}
    (hoffset : offset < 2) (hj : j < 64) :
    (mortonByte word (8 * byte) <<< (16 * byte + offset)).getLsbD j =
      (j % 2 == offset && (decide (j / 16 = byte) && word.getLsbD (j / 2))) := by
  rw [BitVec.getLsbD_shiftLeft, getLsbD_mortonByte]
  by_cases hplace : j % 2 = offset ∧ j / 16 = byte
  · obtain ⟨hparity, hbyte⟩ := hplace
    have heven : (j - (16 * byte + offset)) % 2 = 0 := by omega
    have hlow : (j - (16 * byte + offset)) / 2 < 8 := by omega
    have hindex : 8 * byte + (j - (16 * byte + offset)) / 2 = j / 2 := by omega
    have hfrom : ¬ j < 16 * byte + offset := by omega
    simp [hparity, hbyte, heven, hlow, hindex, hfrom, hj]
  · have hright :
        (j % 2 == offset && (decide (j / 16 = byte) && word.getLsbD (j / 2))) = false := by
      by_cases hparity : j % 2 = offset
      · have hbyte : ¬ j / 16 = byte := fun h => hplace ⟨hparity, h⟩
        simp [hbyte]
      · simp [hparity]
    rw [hright]
    by_cases hfrom : j < 16 * byte + offset
    · simp [hfrom]
    · have hout : ¬ ((j - (16 * byte + offset)) % 2 = 0 ∧
          (j - (16 * byte + offset)) / 2 < 8) := by omega
      by_cases heven : (j - (16 * byte + offset)) % 2 = 0
      · have hlow : ¬ (j - (16 * byte + offset)) / 2 < 8 := fun h => hout ⟨heven, h⟩
        simp [hlow]
      · simp [heven]

/-- The four table entries of a word have the bits of the word, in every other place from the
offset on: a place lies in the entry of exactly one byte. -/
theorem getLsbD_mortonBytes (word : BitVec 32) (offset : ℕ) {j : ℕ} (hoffset : offset < 2)
    (hj : j < 64) :
    ((mortonByte word 24 <<< (48 + offset)).getLsbD j ||
      ((mortonByte word 16 <<< (32 + offset)).getLsbD j ||
        ((mortonByte word 8 <<< (16 + offset)).getLsbD j ||
          (mortonByte word 0 <<< offset).getLsbD j))) =
      (j % 2 == offset && word.getLsbD (j / 2)) := by
  have hthree := getLsbD_mortonByte_shiftLeft word 3 hoffset hj
  have htwo := getLsbD_mortonByte_shiftLeft word 2 hoffset hj
  have hone := getLsbD_mortonByte_shiftLeft word 1 hoffset hj
  have hzero := getLsbD_mortonByte_shiftLeft word 0 hoffset hj
  simp only [Nat.reduceMul, Nat.zero_add] at hthree htwo hone hzero
  rw [hthree, htwo, hone, hzero]
  have hbyte : j / 16 = 0 ∨ j / 16 = 1 ∨ j / 16 = 2 ∨ j / 16 = 3 := by omega
  rcases hbyte with h | h | h | h <;> simp [h]

/-- **The bits of a key.** Even places are the column's, odd ones the row's, and the leading
one stands above the bits of the level. -/
theorem getLsbD_toQuadKey64 {k : TileKey} (hlevel : k.level.toNat < 32) {j : ℕ} (hj : j < 64) :
    k.toQuadKey64.getLsbD j =
      (decide (j = 2 * k.level.toNat) ||
        if j % 2 = 0 then k.column.getLsbD (j / 2) else k.row.getLsbD (j / 2)) := by
  have hrow := getLsbD_mortonBytes k.row 1 (by omega) hj
  have hcolumn := getLsbD_mortonBytes k.column 0 (by omega) hj
  have hleading : (1#64 <<< (2#32 * k.level)).getLsbD j = decide (j = 2 * k.level.toNat) := by
    have hshift : (2#32 * k.level).toNat = 2 * k.level.toNat := by
      rw [BitVec.toNat_mul, BitVec.toNat_ofNat]
      omega
    rw [BitVec.shiftLeft_eq', hshift, BitVec.getLsbD_shiftLeft, BitVec.getLsbD_one]
    by_cases h : j = 2 * k.level.toNat
    · simp [h]
      omega
    · by_cases hlt : j < 2 * k.level.toNat
      · simp [h, hlt]
      · have hpos : ¬ j - 2 * k.level.toNat = 0 := by omega
        simp [h, hpos]
  have hparts : k.toQuadKey64.getLsbD j =
      ((1#64 <<< (2#32 * k.level)).getLsbD j ||
        ((j % 2 == 1 && k.row.getLsbD (j / 2)) || (j % 2 == 0 && k.column.getLsbD (j / 2)))) := by
    rw [← hrow, ← hcolumn]
    simp only [toQuadKey64, BitVec.getLsbD_or, Bool.or_assoc, Nat.add_zero, Nat.reduceAdd,
      BitVec.shiftLeft_zero]
  rw [hparts, hleading]
  by_cases heven : j % 2 = 0
  · simp [heven]
  · have hodd : j % 2 = 1 := by omega
    simp [hodd]

/-- The bits of a word from the level of its value on are zero. -/
theorem getLsbD_of_toNat_lt {word : BitVec 32} {l i : ℕ} (h : word.toNat < 2 ^ l) (hi : l ≤ i) :
    word.getLsbD i = false := by
  rw [← BitVec.testBit_toNat]
  apply Nat.testBit_lt_two_pow
  exact lt_of_lt_of_le h (Nat.pow_le_pow_right (by omega) hi)

/-- **`ToQuadKey64` is the Morton number of the tile.** -/
theorem toNat_toQuadKey64 {t : Tile} {k : TileKey} (h : KeyOf t k) :
    k.toQuadKey64.toNat = morton t.level t.row t.column := by
  have hlevel := h.level_lt
  obtain ⟨hrow, hcolumn, -⟩ := h.lt_two_pow
  obtain ⟨-, hhigh⟩ := morton_bounds t.level t.row t.column
  apply Nat.eq_of_testBit_eq
  intro j
  rw [BitVec.testBit_toNat]
  by_cases hj : j < 64
  · rw [getLsbD_toQuadKey64 (by rw [h.level]; exact hlevel) hj, h.level]
    rcases lt_trichotomy j (2 * t.level) with hlt | rfl | hgt
    · have hbits := testBit_morton (l := t.level) (i := j / 2) (by omega) t.row t.column
      by_cases heven : j % 2 = 0
      · rw [if_pos heven, decide_eq_false (by omega), Bool.false_or, ← BitVec.testBit_toNat,
          h.column, ← hbits.1, show 2 * (j / 2) = j by omega]
      · rw [if_neg heven, decide_eq_false (by omega), Bool.false_or, ← BitVec.testBit_toNat,
          h.row, ← hbits.2, show 2 * (j / 2) + 1 = j by omega]
    · simp [testBit_morton_top]
    · have hzero : (morton t.level t.row t.column).testBit j = false := by
        apply Nat.testBit_lt_two_pow
        exact lt_of_lt_of_le hhigh (Nat.pow_le_pow_right (by omega) (by omega))
      rw [hzero, decide_eq_false (by omega), getLsbD_of_toNat_lt hrow (by omega),
        getLsbD_of_toNat_lt hcolumn (by omega)]
      simp
  · have hzero : (morton t.level t.row t.column).testBit j = false := by
      apply Nat.testBit_lt_two_pow
      exact lt_of_lt_of_le hhigh (Nat.pow_le_pow_right (by omega) (by omega))
    rw [hzero, BitVec.getLsbD_of_ge _ _ (by omega)]

/-! ## The decoder -/

/-- The lowest bit of a number and the rest of it, each at its place. -/
theorem two_pow_mul_digit (i n : ℕ) : 2 ^ i * (n % 2) + 2 ^ (i + 1) * (n / 2) = 2 ^ i * n := by
  rw [pow_succ, Nat.mul_assoc, ← Nat.mul_add, Nat.mod_add_div]

/-- A bit or'ed in above the bits a word has so far. -/
theorem toNat_or_mask {word : BitVec 32} {i : ℕ} (hi : i < 32) (h : word.toNat < 2 ^ i) :
    (word ||| 1#32 <<< i).toNat = word.toNat + 2 ^ i := by
  have hor := Nat.two_pow_add_eq_or_of_lt h 1
  rw [Nat.mul_one] at hor
  rw [BitVec.toNat_or, toNat_one_shiftLeft hi, Nat.or_comm, ← hor, Nat.add_comm]

/-- **One turn of a decoder.** With `row` and `column` still to be read, their lowest bits go
to the place the key has reached, and what is left to be read starts at the next place. -/
theorem addDigit_spec {k : TileKey} {i row column : ℕ} {low high : Bool} (hi : i < 32)
    (hrow : k.row.toNat < 2 ^ i) (hcolumn : k.column.toNat < 2 ^ i)
    (hlow : low.toNat = column % 2) (hhigh : high.toNat = row % 2) :
    (addDigit k low high (1#32 <<< i)).level = k.level ∧
      ((addDigit k low high (1#32 <<< i)).row.toNat < 2 ^ (i + 1) ∧
        (addDigit k low high (1#32 <<< i)).column.toNat < 2 ^ (i + 1)) ∧
      (addDigit k low high (1#32 <<< i)).row.toNat + 2 ^ (i + 1) * (row / 2) =
        k.row.toNat + 2 ^ i * row ∧
      (addDigit k low high (1#32 <<< i)).column.toNat + 2 ^ (i + 1) * (column / 2) =
        k.column.toNat + 2 ^ i * column := by
  have hrowEq : (addDigit k low high (1#32 <<< i)).row.toNat =
      k.row.toNat + 2 ^ i * (row % 2) := by
    rw [← hhigh]
    cases low <;> cases high <;> simp [addDigit, toNat_or_mask hi hrow]
  have hcolumnEq : (addDigit k low high (1#32 <<< i)).column.toNat =
      k.column.toNat + 2 ^ i * (column % 2) := by
    rw [← hlow]
    cases low <;> cases high <;> simp [addDigit, toNat_or_mask hi hcolumn]
  have hbound : ∀ n, 2 ^ i * (n % 2) ≤ 2 ^ i * 1 := fun n => Nat.mul_le_mul_left _ (by omega)
  refine ⟨?_, ⟨?_, ?_⟩, ?_, ?_⟩
  · cases low <;> cases high <;> rfl
  · have := hbound row
    rw [hrowEq, pow_succ]
    omega
  · have := hbound column
    rw [hcolumnEq, pow_succ]
    omega
  · rw [hrowEq, Nat.add_assoc, two_pow_mul_digit]
  · rw [hcolumnEq, Nat.add_assoc, two_pow_mul_digit]

/-- The test of one bit of a word by its mask. -/
theorem and_twoPow_ne_zero {w i : ℕ} (word : BitVec w) (hi : i < w) :
    (word &&& BitVec.ofNat w (2 ^ i) != 0#w).toNat = word.toNat / 2 ^ i % 2 := by
  have hmask : (BitVec.ofNat w (2 ^ i)).toNat = 2 ^ i := by
    rw [BitVec.toNat_ofNat]
    exact Nat.mod_eq_of_lt (Nat.pow_lt_pow_right (by omega) hi)
  have hand : (word &&& BitVec.ofNat w (2 ^ i)).toNat = (word.toNat.testBit i).toNat * 2 ^ i := by
    rw [BitVec.toNat_and, hmask, Nat.and_two_pow]
  have hpos := Nat.two_pow_pos i
  rw [← Nat.toNat_testBit]
  cases hbit : word.toNat.testBit i with
  | false =>
    have hzero : word &&& BitVec.ofNat w (2 ^ i) = 0#w := by
      apply BitVec.eq_of_toNat_eq
      rw [hand, hbit]
      simp
    rw [hzero, bne_self_eq_false]
  | true =>
    have hne : word &&& BitVec.ofNat w (2 ^ i) ≠ 0#w := by
      intro heq
      rw [heq, hbit, Bool.toNat_true, Nat.one_mul, BitVec.toNat_zero] at hand
      omega
    rw [bne_iff_ne.mpr hne]

/-- **The decoder's loop** reads the bits of a tile off its Morton number and puts them above
the bits already read. -/
theorem fromQuadKey64Loop_spec (result : TileKey) {quadKey : BitVec 64} {l row column : ℕ}
    (hkey : quadKey.toNat = morton l row column) (hrowl : row < 2 ^ l) (hcolumnl : column < 2 ^ l)
    (hfit : result.level.toNat + l < 32) (hrow : result.row.toNat < 2 ^ result.level.toNat)
    (hcolumn : result.column.toNat < 2 ^ result.level.toNat) :
    (fromQuadKey64Loop result quadKey).level.toNat = result.level.toNat + l ∧
      (fromQuadKey64Loop result quadKey).row.toNat =
        result.row.toNat + 2 ^ result.level.toNat * row ∧
      (fromQuadKey64Loop result quadKey).column.toNat =
        result.column.toNat + 2 ^ result.level.toNat * column := by
  induction l generalizing result quadKey row column with
  | zero =>
    have hone : ¬ 1#64 < quadKey := by
      rw [BitVec.lt_def, hkey, morton]
      exact Nat.lt_irrefl 1
    rw [fromQuadKey64Loop, if_neg hone]
    rw [pow_zero, Nat.lt_one_iff] at hrowl hcolumnl
    simp [hrowl, hcolumnl]
  | succ l ih =>
    have hmore : 1#64 < quadKey := by
      have hpos := morton_pos l (row / 2) (column / 2)
      rw [BitVec.lt_def, BitVec.toNat_one (by omega), hkey, morton]
      omega
    rw [morton] at hkey
    have hlow := and_twoPow_ne_zero (i := 0) quadKey (by omega)
    have hhigh := and_twoPow_ne_zero (i := 1) quadKey (by omega)
    rw [show quadKey.toNat / 2 ^ 0 % 2 = column % 2 by omega] at hlow
    rw [show quadKey.toNat / 2 ^ 1 % 2 = row % 2 by omega] at hhigh
    simp only [pow_zero, pow_one] at hlow hhigh
    obtain ⟨hlevel, ⟨hrow', hcolumn'⟩, hrowEq, hcolumnEq⟩ :=
      addDigit_spec (by omega) hrow hcolumn hlow hhigh
    rw [fromQuadKey64Loop, if_pos hmore, BitVec.shiftLeft_eq']
    dsimp only
    generalize addDigit result (quadKey &&& 1#64 != 0#64) (quadKey &&& 2#64 != 0#64)
      (1#32 <<< result.level.toNat) = next at hlevel hrow' hcolumn' hrowEq hcolumnEq ⊢
    have hnext : (next.level + 1#32).toNat = result.level.toNat + 1 := by
      rw [BitVec.toNat_add, BitVec.toNat_one (by omega), hlevel]
      omega
    have hkey' : (quadKey >>> 2).toNat = morton l (row / 2) (column / 2) := by
      rw [BitVec.toNat_ushiftRight, Nat.shiftRight_eq_div_pow]
      omega
    rw [pow_succ] at hrowl hcolumnl
    obtain ⟨hl, hr, hc⟩ := ih { next with level := next.level + 1#32 } hkey'
      (by omega) (by omega) (by rw [hnext]; omega) (by rw [hnext]; exact hrow')
      (by rw [hnext]; exact hcolumn')
    simp only [hnext] at hl hr hc
    refine ⟨?_, ?_, ?_⟩
    · rw [hl]
      omega
    · rw [hr, hrowEq]
    · rw [hc, hcolumnEq]

/-- **`FromQuadKey64` reads the tile off its Morton number.** -/
theorem keyOf_fromQuadKey64 {t : Tile} {quadKey : BitVec 64} (hlevel : t.level < 32)
    (h : quadKey.toNat = morton t.level t.row t.column) : KeyOf t (fromQuadKey64 quadKey) := by
  obtain ⟨hl, hr, hc⟩ := fromQuadKey64Loop_spec (fromRowColumnLevel 0#32 0#32 0#32) h
    t.row_lt t.column_lt (by simpa [fromRowColumnLevel] using hlevel) (by simp [fromRowColumnLevel])
    (by simp [fromRowColumnLevel])
  refine ⟨hlevel, ?_, ?_, ?_⟩
  · simpa [fromQuadKey64, fromRowColumnLevel] using hl
  · simpa [fromQuadKey64, fromRowColumnLevel] using hr
  · simpa [fromQuadKey64, fromRowColumnLevel] using hc

theorem fromQuadKey64_toQuadKey64_of_keyOf {t : Tile} {k : TileKey} (h : KeyOf t k) :
    fromQuadKey64 k.toQuadKey64 = k :=
  (keyOf_fromQuadKey64 h.level_lt (toNat_toQuadKey64 h)).key_eq h

/-- The quad key tells valid keys apart. -/
theorem toQuadKey64_injective {k other : TileKey} (hk : k.isValid = true)
    (hother : other.isValid = true) (h : k.toQuadKey64 = other.toQuadKey64) : k = other := by
  obtain ⟨t, ht⟩ := isValid_iff_keyOf.mp hk
  obtain ⟨u, hu⟩ := isValid_iff_keyOf.mp hother
  rw [← fromQuadKey64_toQuadKey64_of_keyOf ht, h, fromQuadKey64_toQuadKey64_of_keyOf hu]

/-- A word whose highest bit is in an even place is the Morton number of a tile. -/
theorem exists_tile_of_leading {quadKey : BitVec 64} {l : ℕ}
    (hset : quadKey.getLsbD (2 * l) = true)
    (habove : ∀ j, 2 * l < j → quadKey.getLsbD j = false) :
    ∃ t : Tile, t.level = l ∧ t.level < 32 ∧ quadKey.toNat = morton t.level t.row t.column := by
  have hl : 2 * l < 64 := BitVec.lt_of_getLsbD hset
  have hlow : 2 ^ (2 * l) ≤ quadKey.toNat := by
    rw [← BitVec.testBit_toNat] at hset
    exact Nat.ge_two_pow_of_testBit hset
  have hhigh : quadKey.toNat < 2 ^ (2 * l + 1) := by
    apply Nat.lt_pow_two_of_testBit
    intro j hj
    rw [BitVec.testBit_toNat]
    exact habove j (by omega)
  obtain ⟨row, column, hrow, hcolumn, heq⟩ := exists_morton_eq hlow hhigh
  exact ⟨⟨l, row, column, hrow, hcolumn⟩, rfl, by simp only; omega, heq.symm⟩

/-- **The 64-bit quad key is a bijection** between the valid keys and the words whose highest
bit is in an even place; below that bit the column has the even places and the row the odd
ones. -/
theorem quadKey64_bijection :
    (∀ k : TileKey, k.isValid = true → fromQuadKey64 k.toQuadKey64 = k) ∧
      (∀ (quadKey : BitVec 64) (l : ℕ), quadKey.getLsbD (2 * l) = true →
        (∀ j, 2 * l < j → quadKey.getLsbD j = false) →
          (fromQuadKey64 quadKey).isValid = true ∧
            (fromQuadKey64 quadKey).toQuadKey64 = quadKey) ∧
      (∀ k : TileKey, k.isValid = true →
        k.toQuadKey64.getLsbD (2 * k.level.toNat) = true ∧
          (∀ j, 2 * k.level.toNat < j → k.toQuadKey64.getLsbD j = false) ∧
          ∀ i < k.level.toNat,
            k.toQuadKey64.getLsbD (2 * i) = k.column.getLsbD i ∧
              k.toQuadKey64.getLsbD (2 * i + 1) = k.row.getLsbD i) := by
  refine ⟨?_, ?_, ?_⟩
  · intro k hk
    obtain ⟨t, ht⟩ := isValid_iff_keyOf.mp hk
    exact fromQuadKey64_toQuadKey64_of_keyOf ht
  · intro quadKey l hset habove
    obtain ⟨t, -, hlevel, hkey⟩ := exists_tile_of_leading hset habove
    have ht := keyOf_fromQuadKey64 hlevel hkey
    refine ⟨ht.isValid, ?_⟩
    apply BitVec.eq_of_toNat_eq
    rw [toNat_toQuadKey64 ht, hkey]
  · intro k hk
    obtain ⟨t, ht⟩ := isValid_iff_keyOf.mp hk
    have hkey := toNat_toQuadKey64 ht
    refine ⟨?_, ?_, ?_⟩
    · rw [← BitVec.testBit_toNat, hkey, ht.level, testBit_morton_top]
    · intro j hj
      rw [ht.level] at hj
      rw [← BitVec.testBit_toNat, hkey]
      apply Nat.testBit_lt_two_pow
      exact lt_of_lt_of_le (morton_bounds t.level t.row t.column).2
        (Nat.pow_le_pow_right (by omega) (by omega))
    · intro i hi
      rw [ht.level] at hi
      obtain ⟨heven, hodd⟩ := testBit_morton hi t.row t.column
      rw [← BitVec.testBit_toNat, ← BitVec.testBit_toNat, ← BitVec.testBit_toNat,
        ← BitVec.testBit_toNat, hkey, ht.row, ht.column]
      exact ⟨heven, hodd⟩

theorem quadKey64_bijection_at_deepest :
    fromQuadKey64 (fromRowColumnLevel 0x7FFFFFFF#32 0x40000001#32 31#32).toQuadKey64 =
        fromRowColumnLevel 0x7FFFFFFF#32 0x40000001#32 31#32 ∧
      (fromQuadKey64 0x1B#64).toQuadKey64 = 0x1B#64 := by
  refine ⟨quadKey64_bijection.1 _ (by decide), (quadKey64_bijection.2.1 _ 2 (by decide) ?_).2⟩
  intro j hj
  rw [← BitVec.testBit_toNat]
  apply Nat.testBit_lt_two_pow
  exact lt_of_lt_of_le (by decide) (Nat.pow_le_pow_right (by omega) hj)

end OlpEdgeSdk.Analysis

import Mathlib.Data.Char
import Mathlib.Tactic.IntervalCases
import OlpEdgeSdk.Analysis.QuadKey64

/-!
# The quad key string and the HERE tile string

The quad key string of a tile is the path to it, digit by digit, which is why its prefixes
are the ancestors' strings; the HERE tile string is the 64-bit quad key in decimal. Both are
read back to the key they were written from.
-/

set_option autoImplicit false

namespace OlpEdgeSdk.Analysis

open OlpEdgeSdk.Base OlpEdgeSdk.Interface OlpEdgeSdk.Model TileKey

/-- The character of a digit. -/
def digitChar (d : ℕ) : Char := Char.ofNat (d + '0'.toNat)

/-- The string of a path. -/
def pathString (path : List ℕ) : List Char := if path = [] then ['-'] else path.map digitChar

theorem toNat_digitChar {d : ℕ} (h : d < 4) : (digitChar d).toNat = d + '0'.toNat := by
  interval_cases d <;> rfl

theorem digitChar_ne_minus {d : ℕ} (h : d < 4) : digitChar d ≠ '-' := by
  intro heq
  have hnat := congrArg Char.toNat heq
  rw [toNat_digitChar h] at hnat
  exact absurd hnat (by simp)

theorem exists_digitChar_eq {c : Char} (hlow : '0' ≤ c) (hhigh : c ≤ '3') :
    ∃ d < 4, digitChar d = c := by
  have hlow' : 48 ≤ c.toNat := hlow
  have hhigh' : c.toNat ≤ 51 := hhigh
  refine ⟨c.toNat - 48, by omega, ?_⟩
  have hzero : '0'.toNat = 48 := rfl
  rw [digitChar, hzero, Nat.sub_add_cancel hlow', Char.ofNat_toNat]

/-- A path's string determines the path. -/
theorem exists_path_of_string {text : List Char} (h : ∀ c ∈ text, '0' ≤ c ∧ c ≤ '3') :
    ∃ digits : List ℕ, (∀ d ∈ digits, d < 4) ∧ digits.map digitChar = text := by
  induction text with
  | nil => exact ⟨[], by simp, rfl⟩
  | cons c text ih =>
    obtain ⟨digits, hdigits, htext⟩ := ih fun e he => h e (List.mem_cons_of_mem _ he)
    obtain ⟨d, hd, hc⟩ := exists_digitChar_eq (h c List.mem_cons_self).1 (h c List.mem_cons_self).2
    refine ⟨d :: digits, ?_, by rw [List.map_cons, hc, htext]⟩
    intro e he
    rcases List.mem_cons.mp he with rfl | he
    · exact hd
    · exact hdigits e he

/-! ## The quad key string -/

/-- **`ToQuadKey` is the string of the path to the tile.** -/
theorem toQuadKey_of_keyOf {t : Tile} {k : TileKey} (h : KeyOf t k) :
    k.toQuadKey = pathString t.path := by
  have hlt := h.level_lt
  have hk := h.level
  unfold toQuadKey
  rw [if_neg (by simp [h.isValid])]
  by_cases hroot : t.level = 0
  · have hzero : k.level = 0#32 := BitVec.eq_of_toNat_eq (by rw [hk, hroot]; rfl)
    have hpath : t.path = [] := List.eq_nil_of_length_eq_zero (by rw [Tile.length_path, hroot])
    rw [if_pos hzero, hpath, pathString, if_pos rfl]
  · have hpos : k.level ≠ 0#32 := by
      intro heq
      rw [heq] at hk
      exact hroot hk.symm
    have hpath : t.path ≠ [] := by
      intro heq
      exact hroot (by rw [← Tile.length_path, heq]; rfl)
    rw [if_neg hpos, pathString, if_neg hpath, Tile.path, List.map_map, hk]
    apply List.map_congr_left
    intro i hi
    have hi' : i < t.level := by simpa using hi
    have hshift : (1#64 <<< (i <<< 1)).toNat = 4 ^ i := by
      have hfour : 2 ^ (2 * i) < 2 ^ 64 := Nat.pow_lt_pow_right (by omega) (by omega)
      rw [BitVec.toNat_shiftLeft, BitVec.toNat_one (by omega), Nat.one_shiftLeft,
        Nat.shiftLeft_eq, pow_one, Nat.mul_comm i 2, Nat.mod_eq_of_lt hfour, pow_mul]
      rfl
    simp only [Function.comp, digitChar]
    rw [BitVec.toNat_umod, BitVec.toNat_udiv, hshift, toNat_toQuadKey64 h,
      show (4#64).toNat = 4 from rfl, digit_morton hi']

/-- The two bits that the decoder tests in a digit's character. -/
theorem digitChar_bits {d : ℕ} (h : d < 4) :
    (BitVec.ofNat 32 (digitChar d).toNat - BitVec.ofNat 32 '0'.toNat &&& 1#32 != 0#32).toNat =
        d % 2 ∧
      (BitVec.ofNat 32 (digitChar d).toNat - BitVec.ofNat 32 '0'.toNat &&& 2#32 != 0#32).toNat =
        d / 2 % 2 := by
  interval_cases d <;> exact ⟨rfl, rfl⟩

/-- **The decoder's loop** puts the row and the column that a path leads to above the bits
already read. -/
theorem fromQuadKeyLoop_spec (result : TileKey) {i : ℕ} (t : Tile) (hfit : i + t.level < 33)
    (hrow : result.row.toNat < 2 ^ i) (hcolumn : result.column.toNat < 2 ^ i) :
    (fromQuadKeyLoop result i (t.path.map digitChar).reverse).level = result.level ∧
      (fromQuadKeyLoop result i (t.path.map digitChar).reverse).row.toNat =
        result.row.toNat + 2 ^ i * t.row ∧
      (fromQuadKeyLoop result i (t.path.map digitChar).reverse).column.toNat =
        result.column.toNat + 2 ^ i * t.column := by
  generalize hl : t.level = l at hfit
  induction l generalizing result i t with
  | zero =>
    have hrow0 := t.row_lt
    have hcolumn0 := t.column_lt
    rw [hl, pow_zero, Nat.lt_one_iff] at hrow0 hcolumn0
    have hpath : t.path = [] := List.eq_nil_of_length_eq_zero (by rw [Tile.length_path, hl])
    simp [hpath, fromQuadKeyLoop, hrow0, hcolumn0]
  | succ l ih =>
    obtain ⟨d, hd, ht⟩ := Tile.exists_child_eq (t := t) (by omega)
    -- the last digit comes first in the loop
    have hpath : (t.path.map digitChar).reverse =
        digitChar d :: ((t.ancestor 1).path.map digitChar).reverse := by
      rw [← ht, Tile.path_child _ hd, Tile.ancestor_child]
      simp
    have hrowd : 2 * (t.ancestor 1).row + d / 2 % 2 = t.row := congrArg Tile.row ht
    have hcolumnd : 2 * (t.ancestor 1).column + d % 2 = t.column := congrArg Tile.column ht
    obtain ⟨hlow, hhigh⟩ := digitChar_bits hd
    rw [show d % 2 = t.column % 2 by omega] at hlow
    rw [show d / 2 % 2 = t.row % 2 by omega] at hhigh
    obtain ⟨hlevel, ⟨hrow', hcolumn'⟩, hrowEq, hcolumnEq⟩ :=
      addDigit_spec (by omega) hrow hcolumn hlow hhigh
    rw [hpath, fromQuadKeyLoop]
    obtain ⟨hl', hr', hc'⟩ := ih _ (t.ancestor 1) hrow' hcolumn'
      (by rw [Tile.ancestor_level]; omega) (by omega)
    rw [show t.row / 2 = (t.ancestor 1).row by omega] at hrowEq
    rw [show t.column / 2 = (t.ancestor 1).column by omega] at hcolumnEq
    exact ⟨hl'.trans hlevel, hr'.trans hrowEq, hc'.trans hcolumnEq⟩

/-- **`FromQuadKey` follows the path** that the string spells. -/
theorem keyOf_fromQuadKey {t : Tile} (hlevel : t.level < 32) :
    KeyOf t (fromQuadKey (pathString t.path)) := by
  unfold fromQuadKey pathString
  by_cases hpath : t.path = []
  · have hroot : t.level = 0 := by rw [← Tile.length_path, hpath]; rfl
    have hrow := t.row_lt
    have hcolumn := t.column_lt
    rw [hroot, pow_zero, Nat.lt_one_iff] at hrow hcolumn
    rw [if_pos hpath, if_neg (by simp), if_pos rfl]
    exact ⟨hlevel, hroot.symm, hrow.symm, hcolumn.symm⟩
  · have hne : t.path.map digitChar ≠ [] := by simpa using hpath
    have hminus : t.path.map digitChar ≠ ['-'] := by
      intro heq
      obtain ⟨d, hd, hc⟩ := List.mem_map.mp (heq ▸ List.mem_singleton_self '-')
      exact digitChar_ne_minus (Tile.lt_of_mem_path hd) hc
    rw [if_neg hpath, if_neg hne, if_neg hminus, List.length_map, Tile.length_path]
    obtain ⟨hl, hr, hc⟩ := fromQuadKeyLoop_spec
      { fromRowColumnLevel 0#32 0#32 0#32 with level := BitVec.ofNat 32 t.level } (i := 0) t
      (by omega) (by simp [fromRowColumnLevel]) (by simp [fromRowColumnLevel])
    refine ⟨hlevel, ?_, ?_, ?_⟩
    · rw [hl, BitVec.toNat_ofNat]
      omega
    · simpa [fromRowColumnLevel] using hr
    · simpa [fromRowColumnLevel] using hc

/-- A string of digits that fits is the path to a tile. -/
theorem exists_tile_of_string {text : List Char} (hne : text ≠ [])
    (hdigits : ∀ c ∈ text, '0' ≤ c ∧ c ≤ '3') :
    ∃ t : Tile, t.level = text.length ∧ pathString t.path = text := by
  obtain ⟨digits, hlt, htext⟩ := exists_path_of_string hdigits
  obtain ⟨t, ht⟩ := Tile.exists_path_eq hlt
  refine ⟨t, ?_, ?_⟩
  · rw [← Tile.length_path, ht, ← htext, List.length_map]
  · have hdne : digits ≠ [] := by
      rintro rfl
      exact hne htext.symm
    rw [pathString, ht, if_neg hdne, htext]

/-! ## The HERE tile string -/

/-- **`FromHereTile` reads back what `ToHereTile` wrote.** -/
theorem fromHereTile_toHereTile {t : Tile} {k : TileKey} (h : KeyOf t k) :
    fromHereTile k.toHereTile = k := by
  have hread := readDecimal_decimal (k.toQuadKey64.toNat : ℤ)
  have hne : k.toHereTile ≠ [] := by
    intro heq
    rw [toHereTile] at heq
    rw [heq] at hread
    exact absurd hread (by simp [readDecimal, readSign])
  have hlt : ((k.toQuadKey64.toNat : ℤ)).natAbs < 2 ^ 64 := k.toQuadKey64.isLt
  have hword : strtoull k.toHereTile = k.toQuadKey64 := by
    simp only [strtoull, toHereTile, hread]
    rw [if_pos hlt, BitVec.ofInt_natCast, BitVec.ofNat_toNat, BitVec.setWidth_eq]
  rw [fromHereTile, if_neg hne, hword, fromQuadKey64_toQuadKey64_of_keyOf h]

/-- The HERE tile string tells valid keys apart. -/
theorem toHereTile_injective {k other : TileKey} (hk : k.isValid = true)
    (hother : other.isValid = true) (h : k.toHereTile = other.toHereTile) : k = other := by
  obtain ⟨t, ht⟩ := isValid_iff_keyOf.mp hk
  obtain ⟨u, hu⟩ := isValid_iff_keyOf.mp hother
  rw [← fromHereTile_toHereTile ht, h, fromHereTile_toHereTile hu]

/-- **The string formats are faithful.** Both are read back to the key they were written from;
every string of digits that fits, and the root's, is the string of a valid key at its level;
a key's parent has its string without the last digit, and a child its string with the
child's digit after it. -/
theorem tileKeyStrings_faithful :
    (∀ k : TileKey, k.isValid = true →
      fromQuadKey k.toQuadKey = k ∧ fromHereTile k.toHereTile = k) ∧
    (∀ text : List Char, (∀ c ∈ text, '0' ≤ c ∧ c ≤ '3') → 1 ≤ text.length → text.length ≤ 31 →
      (fromQuadKey text).isValid = true ∧ (fromQuadKey text).level.toNat = text.length ∧
        (fromQuadKey text).toQuadKey = text) ∧
    ((fromQuadKey ['-']).isValid = true ∧ (fromQuadKey ['-']).level.toNat = 0 ∧
      (fromQuadKey ['-']).toQuadKey = ['-']) ∧
    (∀ k : TileKey, k.isValid = true → 2 ≤ k.level.toNat →
      k.toQuadKey.dropLast = k.parent.toQuadKey) ∧
    (∀ k : TileKey, k.isValid = true → 1 ≤ k.level.toNat → k.level.toNat ≤ 30 →
      ∀ index : BitVec 8, index.toNat < 4 →
        k.toQuadKey ++ [digitChar index.toNat] = (k.getChild index).toQuadKey) := by
  refine ⟨?_, ?_, ?_, ?_, ?_⟩
  · intro k hk
    obtain ⟨t, ht⟩ := isValid_iff_keyOf.mp hk
    refine ⟨?_, fromHereTile_toHereTile ht⟩
    rw [toQuadKey_of_keyOf ht]
    exact (keyOf_fromQuadKey ht.level_lt).key_eq ht
  · intro text hdigits hlow hhigh
    have hne : text ≠ [] := by
      rintro rfl
      exact absurd hlow (by simp)
    obtain ⟨t, hlevel, htext⟩ := exists_tile_of_string hne hdigits
    have ht := keyOf_fromQuadKey (t := t) (by omega)
    rw [htext] at ht
    exact ⟨ht.isValid, ht.level.trans hlevel, (toQuadKey_of_keyOf ht).trans htext⟩
  · have ht := keyOf_fromQuadKey (t := ⟨0, 0, 0, by omega, by omega⟩) (by decide)
    exact ⟨ht.isValid, ht.level, toQuadKey_of_keyOf ht⟩
  · intro k hk hlevel
    obtain ⟨t, ht⟩ := isValid_iff_keyOf.mp hk
    rw [ht.level] at hlevel
    obtain ⟨d, hd, hchild⟩ := Tile.exists_child_eq (t := t) (by omega)
    have hpath : t.path = (t.ancestor 1).path ++ [d] := by
      rw [← Tile.path_child _ hd, hchild]
    have hup : (t.ancestor 1).path ≠ [] := by
      intro heq
      have hlength := Tile.length_path (t.ancestor 1)
      rw [heq, Tile.ancestor_level, List.length_nil] at hlength
      omega
    rw [toQuadKey_of_keyOf ht, toQuadKey_of_keyOf (ht.parent (by omega)), hpath, pathString,
      pathString, if_neg (by simp), if_neg hup, List.map_append, List.map_singleton,
      List.dropLast_concat]
  · intro k hk hlow hhigh index hindex
    obtain ⟨t, ht⟩ := isValid_iff_keyOf.mp hk
    rw [ht.level] at hlow hhigh
    have hpath : t.path ≠ [] := by
      intro heq
      have hlength := Tile.length_path t
      rw [heq, List.length_nil] at hlength
      omega
    rw [toQuadKey_of_keyOf ht, toQuadKey_of_keyOf (ht.getChild (by omega) hindex),
      Tile.path_child _ hindex, pathString, pathString, if_neg hpath, if_neg (by simp),
      List.map_append, List.map_singleton]

theorem tileKeyStrings_faithful_at_three :
    fromQuadKey (fromRowColumnLevel 3#32 5#32 3#32).toQuadKey = fromRowColumnLevel 3#32 5#32 3#32 ∧
      (fromQuadKey "312".toList).toQuadKey = "312".toList := by
  refine ⟨(tileKeyStrings_faithful.1 _ (by decide)).1, ?_⟩
  have hdigits : ∀ c ∈ "312".toList, '0' ≤ c ∧ c ≤ '3' :=
    List.forall_iff_forall_mem.mp (by decide)
  exact (tileKeyStrings_faithful.2.1 _ hdigits (by decide) (by decide)).2.2

end OlpEdgeSdk.Analysis

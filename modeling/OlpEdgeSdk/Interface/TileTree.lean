import OlpEdgeSdk.Base.SubTrees
import OlpEdgeSdk.Model.TileKey

/-!
# Tile keys as tiles of the quad tree

A valid tile key is the key of exactly one tile of the quad tree, and on valid keys the
operations of `TileKey` are those of the tree: `Parent` goes one level up, `GetChild` to a
child, `ChangedLevelBy` up or to the first tile below, and `IsChildOf` is proper ancestry.
-/

set_option autoImplicit false

namespace OlpEdgeSdk.Interface

open OlpEdgeSdk.Base OlpEdgeSdk.Model TileKey

/-- `k` is the key of the tile `t`. -/
structure KeyOf (t : Tile) (k : TileKey) : Prop where
  level_lt : t.level < 32
  level : k.level.toNat = t.level
  row : k.row.toNat = t.row
  column : k.column.toNat = t.column

theorem toNat_one_shiftLeft {l : ℕ} (h : l < 32) : (1#32 <<< l).toNat = 2 ^ l := by
  have hlt : 2 ^ l < 2 ^ 32 := Nat.pow_lt_pow_right (by omega) h
  rw [BitVec.toNat_shiftLeft, BitVec.toNat_one (by omega), Nat.one_shiftLeft,
    Nat.mod_eq_of_lt hlt]

theorem isValid_iff {k : TileKey} :
    k.isValid = true ↔ k.level.toNat < 32 ∧ k.row.toNat < 2 ^ k.level.toNat ∧
      k.column.toNat < 2 ^ k.level.toNat := by
  simp only [isValid, levelCount, Bool.and_eq_true, decide_eq_true_eq, BitVec.lt_def,
    BitVec.shiftLeft_eq', and_assoc]
  constructor
  · rintro ⟨hlevel, hrow, hcolumn⟩
    have hlt : k.level.toNat < 32 := hlevel
    rw [toNat_one_shiftLeft hlt] at hrow hcolumn
    exact ⟨hlt, hrow, hcolumn⟩
  · rintro ⟨hlt, hrow, hcolumn⟩
    rw [toNat_one_shiftLeft hlt]
    exact ⟨hlt, hrow, hcolumn⟩

/-- **The valid keys are the keys of tiles.** -/
theorem isValid_iff_keyOf {k : TileKey} : k.isValid = true ↔ ∃ t, KeyOf t k := by
  rw [isValid_iff]
  constructor
  · rintro ⟨hlevel, hrow, hcolumn⟩
    exact ⟨⟨k.level.toNat, k.row.toNat, k.column.toNat, hrow, hcolumn⟩, hlevel, rfl, rfl, rfl⟩
  · rintro ⟨t, h⟩
    rw [h.level, h.row, h.column]
    exact ⟨h.level_lt, t.row_lt, t.column_lt⟩

theorem KeyOf.isValid {t : Tile} {k : TileKey} (h : KeyOf t k) : k.isValid = true :=
  isValid_iff_keyOf.mpr ⟨t, h⟩

theorem KeyOf.key_eq {t : Tile} {k other : TileKey} (h : KeyOf t k) (hother : KeyOf t other) :
    k = other := by
  have hlevel : k.level = other.level := BitVec.eq_of_toNat_eq (h.level.trans hother.level.symm)
  have hrow : k.row = other.row := BitVec.eq_of_toNat_eq (h.row.trans hother.row.symm)
  have hcolumn : k.column = other.column :=
    BitVec.eq_of_toNat_eq (h.column.trans hother.column.symm)
  cases k
  cases other
  simp_all only

theorem KeyOf.tile_eq {t u : Tile} {k : TileKey} (h : KeyOf t k) (hu : KeyOf u k) : t = u := by
  ext
  · exact h.level.symm.trans hu.level
  · exact h.row.symm.trans hu.row
  · exact h.column.symm.trans hu.column

/-- Every tile that a level can be spelled for has a key. -/
theorem exists_keyOf {t : Tile} (h : t.level < 32) : ∃ k, KeyOf t k := by
  have hlt : 2 ^ t.level < 2 ^ 32 := Nat.pow_lt_pow_right (by omega) h
  have hrow := t.row_lt
  have hcolumn := t.column_lt
  refine ⟨fromRowColumnLevel (BitVec.ofNat 32 t.row) (BitVec.ofNat 32 t.column)
    (BitVec.ofNat 32 t.level), h, ?_, ?_, ?_⟩
  · exact Nat.mod_eq_of_lt (by omega)
  · exact Nat.mod_eq_of_lt (by omega)
  · exact Nat.mod_eq_of_lt (by omega)

/-- The rows and columns of a level fit the words with room for the mask of the next one. -/
theorem KeyOf.lt_two_pow {t : Tile} {k : TileKey} (h : KeyOf t k) :
    k.row.toNat < 2 ^ t.level ∧ k.column.toNat < 2 ^ t.level ∧ 2 ^ t.level ≤ 2 ^ 31 := by
  refine ⟨h.row ▸ t.row_lt, h.column ▸ t.column_lt, ?_⟩
  exact Nat.pow_le_pow_right (by omega) (by have := h.level_lt; omega)

/-- **`Parent` is one level up.** -/
theorem KeyOf.parent {t : Tile} {k : TileKey} (h : KeyOf t k) (hlevel : 0 < t.level) :
    KeyOf (t.ancestor 1) k.parent := by
  have hlt := h.level_lt
  have hk := h.level
  have hpos : 0#32 < k.level := by
    rw [BitVec.lt_def, hk]
    exact hlevel
  have hone : 1#32 ≤ k.level := by
    rw [BitVec.le_def, hk]
    exact hlevel
  unfold TileKey.parent
  rw [if_pos hpos]
  refine ⟨?_, ?_, ?_, ?_⟩
  · rw [Tile.ancestor_level]
    omega
  · simp only [fromRowColumnLevel, Tile.ancestor_level]
    rw [BitVec.toNat_sub_of_le hone, hk]
    rfl
  · simp only [fromRowColumnLevel, Tile.ancestor, BitVec.toNat_ushiftRight,
      Nat.shiftRight_eq_div_pow, h.row]
  · simp only [fromRowColumnLevel, Tile.ancestor, BitVec.toNat_ushiftRight,
      Nat.shiftRight_eq_div_pow, h.column]

theorem KeyOf.parent_of_root {t : Tile} {k : TileKey} (h : KeyOf t k) (hlevel : t.level = 0) :
    k.parent = invalid := by
  have hzero : ¬ 0#32 < k.level := by
    rw [BitVec.lt_def, h.level, hlevel]
    exact Nat.lt_irrefl 0
  unfold TileKey.parent
  rw [if_neg hzero]

/-- A bit or'ed into the place a shift has freed. -/
theorem toNat_shiftLeft_one_or {x b : BitVec 32} (hx : x.toNat < 2 ^ 31) (hb : b.toNat < 2) :
    (x <<< 1 ||| b).toNat = 2 * x.toNat + b.toNat := by
  rw [BitVec.toNat_or, BitVec.toNat_shiftLeft, Nat.mod_eq_of_lt, ← Nat.shiftLeft_add_eq_or_of_lt,
    Nat.shiftLeft_eq]
  · omega
  · simpa using hb
  · rw [Nat.shiftLeft_eq]
    omega

/-- **`GetChild` is a child.** -/
theorem KeyOf.getChild {t : Tile} {k : TileKey} (h : KeyOf t k) (hlevel : t.level < 31)
    {index : BitVec 8} (hindex : index.toNat < 4) :
    KeyOf (t.child index.toNat) (k.getChild index) := by
  obtain ⟨hrow, hcolumn, -⟩ := h.lt_two_pow
  have hle : 2 ^ t.level ≤ 2 ^ 30 := Nat.pow_le_pow_right (by omega) (by omega)
  have hk := h.level
  have hsum : (k.level + 1#32).toNat = t.level + 1 := by
    rw [BitVec.toNat_add, BitVec.toNat_one (by omega), hk]
    omega
  have hint : ¬ (k.level + 1#32).toInt < 0 := by
    rw [BitVec.toInt_eq_toNat_of_lt (by omega)]
    omega
  have hby : k.changedLevelBy 1#32 =
      { row := k.row <<< 1, column := k.column <<< 1, level := k.level + 1#32 } := by
    simp only [changedLevelBy]
    rw [if_neg (by decide), if_pos (by decide), if_neg hint]
    rfl
  simp only [TileKey.getChild, hby]
  have hlow : ((index &&& 1#8).setWidth 32).toNat = index.toNat % 2 := by
    rw [BitVec.toNat_setWidth, BitVec.toNat_and, BitVec.toNat_one (by omega), Nat.and_one_is_mod]
    omega
  have hhigh : ((index >>> 1).setWidth 32).toNat = index.toNat / 2 := by
    rw [BitVec.toNat_setWidth, BitVec.toNat_ushiftRight, Nat.shiftRight_eq_div_pow]
    omega
  refine ⟨?_, ?_, ?_, ?_⟩
  · rw [Tile.child_level]
    omega
  · exact hsum
  · rw [toNat_shiftLeft_one_or (by omega) (by omega), hhigh, h.row]
    simp only [Tile.child]
    omega
  · rw [toNat_shiftLeft_one_or (by omega) (by omega), hlow, h.column]
    rfl

/-- **`ChangedLevelBy` a negative number is the ancestor.** -/
theorem KeyOf.changedLevelBy_up {t : Tile} {k : TileKey} (h : KeyOf t k) (delta : BitVec 32)
    (hdelta : (-delta).toNat ≤ t.level) :
    KeyOf (t.ancestor (-delta).toNat) (k.changedLevelBy delta) := by
  have hlt := h.level_lt
  have hk := h.level
  unfold TileKey.changedLevelBy
  by_cases hzero : delta = 0#32
  · rw [if_pos hzero, hzero]
    simpa using h
  · have hnat : (-delta).toNat = 2 ^ 32 - delta.toNat := by
      have hpos : delta.toNat ≠ 0 := fun heq => hzero (BitVec.eq_of_toNat_eq heq)
      rw [BitVec.toNat_neg]
      omega
    have hsum : (k.level + delta).toNat = t.level - (-delta).toNat := by
      rw [BitVec.toNat_add, hk]
      omega
    have hint : ¬ (k.level + delta).toInt < 0 := by
      rw [BitVec.toInt_eq_toNat_of_lt (by omega)]
      omega
    have hneg : ¬ 0 ≤ delta.toInt := by
      rw [BitVec.toInt_eq_toNat_cond]
      split
      · omega
      · omega
    simp only
    rw [if_neg hzero, if_neg hneg, if_neg hint]
    refine ⟨?_, hsum, ?_, ?_⟩
    · rw [Tile.ancestor_level]
      omega
    · simp only [Tile.ancestor, BitVec.ushiftRight_eq', BitVec.toNat_ushiftRight,
        Nat.shiftRight_eq_div_pow, h.row]
    · simp only [Tile.ancestor, BitVec.ushiftRight_eq', BitVec.toNat_ushiftRight,
        Nat.shiftRight_eq_div_pow, h.column]

/-- A coordinate that is shifted within the words. -/
theorem toNat_shiftLeft_of_lt {x : BitVec 32} {l n : ℕ} (hx : x.toNat < 2 ^ l)
    (hfit : l + n < 32) : (x <<< n).toNat = x.toNat * 2 ^ n := by
  rw [BitVec.toNat_shiftLeft, Nat.shiftLeft_eq, Nat.mod_eq_of_lt]
  calc x.toNat * 2 ^ n < 2 ^ l * 2 ^ n := Nat.mul_lt_mul_of_pos_right hx (Nat.two_pow_pos n)
    _ = 2 ^ (l + n) := (pow_add 2 l n).symm
    _ ≤ 2 ^ 32 := Nat.pow_le_pow_right (by omega) (by omega)

/-- **`ChangedLevelBy` a positive number is the first tile below.** -/
theorem KeyOf.changedLevelBy_down {t : Tile} {k : TileKey} (h : KeyOf t k) (delta : BitVec 32)
    (hfit : t.level + delta.toNat < 32) :
    KeyOf (t.below (Tile.corner delta.toNat)) (k.changedLevelBy delta) := by
  have hk := h.level
  unfold TileKey.changedLevelBy
  by_cases hzero : delta = 0#32
  · rw [if_pos hzero, hzero]
    simpa using h
  · have hsum : (k.level + delta).toNat = t.level + delta.toNat := by
      rw [BitVec.toNat_add, hk]
      omega
    have hint : ¬ (k.level + delta).toInt < 0 := by
      rw [BitVec.toInt_eq_toNat_of_lt (by omega)]
      omega
    have hpos : 0 ≤ delta.toInt := by
      rw [BitVec.toInt_eq_toNat_of_lt (by omega)]
      omega
    simp only
    rw [if_neg hzero, if_pos hpos, if_neg hint]
    refine ⟨hfit, hsum, ?_, ?_⟩
    · simp only [Tile.below, Tile.corner, Nat.add_zero]
      rw [BitVec.shiftLeft_eq', toNat_shiftLeft_of_lt (h.row ▸ t.row_lt) hfit, h.row]
    · simp only [Tile.below, Tile.corner, Nat.add_zero]
      rw [BitVec.shiftLeft_eq', toNat_shiftLeft_of_lt (h.column ▸ t.column_lt) hfit, h.column]

/-- **`ChangedLevelTo` an upper level is the ancestor there.** -/
theorem KeyOf.changedLevelTo_up {t : Tile} {k : TileKey} (h : KeyOf t k) {level : BitVec 32}
    (hlevel : level.toNat ≤ t.level) :
    KeyOf (t.ancestor (t.level - level.toNat)) (k.changedLevelTo level) := by
  have hle : level ≤ k.level := by
    rw [BitVec.le_def, h.level]
    exact hlevel
  have hdelta : (-(level - k.level)).toNat = t.level - level.toNat := by
    rw [BitVec.neg_sub, BitVec.add_comm, ← BitVec.sub_eq_add_neg, BitVec.toNat_sub_of_le hle,
      h.level]
  rw [← hdelta]
  apply h.changedLevelBy_up
  omega

theorem KeyOf.changedLevelTo {t : Tile} {k : TileKey} (h : KeyOf t k) (level : BitVec 32)
    (hlevel : level.toNat < t.level) :
    KeyOf (t.ancestor (t.level - level.toNat)) (k.changedLevelTo level) :=
  h.changedLevelTo_up hlevel.le

/-- **`ChangedLevelTo` a lower level is the first tile below.** -/
theorem KeyOf.changedLevelTo_down {t : Tile} {k : TileKey} (h : KeyOf t k) (level : BitVec 32)
    (hlevel : t.level ≤ level.toNat) (hlt : level.toNat < 32) :
    KeyOf (t.below (Tile.corner (level.toNat - t.level))) (k.changedLevelTo level) := by
  have hdelta : (level - k.level).toNat = level.toNat - t.level := by
    have hle : k.level ≤ level := by
      rw [BitVec.le_def, h.level]
      exact hlevel
    rw [BitVec.toNat_sub_of_le hle, h.level]
  rw [← hdelta]
  apply h.changedLevelBy_down
  omega

/-- **`IsChildOf` is proper ancestry.** -/
theorem KeyOf.isChildOf_iff {t u : Tile} {k other : TileKey} (h : KeyOf t k)
    (hother : KeyOf u other) : k.isChildOf other = true ↔ u < t := by
  unfold isChildOf
  split
  · next hle =>
    rw [BitVec.le_def, h.level, hother.level] at hle
    constructor
    · intro hfalse
      exact absurd hfalse (by decide)
    · intro hlt
      exact absurd (Tile.eq_of_le_of_level_le hlt.le hle) hlt.ne
  · next hle =>
    rw [BitVec.le_def, h.level, hother.level, not_le] at hle
    have hup := h.changedLevelTo other.level (by rw [hother.level]; exact hle)
    rw [hother.level] at hup
    rw [decide_eq_true_eq]
    constructor
    · intro heq
      rw [heq] at hup
      have hle : u ≤ t := ⟨_, hup.tile_eq hother⟩
      refine lt_of_le_of_ne hle ?_
      rintro rfl
      omega
    · intro hlt
      obtain ⟨-, hanc⟩ := Tile.le_iff_ancestor.mp hlt.le
      rw [hanc] at hup
      exact hup.key_eq hother

/-- **Adding a sub tile's row and column** to the first tile below is the tile below. -/
theorem KeyOf.added {t s : Tile} {k sub : TileKey} (h : KeyOf t k) (hsub : KeyOf s sub)
    (hfit : t.level + s.level < 32) :
    KeyOf (t.below s) (fromRowColumnLevel ((k.changedLevelBy sub.level).row + sub.row)
      ((k.changedLevelBy sub.level).column + sub.column) (k.changedLevelBy sub.level).level) := by
  have hchild := h.changedLevelBy_down sub.level (by rw [hsub.level]; exact hfit)
  rw [hsub.level] at hchild
  have hrow := (t.below s).row_lt
  have hcolumn := (t.below s).column_lt
  have hle : 2 ^ (t.below s).level ≤ 2 ^ 31 := Nat.pow_le_pow_right (by omega) (by
    rw [Tile.below_level]
    omega)
  have hchildRow := hchild.row
  have hchildColumn := hchild.column
  simp only [Tile.below, Tile.corner, Nat.add_zero] at hchildRow hchildColumn hrow hcolumn hle
  refine ⟨hfit, hchild.level, ?_, ?_⟩
  · simp only [fromRowColumnLevel, Tile.below]
    rw [BitVec.toNat_add, hchildRow, hsub.row, Nat.mod_eq_of_lt (by omega)]
  · simp only [fromRowColumnLevel, Tile.below]
    rw [BitVec.toNat_add, hchildColumn, hsub.column, Nat.mod_eq_of_lt (by omega)]

/-- **`GetRelativeSubTileKey` is the place below the ancestor.** -/
theorem KeyOf.relative {t : Tile} {k : TileKey} (h : KeyOf t k) {parentLevel : BitVec 32}
    (hlevel : parentLevel.toNat ≤ t.level) :
    KeyOf (t.relative (t.level - parentLevel.toNat))
      (TileKeyUtils.getRelativeSubTileKey k parentLevel) := by
  have hlt := h.level_lt
  have hk := h.level
  have hup := h.changedLevelTo_up hlevel
  have horigin := hup.changedLevelTo_down k.level
    (by rw [Tile.ancestor_level, hk]; omega) (by omega)
  rw [Tile.ancestor_level, hk, Nat.sub_sub_self hlevel] at horigin
  have hrow := horigin.row
  have hcolumn := horigin.column
  simp only [Tile.below, Tile.corner, Tile.ancestor, Nat.add_zero] at hrow hcolumn
  have hrowLe := Nat.div_mul_le_self t.row (2 ^ (t.level - parentLevel.toNat))
  have hcolumnLe := Nat.div_mul_le_self t.column (2 ^ (t.level - parentLevel.toNat))
  have hparent : parentLevel ≤ k.level := by
    rw [BitVec.le_def, hk]
    exact hlevel
  refine ⟨?_, ?_, ?_, ?_⟩
  · rw [Tile.relative_level]
    omega
  · simp only [TileKeyUtils.getRelativeSubTileKey, fromRowColumnLevel, Tile.relative]
    rw [BitVec.toNat_sub_of_le hparent, hk]
  · simp only [TileKeyUtils.getRelativeSubTileKey, fromRowColumnLevel, Tile.relative]
    rw [BitVec.toNat_sub_of_le (by rw [BitVec.le_def, hrow, h.row]; exact hrowLe), hrow, h.row,
      Nat.mod_eq_sub_div_mul]
  · simp only [TileKeyUtils.getRelativeSubTileKey, fromRowColumnLevel, Tile.relative]
    rw [BitVec.toNat_sub_of_le (by rw [BitVec.le_def, hcolumn, h.column]; exact hcolumnLe),
      hcolumn, h.column, Nat.mod_eq_sub_div_mul]

end OlpEdgeSdk.Interface

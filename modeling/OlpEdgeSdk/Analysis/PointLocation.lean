import OlpEdgeSdk.Analysis.SubTileEnumeration
import OlpEdgeSdk.Base.Grid
import OlpEdgeSdk.Model.TileKeyUtils

/-!
# Locating a point

In exact arithmetic the row and the column of a point are the cells of its relative position in
the world box. The columns double with every level, and so do the rows but for the first level
of the half quad tree, so the tile of the upper level is the parent.
-/

set_option autoImplicit false

namespace OlpEdgeSdk.Analysis.PointLocation

open OlpEdgeSdk.Base OlpEdgeSdk.Interface OlpEdgeSdk.Model TileKey TileKeyUtils
open SubTileEnumeration

variable {K : Type*} [Field K] [LinearOrder K]

/-- The two schemes. -/
def schemes : List ISubdivisionScheme := [quadTreeSubdivisionScheme, halfQuadTreeSubdivisionScheme]

/-- The world point is inside the box. -/
def InWorld (box : WorldAlignedBox K) (point : WorldCoordinates K) : Prop :=
  (box.minimum.x ≤ point.x ∧ point.x ≤ box.maximum.x) ∧
    box.minimum.y ≤ point.y ∧ point.y ≤ box.maximum.y

/-- Where a coordinate stands in the extent of the box, from zero to one. -/
def relativeX (box : WorldAlignedBox K) (point : WorldCoordinates K) : K :=
  (point.x - box.minimum.x) / box.size.x

def relativeY (box : WorldAlignedBox K) (point : WorldCoordinates K) : K :=
  (point.y - box.minimum.y) / box.size.y

/-! ## The sizes of the levels -/

/-- The sizes of a level of either scheme are words that leave room. -/
theorem levelSize_bounds {scheme : ISubdivisionScheme} (h : scheme ∈ schemes) {level : BitVec 32}
    (hlevel : level.toNat ≤ 31) :
    (scheme.getLevelSize level).width.toNat = 2 ^ level.toNat ∧
      0 < (scheme.getLevelSize level).height.toNat ∧
      (scheme.getLevelSize level).height.toNat ≤ 2 ^ level.toNat := by
  have hword : BitVec.ofNat 32 level.toNat = level := by
    rw [BitVec.ofNat_toNat, BitVec.setWidth_eq]
  simp only [schemes, List.mem_cons, List.not_mem_nil, or_false] at h
  rcases h with rfl | rfl
  · have hsize := splits_quadTree.levelSize level.toNat hlevel
    rw [hword] at hsize
    rw [hsize.1, hsize.2]
    exact ⟨rfl, Nat.two_pow_pos _, le_rfl⟩
  · have hsize := splits_halfQuadTree.levelSize level.toNat hlevel
    rw [hword] at hsize
    rw [hsize.1, hsize.2]
    exact ⟨rfl, Nat.two_pow_pos _, Nat.pow_le_pow_right (by omega) (by omega)⟩

/-- A level has twice the rows of the one above it, or one row as the one above it. -/
theorem height_halves {scheme : ISubdivisionScheme} (h : scheme ∈ schemes) {n : ℕ} (hn : n < 31) :
    (scheme.getLevelSize (BitVec.ofNat 32 (n + 1))).height.toNat =
        2 * (scheme.getLevelSize (BitVec.ofNat 32 n)).height.toNat ∨
      (scheme.getLevelSize (BitVec.ofNat 32 (n + 1))).height.toNat = 1 ∧
        (scheme.getLevelSize (BitVec.ofNat 32 n)).height.toNat = 1 := by
  simp only [schemes, List.mem_cons, List.not_mem_nil, or_false] at h
  rcases h with rfl | rfl
  · rw [(splits_quadTree.levelSize n hn.le).2, (splits_quadTree.levelSize (n + 1) hn).2]
    exact Or.inl (pow_succ' 2 n)
  · rw [(splits_halfQuadTree.levelSize n hn.le).2, (splits_halfQuadTree.levelSize (n + 1) hn).2]
    cases n with
    | zero => exact Or.inr ⟨rfl, rfl⟩
    | succ n => exact Or.inl (pow_succ' 2 n)

/-! ## The tile of a point -/

variable [IsStrictOrderedRing K]

/-- A relative position is between zero and one. -/
theorem relative_bounds {low high p size : K} (hlow : low ≤ p) (hhigh : p ≤ high)
    (hsize : size = high - low ∨ size = 0) : 0 ≤ (p - low) / size ∧ (p - low) / size ≤ 1 := by
  rcases hsize with rfl | rfl
  · have hspan : 0 ≤ high - low := by linarith
    exact ⟨div_nonneg (by linarith) hspan, div_le_one_of_le₀ (by linarith) hspan⟩
  · rw [div_zero]
    exact ⟨le_rfl, zero_le_one⟩

theorem relativeX_bounds {box : WorldAlignedBox K} {point : WorldCoordinates K}
    (h : InWorld box point) : 0 ≤ relativeX box point ∧ relativeX box point ≤ 1 := by
  apply relative_bounds h.1.1 h.1.2
  unfold WorldAlignedBox.size
  split
  · exact Or.inr rfl
  · exact Or.inl rfl

theorem relativeY_bounds {box : WorldAlignedBox K} {point : WorldCoordinates K}
    (h : InWorld box point) : 0 ≤ relativeY box point ∧ relativeY box point ≤ 1 := by
  apply relative_bounds h.2.1 h.2.2
  unfold WorldAlignedBox.size
  split
  · exact Or.inr rfl
  · exact Or.inl rfl

variable [FloorRing K]

/-- **The clamped scaled floor** of a relative position is its cell. -/
theorem toNat_minWord {cells : BitVec 32} (hpos : 0 < cells.toNat) (hcells : cells.toNat ≤ 2 ^ 31)
    {t q : K} (hq : q = cells.toNat * t) (hlow : 0 ≤ t) (hhigh : t ≤ 1) :
    (minWord (cells - 1#32) (toUInt32 q)).toNat = gridCell cells.toNat t := by
  have hone : 1#32 ≤ cells := by
    rw [BitVec.le_def]
    exact hpos
  have hlast : (cells - 1#32).toNat = cells.toNat - 1 := by
    rw [BitVec.toNat_sub_of_le hone]
    rfl
  have hnonneg : 0 ≤ q := by
    rw [hq]
    exact mul_nonneg (Nat.cast_nonneg _) hlow
  have hle : ⌊q⌋₊ ≤ cells.toNat := by
    apply Nat.floor_le_of_le
    rw [hq]
    exact mul_le_of_le_one_right (Nat.cast_nonneg _) hhigh
  have hfloor : (toUInt32 q).toNat = ⌊q⌋₊ := by
    rw [toUInt32, ← Int.natCast_floor_eq_floor hnonneg, BitVec.ofInt_natCast, BitVec.toNat_ofNat]
    omega
  unfold gridCell minWord
  rw [← hq]
  split
  · next hlt =>
    rw [BitVec.lt_def, hlast, hfloor] at hlt
    rw [hfloor]
    omega
  · next hge =>
    rw [BitVec.lt_def, hlast, hfloor] at hge
    rw [hlast]
    omega

/-- **The tile of a point** has the cells of its relative position. -/
theorem geoCoordinatesToTileKey_spec {tilingScheme : ITilingScheme K}
    (hscheme : tilingScheme.subdivisionScheme ∈ schemes) {geoPoint : GeoCoordinates K}
    {point : WorldCoordinates K}
    (hproject : tilingScheme.projection.project ⟨geoPoint, 0⟩ = some point)
    (hin : InWorld (tilingScheme.projection.worldExtent 0 0) point) {level : BitVec 32}
    (hlevel : level.toNat ≤ 31) :
    (geoCoordinatesToTileKey tilingScheme geoPoint level).level = level ∧
      (geoCoordinatesToTileKey tilingScheme geoPoint level).row.toNat =
        gridCell (tilingScheme.subdivisionScheme.getLevelSize level).height.toNat
          (relativeY (tilingScheme.projection.worldExtent 0 0) point) ∧
      (geoCoordinatesToTileKey tilingScheme geoPoint level).column.toNat =
        gridCell (tilingScheme.subdivisionScheme.getLevelSize level).width.toNat
          (relativeX (tilingScheme.projection.worldExtent 0 0) point) := by
  obtain ⟨hwidth, hheight, hheightLe⟩ := levelSize_bounds hscheme hlevel
  have hpow : 2 ^ level.toNat ≤ 2 ^ 31 := Nat.pow_le_pow_right (by omega) hlevel
  have hx := relativeX_bounds hin
  have hy := relativeY_bounds hin
  simp only [geoCoordinatesToTileKey, hproject]
  rw [if_neg (by simp [hin.1.1, hin.1.2]), if_neg (by simp [hin.2.1, hin.2.2])]
  refine ⟨rfl, ?_, ?_⟩
  · apply toNat_minWord hheight (by omega) _ hy.1 hy.2
    rw [relativeY, mul_div_assoc]
  · apply toNat_minWord (by rw [hwidth]; exact Nat.two_pow_pos _) (by omega) _ hx.1 hx.2
    rw [relativeX, mul_div_assoc]

theorem tileKey_eq {k other : TileKey} (hlevel : k.level = other.level)
    (hrow : k.row.toNat = other.row.toNat) (hcolumn : k.column.toNat = other.column.toNat) :
    k = other := by
  cases k
  cases other
  simp only [TileKey.mk.injEq]
  exact ⟨BitVec.eq_of_toNat_eq hrow, BitVec.eq_of_toNat_eq hcolumn, hlevel⟩

/-- **Point location is coherent across levels.** The tile of a point inside the world box is
one of its level, and the tile on the level above is its parent. -/
theorem pointLocation_coherent (tilingScheme : ITilingScheme K)
    (hscheme : tilingScheme.subdivisionScheme ∈ schemes) (geoPoint : GeoCoordinates K)
    (point : WorldCoordinates K)
    (hproject : tilingScheme.projection.project ⟨geoPoint, 0⟩ = some point)
    (hin : InWorld (tilingScheme.projection.worldExtent 0 0) point) (level : BitVec 32)
    (hlow : 1 ≤ level.toNat) (hlevel : level.toNat ≤ 31) :
    InLevel tilingScheme.subdivisionScheme level.toNat
        (geoCoordinatesToTileKey tilingScheme geoPoint level) ∧
      geoCoordinatesToTileKey tilingScheme geoPoint (level - 1#32) =
        (geoCoordinatesToTileKey tilingScheme geoPoint level).parent := by
  have hword : BitVec.ofNat 32 level.toNat = level := by
    rw [BitVec.ofNat_toNat, BitVec.setWidth_eq]
  obtain ⟨n, hn⟩ := Nat.exists_eq_add_of_le' hlow
  have habove : level - 1#32 = BitVec.ofNat 32 n := by
    apply BitVec.eq_of_toNat_eq
    rw [BitVec.toNat_sub_of_le (by rw [BitVec.le_def]; exact hlow), BitVec.toNat_ofNat]
    simp only [BitVec.toNat_ofNat]
    omega
  have hnat : (BitVec.ofNat 32 n).toNat = n := by
    rw [BitVec.toNat_ofNat]
    omega
  obtain ⟨hwidth, hheight, -⟩ := levelSize_bounds hscheme hlevel
  obtain ⟨hwidthAbove, -, -⟩ := levelSize_bounds hscheme
    (show (BitVec.ofNat 32 n).toNat ≤ 31 by rw [hnat]; omega)
  obtain ⟨hl, hrow, hcolumn⟩ := geoCoordinatesToTileKey_spec hscheme hproject hin hlevel
  obtain ⟨hl', hrow', hcolumn'⟩ := geoCoordinatesToTileKey_spec hscheme hproject hin
    (show (BitVec.ofNat 32 n).toNat ≤ 31 by rw [hnat]; omega)
  have hhalves := height_halves hscheme (n := n) (by omega)
  rw [← hn, hword] at hhalves
  rw [habove]
  generalize geoCoordinatesToTileKey tilingScheme geoPoint level = k at *
  generalize geoCoordinatesToTileKey tilingScheme geoPoint (BitVec.ofNat 32 n) = above at *
  constructor
  · unfold InLevel
    rw [hword, BitVec.lt_def, BitVec.lt_def, hrow, hcolumn]
    exact ⟨hl, gridCell_lt hheight _, gridCell_lt (by rw [hwidth]; exact Nat.two_pow_pos _) _⟩
  · have hpos : 0#32 < k.level := by
      rw [hl, BitVec.lt_def]
      exact hlow
    unfold TileKey.parent
    rw [if_pos hpos]
    apply tileKey_eq
    · rw [hl', fromRowColumnLevel, hl, habove]
    · simp only [fromRowColumnLevel, BitVec.toNat_ushiftRight, Nat.shiftRight_eq_div_pow, pow_one]
      rw [hrow, hrow']
      rcases hhalves with hdouble | ⟨hone, hone'⟩
      · rw [hdouble, gridCell_half]
      · rw [hone, hone', gridCell_one]
    · simp only [fromRowColumnLevel, BitVec.toNat_ushiftRight, Nat.shiftRight_eq_div_pow, pow_one]
      rw [hcolumn, hcolumn', hwidth, hwidthAbove, hnat, hn, pow_succ', gridCell_half]

theorem pointLocation_coherent_at_the_equator :
    geoCoordinatesToTileKey (halfQuadTreeEquirectangularTilingScheme ℚ) ⟨0, 1⟩ (4#32 - 1#32) =
      (geoCoordinatesToTileKey (halfQuadTreeEquirectangularTilingScheme ℚ) ⟨0, 1⟩ 4#32).parent := by
  refine (pointLocation_coherent (halfQuadTreeEquirectangularTilingScheme ℚ)
    (by simp [schemes, halfQuadTreeEquirectangularTilingScheme]) ⟨0, 1⟩ _ rfl ⟨⟨?_, ?_⟩, ?_, ?_⟩
    4#32 (by decide) (by decide)).2
  · norm_num [halfQuadTreeEquirectangularTilingScheme, equirectangularProjection, Math.pi,
      Math.twoPi]
  · norm_num [halfQuadTreeEquirectangularTilingScheme, equirectangularProjection, Math.pi,
      Math.twoPi]
  · norm_num [halfQuadTreeEquirectangularTilingScheme, equirectangularProjection, Math.halfPi,
      Math.twoPi]
  · norm_num [halfQuadTreeEquirectangularTilingScheme, equirectangularProjection, Math.halfPi,
      Math.twoPi]

end OlpEdgeSdk.Analysis.PointLocation

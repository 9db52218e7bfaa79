import OlpEdgeSdk.Analysis.GeoRectangles
import OlpEdgeSdk.Analysis.PointLocation

/-!
# Tiling a rectangle

The tiles of a rectangle are the rows from its southern to its northern edge and the columns
from its western to its eastern edge, counted on beyond the date line where the rectangle
crosses it. No column is counted twice. Every point's column is among them, but for the
rectangles that have an edge at longitude `pi`: that edge is moved to `-pi` first.
-/

set_option autoImplicit false

namespace OlpEdgeSdk.Analysis.RectangleTiling

open OlpEdgeSdk.Base OlpEdgeSdk.Interface OlpEdgeSdk.Model TileKey TileKeyUtils Math
open GeoRectangles PointLocation

/-! ## Words and keys -/

theorem mem_wordsUpTo {lower upper w : BitVec 32} :
    w ∈ wordsUpTo lower upper ↔ lower.toNat ≤ w.toNat ∧ w.toNat ≤ upper.toNat := by
  have hupper := upper.isLt
  simp only [wordsUpTo, List.mem_map, List.mem_range'_1]
  constructor
  · rintro ⟨i, ⟨hlow, hhigh⟩, rfl⟩
    rw [BitVec.toNat_ofNat, Nat.mod_eq_of_lt (by omega)]
    omega
  · rintro ⟨hlow, hhigh⟩
    refine ⟨w.toNat, by omega, ?_⟩
    rw [BitVec.ofNat_toNat, BitVec.setWidth_eq]

theorem nodup_wordsUpTo (lower upper : BitVec 32) : (wordsUpTo lower upper).Nodup := by
  have hupper := upper.isLt
  apply List.Nodup.map_on
  · intro i hi j hj heq
    rw [List.mem_range'_1] at hi hj
    have hnat := congrArg BitVec.toNat heq
    rw [BitVec.toNat_ofNat, BitVec.toNat_ofNat, Nat.mod_eq_of_lt (by omega),
      Nat.mod_eq_of_lt (by omega)] at hnat
    exact hnat
  · exact List.nodup_range'

/-- The keys that the two loops of `GeoRectangleToTileKeys` push. -/
def keysOf (rows columns : List (BitVec 32)) (columnCount level : BitVec 32) : List TileKey :=
  rows.flatMap fun row => columns.map fun column =>
    fromRowColumnLevel row (column % columnCount) level

theorem mem_keysOf {rows columns : List (BitVec 32)} {columnCount level : BitVec 32}
    {k : TileKey} :
    k ∈ keysOf rows columns columnCount level ↔
      k.level = level ∧ k.row ∈ rows ∧ ∃ column ∈ columns, column % columnCount = k.column := by
  simp only [keysOf, List.mem_flatMap, List.mem_map]
  constructor
  · rintro ⟨row, hrow, column, hcolumn, rfl⟩
    exact ⟨rfl, hrow, column, hcolumn, rfl⟩
  · rintro ⟨hlevel, hrow, column, hcolumn, heq⟩
    refine ⟨k.row, hrow, column, hcolumn, ?_⟩
    rw [heq, ← hlevel]
    rfl

/-- No key is pushed twice when no two columns are the same one round the world. -/
theorem nodup_keysOf {rows columns : List (BitVec 32)} {columnCount level : BitVec 32}
    (hrows : rows.Nodup) (hcolumns : columns.Nodup)
    (hround : ∀ a ∈ columns, ∀ b ∈ columns, a % columnCount = b % columnCount → a = b) :
    (keysOf rows columns columnCount level).Nodup := by
  rw [keysOf, List.nodup_flatMap]
  constructor
  · intro row _
    apply List.Nodup.map_on _ hcolumns
    intro a ha b hb heq
    exact hround a ha b hb (congrArg TileKey.column heq)
  · apply hrows.imp
    intro row row' hne k hk hk'
    obtain ⟨a, -, rfl⟩ := List.mem_map.mp hk
    obtain ⟨b, -, heq⟩ := List.mem_map.mp hk'
    exact hne (congrArg TileKey.row heq).symm

/-! ## Columns round the world -/

/-- The column `k` of `n` is counted between `first` and `last`, which may go on into the next
turn. -/
def Counted (n first last k : ℕ) : Prop := ∃ c, first ≤ c ∧ c ≤ last ∧ c % n = k

theorem counted_of_le {n first last k : ℕ} (hk : k < n) (hlow : first ≤ k) (hhigh : k ≤ last) :
    Counted n first last k := ⟨k, hlow, hhigh, Nat.mod_eq_of_lt hk⟩

theorem counted_of_next_turn {n first last k : ℕ} (hk : k < n) (hlow : first ≤ k + n)
    (hhigh : k + n ≤ last) : Counted n first last k :=
  ⟨k + n, hlow, hhigh, by rw [Nat.add_mod_right, Nat.mod_eq_of_lt hk]⟩

/-- A whole turn counts every column. -/
theorem counted_of_whole_turn {n first last k : ℕ} (hk : k < n) (hfirst : first < n)
    (hlast : last = first + (n - 1)) : Counted n first last k := by
  by_cases h : first ≤ k
  · exact counted_of_le hk h (by omega)
  · exact counted_of_next_turn hk (by omega) (by omega)

theorem not_counted {n first last k : ℕ} (hn : last < n) (hk : last < k) :
    ¬ Counted n first last k := by
  rintro ⟨c, -, hc, rfl⟩
  rw [Nat.mod_eq_of_lt (by omega)] at hk
  omega

theorem halfPi_add_halfPi {K : Type*} [Field K] : halfPi K + halfPi K = pi K := by
  unfold halfPi pi
  ring

theorem clamp_eq {K : Type*} [LinearOrder K] {x low high : K} (hlow : low ≤ x) (hhigh : x ≤ high) :
    clamp x low high = x := by
  rw [clamp, max_eq_left hlow, min_eq_left hhigh]

section

variable {K : Type*} [Field K] [LinearOrder K]

/-- A coordinate between the poles and between the ends of the meridian. -/
def OnEarth (geoPoint : GeoCoordinates K) : Prop :=
  (-halfPi K ≤ geoPoint.latitude ∧ geoPoint.latitude ≤ halfPi K) ∧ InRange geoPoint.longitude

/-- The projection is linear in the longitude and monotone in the latitude, over its world
box. -/
structure LinearMonotone (projection : IProjection K) : Prop where
  nonempty : (projection.worldExtent 0 0).empty = false
  wide : (projection.worldExtent 0 0).minimum.x < (projection.worldExtent 0 0).maximum.x
  inWorld : ∀ geoPoint, OnEarth geoPoint → ∃ point,
    projection.project ⟨geoPoint, 0⟩ = some point ∧ InWorld (projection.worldExtent 0 0) point
  linear : ∀ geoPoint point, OnEarth geoPoint → projection.project ⟨geoPoint, 0⟩ = some point →
    point.x = (projection.worldExtent 0 0).minimum.x +
      (geoPoint.longitude + pi K) / twoPi K *
        ((projection.worldExtent 0 0).maximum.x - (projection.worldExtent 0 0).minimum.x)
  monotone : ∀ geoPoint geoPoint' point point', OnEarth geoPoint → OnEarth geoPoint' →
    projection.project ⟨geoPoint, 0⟩ = some point →
    projection.project ⟨geoPoint', 0⟩ = some point' →
    geoPoint.latitude ≤ geoPoint'.latitude → point.y ≤ point'.y

/-- The point is on the rectangle, which crosses the date line where its eastern edge is below
its western one. -/
def HasPoint (r : GeoRectangle K) (point : GeoCoordinates K) : Prop :=
  (r.southWest.latitude ≤ point.latitude ∧ point.latitude ≤ r.northEast.latitude) ∧
    InRange point.longitude ∧
    if r.southWest.longitude ≤ r.northEast.longitude then
      r.southWest.longitude ≤ point.longitude ∧ point.longitude ≤ r.northEast.longitude
    else r.southWest.longitude ≤ point.longitude ∨ point.longitude ≤ r.northEast.longitude

/-- When every point is covered: there is one column; or the western edge is not at `pi`, and
the rectangle does not reach from one end of the meridian to the other; or the western edge is
at `pi`, and the eastern one below it in the last column. -/
def DateLineHeld (r : GeoRectangle K) (columns : ℕ) : Prop :=
  columns = 1 ∨
    (r.southWest.longitude < pi K ∧
      ¬ (r.southWest.longitude = -pi K ∧ r.northEast.longitude = pi K)) ∨
    (r.southWest.longitude = pi K ∧ r.northEast.longitude < pi K ∧
      (columns : K) - 1 ≤ columns * ((r.northEast.longitude + pi K) / twoPi K))

/-- A longitude as `Wrap` leaves it: the eastern end of the meridian is the western one. -/
def turned (longitude : K) : K := if longitude = pi K then -pi K else longitude

theorem turned_of_lt {longitude : K} (h : longitude < pi K) : turned longitude = longitude :=
  if_neg h.ne

theorem turned_east : turned (pi K) = -pi K := if_pos rfl

theorem scaled_bounds [IsStrictOrderedRing K] {angle bound : K} (hlow : 0 ≤ angle)
    (hhigh : angle ≤ bound * twoPi K) :
    0 ≤ angle * (1 / twoPi K) ∧ angle * (1 / twoPi K) ≤ bound := by
  rw [mul_one_div, div_le_iff₀ twoPi_pos]
  exact ⟨div_nonneg hlow twoPi_pos.le, hhigh⟩

end

/-! ## Columns of longitudes -/

variable {K : Type*} [Field K] [LinearOrder K] [FloorRing K]

/-- The column of a longitude, of `n`. -/
def columnOf (n : ℕ) (longitude : K) : ℕ := gridCell n ((longitude + pi K) / twoPi K)

/-- The last column of the loop, between two wrapped longitudes. -/
def lastColumn (n : ℕ) (west east : K) : ℕ :=
  if east < west then
    if columnOf n east ≠ columnOf n west then columnOf n east + n else columnOf n east + (n - 1)
  else columnOf n east

theorem lastColumn_of_le {n : ℕ} {west east : K} (h : west ≤ east) :
    lastColumn n west east = columnOf n east := if_neg (not_lt.mpr h)

theorem columnOf_lt {n : ℕ} (h : 0 < n) (longitude : K) : columnOf n longitude < n :=
  gridCell_lt h _

/-- The last column of the loop, as it is counted in words. -/
def lastColumnWord (west east : K) (minColumn maxColumn columnCount : BitVec 32) : BitVec 32 :=
  if east < west then
    if maxColumn ≠ minColumn then maxColumn + columnCount else maxColumn + (columnCount - 1#32)
  else maxColumn

theorem toNat_lastColumnWord {n : ℕ} (h : 0 < n) (hn : n ≤ 2 ^ 31) {west east : K}
    {minColumn maxColumn columnCount : BitVec 32} (hcount : columnCount.toNat = n)
    (hmin : minColumn.toNat = columnOf n west) (hmax : maxColumn.toNat = columnOf n east) :
    (lastColumnWord west east minColumn maxColumn columnCount).toNat = lastColumn n west east := by
  have heast := columnOf_lt h east
  have hone : (columnCount - 1#32).toNat = n - 1 := by
    rw [BitVec.toNat_sub_of_le (by rw [BitVec.le_def, hcount]; exact h), hcount]
    rfl
  have hsame : maxColumn = minColumn ↔ columnOf n east = columnOf n west := by
    rw [← hmin, ← hmax, BitVec.toNat_inj]
  unfold lastColumnWord lastColumn
  simp only [ne_eq, hsame]
  split
  · split
    · rw [BitVec.toNat_add, hmax, hcount, Nat.mod_eq_of_lt (by omega)]
    · rw [BitVec.toNat_add, hmax, hone, Nat.mod_eq_of_lt (by omega)]
  · exact hmax

theorem normalizedCorner_latitude {corner : GeoCoordinates K} (h : OnEarth corner) :
    (normalizedCorner corner).latitude = corner.latitude := clamp_eq h.1.1 h.1.2

variable [IsStrictOrderedRing K]

theorem columnOf_mono {n : ℕ} {x y : K} (h : x ≤ y) : columnOf n x ≤ columnOf n y := by
  apply gridCell_mono
  apply div_le_div_of_nonneg_right _ twoPi_pos.le
  linarith

theorem columnOf_west (n : ℕ) : columnOf n (-pi K) = 0 := by
  rw [columnOf, neg_add_cancel, zero_div, gridCell_first]

theorem columnOf_east {n : ℕ} (h : 0 < n) : columnOf n (pi K) = n - 1 := by
  have hone : (pi K + pi K) / twoPi K = 1 := by
    have hends := neg_pi_add_twoPi (K := K)
    rw [div_eq_one_iff_eq twoPi_pos.ne']
    linarith
  rw [columnOf, hone, gridCell_last h]

/-- `Wrap` on the longitudes in range. -/
theorem wrap_eq_turned {longitude : K} (h : InRange longitude) :
    wrap longitude (-pi K) (pi K) = turned longitude := by
  have hends := neg_pi_add_twoPi (K := K)
  have hpos := twoPi_pos (K := K)
  have hwide : epsilonEqual (-pi K) (pi K) = false := by
    rw [epsilonEqual, decide_eq_false_iff_not, not_lt, abs_sub_comm, sub_neg_eq_add,
      abs_of_pos (by linarith [pi_pos (K := K)])]
    norm_num [epsilon, pi]
  unfold wrap turned
  rw [hwide, if_neg Bool.false_ne_true, if_neg (not_lt.mpr h.1)]
  by_cases heq : longitude = pi K
  · have hone : (longitude - -pi K) / (pi K - -pi K) = 1 := by
      rw [heq]
      apply div_self
      linarith
    rw [if_pos heq.ge, if_pos heq, fmod, hone, if_pos zero_le_one, Int.floor_one, heq]
    simp
  · rw [if_neg (not_le.mpr (lt_of_le_of_ne h.2 heq)), if_neg heq]

theorem turned_inRange {longitude : K} (h : InRange longitude) : InRange (turned longitude) := by
  unfold turned
  split
  · exact ⟨le_rfl, by linarith [pi_pos (K := K)]⟩
  · exact h

theorem normalizedCorner_longitude {corner : GeoCoordinates K} (h : OnEarth corner) :
    (normalizedCorner corner).longitude = turned corner.longitude := wrap_eq_turned h.2

theorem onEarth_normalizedCorner {corner : GeoCoordinates K} (h : OnEarth corner) :
    OnEarth (normalizedCorner corner) := by
  unfold OnEarth
  rw [normalizedCorner_latitude h, normalizedCorner_longitude h]
  exact ⟨h.1, turned_inRange h.2⟩

theorem columnOf_eq_last_iff {n : ℕ} (h : 0 < n) {longitude : K} (hin : InRange longitude) :
    columnOf n longitude = n - 1 ↔ (n : K) - 1 ≤ n * ((longitude + pi K) / twoPi K) := by
  apply gridCell_eq_last_iff h
  apply div_nonneg _ twoPi_pos.le
  linarith [hin.1]

/-- The last column is within a turn of the first one. -/
theorem lastColumn_bounds {n : ℕ} (h : 0 < n) (west east : K) :
    columnOf n west ≤ lastColumn n west east ∧
      lastColumn n west east < columnOf n west + n := by
  have hwest := columnOf_lt h west
  have heast := columnOf_lt h east
  unfold lastColumn
  split
  · next hlt =>
    have hmono := columnOf_mono (n := n) hlt.le
    split
    · omega
    · omega
  · next hge =>
    have hmono := columnOf_mono (n := n) (not_lt.mp hge)
    omega

theorem lastColumn_lt {n : ℕ} (h : 0 < n) (west east : K) : lastColumn n west east < 2 * n := by
  have hwest := columnOf_lt h west
  have hlast := (lastColumn_bounds h west east).2
  omega

/-! ## The columns of the points -/

/-- Beyond the date line: the columns to the east of the western edge and to the west of the
eastern one. -/
theorem counted_of_crossing {n : ℕ} (h : 0 < n) {west east longitude : K} (hcross : east < west)
    (hon : west ≤ longitude ∨ longitude ≤ east) :
    Counted n (columnOf n west) (lastColumn n west east) (columnOf n longitude) := by
  have hk := columnOf_lt h longitude
  have hwest := columnOf_lt h west
  unfold lastColumn
  rw [if_pos hcross]
  by_cases hne : columnOf n east ≠ columnOf n west
  · rw [if_pos hne]
    rcases hon with hle | hle
    · apply counted_of_le hk (columnOf_mono hle)
      omega
    · have hmono := columnOf_mono (n := n) hle
      apply counted_of_next_turn hk
      · omega
      · omega
  · rw [if_neg hne, not_not.mp hne]
    exact counted_of_whole_turn hk hwest rfl

/-- **The column of a point** is counted, when the date line is held. -/
theorem counted_of_dateLineHeld {n : ℕ} (h : 0 < n) {r : GeoRectangle K}
    (hsw : OnEarth r.southWest) (hne : OnEarth r.northEast) (hheld : DateLineHeld r n)
    {point : GeoCoordinates K} (hpoint : HasPoint r point) :
    Counted n (columnOf n (turned r.southWest.longitude))
      (lastColumn n (turned r.southWest.longitude) (turned r.northEast.longitude))
      (columnOf n point.longitude) := by
  have hk := columnOf_lt h point.longitude
  obtain ⟨-, hrange, hon⟩ := hpoint
  rcases hheld with rfl | ⟨hwest, hwhole⟩ | ⟨hwest, heast, hlast⟩
  · have hfirst := columnOf_lt h (turned r.southWest.longitude)
    apply counted_of_le hk
    · omega
    · omega
  · rw [turned_of_lt hwest]
    rcases eq_or_lt_of_le hne.2.2 with heast | heast
    · -- the eastern edge is moved, and the rectangle seems to cross the date line
      rw [heast, turned_east]
      rw [heast, if_pos hwest.le] at hon
      apply counted_of_crossing h _ (Or.inl hon.1)
      apply lt_of_le_of_ne hsw.2.1
      exact fun heq => hwhole ⟨heq.symm, heast⟩
    · rw [turned_of_lt heast]
      split at hon
      · next hle =>
        rw [lastColumn_of_le hle]
        exact counted_of_le hk (columnOf_mono hon.1) (columnOf_mono hon.2)
      · next hgt => exact counted_of_crossing h (not_le.mp hgt) hon
  · rw [hwest, turned_east, turned_of_lt heast, lastColumn_of_le hne.2.1,
      (columnOf_eq_last_iff h hne.2).mpr hlast, columnOf_west]
    apply counted_of_le hk
    · omega
    · omega

/-- The eastern end of the meridian is on a rectangle that does not hold the date line, and its
column is not counted. -/
theorem not_counted_of_not_dateLineHeld {n : ℕ} (h : 0 < n) {r : GeoRectangle K}
    (hnonempty : r.isEmpty = false) (hsw : OnEarth r.southWest) (hne : OnEarth r.northEast)
    (hheld : ¬ DateLineHeld r n) :
    HasPoint r ⟨r.southWest.latitude, pi K⟩ ∧
      ¬ Counted n (columnOf n (turned r.southWest.longitude))
        (lastColumn n (turned r.southWest.longitude) (turned r.northEast.longitude))
        (columnOf n (pi K)) := by
  have hone : n ≠ 1 := fun heq => hheld (Or.inl heq)
  have hwest : turned r.southWest.longitude = -pi K := by
    by_contra hturned
    apply hheld
    refine Or.inr (Or.inl ⟨?_, ?_⟩)
    · apply lt_of_le_of_ne hsw.2.2
      intro heq
      exact hturned (by rw [heq, turned_east])
    · rintro ⟨heq, -⟩
      exact hturned (by rw [heq, turned_of_lt (neg_lt_self pi_pos)])
  -- a western edge away from the date line is held by an eastern one
  have hopposite : r.northEast.longitude < pi K → r.southWest.longitude = pi K := by
    intro heast
    by_contra hne'
    apply hheld
    refine Or.inr (Or.inl ⟨lt_of_le_of_ne hsw.2.2 hne', ?_⟩)
    exact fun hwhole => heast.ne hwhole.2
  have heast : columnOf n (turned r.northEast.longitude) < n - 1 := by
    rcases eq_or_lt_of_le hne.2.2 with heq | hlt
    · rw [heq, turned_east, columnOf_west]
      omega
    · have hlast : columnOf n r.northEast.longitude ≠ n - 1 := by
        intro heq
        apply hheld
        exact Or.inr (Or.inr ⟨hopposite hlt, hlt, (columnOf_eq_last_iff h hne.2).mp heq⟩)
      have hk := columnOf_lt h r.northEast.longitude
      rw [turned_of_lt hlt]
      omega
  constructor
  · refine ⟨⟨le_rfl, ?_⟩, ⟨neg_le_self pi_pos.le, le_rfl⟩, ?_⟩
    · have hspan : ¬ r.northEast.latitude - r.southWest.latitude < 0 :=
        decide_eq_false_iff_not.mp hnonempty
      linarith
    · split
      · next hle =>
        refine ⟨hsw.2.2, ?_⟩
        by_contra hlt
        rw [hopposite (not_le.mp hlt)] at hle
        exact hlt hle
      · exact Or.inl hsw.2.2
  · rw [hwest, lastColumn_of_le (turned_inRange hne.2).1, columnOf_east h]
    exact not_counted (by omega) heast

/-! ## The keys of a rectangle -/

section

variable {tilingScheme : ITilingScheme K} {level : BitVec 32}

/-- The tile of a coordinate. -/
theorem tile_spec (hscheme : tilingScheme.subdivisionScheme ∈ schemes)
    (hprojection : LinearMonotone tilingScheme.projection) (hlevel : level.toNat ≤ 31)
    {geoPoint : GeoCoordinates K} (h : OnEarth geoPoint) :
    (geoCoordinatesToTileKey tilingScheme geoPoint level).level = level ∧
      (geoCoordinatesToTileKey tilingScheme geoPoint level).column.toNat =
        columnOf (2 ^ level.toNat) geoPoint.longitude := by
  obtain ⟨point, hproject, hin⟩ := hprojection.inWorld geoPoint h
  obtain ⟨hl, -, hcolumn⟩ := geoCoordinatesToTileKey_spec hscheme hproject hin hlevel
  refine ⟨hl, ?_⟩
  have hspan : (tilingScheme.projection.worldExtent 0 0).maximum.x -
      (tilingScheme.projection.worldExtent 0 0).minimum.x ≠ 0 := by
    apply sub_ne_zero_of_ne
    exact hprojection.wide.ne'
  rw [hcolumn, (levelSize_bounds hscheme hlevel).1, columnOf, relativeX,
    hprojection.linear geoPoint point h hproject, WorldAlignedBox.size, hprojection.nonempty,
    if_neg Bool.false_ne_true, add_sub_cancel_left, mul_div_assoc, div_self hspan, mul_one]

/-- The rows stand in the order of the latitudes. -/
theorem tile_row_mono (hscheme : tilingScheme.subdivisionScheme ∈ schemes)
    (hprojection : LinearMonotone tilingScheme.projection) (hlevel : level.toNat ≤ 31)
    {geoPoint geoPoint' : GeoCoordinates K} (h : OnEarth geoPoint) (h' : OnEarth geoPoint')
    (hle : geoPoint.latitude ≤ geoPoint'.latitude) :
    (geoCoordinatesToTileKey tilingScheme geoPoint level).row.toNat ≤
      (geoCoordinatesToTileKey tilingScheme geoPoint' level).row.toNat := by
  obtain ⟨point, hproject, hin⟩ := hprojection.inWorld geoPoint h
  obtain ⟨point', hproject', hin'⟩ := hprojection.inWorld geoPoint' h'
  have hy := hprojection.monotone geoPoint geoPoint' point point' h h' hproject hproject' hle
  rw [(geoCoordinatesToTileKey_spec hscheme hproject hin hlevel).2.1,
    (geoCoordinatesToTileKey_spec hscheme hproject' hin' hlevel).2.1]
  apply gridCell_mono
  have hsize : 0 ≤ (tilingScheme.projection.worldExtent 0 0).size.y := by
    unfold WorldAlignedBox.size
    rw [hprojection.nonempty, if_neg Bool.false_ne_true]
    dsimp only
    linarith [hin.2.1, hin.2.2]
  apply div_le_div_of_nonneg_right _ hsize
  linarith

variable {r : GeoRectangle K}

/-- The two loops over the corners that are looked up. -/
theorem geoRectangleToTileKeys_eq (hnonempty : r.isEmpty = false) (hsw : OnEarth r.southWest)
    (hne : OnEarth r.northEast) :
    geoRectangleToTileKeys tilingScheme r level = keysOf
      (wordsUpTo
        (geoCoordinatesToTileKey tilingScheme (normalizedCorner r.southWest) level).row
        (geoCoordinatesToTileKey tilingScheme (normalizedCorner r.northEast) level).row)
      (wordsUpTo
        (geoCoordinatesToTileKey tilingScheme (normalizedCorner r.southWest) level).column
        (lastColumnWord (turned r.southWest.longitude) (turned r.northEast.longitude)
          (geoCoordinatesToTileKey tilingScheme (normalizedCorner r.southWest) level).column
          (geoCoordinatesToTileKey tilingScheme (normalizedCorner r.northEast) level).column
          (tilingScheme.subdivisionScheme.getLevelSize level).width))
      (tilingScheme.subdivisionScheme.getLevelSize level).width level := by
  rw [← wrap_eq_turned hsw.2, ← wrap_eq_turned hne.2]
  unfold geoRectangleToTileKeys
  rw [hnonempty, if_neg Bool.false_ne_true]
  rfl

/-- The first and the last column of the loop. -/
theorem columns_spec (hscheme : tilingScheme.subdivisionScheme ∈ schemes)
    (hprojection : LinearMonotone tilingScheme.projection) (hlevel : level.toNat ≤ 31)
    (hsw : OnEarth r.southWest) (hne : OnEarth r.northEast) :
    (geoCoordinatesToTileKey tilingScheme (normalizedCorner r.southWest) level).column.toNat =
        columnOf (2 ^ level.toNat) (turned r.southWest.longitude) ∧
      (lastColumnWord (turned r.southWest.longitude) (turned r.northEast.longitude)
          (geoCoordinatesToTileKey tilingScheme (normalizedCorner r.southWest) level).column
          (geoCoordinatesToTileKey tilingScheme (normalizedCorner r.northEast) level).column
          (tilingScheme.subdivisionScheme.getLevelSize level).width).toNat =
        lastColumn (2 ^ level.toNat) (turned r.southWest.longitude)
          (turned r.northEast.longitude) := by
  have hpow : 2 ^ level.toNat ≤ 2 ^ 31 := Nat.pow_le_pow_right (by omega) hlevel
  have hmin := (tile_spec hscheme hprojection hlevel (onEarth_normalizedCorner hsw)).2
  have hmax := (tile_spec hscheme hprojection hlevel (onEarth_normalizedCorner hne)).2
  rw [normalizedCorner_longitude hsw] at hmin
  rw [normalizedCorner_longitude hne] at hmax
  refine ⟨hmin, ?_⟩
  apply toNat_lastColumnWord (Nat.two_pow_pos _) hpow _ hmin hmax
  exact (levelSize_bounds hscheme hlevel).1

/-- **No key of a rectangle is pushed twice.** -/
theorem nodup_geoRectangleToTileKeys (hscheme : tilingScheme.subdivisionScheme ∈ schemes)
    (hprojection : LinearMonotone tilingScheme.projection) (hlevel : level.toNat ≤ 31)
    (hnonempty : r.isEmpty = false) (hsw : OnEarth r.southWest) (hne : OnEarth r.northEast) :
    (geoRectangleToTileKeys tilingScheme r level).Nodup := by
  obtain ⟨hmin, hlast⟩ := columns_spec (r := r) hscheme hprojection hlevel hsw hne
  have hspread := lastColumn_bounds (Nat.two_pow_pos level.toNat) (turned r.southWest.longitude)
    (turned r.northEast.longitude)
  rw [geoRectangleToTileKeys_eq hnonempty hsw hne]
  apply nodup_keysOf (nodup_wordsUpTo _ _) (nodup_wordsUpTo _ _)
  intro a ha b hb heq
  rw [mem_wordsUpTo, hmin, hlast] at ha hb
  have hmod := congrArg BitVec.toNat heq
  rw [BitVec.toNat_umod, BitVec.toNat_umod, (levelSize_bounds hscheme hlevel).1] at hmod
  apply BitVec.eq_of_toNat_eq
  -- the two columns are less than a turn apart
  apply Nat.ModEq.eq_of_abs_lt hmod
  rw [abs_lt]
  omega

/-- **The keys of a rectangle** are of the rows between those of its corners, and of the columns
counted from its western edge. -/
theorem mem_geoRectangleToTileKeys (hscheme : tilingScheme.subdivisionScheme ∈ schemes)
    (hprojection : LinearMonotone tilingScheme.projection) (hlevel : level.toNat ≤ 31)
    (hnonempty : r.isEmpty = false) (hsw : OnEarth r.southWest) (hne : OnEarth r.northEast)
    {k : TileKey} :
    k ∈ geoRectangleToTileKeys tilingScheme r level ↔
      k.level = level ∧
        ((geoCoordinatesToTileKey tilingScheme (normalizedCorner r.southWest) level).row.toNat ≤
            k.row.toNat ∧
          k.row.toNat ≤
            (geoCoordinatesToTileKey tilingScheme (normalizedCorner r.northEast)
              level).row.toNat) ∧
        Counted (2 ^ level.toNat) (columnOf (2 ^ level.toNat) (turned r.southWest.longitude))
          (lastColumn (2 ^ level.toNat) (turned r.southWest.longitude)
            (turned r.northEast.longitude)) k.column.toNat := by
  have hpow : 2 ^ level.toNat ≤ 2 ^ 31 := Nat.pow_le_pow_right (by omega) hlevel
  have hcount := (levelSize_bounds hscheme hlevel).1
  obtain ⟨hmin, hlast⟩ := columns_spec (r := r) hscheme hprojection hlevel hsw hne
  have hlastLt := lastColumn_lt (Nat.two_pow_pos level.toNat) (turned r.southWest.longitude)
    (turned r.northEast.longitude)
  rw [geoRectangleToTileKeys_eq hnonempty hsw hne]
  simp only [mem_keysOf, mem_wordsUpTo, hmin, hlast]
  apply and_congr_right
  intro _
  apply and_congr_right
  intro _
  constructor
  · rintro ⟨column, ⟨hlow, hhigh⟩, heq⟩
    refine ⟨column.toNat, hlow, hhigh, ?_⟩
    rw [← heq, BitVec.toNat_umod, hcount]
  · rintro ⟨c, hlow, hhigh, heq⟩
    have hnat : (BitVec.ofNat 32 c).toNat = c := by
      rw [BitVec.toNat_ofNat]
      omega
    refine ⟨BitVec.ofNat 32 c, by rw [hnat]; exact ⟨hlow, hhigh⟩, ?_⟩
    apply BitVec.eq_of_toNat_eq
    rw [BitVec.toNat_umod, hnat, hcount, heq]

end

/-- **The tiles of a rectangle**, on a level of at most 31 and for a linear and monotone
projection: none is listed twice, and that of every point of the rectangle is listed, exactly
when the date line is held. -/
theorem rectangleTiling_iff_dateLineHeld (tilingScheme : ITilingScheme K)
    (hscheme : tilingScheme.subdivisionScheme ∈ schemes)
    (hprojection : LinearMonotone tilingScheme.projection) (level : BitVec 32)
    (hlevel : level.toNat ≤ 31) (r : GeoRectangle K) (hnonempty : r.isEmpty = false)
    (hsw : OnEarth r.southWest) (hne : OnEarth r.northEast) :
    ((geoRectangleToTileKeys tilingScheme r level).Nodup ∧ ∀ point, HasPoint r point →
      geoCoordinatesToTileKey tilingScheme point level ∈
        geoRectangleToTileKeys tilingScheme r level) ↔ DateLineHeld r (2 ^ level.toNat) := by
  have hpos : 0 < 2 ^ level.toNat := Nat.two_pow_pos _
  constructor
  · rintro ⟨-, hall⟩
    by_contra hheld
    obtain ⟨hpoint, hnot⟩ := not_counted_of_not_dateLineHeld hpos hnonempty hsw hne hheld
    have hearth : OnEarth (⟨r.southWest.latitude, pi K⟩ : GeoCoordinates K) :=
      ⟨hsw.1, hpoint.2.1⟩
    have hin := (mem_geoRectangleToTileKeys hscheme hprojection hlevel hnonempty hsw hne).mp
      (hall _ hpoint)
    rw [(tile_spec hscheme hprojection hlevel hearth).2] at hin
    exact hnot hin.2.2
  · intro hheld
    refine ⟨nodup_geoRectangleToTileKeys hscheme hprojection hlevel hnonempty hsw hne, ?_⟩
    intro point hpoint
    have hearth : OnEarth point :=
      ⟨⟨hsw.1.1.trans hpoint.1.1, hpoint.1.2.trans hne.1.2⟩, hpoint.2.1⟩
    obtain ⟨hl, hcolumn⟩ := tile_spec hscheme hprojection hlevel hearth
    rw [mem_geoRectangleToTileKeys hscheme hprojection hlevel hnonempty hsw hne, hcolumn]
    refine ⟨hl, ⟨?_, ?_⟩, counted_of_dateLineHeld hpos hsw hne hheld hpoint⟩
    · apply tile_row_mono hscheme hprojection hlevel (onEarth_normalizedCorner hsw) hearth
      rw [normalizedCorner_latitude hsw]
      exact hpoint.1.1
    · apply tile_row_mono hscheme hprojection hlevel hearth (onEarth_normalizedCorner hne)
      rw [normalizedCorner_latitude hne]
      exact hpoint.1.2

/-! ## The equirectangular projection -/

/-- The equirectangular projection is linear and monotone. -/
theorem linearMonotone_equirectangular : LinearMonotone (equirectangularProjection K) where
  nonempty := by
    have hhalf : (0 : K) ≤ 0.5 := by norm_num
    simp [equirectangularProjection, WorldAlignedBox.empty, hhalf]
  wide := zero_lt_one
  inWorld := by
    rintro geoPoint ⟨⟨hsouth, hnorth⟩, hwest, heast⟩
    have hends := neg_pi_add_twoPi (K := K)
    have hpoles := halfPi_add_halfPi (K := K)
    refine ⟨_, rfl, scaled_bounds ?_ ?_, scaled_bounds ?_ ?_⟩
    · linarith
    · show geoPoint.longitude + pi K ≤ 1 * twoPi K
      linarith
    · linarith
    · show geoPoint.latitude + halfPi K ≤ 0.5 * twoPi K
      norm_num
      linarith
  linear := by
    rintro geoPoint point - hproject
    cases hproject
    simp only [equirectangularProjection]
    ring
  monotone := by
    rintro geoPoint geoPoint' point point' - - hproject hproject' hle
    cases hproject
    cases hproject'
    apply mul_le_mul_of_nonneg_right
    · linarith
    · exact (one_div_pos.mpr twoPi_pos).le

theorem rectangleTiling_around_zero :
    (geoRectangleToTileKeys (halfQuadTreeEquirectangularTilingScheme ℚ) ⟨⟨-1, -1⟩, ⟨1, 1⟩⟩
        4#32).Nodup ∧
      geoCoordinatesToTileKey (halfQuadTreeEquirectangularTilingScheme ℚ) ⟨0, 1⟩ 4#32 ∈
        geoRectangleToTileKeys (halfQuadTreeEquirectangularTilingScheme ℚ) ⟨⟨-1, -1⟩, ⟨1, 1⟩⟩
          4#32 := by
  have htiling := (rectangleTiling_iff_dateLineHeld (halfQuadTreeEquirectangularTilingScheme ℚ)
    (by simp [schemes, halfQuadTreeEquirectangularTilingScheme]) linearMonotone_equirectangular
    4#32 (by decide) ⟨⟨-1, -1⟩, ⟨1, 1⟩⟩ (by norm_num [GeoRectangle.isEmpty,
      GeoRectangle.latitudeSpan]) (by norm_num [OnEarth, InRange, halfPi, pi])
    (by norm_num [OnEarth, InRange, halfPi, pi])).mpr (by norm_num [DateLineHeld, pi])
  exact ⟨htiling.1, htiling.2 _ (by norm_num [HasPoint, InRange, pi])⟩

/-- The whole world, on the level of two columns: the western column only is listed. -/
theorem wholeWorld_not_tiled :
    let wholeWorld : GeoRectangle ℚ := ⟨⟨-halfPi ℚ, -pi ℚ⟩, ⟨halfPi ℚ, pi ℚ⟩⟩
    wholeWorld.isEmpty = false ∧ OnEarth wholeWorld.southWest ∧ OnEarth wholeWorld.northEast ∧
      HasPoint wholeWorld ⟨0, 1⟩ ∧
      geoCoordinatesToTileKey (halfQuadTreeEquirectangularTilingScheme ℚ) ⟨0, 1⟩ 1#32 ∉
        geoRectangleToTileKeys (halfQuadTreeEquirectangularTilingScheme ℚ) wholeWorld 1#32 := by
  have hscheme : (halfQuadTreeEquirectangularTilingScheme ℚ).subdivisionScheme ∈ schemes := by
    simp [schemes, halfQuadTreeEquirectangularTilingScheme]
  have hempty : GeoRectangle.isEmpty
      (⟨⟨-halfPi ℚ, -pi ℚ⟩, ⟨halfPi ℚ, pi ℚ⟩⟩ : GeoRectangle ℚ) = false := by
    norm_num [GeoRectangle.isEmpty, GeoRectangle.latitudeSpan, halfPi]
  have hsw : OnEarth (⟨-halfPi ℚ, -pi ℚ⟩ : GeoCoordinates ℚ) := by
    norm_num [OnEarth, InRange, halfPi, pi]
  have hne : OnEarth (⟨halfPi ℚ, pi ℚ⟩ : GeoCoordinates ℚ) := by
    norm_num [OnEarth, InRange, halfPi, pi]
  have hpoint : OnEarth (⟨0, 1⟩ : GeoCoordinates ℚ) := by
    norm_num [OnEarth, InRange, halfPi, pi]
  refine ⟨hempty, hsw, hne, by norm_num [HasPoint, InRange, halfPi, pi], ?_⟩
  rw [mem_geoRectangleToTileKeys hscheme linearMonotone_equirectangular (by decide) hempty hsw hne,
    (tile_spec hscheme linearMonotone_equirectangular (by decide) hpoint).2]
  rintro ⟨-, -, hcounted⟩
  have heast : columnOf (2 ^ (1#32).toNat) (1 : ℚ) = 2 ^ (1#32).toNat - 1 := by
    rw [columnOf_eq_last_iff (Nat.two_pow_pos _) hpoint.2]
    norm_num [pi, twoPi]
  rw [turned_east, turned_of_lt (neg_lt_self pi_pos), lastColumn_of_le le_rfl, columnOf_west,
    heast] at hcounted
  exact not_counted (by decide) (by decide) hcounted

end OlpEdgeSdk.Analysis.RectangleTiling

import OlpEdgeSdk.Analysis.GeoRectangles

/-!
# The union of two rectangles

`BooleanUnion` begins at the smaller of the western edges and stops at the larger of the eastern
ones, which are taken past the 180 meridian where a rectangle crosses it. What a rectangle
reaches going east from its own edge is thus reached from the edge of the union
(`offset_le_unwrappedEast`). If that leads once round, the union stops short of its beginning, and
only the gap that is left there may be lost.
-/

set_option autoImplicit false

namespace OlpEdgeSdk.Analysis.RectangleUnions

open OlpEdgeSdk.Base OlpEdgeSdk.Model Math OlpEdgeSdk.Analysis.GeoRectangles

variable {K : Type*} [Field K] [LinearOrder K]

/-- The latitude of a point is between the edges. -/
def InLatitudes (r : GeoRectangle K) (point : GeoCoordinates K) : Prop :=
  r.southWest.latitude ≤ point.latitude ∧ point.latitude ≤ r.northEast.latitude

/-- The point is on the union, or its longitude is in the gap before the western edge. -/
def CoveredUpTo (eps : K) (union : GeoRectangle K) (point : GeoCoordinates K) : Prop :=
  InLatitudes union point ∧
    (OnArc (twoPi K) union.southWest.longitude union.longitudeSpan point.longitude ∨
      Before (twoPi K) union.southWest.longitude eps point.longitude)

variable [IsStrictOrderedRing K]

/-- A rectangle with a point is not empty. -/
theorem isEmpty_eq_false {r : GeoRectangle K} {point : GeoCoordinates K}
    (h : OnCylinder r point) : r.isEmpty = false := by
  rw [GeoRectangle.isEmpty, GeoRectangle.latitudeSpan, decide_eq_false_iff_not]
  linarith [h.1.1, h.1.2]

/-- The eastern edge, past the meridian where the rectangle crosses it. -/
def unwrappedEast (r : GeoRectangle K) : K :=
  if r.northEast.longitude < r.southWest.longitude then r.northEast.longitude + twoPi K
  else r.northEast.longitude

theorem add_longitudeSpan (r : GeoRectangle K) :
    r.southWest.longitude + r.longitudeSpan = unwrappedEast r := by
  unfold unwrappedEast
  rcases lt_or_ge r.northEast.longitude r.southWest.longitude with hlt | hge
  · rw [if_pos hlt, longitudeSpan_of_lt hlt]
    ring
  · rw [if_neg (not_lt.mpr hge), longitudeSpan_of_le hge]
    ring

variable {eps : K} {r other : GeoRectangle K}

omit [IsStrictOrderedRing K] in
theorem booleanUnion_west (eps : K) (hr : r.isEmpty = false) (hother : other.isEmpty = false) :
    (r.booleanUnion eps other).southWest.longitude =
      min r.southWest.longitude other.southWest.longitude := by
  unfold GeoRectangle.booleanUnion
  rw [if_neg (by simp [hr]), if_neg (by simp [hother])]

omit [IsStrictOrderedRing K] in
/-- The latitudes of both rectangles are latitudes of the union. -/
theorem inLatitudes_booleanUnion (hr : r.isEmpty = false) (hother : other.isEmpty = false)
    {point : GeoCoordinates K} (h : InLatitudes r point ∨ InLatitudes other point) :
    InLatitudes (r.booleanUnion eps other) point := by
  unfold GeoRectangle.booleanUnion
  rw [if_neg (by simp [hr]), if_neg (by simp [hother])]
  unfold InLatitudes
  rw [min_le_iff, le_max_iff]
  rcases h with h | h
  · exact ⟨Or.inl h.1, Or.inl h.2⟩
  · exact ⟨Or.inr h.1, Or.inr h.2⟩

/-- **How long the union is**: up to the larger eastern edge, cut off by `eps` where that leads
past its beginning. -/
theorem le_longitudeSpan_booleanUnion (heps : 0 < eps) (hr : r.isEmpty = false)
    (hother : other.isEmpty = false) {d : K}
    (hle : min r.southWest.longitude other.southWest.longitude + d ≤
      max (unwrappedEast r) (unwrappedEast other)) (hd : 0 ≤ d) :
    min d (twoPi K - eps) ≤ (r.booleanUnion eps other).longitudeSpan := by
  have hwest := booleanUnion_west eps hr hother
  have heast : (r.booleanUnion eps other).northEast.longitude =
      if pi K < max (unwrappedEast r) (unwrappedEast other) then
        min (max (unwrappedEast r) (unwrappedEast other) - twoPi K)
          (min r.southWest.longitude other.southWest.longitude - eps)
      else max (unwrappedEast r) (unwrappedEast other) := by
    unfold GeoRectangle.booleanUnion
    rw [if_neg (by simp [hr]), if_neg (by simp [hother])]
    rfl
  generalize min r.southWest.longitude other.southWest.longitude = west at hle hwest heast
  generalize max (unwrappedEast r) (unwrappedEast other) = east at hle heast
  rw [← hwest] at hle heast
  split at heast
  · -- the union crosses the meridian
    have hlt : (r.booleanUnion eps other).northEast.longitude <
        (r.booleanUnion eps other).southWest.longitude := by
      rw [heast, min_lt_iff]
      right
      linarith
    rw [longitudeSpan_of_lt hlt, heast]
    rcases min_choice (east - twoPi K)
      ((r.booleanUnion eps other).southWest.longitude - eps) with hmin | hmin
    · rw [hmin, min_le_iff]
      left
      linarith
    · rw [hmin, min_le_iff]
      right
      linarith
  · rw [longitudeSpan_of_le (by rw [heast]; linarith), heast, min_le_iff]
    left
    linarith

/-- What one of the rectangles reaches, the union reaches or leaves in the gap. -/
theorem longitude_covered (heps : 0 < eps) (hr : r.isEmpty = false)
    (hother : other.isEmpty = false) {q : GeoRectangle K} (hq : LongitudesInRange q)
    (hwest : -pi K ≤ min r.southWest.longitude other.southWest.longitude)
    (hle : min r.southWest.longitude other.southWest.longitude ≤ q.southWest.longitude)
    (heast : unwrappedEast q ≤ max (unwrappedEast r) (unwrappedEast other)) {x : K}
    (hx : OnArc (twoPi K) q.southWest.longitude q.longitudeSpan x) :
    OnArc (twoPi K) (r.booleanUnion eps other).southWest.longitude
        (r.booleanUnion eps other).longitudeSpan x ∨
      Before (twoPi K) (r.booleanUnion eps other).southWest.longitude eps x := by
  obtain ⟨d, ⟨hlow, hhigh, turns, hturns⟩, hspan⟩ := hx
  have hends := neg_pi_add_twoPi (K := K)
  have hedge := add_longitudeSpan q
  have hlong := le_longitudeSpan_booleanUnion heps hr hother
    (d := q.southWest.longitude - min r.southWest.longitude other.southWest.longitude + d)
    (by linarith) (by linarith)
  rw [booleanUnion_west eps hr hother]
  refine onArc_or_before (by linarith) ?_ ⟨turns, ?_⟩ hlong
  · linarith [hq.1.2]
  · rw [hturns]
    ring

/-- **`BooleanUnion` covers its operands**, up to the gap before its western edge.
SOURCE: GeoRectangle.cpp:111-139 -/
theorem booleanUnion_covers (heps : 0 < eps) (hr : LongitudesInRange r)
    (hother : LongitudesInRange other) (point : GeoCoordinates K)
    (h : OnCylinder r point ∨ OnCylinder other point) :
    CoveredUpTo eps (r.booleanUnion eps other) point := by
  cases hemptyR : r.isEmpty with
  | true =>
    rcases h with h | h
    · rw [isEmpty_eq_false h] at hemptyR
      cases hemptyR
    · unfold GeoRectangle.booleanUnion
      rw [if_pos hemptyR]
      exact ⟨h.1, Or.inl h.2⟩
  | false =>
    cases hemptyO : other.isEmpty with
    | true =>
      rcases h with h | h
      · unfold GeoRectangle.booleanUnion
        rw [if_neg (by simp [hemptyR]), if_pos hemptyO]
        exact ⟨h.1, Or.inl h.2⟩
      · rw [isEmpty_eq_false h] at hemptyO
        cases hemptyO
    | false =>
      have hwest : -pi K ≤ min r.southWest.longitude other.southWest.longitude :=
        le_min hr.1.1 hother.1.1
      refine ⟨inLatitudes_booleanUnion hemptyR hemptyO (h.imp And.left And.left), ?_⟩
      rcases h with h | h
      · exact longitude_covered heps hemptyR hemptyO hr hwest (min_le_left _ _)
          (le_max_left _ _) h.2
      · exact longitude_covered heps hemptyR hemptyO hother hwest (min_le_right _ _)
          (le_max_right _ _) h.2

/-- A rectangle about the meridian, joined with one beside it. -/
theorem booleanUnion_covers_beside :
    (0 : ℚ) < 1 / 1000 ∧
      CoveredUpTo (1 / 1000 : ℚ) (besideMeridian.booleanUnion (1 / 1000) aroundMeridian)
        ⟨0, -3⟩ := by
  have hrange : LongitudesInRange besideMeridian := by
    norm_num [LongitudesInRange, InRange, besideMeridian, pi]
  have hrange' : LongitudesInRange aroundMeridian := by
    norm_num [LongitudesInRange, InRange, aroundMeridian, pi]
  have hon : OnCylinder besideMeridian ⟨0, -3⟩ := by
    refine ⟨by norm_num [besideMeridian], -3 + 31 / 10, ⟨?_, ?_, 0, ?_⟩, ?_⟩
    · norm_num
    · norm_num [twoPi]
    · norm_num [besideMeridian]
    · norm_num [besideMeridian, GeoRectangle.longitudeSpan]
  exact ⟨by norm_num, booleanUnion_covers (by norm_num) hrange hrange' _ (Or.inl hon)⟩

end OlpEdgeSdk.Analysis.RectangleUnions

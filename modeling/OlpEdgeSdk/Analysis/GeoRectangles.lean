import OlpEdgeSdk.Base.Circle
import OlpEdgeSdk.Model.GeoRectangle

/-!
# Rectangles on the cylinder

Longitudes are positions on a circle, cut open at the 180 meridian. A rectangle is a range of
latitudes and an arc, and what it contains and what it overlaps is told by these. `Contains`
and `Overlaps` agree with the cylinder on rectangles that do not cross the meridian, its ends
apart; on those that do, `Contains` holds of every longitude and `Overlaps` takes the height of
the rectangle for its width.
-/

set_option autoImplicit false

namespace OlpEdgeSdk.Analysis.GeoRectangles

open OlpEdgeSdk.Base OlpEdgeSdk.Model Math

section

variable {K : Type*} [LinearOrder K]

theorem contains_iff (r : GeoRectangle K) (point : GeoCoordinates K) :
    r.contains point = true ↔
      (r.southWest.latitude ≤ point.latitude ∧ point.latitude ≤ r.northEast.latitude) ∧
        (r.southWest.longitude < r.northEast.longitude →
          r.southWest.longitude ≤ point.longitude ∧
            point.longitude ≤ r.northEast.longitude) := by
  unfold GeoRectangle.contains
  split
  · next h =>
    simp only [Bool.or_eq_true, decide_eq_true_eq] at h
    constructor
    · intro hfalse
      cases hfalse
    · rintro ⟨⟨hsouth, hnorth⟩, -⟩
      rcases h with h | h
      · exact absurd hsouth (not_le.mpr h)
      · exact absurd hnorth (not_le.mpr h)
  · next h =>
    simp only [Bool.or_eq_true, decide_eq_true_eq, not_or, not_lt] at h
    dsimp only
    split
    · next hwe =>
      simp only [Bool.and_eq_true, decide_eq_true_eq]
      exact ⟨fun hin => ⟨h, fun _ => hin⟩, fun hin => hin.2 hwe⟩
    · next hwe =>
      -- east of the eastern or west of the western edge is every longitude
      simp only [Bool.or_eq_true, decide_eq_true_eq]
      refine ⟨fun _ => ⟨h, fun hlt => absurd hlt hwe⟩, fun _ => ?_⟩
      rcases le_total r.northEast.longitude point.longitude with hle | hle
      · exact Or.inl hle
      · exact Or.inr (hle.trans (not_lt.mp hwe))

end

variable {K : Type*} [Field K] [LinearOrder K]

/-- A longitude between the two ends of the meridian. -/
def InRange (longitude : K) : Prop := -pi K ≤ longitude ∧ longitude ≤ pi K

/-- Both longitudes of the rectangle are between the ends. -/
def LongitudesInRange (r : GeoRectangle K) : Prop :=
  InRange r.southWest.longitude ∧ InRange r.northEast.longitude

/-- The point is on the rectangle of the cylinder. -/
def OnCylinder (r : GeoRectangle K) (point : GeoCoordinates K) : Prop :=
  (r.southWest.latitude ≤ point.latitude ∧ point.latitude ≤ r.northEast.latitude) ∧
    OnArc (twoPi K) r.southWest.longitude r.longitudeSpan point.longitude

/-- The point is in the interior of the rectangle of the cylinder. -/
def StrictlyInside (r : GeoRectangle K) (point : GeoCoordinates K) : Prop :=
  (r.southWest.latitude < point.latitude ∧ point.latitude < r.northEast.latitude) ∧
    WithinArc (twoPi K) r.southWest.longitude r.longitudeSpan point.longitude

/-- What `Overlaps` takes for the width of a rectangle. -/
def drawnWidth (r : GeoRectangle K) : K :=
  if r.southWest.longitude < r.northEast.longitude then
    r.northEast.longitude - r.southWest.longitude
  else r.latitudeSpan

theorem drawnWidth_of_lt {r : GeoRectangle K}
    (h : r.southWest.longitude < r.northEast.longitude) :
    drawnWidth r = r.northEast.longitude - r.southWest.longitude := if_pos h

theorem drawnWidth_of_gt {r : GeoRectangle K}
    (h : r.northEast.longitude < r.southWest.longitude) : drawnWidth r = r.latitudeSpan :=
  if_neg h.not_gt

/-- The rectangles are apart in latitude. -/
def Apart (r rect : GeoRectangle K) : Prop :=
  rect.northEast.latitude ≤ r.southWest.latitude ∨ r.northEast.latitude ≤ rect.southWest.latitude

/-- One rectangle begins where the other one, at its drawn width, has ended. -/
def DrawnApart (r rect : GeoRectangle K) : Prop :=
  rect.southWest.longitude + drawnWidth rect ≤ r.southWest.longitude ∨
    r.southWest.longitude + drawnWidth r ≤ rect.southWest.longitude

theorem drawnApart_comm {r rect : GeoRectangle K} : DrawnApart r rect ↔ DrawnApart rect r :=
  or_comm

theorem add_drawnWidth [IsStrictOrderedRing K] (r : GeoRectangle K) :
    r.southWest.longitude + drawnWidth r =
      if r.northEast.longitude ≤ r.southWest.longitude then
        r.southWest.longitude + r.latitudeSpan
      else r.northEast.longitude := by
  unfold drawnWidth
  by_cases h : r.southWest.longitude < r.northEast.longitude
  · rw [if_pos h, if_neg (not_le.mpr h)]
    linarith
  · rw [if_neg h, if_pos (not_lt.mp h)]

theorem overlaps_iff [IsStrictOrderedRing K] (r rect : GeoRectangle K) :
    r.overlaps rect = true ↔ ¬ Apart r rect ∧ ¬ DrawnApart r rect := by
  simp only [GeoRectangle.overlaps, Apart, DrawnApart, add_drawnWidth]
  split
  · next h =>
    simp only [Bool.or_eq_true, decide_eq_true_eq] at h
    constructor
    · intro hfalse
      cases hfalse
    · exact fun hnot => absurd h hnot.1
  · next h =>
    simp only [Bool.or_eq_true, decide_eq_true_eq] at h
    simp only [Bool.not_eq_true', Bool.or_eq_false_iff, decide_eq_false_iff_not, not_or]
    rw [not_or] at h
    exact ⟨fun hin => ⟨h, hin⟩, fun hin => hin.2⟩

theorem overlaps_comm [IsStrictOrderedRing K] (r rect : GeoRectangle K) :
    r.overlaps rect = rect.overlaps r := by
  rw [Bool.eq_iff_iff, overlaps_iff, overlaps_iff]
  constructor
  · exact fun h => ⟨fun hapart => h.1 (Or.symm hapart), fun hapart => h.2 (Or.symm hapart)⟩
  · exact fun h => ⟨fun hapart => h.1 (Or.symm hapart), fun hapart => h.2 (Or.symm hapart)⟩

/-- The longitudes of the interiors meet. -/
def LongitudesMeet (r rect : GeoRectangle K) : Prop :=
  ∃ x, (-pi K ≤ x ∧ x ≤ -pi K + twoPi K) ∧
    WithinArc (twoPi K) r.southWest.longitude r.longitudeSpan x ∧
    WithinArc (twoPi K) rect.southWest.longitude rect.longitudeSpan x

theorem longitudesMeet_comm {r rect : GeoRectangle K} :
    LongitudesMeet r rect ↔ LongitudesMeet rect r := by
  constructor
  · rintro ⟨x, hx, hin, hin'⟩
    exact ⟨x, hx, hin', hin⟩
  · rintro ⟨x, hx, hin, hin'⟩
    exact ⟨x, hx, hin', hin⟩

/-! ## The constants -/

section

variable [IsStrictOrderedRing K]

theorem pi_pos : 0 < pi K := by
  unfold pi
  positivity

theorem twoPi_pos : 0 < twoPi K := by
  unfold twoPi
  positivity

/-- Once round the circle is from one end of the meridian to the other. -/
theorem neg_pi_add_twoPi : -pi K + twoPi K = pi K := by
  unfold pi twoPi
  ring

/-! ## `Contains` -/

theorem longitudeSpan_of_le {r : GeoRectangle K}
    (h : r.southWest.longitude ≤ r.northEast.longitude) :
    r.longitudeSpan = r.northEast.longitude - r.southWest.longitude := by
  simp only [GeoRectangle.longitudeSpan]
  rw [if_neg (by linarith)]

theorem longitudeSpan_of_lt {r : GeoRectangle K}
    (h : r.northEast.longitude < r.southWest.longitude) :
    r.longitudeSpan = r.northEast.longitude - r.southWest.longitude + twoPi K := by
  simp only [GeoRectangle.longitudeSpan]
  rw [if_pos (by linarith)]

/-- When `Contains` is right about a point: the latitude decides; or the rectangle does not
cross the meridian, and the point is not one end of it where the rectangle has the other one;
or it crosses the meridian and the point is on it. -/
def ContainsSound (r : GeoRectangle K) (point : GeoCoordinates K) : Prop :=
  let west := r.southWest.longitude
  let east := r.northEast.longitude
  let longitude := point.longitude
  (point.latitude < r.southWest.latitude ∨ r.northEast.latitude < point.latitude) ∨
    (west < east ∧ ¬ (west = -pi K ∧ east < pi K ∧ longitude = pi K) ∧
      ¬ (-pi K < west ∧ east = pi K ∧ longitude = -pi K)) ∨
    (east < west ∧ (west ≤ longitude ∨ longitude ≤ east)) ∨
    (east = west ∧
      (longitude = west ∨ longitude - west = twoPi K ∨ west - longitude = twoPi K))

/-- **`Contains` is right exactly** in these cases. -/
theorem contains_iff_onCylinder_iff {r : GeoRectangle K} {point : GeoCoordinates K}
    (hr : LongitudesInRange r) (hpoint : InRange point.longitude) :
    (r.contains point = true ↔ OnCylinder r point) ↔ ContainsSound r point := by
  obtain ⟨⟨hwlow, hwhigh⟩, helow, hehigh⟩ := hr
  obtain ⟨hplow, hphigh⟩ := hpoint
  have hc := twoPi_pos (K := K)
  have hends := neg_pi_add_twoPi (K := K)
  rw [contains_iff]
  unfold OnCylinder ContainsSound
  by_cases hlatitude : r.southWest.latitude ≤ point.latitude ∧
      point.latitude ≤ r.northEast.latitude
  · have hnot : ¬ (point.latitude < r.southWest.latitude ∨
        r.northEast.latitude < point.latitude) := by
      rw [not_or, not_lt, not_lt]
      exact hlatitude
    simp only [hlatitude, hnot, true_and, and_self, false_or]
    rcases lt_trichotomy r.southWest.longitude r.northEast.longitude with hlt | heq | hgt
    · rw [longitudeSpan_of_le hlt.le, onArc_iff_between hc hwlow hlt (by rwa [hends]) hplow
        (by rwa [hends]), hends]
      simp only [hlt, hlt.not_gt, hlt.ne', true_and, false_and, or_false, forall_true_left]
      constructor
      · intro hiff
        constructor
        · rintro ⟨hw, he, hp⟩
          have hin := hiff.mpr (Or.inr (Or.inl ⟨hw, hp⟩))
          linarith [hin.2]
        · rintro ⟨hw, he, hp⟩
          have hin := hiff.mpr (Or.inr (Or.inr ⟨he, hp⟩))
          linarith [hin.1]
      · rintro ⟨hwest, heast⟩
        constructor
        · exact fun hin => Or.inl hin
        · rintro (hin | ⟨hw, hp⟩ | ⟨he, hp⟩)
          · exact hin
          · have hle : ¬ r.northEast.longitude < pi K := fun hlt' => hwest ⟨hw, hlt', hp⟩
            exact ⟨by linarith, by linarith⟩
          · have hle : ¬ -pi K < r.southWest.longitude := fun hlt' => heast ⟨hlt', he, hp⟩
            exact ⟨by linarith, by linarith⟩
    · rw [longitudeSpan_of_le heq.le, heq, sub_self,
        onArc_zero_iff hc (by linarith) (by linarith)]
      simp
    · rw [longitudeSpan_of_lt hgt, onArc_iff_across hc helow hgt (by rwa [hends]) hplow
        (by rwa [hends])]
      simp [hgt, hgt.not_gt, hgt.ne]
  · have hout : point.latitude < r.southWest.latitude ∨
        r.northEast.latitude < point.latitude := by
      rw [← not_le, ← not_le]
      exact not_and_or.mp hlatitude
    simp only [hlatitude, false_and, hout, true_or]

/-! ## `Overlaps` -/

/-- The rectangle has an interior. -/
def Solid (r : GeoRectangle K) : Prop :=
  r.southWest.latitude < r.northEast.latitude ∧ 0 < r.longitudeSpan

/-- When `Overlaps` is right about a rectangle that crosses the meridian and one that does not:
the other one reaches over its western edge and begins no further east of that than the first
one is high; or the other one lies between its eastern and its western edge. -/
def AcrossSound (r rect : GeoRectangle K) : Prop :=
  (r.southWest.longitude < rect.northEast.longitude ∧
      rect.southWest.longitude < r.southWest.longitude + r.latitudeSpan) ∨
    (rect.northEast.longitude ≤ r.southWest.longitude ∧
      r.northEast.longitude ≤ rect.southWest.longitude)

/-- The first rectangle begins at the meridian, the second one stops there, and that is all
they have in common. -/
def TouchesAtMeridian (r rect : GeoRectangle K) : Prop :=
  r.southWest.longitude = pi K ∧ rect.northEast.longitude = -pi K ∧
    r.northEast.longitude ≤ rect.southWest.longitude

/-- When `Overlaps` is right about two rectangles: their latitudes decide; or one has no
interior and is drawn apart; or both have one and neither crosses the meridian, or one does,
or both do and they are drawn apart just when they only touch there. -/
def OverlapsSound (r rect : GeoRectangle K) : Prop :=
  Apart r rect ∨ (¬ (Solid r ∧ Solid rect) ∧ DrawnApart r rect) ∨
    ((Solid r ∧ Solid rect) ∧
      ((r.southWest.longitude < r.northEast.longitude ∧
          rect.southWest.longitude < rect.northEast.longitude) ∨
        (r.northEast.longitude < r.southWest.longitude ∧
          rect.southWest.longitude < rect.northEast.longitude ∧ AcrossSound r rect) ∨
        (r.southWest.longitude < r.northEast.longitude ∧
          rect.northEast.longitude < rect.southWest.longitude ∧ AcrossSound rect r) ∨
        (r.northEast.longitude < r.southWest.longitude ∧
          rect.northEast.longitude < rect.southWest.longitude ∧
          (DrawnApart r rect ↔ TouchesAtMeridian r rect ∨ TouchesAtMeridian rect r))))

/-- The interiors meet when the latitudes and the longitudes do. -/
theorem interiors_meet_iff {r rect : GeoRectangle K} :
    (∃ point : GeoCoordinates K, InRange point.longitude ∧ StrictlyInside r point ∧
        StrictlyInside rect point) ↔
      (r.southWest.latitude < r.northEast.latitude ∧
        rect.southWest.latitude < rect.northEast.latitude ∧ ¬ Apart r rect) ∧
      LongitudesMeet r rect := by
  unfold Apart LongitudesMeet
  rw [neg_pi_add_twoPi, not_or, not_le, not_le]
  constructor
  · rintro ⟨point, hrange, ⟨⟨hsouth, hnorth⟩, hin⟩, ⟨hsouth', hnorth'⟩, hin'⟩
    exact ⟨⟨hsouth.trans hnorth, hsouth'.trans hnorth', hsouth.trans hnorth',
      hsouth'.trans hnorth⟩, point.longitude, hrange, hin, hin'⟩
  · rintro ⟨⟨hheight, hheight', hlow, hhigh⟩, x, hrange, hin, hin'⟩
    obtain ⟨latitude, hlat, hlat'⟩ := exists_between_both hheight hheight' hlow hhigh
    exact ⟨⟨latitude, x⟩, hrange, ⟨hlat, hin⟩, hlat', hin'⟩

section

variable {r rect : GeoRectangle K} (hr : LongitudesInRange r) (hrect : LongitudesInRange rect)

include hr hrect

/-- Neither rectangle crosses the meridian. -/
theorem drawnApart_iff_of_neither (hlt : r.southWest.longitude < r.northEast.longitude)
    (hlt' : rect.southWest.longitude < rect.northEast.longitude) :
    ¬ DrawnApart r rect ↔ LongitudesMeet r rect := by
  obtain ⟨⟨hwlow, -⟩, -, hehigh⟩ := hr
  obtain ⟨⟨hwlow', -⟩, -, hehigh'⟩ := hrect
  rw [← neg_pi_add_twoPi] at hehigh hehigh'
  unfold DrawnApart LongitudesMeet
  rw [longitudeSpan_of_le hlt.le, longitudeSpan_of_le hlt'.le,
    arcs_meet_iff twoPi_pos hwlow hlt hehigh hwlow' hlt' hehigh', drawnWidth_of_lt hlt,
    drawnWidth_of_lt hlt', not_or, not_le, not_le, add_sub_cancel, add_sub_cancel]

/-- The first rectangle crosses the meridian. -/
theorem drawnApart_iff_of_first (hgt : r.northEast.longitude < r.southWest.longitude)
    (hlt' : rect.southWest.longitude < rect.northEast.longitude) :
    (¬ DrawnApart r rect ↔ LongitudesMeet r rect) ↔ AcrossSound r rect := by
  obtain ⟨⟨-, hwhigh⟩, helow, -⟩ := hr
  obtain ⟨⟨hwlow', -⟩, -, hehigh'⟩ := hrect
  rw [← neg_pi_add_twoPi] at hwhigh hehigh'
  unfold DrawnApart LongitudesMeet AcrossSound
  rw [longitudeSpan_of_lt hgt, longitudeSpan_of_le hlt'.le,
    arcs_meet_iff_across twoPi_pos helow hgt hwhigh hwlow' hlt' hehigh', drawnWidth_of_gt hgt,
    drawnWidth_of_lt hlt', not_or, not_le, not_le, add_sub_cancel, ← not_lt, ← not_lt]
  tauto

/-- Both rectangles cross the meridian. -/
theorem drawnApart_iff_of_both (hgt : r.northEast.longitude < r.southWest.longitude)
    (hgt' : rect.northEast.longitude < rect.southWest.longitude) (hlong : 0 < r.longitudeSpan)
    (hlong' : 0 < rect.longitudeSpan) :
    (¬ DrawnApart r rect ↔ LongitudesMeet r rect) ↔
      (DrawnApart r rect ↔ TouchesAtMeridian r rect ∨ TouchesAtMeridian rect r) := by
  obtain ⟨⟨-, hwhigh⟩, helow, -⟩ := hr
  obtain ⟨⟨-, hwhigh'⟩, helow', -⟩ := hrect
  rw [← neg_pi_add_twoPi] at hwhigh hwhigh'
  rw [longitudeSpan_of_lt hgt] at hlong
  rw [longitudeSpan_of_lt hgt'] at hlong'
  unfold LongitudesMeet TouchesAtMeridian
  rw [longitudeSpan_of_lt hgt, longitudeSpan_of_lt hgt',
    arcs_meet_iff_both_across twoPi_pos helow hgt hwhigh helow' hgt' hwhigh' hlong hlong',
    neg_pi_add_twoPi, ← not_or, not_iff_not]

/-- **`Overlaps` is right exactly** in these cases. -/
theorem overlaps_iff_meet_iff :
    (r.overlaps rect = true ↔ ∃ point : GeoCoordinates K, InRange point.longitude ∧
      StrictlyInside r point ∧ StrictlyInside rect point) ↔ OverlapsSound r rect := by
  rw [overlaps_iff, interiors_meet_iff]
  unfold OverlapsSound
  by_cases hapart : Apart r rect
  · simp [hapart]
  by_cases hsolid : Solid r ∧ Solid rect
  · obtain ⟨hsolidR, hsolidRect⟩ := hsolid
    have hwidth : ∀ {q : GeoRectangle K}, Solid q →
        q.southWest.longitude ≠ q.northEast.longitude := by
      intro q hq heq
      have hpos := hq.2
      rw [longitudeSpan_of_le heq.le, heq, sub_self] at hpos
      exact lt_irrefl 0 hpos
    simp only [hapart, hsolidR, hsolidRect, hsolidR.1, hsolidRect.1, not_false_eq_true, true_and,
      false_or, not_true_eq_false, false_and, and_self]
    rcases (hwidth hsolidR).lt_or_gt with hlt | hgt
    · rcases (hwidth hsolidRect).lt_or_gt with hlt' | hgt'
      · simp [hlt, hlt', hlt.not_gt, hlt'.not_gt, drawnApart_iff_of_neither hr hrect hlt hlt']
      · have hiff := drawnApart_iff_of_first hrect hr hgt' hlt
        rw [longitudesMeet_comm, drawnApart_comm] at hiff
        simp [hlt, hgt', hlt.not_gt, hgt'.not_gt, hiff]
    · rcases (hwidth hsolidRect).lt_or_gt with hlt' | hgt'
      · simp [hgt, hlt', hgt.not_gt, hlt'.not_gt, drawnApart_iff_of_first hr hrect hgt hlt']
      · have hiff := drawnApart_iff_of_both hr hrect hgt hgt' hsolidR.2 hsolidRect.2
        simp [hgt, hgt', hgt.not_gt, hgt'.not_gt, hiff]
  · have hnone : ¬ ((r.southWest.latitude < r.northEast.latitude ∧
        rect.southWest.latitude < rect.northEast.latitude ∧ ¬ Apart r rect) ∧
          LongitudesMeet r rect) := by
      rintro ⟨⟨hheight, hheight', -⟩, x, -, hin, hin'⟩
      exact hsolid ⟨⟨hheight, hin.length_pos⟩, hheight', hin'.length_pos⟩
    rw [iff_false_right hnone]
    simp only [hapart, hsolid, not_false_eq_true, true_and, false_and, not_not, false_or,
      or_false]

end

end

/-- **`Contains` and `Overlaps` on the cylinder.** Each agrees with it exactly where it is said
to be sound, and `Overlaps` is symmetric throughout. -/
theorem rectangles_agree_iff_sound (K : Type*) [Field K] [LinearOrder K]
    [IsStrictOrderedRing K] :
    (∀ (r : GeoRectangle K) (point : GeoCoordinates K), LongitudesInRange r →
      InRange point.longitude →
      ((r.contains point = true ↔ OnCylinder r point) ↔ ContainsSound r point)) ∧
    (∀ r rect : GeoRectangle K, LongitudesInRange r → LongitudesInRange rect →
      ((r.overlaps rect = true ↔ ∃ point : GeoCoordinates K, InRange point.longitude ∧
        StrictlyInside r point ∧ StrictlyInside rect point) ↔ OverlapsSound r rect)) ∧
    (∀ r rect : GeoRectangle K, r.overlaps rect = rect.overlaps r) :=
  ⟨fun _ _ hr hpoint => contains_iff_onCylinder_iff hr hpoint,
    fun _ _ hr hrect => overlaps_iff_meet_iff hr hrect, overlaps_comm⟩

/-- A rectangle of three by three about the equator. -/
def aroundZero : GeoRectangle ℚ := ⟨⟨-3 / 2, -3 / 2⟩, ⟨3 / 2, 3 / 2⟩⟩

/-- A rectangle about the 180 meridian, from 3 to -3. -/
def aroundMeridian : GeoRectangle ℚ := ⟨⟨-1 / 10, 3⟩, ⟨1 / 10, -3⟩⟩

/-- A rectangle whose western part lies in the one about the meridian. -/
def besideMeridian : GeoRectangle ℚ := ⟨⟨-1 / 10, -31 / 10⟩, ⟨1 / 10, -29 / 10⟩⟩

theorem rectangles_agree_around_zero :
    (aroundZero.contains ⟨0, 1⟩ = true ↔ OnCylinder aroundZero ⟨0, 1⟩) ∧
      (aroundZero.overlaps besideMeridian = true ↔ ∃ point : GeoCoordinates ℚ,
        InRange point.longitude ∧ StrictlyInside aroundZero point ∧
          StrictlyInside besideMeridian point) := by
  constructor
  · apply ((rectangles_agree_iff_sound ℚ).1 aroundZero ⟨0, 1⟩ ?_ ?_).mpr
    · refine Or.inr (Or.inl ⟨?_, ?_, ?_⟩)
      · norm_num [aroundZero]
      · norm_num [aroundZero, pi]
      · norm_num [aroundZero, pi]
    · norm_num [LongitudesInRange, InRange, aroundZero, pi]
    · norm_num [InRange, pi]
  · apply ((rectangles_agree_iff_sound ℚ).2.1 aroundZero besideMeridian ?_ ?_).mpr
    · refine Or.inr (Or.inr ⟨⟨⟨?_, ?_⟩, ?_, ?_⟩, Or.inl ⟨?_, ?_⟩⟩)
      · norm_num [aroundZero]
      · norm_num [aroundZero, GeoRectangle.longitudeSpan]
      · norm_num [besideMeridian]
      · norm_num [besideMeridian, GeoRectangle.longitudeSpan]
      · norm_num [aroundZero]
      · norm_num [besideMeridian]
    · norm_num [LongitudesInRange, InRange, aroundZero, pi]
    · norm_num [LongitudesInRange, InRange, besideMeridian, pi]

/-- The rectangle about the meridian contains the point on the other side of the earth, and it
does not overlap the rectangle beside the meridian. -/
theorem rectangles_across_the_meridian :
    (LongitudesInRange aroundMeridian ∧ LongitudesInRange besideMeridian) ∧
      (aroundMeridian.contains ⟨0, 0⟩ = true ∧ ¬ OnCylinder aroundMeridian ⟨0, 0⟩) ∧
      aroundMeridian.overlaps besideMeridian = false ∧
      ∃ point : GeoCoordinates ℚ, InRange point.longitude ∧
        StrictlyInside aroundMeridian point ∧ StrictlyInside besideMeridian point := by
  have hc : 0 < twoPi ℚ := twoPi_pos
  have hspan : aroundMeridian.longitudeSpan = -3 - 3 + twoPi ℚ :=
    longitudeSpan_of_lt (by norm_num [aroundMeridian])
  have hspan' : besideMeridian.longitudeSpan = -29 / 10 - -31 / 10 :=
    longitudeSpan_of_le (by norm_num [besideMeridian])
  refine ⟨⟨?_, ?_⟩, ⟨?_, ?_⟩, ?_, ⟨0, -305 / 100⟩, ?_, ⟨?_, ?_⟩, ?_, ?_⟩
  · norm_num [LongitudesInRange, InRange, aroundMeridian, pi]
  · norm_num [LongitudesInRange, InRange, besideMeridian, pi]
  · rw [contains_iff]
    norm_num [aroundMeridian]
  · rintro ⟨-, hon⟩
    rw [hspan] at hon
    have hsides := (onArc_iff_across (w := 3) (e := -3) (x := 0) hc
      (show -pi ℚ ≤ -3 by norm_num [pi]) (by norm_num) (by norm_num [pi, twoPi]) (by norm_num [pi])
      (by norm_num [pi, twoPi])).mp hon
    norm_num at hsides
  · rw [← Bool.not_eq_true, overlaps_iff]
    rintro ⟨-, hdrawn⟩
    apply hdrawn
    rw [DrawnApart, add_drawnWidth, add_drawnWidth]
    norm_num [aroundMeridian, besideMeridian]
  · norm_num [InRange, pi]
  · norm_num [aroundMeridian]
  · rw [hspan]
    exact (withinArc_iff_across (w := 3) (e := -3) (x := -305 / 100) hc
      (show -pi ℚ ≤ -3 by norm_num [pi]) (by norm_num) (by norm_num [pi, twoPi]) (by norm_num [pi])
      (by norm_num [pi, twoPi])).mpr (Or.inr ⟨by norm_num, by norm_num [pi]⟩)
  · norm_num [besideMeridian]
  · rw [hspan']
    exact (withinArc_iff_between (w := -31 / 10) (e := -29 / 10) (x := -305 / 100) hc
      (show -pi ℚ ≤ -31 / 10 by norm_num [pi]) (by norm_num [pi, twoPi]) (by norm_num [pi])
      (by norm_num [pi, twoPi])).mpr ⟨by norm_num, by norm_num⟩

end OlpEdgeSdk.Analysis.GeoRectangles

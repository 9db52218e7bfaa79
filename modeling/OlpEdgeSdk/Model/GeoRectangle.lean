import Mathlib.Algebra.Order.Floor.Ring
import Mathlib.Data.Rat.Floor

/-!
# Geographic rectangles

`GeoRectangle` and the functions of `Math.h` it is used with, over a field in place of
`double`; angles are radians.

SOURCE: olp-cpp-sdk-core/include/olp/core/math/Math.h
SOURCE: olp-cpp-sdk-core/src/geo/coordinates/GeoRectangle.cpp
-/

set_option autoImplicit false

namespace OlpEdgeSdk.Model

namespace Math

section

variable (K : Type*) [Field K]

/-- `math::half_pi`.
SOURCE: Math.h:33 -/
def halfPi : K := 157079632679489661923132169163975144 / 10 ^ 35

/-- `math::pi`.
SOURCE: Math.h:34 -/
def pi : K := 314159265358979323846264338327950288 / 10 ^ 35

/-- `math::two_pi`.
SOURCE: Math.h:35 -/
def twoPi : K := 628318530717958647692528676655900576 / 10 ^ 35

/-- `math::epsilon`, that of `double`.
SOURCE: Math.h:36 -/
def epsilon : K := 1 / 2 ^ 52

end

variable {K : Type*} [Field K] [LinearOrder K]

/-- `math::EpsilonEqual`.
SOURCE: Math.h:46-48 -/
def epsilonEqual (x y : K) : Bool := |x - y| < epsilon K

/-- `math::Clamp`.
SOURCE: Math.h:50-53 -/
def clamp (x minVal maxVal : K) : K := min (max x minVal) maxVal

/-- `std::fmod`: the remainder of a division that is rounded towards zero. -/
def fmod [FloorRing K] (x y : K) : K :=
  x - y * (if 0 ≤ x / y then (⌊x / y⌋ : ℤ) else (⌈x / y⌉ : ℤ))

/-- `math::Wrap`.
SOURCE: Math.h:58-73 -/
def wrap [FloorRing K] (value lower upper : K) : K :=
  if epsilonEqual lower upper then lower
  else if value < lower then upper - fmod (lower - value) (upper - lower)
  else if upper ≤ value then lower + fmod (value - lower) (upper - lower)
  else value

end Math

/-- `GeoCoordinates`. -/
structure GeoCoordinates (K : Type*) where
  latitude : K
  longitude : K

/-- `GeoRectangle`. -/
structure GeoRectangle (K : Type*) where
  southWest : GeoCoordinates K
  northEast : GeoCoordinates K

namespace GeoRectangle

variable {K : Type*} [Field K] [LinearOrder K]

/-- `LatitudeSpan`.
SOURCE: GeoRectangle.cpp:52-54 -/
def latitudeSpan (r : GeoRectangle K) : K := r.northEast.latitude - r.southWest.latitude

/-- `IsEmpty`.
SOURCE: GeoRectangle.cpp:38 -/
def isEmpty (r : GeoRectangle K) : Bool := r.latitudeSpan < 0

/-- `LongitudeSpan`.
SOURCE: GeoRectangle.cpp:56-61 -/
def longitudeSpan (r : GeoRectangle K) : K :=
  let width := r.northEast.longitude - r.southWest.longitude
  if width < 0 then width + Math.twoPi K else width

/-- `Contains`.
SOURCE: GeoRectangle.cpp:78-91 -/
def contains (r : GeoRectangle K) (point : GeoCoordinates K) : Bool :=
  if point.latitude < r.southWest.latitude || r.northEast.latitude < point.latitude then false
  else
    let west := r.southWest.longitude
    let east := r.northEast.longitude
    if west < east then west ≤ point.longitude && point.longitude ≤ east
    else
      -- the rectangle crosses the 180 meridian
      east ≤ point.longitude || point.longitude ≤ west

/-- `Overlaps`.
SOURCE: GeoRectangle.cpp:93-109 -/
def overlaps (r rect : GeoRectangle K) : Bool :=
  if rect.northEast.latitude ≤ r.southWest.latitude ||
      r.northEast.latitude ≤ rect.southWest.latitude then false
  else
    let west := r.southWest.longitude
    let east := r.northEast.longitude
    let east := if east ≤ west then west + r.latitudeSpan else east
    let rectWest := rect.southWest.longitude
    let rectEast := rect.northEast.longitude
    let rectEast := if rectEast ≤ rectWest then rectWest + rect.latitudeSpan else rectEast
    !(rectEast ≤ west || east ≤ rectWest)

/-- `BooleanUnion`. What `nextafter` gives next below the western edge is `eps` less.
SOURCE: GeoRectangle.cpp:111-139 -/
def booleanUnion (eps : K) (r other : GeoRectangle K) : GeoRectangle K :=
  if r.isEmpty then other
  else if other.isEmpty then r
  else
    let southWest : GeoCoordinates K :=
      ⟨min r.southWest.latitude other.southWest.latitude,
        min r.southWest.longitude other.southWest.longitude⟩
    let longitude1 :=
      if r.northEast.longitude < r.southWest.longitude then
        r.northEast.longitude + Math.twoPi K
      else r.northEast.longitude
    let longitude2 :=
      if other.northEast.longitude < other.southWest.longitude then
        other.northEast.longitude + Math.twoPi K
      else other.northEast.longitude
    let maxLongitude := max longitude1 longitude2
    let maxLongitude :=
      if Math.pi K < maxLongitude then
        let upperLimit := southWest.longitude - eps
        min (maxLongitude - Math.twoPi K) upperLimit
      else maxLongitude
    let northEast : GeoCoordinates K :=
      ⟨max r.northEast.latitude other.northEast.latitude, maxLongitude⟩
    ⟨southWest, northEast⟩

end GeoRectangle

end OlpEdgeSdk.Model

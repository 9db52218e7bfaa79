import OlpEdgeSdk.Model.GeoRectangle
import OlpEdgeSdk.Model.SubdivisionSchemes
import OlpEdgeSdk.Model.TileKey

/-!
# Locating points and rectangles

`TileKeyUtils::GeoCoordinatesToTileKey` and `GeoRectangleToTileKeys`, in exact arithmetic. A
projection is a parameter. A quotient by the size of a world box without extent, which the
source leaves undefined, is zero here.

SOURCE: olp-cpp-sdk-core/src/geo/tiling/TileKeyUtils.cpp
SOURCE: olp-cpp-sdk-core/include/olp/core/geo/projection/IProjection.h
SOURCE: olp-cpp-sdk-core/src/geo/projection/EquirectangularProjection.cpp
SOURCE: olp-cpp-sdk-core/include/olp/core/math/AlignedBox.h
-/

set_option autoImplicit false

namespace OlpEdgeSdk.Model

/-- `WorldCoordinates`, a `Vector3d`. -/
structure WorldCoordinates (K : Type*) where
  x : K
  y : K
  z : K

/-- `GeoCoordinates3d`. -/
structure GeoCoordinates3d (K : Type*) where
  geoCoordinates : GeoCoordinates K
  altitude : K

/-- `WorldAlignedBox`. -/
structure WorldAlignedBox (K : Type*) where
  minimum : WorldCoordinates K
  maximum : WorldCoordinates K

namespace WorldAlignedBox

variable {K : Type*} [Field K] [LinearOrder K]

/-- `Empty`.
SOURCE: AlignedBox.h:352-356 -/
def empty (box : WorldAlignedBox K) : Bool :=
  box.maximum.x < box.minimum.x || box.maximum.y < box.minimum.y ||
    box.maximum.z < box.minimum.z

/-- `Size`.
SOURCE: AlignedBox.h:358-361 -/
def size (box : WorldAlignedBox K) : WorldCoordinates K :=
  if box.empty then ⟨0, 0, 0⟩
  else ⟨box.maximum.x - box.minimum.x, box.maximum.y - box.minimum.y,
    box.maximum.z - box.minimum.z⟩

end WorldAlignedBox

/-- `IProjection`: `Project` has no result where the source's returns false. -/
structure IProjection (K : Type*) where
  worldExtent : K → K → WorldAlignedBox K
  project : GeoCoordinates3d K → Option (WorldCoordinates K)

/-- `ITilingScheme`. -/
structure ITilingScheme (K : Type*) where
  subdivisionScheme : ISubdivisionScheme
  projection : IProjection K

/-- `EquirectangularProjection`.
SOURCE: EquirectangularProjection.cpp:33-67 -/
def equirectangularProjection (K : Type*) [Field K] : IProjection K where
  worldExtent minimumAltitude maximumAltitude :=
    ⟨⟨0, 0, minimumAltitude⟩, ⟨1, 0.5, maximumAltitude⟩⟩
  project geoPoint := some
    ⟨(geoPoint.geoCoordinates.longitude + Math.pi K) * (1 / Math.twoPi K),
      (geoPoint.geoCoordinates.latitude + Math.halfPi K) * (1 / Math.twoPi K),
      geoPoint.altitude⟩

/-- `HalfQuadTreeEquirectangularTilingScheme`. -/
def halfQuadTreeEquirectangularTilingScheme (K : Type*) [Field K] : ITilingScheme K where
  subdivisionScheme := halfQuadTreeSubdivisionScheme
  projection := equirectangularProjection K

namespace TileKeyUtils

open TileKey

variable {K : Type*} [Field K] [LinearOrder K] [FloorRing K]

/-- `static_cast<std::uint32_t>`: the number without its fraction, where that is a word. -/
def toUInt32 (x : K) : BitVec 32 := BitVec.ofInt 32 ⌊x⌋

/-- `std::min`. -/
def minWord (a b : BitVec 32) : BitVec 32 := if b < a then b else a

/-- `GeoCoordinatesToTileKey`.
SOURCE: TileKeyUtils.cpp:39-74 -/
def geoCoordinatesToTileKey (tilingScheme : ITilingScheme K) (geoPoint : GeoCoordinates K)
    (level : BitVec 32) : TileKey :=
  match tilingScheme.projection.project ⟨geoPoint, 0⟩ with
  | none => invalid
  | some worldPoint =>
    let levelSize := tilingScheme.subdivisionScheme.getLevelSize level
    let cx := levelSize.width
    let cy := levelSize.height
    let worldBBox := tilingScheme.projection.worldExtent 0 0
    let worldSize := worldBBox.size
    let worldBBoxMin := worldBBox.minimum
    let worldBBoxMax := worldBBox.maximum
    if worldPoint.x < worldBBoxMin.x || worldBBoxMax.x < worldPoint.x then invalid
    else if worldPoint.y < worldBBoxMin.y || worldBBoxMax.y < worldPoint.y then invalid
    else
      let column := minWord (cx - 1#32)
        (toUInt32 ((cx.toNat : K) * (worldPoint.x - worldBBoxMin.x) / worldSize.x))
      let row := minWord (cy - 1#32)
        (toUInt32 ((cy.toNat : K) * (worldPoint.y - worldBBoxMin.y) / worldSize.y))
      fromRowColumnLevel row column level

/-- The words from `lower` to `upper`, as a `for` loop with `<=` and `++` takes them. The loop
would not stop at the greatest word, which is not reached on a level of the schemes. -/
def wordsUpTo (lower upper : BitVec 32) : List (BitVec 32) :=
  (List.range' lower.toNat (upper.toNat + 1 - lower.toNat)).map (BitVec.ofNat 32)

/-- The corner that `GeoRectangleToTileKeys` looks up: clamped at the poles and wrapped around
the date line.
SOURCE: TileKeyUtils.cpp:84-94 -/
def normalizedCorner (corner : GeoCoordinates K) : GeoCoordinates K where
  longitude := Math.wrap corner.longitude (-Math.pi K) (Math.pi K)
  latitude := Math.clamp corner.latitude (-Math.halfPi K) (Math.halfPi K)

/-- `GeoRectangleToTileKeys`.
SOURCE: TileKeyUtils.cpp:76-121 -/
def geoRectangleToTileKeys (tilingScheme : ITilingScheme K) (geoRectangle : GeoRectangle K)
    (level : BitVec 32) : List TileKey :=
  if geoRectangle.isEmpty then []
  else
    let southWest := normalizedCorner geoRectangle.southWest
    let northEast := normalizedCorner geoRectangle.northEast
    let minTileKey := geoCoordinatesToTileKey tilingScheme southWest level
    let maxTileKey := geoCoordinatesToTileKey tilingScheme northEast level
    let columnCount := (tilingScheme.subdivisionScheme.getLevelSize level).width
    let minColumn := minTileKey.column
    let maxColumn := maxTileKey.column
    let maxColumn :=
      if northEast.longitude < southWest.longitude then
        if maxColumn ≠ minColumn then maxColumn + columnCount
        else maxColumn + (columnCount - 1#32)
      else maxColumn
    (wordsUpTo minTileKey.row maxTileKey.row).flatMap fun row =>
      (wordsUpTo minColumn maxColumn).map fun column =>
        fromRowColumnLevel row (column % columnCount) level

end TileKeyUtils

end OlpEdgeSdk.Model

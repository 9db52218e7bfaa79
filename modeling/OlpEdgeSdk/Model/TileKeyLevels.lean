import Mathlib.Data.BitVec

/-!
# Sets of levels

`TileKeyLevels`, a bit set of the 32 levels, with its least, its greatest and its nearest
element. `std::log2` is exact on the integers that fit a bit set.

SOURCE: olp-cpp-sdk-core/src/geo/tiling/TileKey.cpp
SOURCE: olp-cpp-sdk-core/include/olp/core/geo/tiling/TileKey.h
-/

set_option autoImplicit false

namespace OlpEdgeSdk.Model.TileKeyLevels

/-- `lookup_table`: where the five highest bits of the product point.
SOURCE: TileKey.cpp:273-275 -/
def lookupTable : Array (BitVec 32) := #[
  0#32, 1#32, 28#32, 2#32, 29#32, 14#32, 24#32, 3#32, 30#32, 22#32, 20#32, 15#32, 25#32, 17#32,
  4#32, 8#32, 31#32, 27#32, 13#32, 23#32, 21#32, 19#32, 16#32, 7#32, 26#32, 12#32, 18#32, 6#32,
  11#32, 5#32, 10#32, 9#32]

/-- `GetMinTileKeyLevel`; `to_ulong` is a word of 64 bits.
SOURCE: TileKey.cpp:265-284 -/
def getMinTileKeyLevel (levels : BitVec 32) : Option (BitVec 32) :=
  if levels = 0#32 then none
  else
    let levelBits : BitVec 64 := levels.setWidth 64
    let product := ((levelBits &&& -levelBits) * 0x077CB531#64).setWidth 32
    some (lookupTable.getD (product >>> 27).toNat 0#32)

/-- `GetMaxTileKeyLevel`.
SOURCE: TileKey.cpp:286-290 -/
def getMaxTileKeyLevel (levels : BitVec 32) : Option (BitVec 32) :=
  if levels = 0#32 then none else some (BitVec.ofNat 32 (levels.setWidth 64).toNat.log2)

/-- What a turn of the search finds: the level above before the level below.
SOURCE: TileKey.cpp:303-310 -/
def levelAtDistance (levels : BitVec 32) (level : ℤ) (dist : ℕ) : Option ℤ :=
  if level + dist < 32 ∧ levels.getLsbD (level + dist).toNat = true then some (level + dist)
  else if dist ≤ level ∧ levels.getLsbD (level - dist).toNat = true then some (level - dist)
  else none

/-- `GetNearestAvailableTileKeyLevel`.
SOURCE: TileKey.cpp:292-314 -/
def getNearestAvailableTileKeyLevel (levels referenceLevel : BitVec 32) : Option (BitVec 32) :=
  match getMinTileKeyLevel levels, getMaxTileKeyLevel levels with
  | some minLevel, some maxLevel =>
    let lower := if maxLevel < referenceLevel then maxLevel else referenceLevel
    let level := if lower < minLevel then minLevel else lower
    let maxDist := max (level - minLevel).toInt.natAbs (level - maxLevel).toInt.natAbs
    -- the loop over the distances stops at the first one that has a level
    let found := (List.range (maxDist + 1)).findSome? (levelAtDistance levels level.toInt)
    some (BitVec.ofInt 32 (found.getD level.toInt))
  | _, _ => none

end OlpEdgeSdk.Model.TileKeyLevels

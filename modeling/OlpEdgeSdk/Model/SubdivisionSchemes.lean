import Mathlib.Data.BitVec

/-!
# Subdivision schemes

`ISubdivisionScheme` and its two implementations: how a tile of a level is split and how many
tiles the level has.

SOURCE: olp-cpp-sdk-core/include/olp/core/geo/tiling/ISubdivisionScheme.h
SOURCE: olp-cpp-sdk-core/src/geo/tiling/QuadTreeSubdivisionScheme.cpp
SOURCE: olp-cpp-sdk-core/src/geo/tiling/HalfQuadTreeSubdivisionScheme.cpp
-/

set_option autoImplicit false

namespace OlpEdgeSdk.Model

/-- `math::Size2u`. -/
structure Size2u where
  width : BitVec 32
  height : BitVec 32
deriving DecidableEq

/-- `ISubdivisionScheme`. -/
structure ISubdivisionScheme where
  getSubdivisionAt : BitVec 32 → Size2u
  getLevelSize : BitVec 32 → Size2u

/-- `QuadTreeSubdivisionScheme`.
SOURCE: QuadTreeSubdivisionScheme.cpp:34-41 -/
def quadTreeSubdivisionScheme : ISubdivisionScheme where
  getSubdivisionAt _ := { width := 2#32, height := 2#32 }
  getLevelSize level := { width := 1#32 <<< level, height := 1#32 <<< level }

/-- `HalfQuadTreeSubdivisionScheme`.
SOURCE: HalfQuadTreeSubdivisionScheme.cpp:37-43 -/
def halfQuadTreeSubdivisionScheme : ISubdivisionScheme where
  getSubdivisionAt level := { width := 2#32, height := if level = 0#32 then 1#32 else 2#32 }
  getLevelSize level :=
    { width := 1#32 <<< level
      height := if level = 0#32 then 1#32 else 1#32 <<< (level - 1#32) }

end OlpEdgeSdk.Model

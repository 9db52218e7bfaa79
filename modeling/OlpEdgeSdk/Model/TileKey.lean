import Mathlib.Data.BitVec
import OlpEdgeSdk.Base.Decimal
import OlpEdgeSdk.Base.WhileLoops

/-!
# Tile keys

`geo::TileKey`: a level with a row and a column, all 32-bit words, and its conversions to and
from the 64-bit quad key, the quad key string and the HERE tile string.

SOURCE: olp-cpp-sdk-core/src/geo/tiling/TileKey.cpp
SOURCE: olp-cpp-sdk-core/include/olp/core/geo/tiling/TileKey.h
SOURCE: olp-cpp-sdk-core/src/geo/tiling/TileKeyUtils.cpp
-/

set_option autoImplicit false

namespace OlpEdgeSdk.Model

open OlpEdgeSdk.Base

/-- `TileKey`: the words as they are stored, whether or not they make a valid key. -/
structure TileKey where
  row : BitVec 32
  column : BitVec 32
  level : BitVec 32
deriving DecidableEq

namespace TileKey

/-- `LevelCount`. -/
def levelCount : BitVec 32 := 32#32

/-- The default constructor: an invalid key.
SOURCE: TileKey.h:68 -/
def invalid : TileKey := { row := 0#32, column := 0#32, level := levelCount }

/-- `FromRowColumnLevel`.
SOURCE: TileKey.cpp:131-138 -/
def fromRowColumnLevel (row column level : BitVec 32) : TileKey := { row, column, level }

/-- `IsValid`.
SOURCE: TileKey.h:87-90 -/
def isValid (k : TileKey) : Bool :=
  k.level < levelCount && k.row < 1#32 <<< k.level && k.column < 1#32 <<< k.level

/-- `operator<`: level first, then row, then column.
SOURCE: TileKey.h:117-122 -/
def lt (k other : TileKey) : Bool :=
  if k.level ≠ other.level then k.level < other.level
  else if k.row ≠ other.row then k.row < other.row
  else k.column < other.column

/-- `MortonTable256`: a byte with its bits interleaved with zeros.
SOURCE: TileKey.cpp:75-104 -/
def mortonTable256 : Array (BitVec 64) := #[
    0x0000, 0x0001, 0x0004, 0x0005, 0x0010, 0x0011, 0x0014, 0x0015, 0x0040, 0x0041, 0x0044, 0x0045,
    0x0050, 0x0051, 0x0054, 0x0055, 0x0100, 0x0101, 0x0104, 0x0105, 0x0110, 0x0111, 0x0114, 0x0115,
    0x0140, 0x0141, 0x0144, 0x0145, 0x0150, 0x0151, 0x0154, 0x0155, 0x0400, 0x0401, 0x0404, 0x0405,
    0x0410, 0x0411, 0x0414, 0x0415, 0x0440, 0x0441, 0x0444, 0x0445, 0x0450, 0x0451, 0x0454, 0x0455,
    0x0500, 0x0501, 0x0504, 0x0505, 0x0510, 0x0511, 0x0514, 0x0515, 0x0540, 0x0541, 0x0544, 0x0545,
    0x0550, 0x0551, 0x0554, 0x0555, 0x1000, 0x1001, 0x1004, 0x1005, 0x1010, 0x1011, 0x1014, 0x1015,
    0x1040, 0x1041, 0x1044, 0x1045, 0x1050, 0x1051, 0x1054, 0x1055, 0x1100, 0x1101, 0x1104, 0x1105,
    0x1110, 0x1111, 0x1114, 0x1115, 0x1140, 0x1141, 0x1144, 0x1145, 0x1150, 0x1151, 0x1154, 0x1155,
    0x1400, 0x1401, 0x1404, 0x1405, 0x1410, 0x1411, 0x1414, 0x1415, 0x1440, 0x1441, 0x1444, 0x1445,
    0x1450, 0x1451, 0x1454, 0x1455, 0x1500, 0x1501, 0x1504, 0x1505, 0x1510, 0x1511, 0x1514, 0x1515,
    0x1540, 0x1541, 0x1544, 0x1545, 0x1550, 0x1551, 0x1554, 0x1555, 0x4000, 0x4001, 0x4004, 0x4005,
    0x4010, 0x4011, 0x4014, 0x4015, 0x4040, 0x4041, 0x4044, 0x4045, 0x4050, 0x4051, 0x4054, 0x4055,
    0x4100, 0x4101, 0x4104, 0x4105, 0x4110, 0x4111, 0x4114, 0x4115, 0x4140, 0x4141, 0x4144, 0x4145,
    0x4150, 0x4151, 0x4154, 0x4155, 0x4400, 0x4401, 0x4404, 0x4405, 0x4410, 0x4411, 0x4414, 0x4415,
    0x4440, 0x4441, 0x4444, 0x4445, 0x4450, 0x4451, 0x4454, 0x4455, 0x4500, 0x4501, 0x4504, 0x4505,
    0x4510, 0x4511, 0x4514, 0x4515, 0x4540, 0x4541, 0x4544, 0x4545, 0x4550, 0x4551, 0x4554, 0x4555,
    0x5000, 0x5001, 0x5004, 0x5005, 0x5010, 0x5011, 0x5014, 0x5015, 0x5040, 0x5041, 0x5044, 0x5045,
    0x5050, 0x5051, 0x5054, 0x5055, 0x5100, 0x5101, 0x5104, 0x5105, 0x5110, 0x5111, 0x5114, 0x5115,
    0x5140, 0x5141, 0x5144, 0x5145, 0x5150, 0x5151, 0x5154, 0x5155, 0x5400, 0x5401, 0x5404, 0x5405,
    0x5410, 0x5411, 0x5414, 0x5415, 0x5440, 0x5441, 0x5444, 0x5445, 0x5450, 0x5451, 0x5454, 0x5455,
    0x5500, 0x5501, 0x5504, 0x5505, 0x5510, 0x5511, 0x5514, 0x5515, 0x5540, 0x5541, 0x5544, 0x5545,
    0x5550, 0x5551, 0x5554, 0x5555]

/-- One entry of the table, for the byte of a word that starts at a bit. -/
def mortonByte (word : BitVec 32) (start : ℕ) : BitVec 64 :=
  mortonTable256.getD ((word >>> start) &&& 0xFF#32).toNat 0#64

/-- `ToQuadKey64`.
SOURCE: TileKey.cpp:73-115 -/
def toQuadKey64 (k : TileKey) : BitVec 64 :=
  1#64 <<< (2#32 * k.level) ||| mortonByte k.row 24 <<< 49 |||
    mortonByte k.row 16 <<< 33 |||
    mortonByte k.row 8 <<< 17 |||
    mortonByte k.row 0 <<< 1 |||
    mortonByte k.column 24 <<< 48 |||
    mortonByte k.column 16 <<< 32 |||
    mortonByte k.column 8 <<< 16 |||
    mortonByte k.column 0

/-- What the decoders do with the two bits `d` at a place: the low bit goes to the column and
the high bit to the row, under the mask of the place. -/
def addDigit (k : TileKey) (low high : Bool) (mask : BitVec 32) : TileKey :=
  let k := if low then { k with column := k.column ||| mask } else k
  if high then { k with row := k.row ||| mask } else k

/-- The loop of `FromQuadKey64`: two bits of the key a turn, until only its leading one is
left.
SOURCE: TileKey.cpp:120-128 -/
def fromQuadKey64Loop (result : TileKey) (quadKey : BitVec 64) : TileKey :=
  if 1#64 < quadKey then
    let mask := 1#32 <<< result.level
    let result := addDigit result (quadKey &&& 1#64 != 0#64) (quadKey &&& 2#64 != 0#64) mask
    fromQuadKey64Loop { result with level := result.level + 1#32 } (quadKey >>> 2)
  else result
termination_by quadKey.toNat
decreasing_by
  rename_i h
  have hlt : 1 < quadKey.toNat := by simpa [BitVec.lt_def] using h
  rw [BitVec.toNat_ushiftRight, Nat.shiftRight_eq_div_pow]
  omega

/-- `FromQuadKey64`.
SOURCE: TileKey.cpp:117-129 -/
def fromQuadKey64 (quadKey : BitVec 64) : TileKey :=
  fromQuadKey64Loop (fromRowColumnLevel 0#32 0#32 0#32) quadKey

/-- `ToQuadKey`: the base-4 digits of the quad key below its leading one, most significant
first; `-` for the root and nothing for an invalid key.
SOURCE: TileKey.cpp:32-42 -/
def toQuadKey (k : TileKey) : List Char :=
  if k.isValid = false then []
  else if k.level = 0#32 then ['-']
  else
    let mortonKey := k.toQuadKey64
    let digit (i : ℕ) : Char :=
      Char.ofNat ((mortonKey / (1#64 <<< (i <<< 1)) % 4#64).toNat + '0'.toNat)
    (List.range k.level.toNat).reverse.map digit

/-- The loop of `FromQuadKey`: the digits from the last one, with the mask `1 << i` of their
place.
SOURCE: TileKey.cpp:51-56 -/
def fromQuadKeyLoop (result : TileKey) (i : ℕ) : List Char → TileKey
  | [] => result
  | c :: digits =>
    let mask := 1#32 <<< i
    let d := BitVec.ofNat 32 c.toNat - BitVec.ofNat 32 '0'.toNat
    fromQuadKeyLoop (addDigit result (d &&& 1#32 != 0#32) (d &&& 2#32 != 0#32) mask) (i + 1) digits

/-- `FromQuadKey`.
SOURCE: TileKey.cpp:44-58 -/
def fromQuadKey (quadKey : List Char) : TileKey :=
  if quadKey = [] then invalid
  else
    let result := fromRowColumnLevel 0#32 0#32 0#32
    if quadKey = ['-'] then result
    else
      fromQuadKeyLoop { result with level := BitVec.ofNat 32 quadKey.length } 0 quadKey.reverse

/-- `ToHereTile`: the quad key in decimal.
SOURCE: TileKey.cpp:60-64 -/
def toHereTile (k : TileKey) : List Char := decimal k.toQuadKey64.toNat

/-- `strtoull` with base 10: zero where there is no number, the greatest word where the number
is out of range, and a negative number negated as a word. -/
def strtoull (text : List Char) : BitVec 64 :=
  match readDecimal text with
  | none => 0#64
  | some n => if n.natAbs < 2 ^ 64 then BitVec.ofInt 64 n else BitVec.allOnes 64

/-- `FromHereTile`.
SOURCE: TileKey.cpp:66-71 -/
def fromHereTile (key : List Char) : TileKey :=
  if key = [] then invalid else fromQuadKey64 (strtoull key)

/-- `Parent`: invalid for the root.
SOURCE: TileKey.cpp:140-144 -/
def parent (k : TileKey) : TileKey :=
  if 0#32 < k.level then fromRowColumnLevel (k.row >>> 1) (k.column >>> 1) (k.level - 1#32)
  else invalid

/-- `ChangedLevelBy`, where `delta` is a signed word. Shifts by 32 and more, which the source
leaves undefined, are zero here; no valid key is shifted so far.
SOURCE: TileKey.cpp:157-174 -/
def changedLevelBy (k : TileKey) (delta : BitVec 32) : TileKey :=
  if delta = 0#32 then k
  else
    let level := k.level + delta
    let level := if level.toInt < 0 then 0#32 else level
    if 0 ≤ delta.toInt then
      { row := k.row <<< delta, column := k.column <<< delta, level }
    else
      { row := k.row >>> (-delta), column := k.column >>> (-delta), level }

/-- `ChangedLevelTo`.
SOURCE: TileKey.cpp:176-178 -/
def changedLevelTo (k : TileKey) (level : BitVec 32) : TileKey :=
  k.changedLevelBy (level - k.level)

/-- `IsChildOf`: the other key is a proper ancestor, at any distance.
SOURCE: TileKey.cpp:146-151 -/
def isChildOf (k other : TileKey) : Bool :=
  if k.level ≤ other.level then false else k.changedLevelTo other.level = other

/-- `GetChild`.
SOURCE: TileKey.cpp:245-252 -/
def getChild (k : TileKey) (index : BitVec 8) : TileKey :=
  let result := k.changedLevelBy 1#32
  { result with
    column := result.column ||| (index &&& 1#8).setWidth 32
    row := result.row ||| (index >>> 1).setWidth 32 }

/-- `IsParentOf`.
SOURCE: TileKey.cpp:153-155 -/
def isParentOf (k other : TileKey) : Bool := other.isChildOf k

end TileKey

/-! ## Sub keys -/

namespace QuadKey64Helper

/-- `QuadKey64Helper::GetSubkey`: the digits of the last `delta` levels below a leading one.
SOURCE: TileKey.cpp:223-229 -/
def getSubkey (key : BitVec 64) (delta : BitVec 32) : BitVec 64 :=
  let msb := 1#64 <<< (delta * 2#32)
  let mask := msb - 1#64
  key &&& mask ||| msb

/-- What the loop of `AddedSubkey` goes on with: `sub_key.key >= (mask << 2)`, for the pair of
the key and the mask.
SOURCE: TileKey.cpp:235 -/
def subKeyReaches (subKey : BitVec 64) (s : BitVec 64 × BitVec 64) : Bool := s.2 <<< 2 ≤ subKey

/-- A turn of the loop.
SOURCE: TileKey.cpp:236-237 -/
def shiftKeyAndMask (s : BitVec 64 × BitVec 64) : BitVec 64 × BitVec 64 := (s.1 <<< 2, s.2 <<< 2)

/-- `QuadKey64Helper::AddedSubkey`, with a bound on the turns of its loop.
SOURCE: TileKey.cpp:231-243 -/
def addedSubkey (fuel : ℕ) (key subKey : BitVec 64) : Option (BitVec 64) :=
  (whileLoop (subKeyReaches subKey) shiftKeyAndMask fuel (key, 1#64)).map fun s =>
    s.1 ||| subKey &&& (s.2 - 1#64)

end QuadKey64Helper

namespace TileKey

/-- `GetSubkey64`.
SOURCE: TileKey.cpp:180-182 -/
def getSubkey64 (k : TileKey) (delta : BitVec 32) : BitVec 64 :=
  QuadKey64Helper.getSubkey k.toQuadKey64 delta

/-- `AddedSubkey64`, with a bound on the turns of the helper's loop.
SOURCE: TileKey.cpp:184-188 -/
def addedSubkey64 (fuel : ℕ) (k : TileKey) (subQuadKey : BitVec 64) : Option TileKey :=
  (QuadKey64Helper.addedSubkey fuel k.toQuadKey64 subQuadKey).map fromQuadKey64

/-- `AddedSubkey`.
SOURCE: TileKey.cpp:190-197 -/
def addedSubkey (k : TileKey) (subQuadKey : List Char) : TileKey :=
  let subQuad := fromQuadKey (if subQuadKey = [] then ['-'] else subQuadKey)
  let child := k.changedLevelBy subQuad.level
  fromRowColumnLevel (child.row + subQuad.row) (child.column + subQuad.column) child.level

/-- `AddedSubHereTile`.
SOURCE: TileKey.cpp:199-205 -/
def addedSubHereTile (k : TileKey) (subHereTile : List Char) : TileKey :=
  let subQuad := fromHereTile subHereTile
  let child := k.changedLevelBy subQuad.level
  fromRowColumnLevel (child.row + subQuad.row) (child.column + subQuad.column) child.level

end TileKey

namespace TileKeyUtils

open TileKey

/-- `TileKeyUtils::GetRelativeSubTileKey`.
SOURCE: TileKeyUtils.cpp:123-129 -/
def getRelativeSubTileKey (key : TileKey) (parentLevel : BitVec 32) : TileKey :=
  let originKey := (key.changedLevelTo parentLevel).changedLevelTo key.level
  fromRowColumnLevel (key.row - originKey.row) (key.column - originKey.column)
    (key.level - parentLevel)

/-- `TileKeyUtils::GetAbsoluteSubTileKey`.
SOURCE: TileKeyUtils.cpp:131-138 -/
def getAbsoluteSubTileKey (parent subTile : TileKey) : TileKey :=
  let absSubTileKey := parent.changedLevelBy subTile.level
  fromRowColumnLevel (absSubTileKey.row + subTile.row) (absSubTileKey.column + subTile.column)
    absSubTileKey.level

end TileKeyUtils

end OlpEdgeSdk.Model

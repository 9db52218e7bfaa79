import Mathlib.Data.Char
import Mathlib.Data.List.Lex
import OlpEdgeSdk.Base.SortedMap
import OlpEdgeSdk.Model.TileKey

/-!
# The tiles a prefetch asks for

`PrefetchTilesRepository::EffectiveTileKeys`: from the tiles of a prefetch request to the
quad tree index requests that are sent, each a tile with the depth of the index below it.

The loops and recursions of the source are run on fuel, one unit for each nested call or turn
of a loop; `none` is a call that has not returned when the fuel is spent.

SOURCE: olp-cpp-sdk-dataservice-read/src/repositories/PrefetchTilesRepository.cpp
-/

set_option autoImplicit false

namespace OlpEdgeSdk.Model

open OlpEdgeSdk.Base TileKey

/-- `TileKeyAndDepth`. -/
abbrev TileKeyAndDepth : Type := TileKey × ℤ

/-- `SubQuadsRequest`: the tiles with their depths, by the tile's HERE tile string. -/
abbrev SubQuadsRequest : Type := SortedMap (List Char) TileKeyAndDepth

namespace PrefetchTilesRepository

/-- `kMaxQuadTreeIndexDepth`. -/
def maxQuadTreeIndexDepth : BitVec 32 := 4#32

/-- `operator<` of the pair: the tile first, then the depth. -/
def ltPair (a b : TileKeyAndDepth) : Bool :=
  a.1.lt b.1 || (!b.1.lt a.1 && a.2 < b.2)

/-- `std::max`. -/
def maxPair (a b : TileKeyAndDepth) : TileKeyAndDepth := if ltPair a b then b else a

/-- What both merging loops do with an entry: the greater depth if the tile is there already.
SOURCE: PrefetchTilesRepository.cpp:58-66 -/
def mergeEntry (ret : SubQuadsRequest) (tile : List Char × TileKeyAndDepth) : SubQuadsRequest :=
  match ret.find tile.1 with
  | some oldChild => ret.insert tile.1 (maxPair oldChild tile.2)
  | none => ret.insert tile.1 tile.2

/-- The loop of `AddParents`, from the tile it has come to.
SOURCE: PrefetchTilesRepository.cpp:78-85 -/
def addParents (minLevel maxLevel : BitVec 32) :
    ℕ → SubQuadsRequest → TileKey → Option SubQuadsRequest
  | 0, _, _ => none
  | fuel + 1, ret, tile =>
    if minLevel ≤ tile.level then
      let ret := if tile.level ≤ maxLevel then ret.insert tile.toHereTile (tile, 0) else ret
      addParents minLevel maxLevel fuel ret tile.parent
    else some ret

/-- `GetChildAtLevel`.
SOURCE: PrefetchTilesRepository.cpp:126-138 -/
def getChildAtLevel : ℕ → TileKey → BitVec 32 → Option (List TileKey)
  | 0, _, _ => none
  | fuel + 1, tilekey, minLevel =>
    if minLevel ≤ tilekey.level then some [tilekey]
    else
      [0#8, 1#8, 2#8, 3#8].foldlM
        (fun ret i => do
          let child ← getChildAtLevel fuel (tilekey.getChild i) minLevel
          return ret ++ child) []

/-- `EffectiveTileKeys` of one tile.
SOURCE: PrefetchTilesRepository.cpp:72-124 -/
def effectiveTileKeysOf :
    ℕ → TileKey → BitVec 32 → BitVec 32 → Bool → Option SubQuadsRequest
  | 0, _, _, _, _ => none
  | fuel + 1, tilekey, minLevel, maxLevel, addAncestors =>
    let currentLevel := tilekey.level
    let addChildren (ret : SubQuadsRequest) (child : TileKey) : Option SubQuadsRequest := do
      let childTiles ← effectiveTileKeysOf fuel child minLevel maxLevel false
      return childTiles.entries.foldl mergeEntry ret
    if maxLevel < currentLevel then
      addParents minLevel maxLevel fuel SortedMap.empty tilekey.parent
    else if currentLevel < minLevel then do
      let children ← getChildAtLevel fuel tilekey minLevel
      children.foldlM addChildren SortedMap.empty
    else do
      let ret ←
        if addAncestors then addParents minLevel maxLevel fuel SortedMap.empty tilekey.parent
        else some SortedMap.empty
      if maxLevel - currentLevel ≤ maxQuadTreeIndexDepth then
        return ret.insert tilekey.toHereTile (tilekey, (maxLevel - currentLevel).toInt)
      else
        let ret := ret.insert tilekey.toHereTile (tilekey, maxQuadTreeIndexDepth.toInt)
        let children ←
          getChildAtLevel fuel tilekey (currentLevel + maxQuadTreeIndexDepth + 1#32)
        children.foldlM addChildren ret

/-- `EffectiveTileKeys` of the tiles of a request.
SOURCE: PrefetchTilesRepository.cpp:52-70 -/
def effectiveTileKeys (fuel : ℕ) (tilekeys : List TileKey) (minLevel maxLevel : BitVec 32) :
    Option SubQuadsRequest :=
  tilekeys.foldlM
    (fun ret tilekey => do
      let childTiles ← effectiveTileKeysOf fuel tilekey minLevel maxLevel true
      return childTiles.entries.foldl mergeEntry ret) SortedMap.empty

end PrefetchTilesRepository

end OlpEdgeSdk.Model

import OlpEdgeSdk.Model.SubdivisionSchemes
import OlpEdgeSdk.Model.TileKey

/-!
# Sub tiles

`SubTiles`, the range of the tiles a number of levels below a tile, with a mask that leaves
some of them out, and `TileTreeTraverse`, which takes the range one level below a node.

SOURCE: olp-cpp-sdk-core/include/olp/core/geo/tiling/SubTiles.h
SOURCE: olp-cpp-sdk-core/src/geo/tiling/TileTreeTraverse.cpp
-/

set_option autoImplicit false

namespace OlpEdgeSdk.Model

open OlpEdgeSdk.Base TileKey

/-- `SubTiles`. -/
structure SubTiles where
  tileKey : TileKey
  level : BitVec 32
  count : BitVec 32
  mask : BitVec 16
  shift : BitVec 32
deriving DecidableEq

namespace SubTiles

/-- The default of the constructor's mask, `~0`. -/
def defaultMask : BitVec 16 := BitVec.allOnes 16

/-- The constructor.
SOURCE: SubTiles.h:121-127 -/
def ofTile (tileKey : TileKey) (level : BitVec 32) (mask : BitVec 16) : SubTiles where
  tileKey := tileKey
  level := level
  count := 1#32 <<< (level <<< 1)
  mask := mask
  shift := if 2#32 < level then (level - 2#32) <<< 1 else 0#32

/-- The test of `Skip`: the bit of the mask that the index is shifted to.
SOURCE: SubTiles.h:154 -/
def masksOut (st : SubTiles) (index : BitVec 32) : Bool :=
  (st.mask.setWidth 32 &&& 1#32 <<< (index >>> st.shift)) == 0#32

/-- The loop of `Skip`.
SOURCE: SubTiles.h:154 -/
def skipLoop (st : SubTiles) (index : BitVec 32) : BitVec 32 :=
  if index < st.count ∧ st.masksOut index = true then skipLoop st (index + 1#32) else index
termination_by st.count.toNat - index.toNat
decreasing_by
  rename_i h
  have hlt : index.toNat < st.count.toNat := h.1
  have _ := st.count.isLt
  rw [BitVec.toNat_add, BitVec.toNat_one (by omega), Nat.mod_eq_of_lt (by omega)]
  omega

/-- `Skip`.
SOURCE: SubTiles.h:151-155 -/
def skip (st : SubTiles) (index : BitVec 32) : BitVec 32 :=
  if st.mask = BitVec.allOnes 16 then index else st.skipLoop index

/-- `begin`: the iterator's constructor skips to the first index.
SOURCE: SubTiles.h:85-89, 131 -/
def beginIndex (st : SubTiles) : BitVec 32 := st.skip 0#32

/-- `end`.
SOURCE: SubTiles.h:85-89, 133 -/
def endIndex (st : SubTiles) : BitVec 32 := st.skip st.count

/-- `Iterator::operator*`.
SOURCE: SubTiles.h:91-99 -/
def deref (st : SubTiles) (index : BitVec 32) : TileKey :=
  fromRowColumnLevel (st.tileKey.row <<< st.level ||| index >>> st.level)
    (st.tileKey.column <<< st.level ||| index &&& (1#32 <<< st.level - 1#32))
    (st.tileKey.level + st.level)

/-- The condition of a loop over the range, `it != end`, for the index and the tiles so far.
SOURCE: SubTiles.h:112-119, 147 -/
def notAtEnd (st : SubTiles) (s : BitVec 32 × List TileKey) : Bool := s.1 != st.endIndex

/-- A turn of such a loop: `*it`, then `++it`.
SOURCE: SubTiles.h:91-104 -/
def advance (st : SubTiles) (s : BitVec 32 × List TileKey) : BitVec 32 × List TileKey :=
  (st.skip (s.1 + 1#32), s.2 ++ [st.deref s.1])

/-- The tiles that a loop over the range yields, with a bound on its turns. -/
def iterate (fuel : ℕ) (st : SubTiles) : Option (List TileKey) :=
  (whileLoop st.notAtEnd st.advance fuel (st.beginIndex, [])).map Prod.snd

end SubTiles

namespace TileTreeTraverse

/-- `TileTreeTraverse::SubNodes`.
SOURCE: TileTreeTraverse.cpp:33-40 -/
def subNodes (scheme : ISubdivisionScheme) (node : TileKey) : SubTiles :=
  let subdivision := scheme.getSubdivisionAt node.level
  let subTileCount := subdivision.width * subdivision.height
  let subTileMask : BitVec 16 := (~~~(~~~0#32 <<< subTileCount)).setWidth 16
  SubTiles.ofTile node 1#32 subTileMask

/-- The nodes that a number of steps of `SubNodes` from the root comes to, each as often as it
is come to. -/
def nodesAfter (scheme : ISubdivisionScheme) (fuel : ℕ) : ℕ → Option (List TileKey)
  | 0 => some [fromRowColumnLevel 0#32 0#32 0#32]
  | n + 1 => do
    let nodes ← nodesAfter scheme fuel n
    let below ← nodes.mapM fun node => (subNodes scheme node).iterate fuel
    return below.flatten

end TileTreeTraverse

end OlpEdgeSdk.Model

import OlpEdgeSdk.Interface.TileTree
import OlpEdgeSdk.Model.SubTiles

/-!
# Enumerating sub tiles

A loop over `SubTiles` yields the tiles of the indices that the mask selects, in their order.
An index is the row and the column of a sub tile, one after the other, so without a mask the
loop yields all tiles of the level below, each once, and steps of `SubNodes` come to all tiles
of a level. The mask is looked up by the highest bits of the index, which are the row's.
-/

set_option autoImplicit false

namespace OlpEdgeSdk.Analysis.SubTileEnumeration

open OlpEdgeSdk.Base OlpEdgeSdk.Interface OlpEdgeSdk.Model TileKey SubTiles

/-! ## The loop -/

/-- `Skip` stops at the index. -/
def selects (st : SubTiles) (i : ℕ) : Bool :=
  st.mask == BitVec.allOnes 16 || !st.masksOut (BitVec.ofNat 32 i)

/-- The tiles of the selected indices below `n`. -/
def tilesBelow (st : SubTiles) (n : ℕ) : List TileKey :=
  ((List.range n).filter (selects st)).map fun i => st.deref (BitVec.ofNat 32 i)

theorem tilesBelow_succ {st : SubTiles} {i : ℕ} (h : selects st i = true) :
    tilesBelow st (i + 1) = tilesBelow st i ++ [st.deref (BitVec.ofNat 32 i)] := by
  simp [tilesBelow, List.range_succ, List.filter_append, h]

/-- Indices that are not selected add nothing. -/
theorem tilesBelow_eq_of_none {st : SubTiles} {i j : ℕ} (hij : i ≤ j)
    (h : ∀ n, i ≤ n → n < j → selects st n = false) : tilesBelow st j = tilesBelow st i := by
  induction j, hij using Nat.le_induction with
  | base => rfl
  | succ j hij ih =>
    have hnot := h j hij (Nat.lt_succ_self j)
    rw [← ih fun n hn hlt => h n hn (by omega)]
    simp [tilesBelow, List.range_succ, List.filter_append, hnot]

theorem toNat_add_one {index : BitVec 32} (count : BitVec 32) (h : index.toNat < count.toNat) :
    (index + 1#32).toNat = index.toNat + 1 := by
  have hcount := count.isLt
  rw [BitVec.toNat_add, BitVec.toNat_one (by omega), Nat.mod_eq_of_lt (by omega)]

/-- The loop of `Skip` stops at the first index that is not masked out. -/
theorem skipLoop_spec (st : SubTiles) (index : BitVec 32) (h : index.toNat ≤ st.count.toNat) :
    index.toNat ≤ (st.skipLoop index).toNat ∧ (st.skipLoop index).toNat ≤ st.count.toNat ∧
      (∀ n, index.toNat ≤ n → n < (st.skipLoop index).toNat →
        st.masksOut (BitVec.ofNat 32 n) = true) ∧
      ((st.skipLoop index).toNat = st.count.toNat ∨ st.masksOut (st.skipLoop index) = false) := by
  fun_induction st.skipLoop index with
  | case1 index hmask ih =>
    have hlt : index.toNat < st.count.toNat := hmask.1
    have hnext := toNat_add_one _ hlt
    obtain ⟨hlow, hhigh, hskipped, hend⟩ := ih (by omega)
    refine ⟨by omega, hhigh, ?_, hend⟩
    intro n hn hless
    by_cases heq : n = index.toNat
    · rw [heq, BitVec.ofNat_toNat, BitVec.setWidth_eq]
      exact hmask.2
    · exact hskipped n (by omega) hless
  | case2 index hmask =>
    refine ⟨le_rfl, h, fun n hn hless => by omega, ?_⟩
    by_cases hlt : index < st.count
    · exact Or.inr (by simpa [hlt] using hmask)
    · rw [BitVec.lt_def] at hlt
      exact Or.inl (by omega)

/-- **`Skip` goes to the next index that is selected**, or to the end. -/
theorem skip_spec (st : SubTiles) (index : BitVec 32) (h : index.toNat ≤ st.count.toNat) :
    index.toNat ≤ (st.skip index).toNat ∧ (st.skip index).toNat ≤ st.count.toNat ∧
      (∀ n, index.toNat ≤ n → n < (st.skip index).toNat → selects st n = false) ∧
      ((st.skip index).toNat = st.count.toNat ∨ selects st (st.skip index).toNat = true) := by
  unfold skip
  split
  · next hall => exact ⟨le_rfl, h, fun n hn hless => by omega, Or.inr (by simp [selects, hall])⟩
  · next hall =>
    obtain ⟨hlow, hhigh, hskipped, hend⟩ := skipLoop_spec st index h
    refine ⟨hlow, hhigh, ?_, hend.imp id ?_⟩
    · intro n hn hless
      rw [selects, beq_eq_false_iff_ne.mpr hall, hskipped n hn hless]
      rfl
    · intro hnot
      simp [selects, hnot]

theorem endIndex_eq (st : SubTiles) : st.endIndex = st.count := by
  obtain ⟨hlow, hhigh, -⟩ := skip_spec st st.count le_rfl
  exact BitVec.eq_of_toNat_eq (le_antisymm hhigh hlow)

/-- Where a loop over the range stands: before a selected index or at the end, with the tiles
of the selected indices so far. -/
structure Standing (st : SubTiles) (s : BitVec 32 × List TileKey) : Prop where
  le_count : s.1.toNat ≤ st.count.toNat
  selected : s.1.toNat = st.count.toNat ∨ selects st s.1.toNat = true
  tiles : s.2 = tilesBelow st s.1.toNat

theorem standing_begin (st : SubTiles) : Standing st (st.beginIndex, []) := by
  obtain ⟨-, hhigh, hskipped, hend⟩ := skip_spec st 0#32 (Nat.zero_le _)
  refine ⟨hhigh, hend, ?_⟩
  rw [beginIndex, tilesBelow_eq_of_none (Nat.zero_le _) fun n _ hn => hskipped n (Nat.zero_le n) hn]
  rfl

/-- **A turn of the loop** yields the tile of the index it stands at. -/
theorem Standing.advance {st : SubTiles} {s : BitVec 32 × List TileKey} (h : Standing st s)
    (hnot : st.notAtEnd s = true) :
    Standing st (st.advance s) ∧
      st.count.toNat - (st.advance s).1.toNat < st.count.toNat - s.1.toNat := by
  have hne : s.1.toNat ≠ st.count.toNat := by
    intro heq
    rw [notAtEnd, endIndex_eq, BitVec.eq_of_toNat_eq heq, bne_self_eq_false] at hnot
    cases hnot
  have hselected := h.selected.resolve_left hne
  have hle := h.le_count
  have hnext := toNat_add_one st.count (show s.1.toNat < st.count.toNat by omega)
  obtain ⟨hlow, hhigh, hskipped, hend⟩ := skip_spec st (s.1 + 1#32) (by omega)
  refine ⟨⟨hhigh, hend, ?_⟩, ?_⟩
  · simp only [SubTiles.advance]
    rw [tilesBelow_eq_of_none hlow hskipped, hnext, tilesBelow_succ hselected, h.tiles,
      BitVec.ofNat_toNat, BitVec.setWidth_eq]
  · simp only [SubTiles.advance]
    omega

/-- **A loop over the range yields the tiles of the selected indices**, in as many turns as
there are indices. -/
theorem iterate_of_count_le (st : SubTiles) {fuel : ℕ} (h : st.count.toNat ≤ fuel) :
    st.iterate fuel = some (tilesBelow st st.count.toNat) := by
  obtain ⟨s, hloop, hinv, hend⟩ := whileLoop_variant st.notAtEnd st.advance
    (fun s => st.count.toNat - s.1.toNat) (fun s hs hnot => hs.advance hnot) (standing_begin st)
  have hat : s.1 = st.count := by
    rw [notAtEnd, endIndex_eq] at hend
    simpa using hend
  rw [iterate, whileLoop_fuel_mono (by omega) hloop, Option.map_some, hinv.tiles, hat]

/-- There is no other list that a loop over the range yields. -/
theorem eq_of_iterate {st : SubTiles} {fuel : ℕ} {tiles : List TileKey}
    (h : st.iterate fuel = some tiles) : tiles = tilesBelow st st.count.toNat := by
  obtain ⟨s, hloop, rfl⟩ := Option.map_eq_some_iff.mp h
  have hmore := iterate_of_count_le st (Nat.le_max_right fuel st.count.toNat)
  rw [iterate, whileLoop_fuel_mono (Nat.le_max_left fuel _) hloop, Option.map_some,
    Option.some.injEq] at hmore
  exact hmore

/-! ## Indices as tiles -/

/-- The number of indices, four for each level. -/
theorem toNat_count (k : TileKey) (level : BitVec 32) (mask : BitVec 16)
    (h : level.toNat ≤ 15) : (ofTile k level mask).count.toNat = 4 ^ level.toNat := by
  have htwice : (level <<< 1).toNat = 2 * level.toNat := by
    rw [BitVec.toNat_shiftLeft, Nat.shiftLeft_eq]
    omega
  simp only [ofTile, BitVec.shiftLeft_eq', htwice]
  rw [toNat_one_shiftLeft (by omega), pow_mul]
  rfl

theorem toNat_shift (k : TileKey) {level : BitVec 32} (mask : BitVec 16)
    (h : level.toNat ≤ 15) : (ofTile k level mask).shift.toNat = 2 * (level.toNat - 2) := by
  simp only [ofTile]
  split
  · next hlt =>
    have hlt' : 2 < level.toNat := hlt
    rw [BitVec.toNat_shiftLeft, BitVec.toNat_sub_of_le (BitVec.le_of_lt hlt), Nat.shiftLeft_eq]
    simp only [BitVec.toNat_ofNat]
    omega
  · next hle =>
    have hle' : ¬ 2 < level.toNat := hle
    simp only [BitVec.toNat_ofNat]
    omega

/-- The highest bits of an index are one of the sixteen bits of a mask. -/
theorem div_four_pow_lt {l i : ℕ} (h : i < 4 ^ l) : i / 4 ^ (l - 2) < 16 := by
  rw [Nat.div_lt_iff_lt_mul (Nat.pow_pos (by omega))]
  calc i < 4 ^ l := h
    _ ≤ 4 ^ (2 + (l - 2)) := Nat.pow_le_pow_right (by omega) (by omega)
    _ = 16 * 4 ^ (l - 2) := by rw [pow_add, show 4 ^ 2 = 16 from rfl]

/-- **The bit of the mask** that an index is looked up by. -/
theorem selects_eq (k : TileKey) {level : BitVec 32} (mask : BitVec 16) (h : level.toNat ≤ 15)
    {i : ℕ} (hi : i < 4 ^ level.toNat) :
    selects (ofTile k level mask) i = mask.getLsbD (i / 4 ^ (level.toNat - 2)) := by
  have hpow : 4 ^ level.toNat ≤ 4 ^ 15 := Nat.pow_le_pow_right (by omega) h
  have hbit := div_four_pow_lt hi
  have hindex : (BitVec.ofNat 32 i >>> (ofTile k level mask).shift).toNat =
      i / 4 ^ (level.toNat - 2) := by
    rw [BitVec.ushiftRight_eq', BitVec.toNat_ushiftRight, toNat_shift k mask h,
      Nat.shiftRight_eq_div_pow, BitVec.toNat_ofNat, Nat.mod_eq_of_lt (by omega),
      show 2 ^ (2 * (level.toNat - 2)) = 4 ^ (level.toNat - 2) from pow_mul 2 2 _]
  have hmasked : (ofTile k level mask).masksOut (BitVec.ofNat 32 i) =
      !mask.getLsbD (i / 4 ^ (level.toNat - 2)) := by
    rw [masksOut, BitVec.shiftLeft_eq', hindex, ← BitVec.twoPow_eq, BitVec.and_twoPow,
      BitVec.getLsbD_setWidth]
    have hne : BitVec.twoPow 32 (i / 4 ^ (level.toNat - 2)) ≠ 0#32 := by
      intro heq
      have hzero := congrArg BitVec.toNat heq
      rw [BitVec.toNat_twoPow_of_lt (by omega), BitVec.toNat_zero] at hzero
      exact absurd hzero (Nat.two_pow_pos _).ne'
    simp only [ofTile, show i / 4 ^ (level.toNat - 2) < 32 by omega, decide_true, Bool.true_and]
    cases mask.getLsbD (i / 4 ^ (level.toNat - 2)) with
    | false => rfl
    | true => simpa using hne
  rw [selects, hmasked, Bool.not_not]
  by_cases hall : mask = BitVec.allOnes 16
  · have heq : (ofTile k level mask).mask = BitVec.allOnes 16 := hall
    rw [heq, beq_self_eq_true, Bool.true_or, hall, BitVec.getLsbD_allOnes, decide_eq_true hbit]
  · have hne : (ofTile k level mask).mask ≠ BitVec.allOnes 16 := hall
    rw [beq_eq_false_iff_ne.mpr hne, Bool.false_or]

/-- The tile of an index: the row and the column, one after the other. -/
def cell (l i : ℕ) (h : i < 4 ^ l) : Tile where
  level := l
  row := i / 2 ^ l
  column := i % 2 ^ l
  row_lt := by
    rw [Nat.div_lt_iff_lt_mul (Nat.two_pow_pos l), ← Nat.mul_pow]
    exact h
  column_lt := Nat.mod_lt _ (Nat.two_pow_pos l)

/-- The index of a tile. -/
def indexOf (t : Tile) : ℕ := t.row * 2 ^ t.level + t.column

theorem indexOf_lt (t : Tile) : indexOf t < 4 ^ t.level := by
  calc indexOf t < 2 ^ (t.level + t.level) := mul_two_pow_add_lt t.row_lt t.column_lt
    _ = 4 ^ t.level := by rw [← Nat.two_mul]; exact pow_mul 2 2 _

theorem indexOf_cell {l i : ℕ} (h : i < 4 ^ l) : indexOf (cell l i h) = i := by
  simp only [indexOf, cell]
  rw [Nat.mul_comm, Nat.div_add_mod]

theorem cell_indexOf (t : Tile) : cell t.level (indexOf t) (indexOf_lt t) = t := by
  ext
  · rfl
  · exact mul_two_pow_add_div t.column_lt
  · exact mul_two_pow_add_mod t.column_lt

/-- A coordinate or'ed into the places that a shift has freed. -/
theorem toNat_shiftLeft_or_of_lt {x y : BitVec 32} {l n : ℕ} (hx : x.toNat < 2 ^ l)
    (hy : y.toNat < 2 ^ n) (hfit : l + n < 32) :
    (x <<< n ||| y).toNat = x.toNat * 2 ^ n + y.toNat := by
  rw [BitVec.toNat_or, toNat_shiftLeft_of_lt hx hfit, ← Nat.shiftLeft_eq,
    ← Nat.shiftLeft_add_eq_or_of_lt hy, Nat.shiftLeft_eq]

/-- **The tile of an index lies below** where the index lies below the root. -/
theorem keyOf_deref {t : Tile} {k : TileKey} (h : KeyOf t k) {level : BitVec 32}
    (mask : BitVec 16) (hlevel : level.toNat ≤ 15) (hfit : t.level + level.toNat < 32) {i : ℕ}
    (hi : i < 4 ^ level.toNat) :
    KeyOf (t.below (cell level.toNat i hi)) ((ofTile k level mask).deref (BitVec.ofNat 32 i)) := by
  have hpow : 4 ^ level.toNat ≤ 4 ^ 15 := Nat.pow_le_pow_right (by omega) hlevel
  have hnat : (BitVec.ofNat 32 i).toNat = i := by
    rw [BitVec.toNat_ofNat, Nat.mod_eq_of_lt (by omega)]
  have hrow : (BitVec.ofNat 32 i >>> level).toNat = i / 2 ^ level.toNat := by
    rw [BitVec.ushiftRight_eq', BitVec.toNat_ushiftRight, Nat.shiftRight_eq_div_pow, hnat]
  have hcolumn : (BitVec.ofNat 32 i &&& (1#32 <<< level - 1#32)).toNat = i % 2 ^ level.toNat := by
    have hmask : (1#32 <<< level - 1#32).toNat = 2 ^ level.toNat - 1 := by
      have hone : 1#32 ≤ 1#32 <<< level := by
        rw [BitVec.le_def, BitVec.shiftLeft_eq', toNat_one_shiftLeft (by omega)]
        exact Nat.one_le_two_pow
      rw [BitVec.toNat_sub_of_le hone, BitVec.shiftLeft_eq', toNat_one_shiftLeft (by omega)]
      rfl
    rw [BitVec.toNat_and, hmask, hnat, Nat.and_two_pow_sub_one_eq_mod]
  refine ⟨hfit, ?_, ?_, ?_⟩
  · simp only [SubTiles.deref, fromRowColumnLevel, ofTile, Tile.below_level]
    rw [BitVec.toNat_add, h.level, Nat.mod_eq_of_lt (by omega)]
    rfl
  · simp only [SubTiles.deref, fromRowColumnLevel, ofTile, BitVec.shiftLeft_eq']
    rw [toNat_shiftLeft_or_of_lt (h.row ▸ t.row_lt)
      (by rw [hrow]; exact (cell level.toNat i hi).row_lt) hfit, hrow, h.row]
    rfl
  · simp only [SubTiles.deref, fromRowColumnLevel, ofTile, BitVec.shiftLeft_eq'] at hcolumn ⊢
    rw [toNat_shiftLeft_or_of_lt (h.column ▸ t.column_lt)
      (by rw [hcolumn]; exact (cell level.toNat i hi).column_lt) hfit, hcolumn, h.column]
    rfl

/-- The bit of the mask that a tile, relative to the range's, is looked up by. -/
def maskBit (s : Tile) : ℕ := indexOf s / 4 ^ (s.level - 2)

/-- **What a range contains**: the keys of the tiles below whose bit of the mask is set. -/
theorem mem_tilesBelow {t : Tile} {k : TileKey} (h : KeyOf t k) (level : BitVec 32)
    (mask : BitVec 16) (hlevel : level.toNat ≤ 15) (hfit : t.level + level.toNat < 32)
    (u : TileKey) :
    u ∈ tilesBelow (ofTile k level mask) (4 ^ level.toNat) ↔
      ∃ s : Tile, s.level = level.toNat ∧ mask.getLsbD (maskBit s) = true ∧
        KeyOf (t.below s) u := by
  simp only [tilesBelow, List.mem_map, List.mem_filter, List.mem_range]
  constructor
  · rintro ⟨i, ⟨hi, hselected⟩, rfl⟩
    rw [selects_eq k mask hlevel hi] at hselected
    refine ⟨cell level.toNat i hi, rfl, ?_, keyOf_deref h mask hlevel hfit hi⟩
    rw [maskBit, indexOf_cell]
    exact hselected
  · rintro ⟨s, hs, hbit, hkey⟩
    have hi : indexOf s < 4 ^ level.toNat := hs ▸ indexOf_lt s
    refine ⟨indexOf s, ⟨hi, ?_⟩, ?_⟩
    · rw [selects_eq k mask hlevel hi, ← hs]
      exact hbit
    · have hderef := keyOf_deref h mask hlevel hfit hi
      have hcell : cell level.toNat (indexOf s) hi = s := by
        have hback := cell_indexOf s
        simp only [hs] at hback
        exact hback
      rw [hcell] at hderef
      exact hderef.key_eq hkey

/-- A range has no tile twice. -/
theorem nodup_tilesBelow {t : Tile} {k : TileKey} (h : KeyOf t k) {level : BitVec 32}
    (mask : BitVec 16) (hlevel : level.toNat ≤ 15) (hfit : t.level + level.toNat < 32) :
    (tilesBelow (ofTile k level mask) (4 ^ level.toNat)).Nodup := by
  apply List.Nodup.map_on
  · intro i hi j hj heq
    have hi' : i < 4 ^ level.toNat := List.mem_range.mp (List.mem_of_mem_filter hi)
    have hj' : j < 4 ^ level.toNat := List.mem_range.mp (List.mem_of_mem_filter hj)
    have hikey := keyOf_deref h mask hlevel hfit hi'
    rw [heq] at hikey
    have hcells := Tile.below_injective (hikey.tile_eq (keyOf_deref h mask hlevel hfit hj'))
    rw [← indexOf_cell hi', hcells, indexOf_cell]
  · exact List.nodup_range.filter _

/-! ## Whole levels -/

/-- `u` is a tile below `k`, or `k` itself, that many levels down. -/
def Below (k : TileKey) (levels : ℕ) (u : TileKey) : Prop :=
  u.isValid = true ∧ u.level.toNat = k.level.toNat + levels ∧ (u = k ∨ u.isChildOf k = true)

theorem below_iff {t : Tile} {k : TileKey} (h : KeyOf t k) (levels : ℕ) (u : TileKey) :
    Below k levels u ↔ ∃ s : Tile, s.level = levels ∧ KeyOf (t.below s) u := by
  constructor
  · rintro ⟨hvalid, hlevel, hchild⟩
    obtain ⟨v, hv⟩ := isValid_iff_keyOf.mp hvalid
    rw [hv.level, h.level] at hlevel
    have hle : t ≤ v := by
      rcases hchild with rfl | hchild
      · exact (h.tile_eq hv).le
      · exact ((hv.isChildOf_iff h).mp hchild).le
    obtain ⟨s, rfl⟩ := Tile.le_iff_exists_below.mp hle
    exact ⟨s, by rw [Tile.below_level] at hlevel; omega, hv⟩
  · rintro ⟨s, rfl, hkey⟩
    refine ⟨hkey.isValid, by rw [hkey.level, h.level, Tile.below_level], ?_⟩
    rcases (Tile.le_below t s).eq_or_lt with heq | hlt
    · rw [← heq] at hkey
      exact Or.inl (hkey.key_eq h)
    · exact Or.inr ((hkey.isChildOf_iff h).mpr hlt)

/-- A mask that leaves nothing out. -/
theorem getLsbD_defaultMask {s : Tile} : defaultMask.getLsbD (maskBit s) = true := by
  have hbit : maskBit s < 16 := div_four_pow_lt (indexOf_lt s)
  rw [defaultMask, BitVec.getLsbD_allOnes, decide_eq_true hbit]

/-- **A range without a mask has every tile of its level below once.** -/
theorem iterate_defaultMask {t : Tile} {k : TileKey} (h : KeyOf t k) {level : BitVec 32}
    (hlevel : level.toNat ≤ 15) (hfit : t.level + level.toNat < 32) :
    ∃ tiles, (∃ fuel, (ofTile k level defaultMask).iterate fuel = some tiles) ∧ tiles.Nodup ∧
      tiles.length = 4 ^ level.toNat ∧ ∀ u, u ∈ tiles ↔ Below k level.toNat u := by
  have hcount := toNat_count k level defaultMask hlevel
  have hiterate := iterate_of_count_le (ofTile k level defaultMask) hcount.le
  rw [hcount] at hiterate
  refine ⟨_, ⟨_, hiterate⟩, nodup_tilesBelow h _ hlevel hfit, ?_, ?_⟩
  · have hall : ∀ i ∈ List.range (4 ^ level.toNat),
        selects (ofTile k level defaultMask) i = true := by
      intro i _
      rfl
    rw [tilesBelow, List.filter_eq_self.mpr hall, List.length_map, List.length_range]
  · intro u
    rw [mem_tilesBelow h level _ hlevel hfit, below_iff h]
    constructor
    · rintro ⟨s, hs, -, hkey⟩
      exact ⟨s, hs, hkey⟩
    · rintro ⟨s, hs, hkey⟩
      exact ⟨s, hs, getLsbD_defaultMask, hkey⟩

/-! ## The traversal -/

/-- The tiles of a level of the scheme. -/
def InLevel (scheme : ISubdivisionScheme) (n : ℕ) (u : TileKey) : Prop :=
  u.level = BitVec.ofNat 32 n ∧ u.row < (scheme.getLevelSize (BitVec.ofNat 32 n)).height ∧
    u.column < (scheme.getLevelSize (BitVec.ofNat 32 n)).width

/-- How a scheme is put together: the mask of a node's sub tiles takes the rows that make the
next level. -/
structure Splits (scheme : ISubdivisionScheme) (height : ℕ → ℕ) (split : ℕ → ℕ) : Prop where
  levelSize : ∀ n ≤ 31, (scheme.getLevelSize (BitVec.ofNat 32 n)).width.toNat = 2 ^ n ∧
    (scheme.getLevelSize (BitVec.ofNat 32 n)).height.toNat = height n
  height_le : ∀ n, height n ≤ 2 ^ n
  height_zero : height 0 = 1
  /-- A tile of the next level is in the rows of a tile of this one. -/
  row_iff : ∀ n row, row < 2 ^ (n + 1) →
    (row < height (n + 1) ↔ row / 2 < height n ∧ row % 2 < split n)
  subNodes : ∀ node : TileKey, ∃ mask, TileTreeTraverse.subNodes scheme node =
    ofTile node 1#32 mask ∧ ∀ b < 4, mask.getLsbD b = decide (b < 2 * split node.level.toNat)

theorem splits_quadTree :
    Splits quadTreeSubdivisionScheme (fun n => 2 ^ n) (fun _ => 2) where
  levelSize := by
    intro n hn
    have hnat : (BitVec.ofNat 32 n).toNat = n := by
      rw [BitVec.toNat_ofNat]
      omega
    simp only [quadTreeSubdivisionScheme, BitVec.shiftLeft_eq', hnat]
    exact ⟨toNat_one_shiftLeft (by omega), toNat_one_shiftLeft (by omega)⟩
  height_le _ := le_rfl
  height_zero := rfl
  row_iff := by
    intro n row hrow
    rw [pow_succ] at hrow ⊢
    omega
  subNodes node := by
    refine ⟨0xF#16, ?_, by decide⟩
    simp only [TileTreeTraverse.subNodes, quadTreeSubdivisionScheme]
    rfl

theorem splits_halfQuadTree :
    Splits halfQuadTreeSubdivisionScheme (fun n => 2 ^ (n - 1))
      (fun n => if n = 0 then 1 else 2) where
  levelSize := by
    intro n hn
    have hnat : (BitVec.ofNat 32 n).toNat = n := by
      rw [BitVec.toNat_ofNat]
      omega
    simp only [halfQuadTreeSubdivisionScheme, BitVec.shiftLeft_eq', hnat]
    refine ⟨toNat_one_shiftLeft (by omega), ?_⟩
    split
    · next hzero =>
      rw [hzero] at hnat
      rw [← hnat]
      rfl
    · next hne =>
      have hpos : 1 ≤ n := by
        by_contra hlt
        exact hne (by rw [show n = 0 by omega])
      have hone : 1#32 ≤ BitVec.ofNat 32 n := by
        rw [BitVec.le_def, hnat]
        exact hpos
      rw [BitVec.toNat_sub_of_le hone, hnat]
      exact toNat_one_shiftLeft (l := n - 1) (by omega)
  height_le n := Nat.pow_le_pow_right (by omega) (by omega)
  height_zero := rfl
  row_iff := by
    intro n row hrow
    cases n with
    | zero =>
      simp only [Nat.reduceAdd, Nat.reduceSub, pow_zero, if_true] at hrow ⊢
      omega
    | succ n =>
      simp only [Nat.add_sub_cancel]
      rw [if_neg (Nat.succ_ne_zero n), pow_succ]
      omega
  subNodes node := by
    by_cases hroot : node.level = 0#32
    · refine ⟨0x3#16, ?_, ?_⟩
      · simp only [TileTreeTraverse.subNodes, halfQuadTreeSubdivisionScheme, hroot]
        rfl
      · rw [hroot]
        decide
    · have hne : ¬ node.level.toNat = 0 := fun heq => hroot (BitVec.eq_of_toNat_eq heq)
      refine ⟨0xF#16, ?_, ?_⟩
      · simp only [TileTreeTraverse.subNodes, halfQuadTreeSubdivisionScheme]
        rw [if_neg hroot]
        rfl
      · rw [if_neg hne]
        decide

section

variable {scheme : ISubdivisionScheme} {height split : ℕ → ℕ}

/-- The tiles of a level, as tiles of the quad tree. -/
theorem Splits.inLevel_iff (h : Splits scheme height split) {n : ℕ} (hn : n ≤ 31) (u : TileKey) :
    InLevel scheme n u ↔ ∃ v : Tile, KeyOf v u ∧ v.level = n ∧ v.row < height n := by
  obtain ⟨hwidth, hheight⟩ := h.levelSize n hn
  have hnat : (BitVec.ofNat 32 n).toNat = n := by
    rw [BitVec.toNat_ofNat]
    omega
  unfold InLevel
  rw [BitVec.lt_def, BitVec.lt_def, hwidth, hheight]
  constructor
  · rintro ⟨hlevel, hrow, hcolumn⟩
    have hle := h.height_le n
    exact ⟨⟨n, u.row.toNat, u.column.toNat, by omega, hcolumn⟩,
      ⟨Nat.lt_succ_of_le hn, by rw [hlevel, hnat], rfl, rfl⟩, rfl, hrow⟩
  · rintro ⟨v, hv, rfl, hrow⟩
    refine ⟨BitVec.eq_of_toNat_eq (by rw [hv.level, hnat]), ?_, ?_⟩
    · rw [hv.row]
      exact hrow
    · rw [hv.column]
      exact v.column_lt

/-- What `SubNodes` of a node contains: the tiles of the next level below it. -/
theorem Splits.iterate_subNodes (h : Splits scheme height split) {t : Tile} {k : TileKey}
    (ht : KeyOf t k) (hlevel : t.level < 31) :
    ∃ tiles, (∀ fuel, 4 ≤ fuel → (TileTreeTraverse.subNodes scheme k).iterate fuel = some tiles) ∧
      tiles.Nodup ∧
      ∀ u, u ∈ tiles ↔ ∃ v : Tile, KeyOf v u ∧ v.level = t.level + 1 ∧ v.ancestor 1 = t ∧
        v.row % 2 < split t.level := by
  obtain ⟨mask, heq, hmask⟩ := h.subNodes k
  have hone : (1#32).toNat = 1 := rfl
  have hcount := toNat_count k 1#32 mask (by rw [hone]; omega)
  rw [heq]
  refine ⟨tilesBelow (ofTile k 1#32 mask) (4 ^ (1#32).toNat), ?_, ?_, ?_⟩
  · intro fuel hfuel
    rw [iterate_of_count_le _ (by rw [hcount]; exact hfuel), hcount]
  · exact nodup_tilesBelow ht mask (by rw [hone]; omega) (by rw [hone]; omega)
  · intro u
    rw [mem_tilesBelow ht _ mask (by rw [hone]; omega) (by rw [hone]; omega)]
    have hbit : ∀ s : Tile, s.level = 1 →
        (mask.getLsbD (maskBit s) = true ↔ s.row < split t.level) := by
      intro s hs
      have hrow := s.row_lt
      have hcolumn := s.column_lt
      rw [hs, pow_one] at hrow hcolumn
      have hindex : maskBit s = 2 * s.row + s.column := by
        rw [maskBit, indexOf, hs, pow_one]
        omega
      rw [hindex, hmask _ (by omega), decide_eq_true_eq, ht.level]
      omega
    constructor
    · rintro ⟨s, hs, hset, hkey⟩
      have hs' : s.level = 1 := hs
      refine ⟨t.below s, hkey, by rw [Tile.below_level, hs'], ?_, ?_⟩
      · rw [← hs', Tile.ancestor_below]
      · have hrow := s.row_lt
        rw [hs', pow_one] at hrow
        simp only [Tile.below, hs', pow_one]
        rw [show (t.row * 2 + s.row) % 2 = s.row by omega]
        exact (hbit s hs').mp hset
    · rintro ⟨v, hv, hvlevel, rfl, hrow⟩
      refine ⟨v.relative 1, rfl, ?_, ?_⟩
      · rw [hbit _ rfl]
        simpa [Tile.relative] using hrow
      · rw [Tile.below_relative (by omega)]
        exact hv

theorem mapM_eq_some {α β : Type} {f : α → Option β} {g : α → β} {l : List α}
    (h : ∀ a ∈ l, f a = some (g a)) : l.mapM f = some (l.map g) := by
  induction l with
  | nil => rfl
  | cons a l ih =>
    rw [List.mapM_cons, h a List.mem_cons_self,
      ih fun b hb => h b (List.mem_cons_of_mem _ hb)]
    rfl

/-- The only node of the first level is the root. -/
theorem Splits.inLevel_zero_iff (h : Splits scheme height split) (u : TileKey) :
    InLevel scheme 0 u ↔ u = fromRowColumnLevel 0#32 0#32 0#32 := by
  have hroot : KeyOf (Tile.corner 0) (fromRowColumnLevel 0#32 0#32 0#32) :=
    ⟨by decide, rfl, rfl, rfl⟩
  rw [h.inLevel_iff (Nat.zero_le _), h.height_zero]
  constructor
  · rintro ⟨v, hv, hlevel, hrow⟩
    have hcolumn := v.column_lt
    rw [hlevel] at hcolumn
    have hv' : v = Tile.corner 0 := by
      ext
      · exact hlevel
      · exact Nat.lt_one_iff.mp hrow
      · exact Nat.lt_one_iff.mp hcolumn
    exact (hv' ▸ hv).key_eq hroot
  · rintro rfl
    exact ⟨Tile.corner 0, hroot, rfl, Nat.one_pos⟩

/-- The children of a node, told by their parents' keys. -/
theorem Splits.iterate_children (h : Splits scheme height split) {t : Tile} {k : TileKey}
    (ht : KeyOf t k) (hlevel : t.level < 31) :
    ∃ tiles, (TileTreeTraverse.subNodes scheme k).iterate 4 = some tiles ∧ tiles.Nodup ∧
      ∀ u, u ∈ tiles ↔ ∃ v : Tile, KeyOf v u ∧ v.level = t.level + 1 ∧ KeyOf (v.ancestor 1) k ∧
        v.row % 2 < split t.level := by
  obtain ⟨tiles, hiterate, htiles, hin⟩ := h.iterate_subNodes ht hlevel
  refine ⟨tiles, hiterate 4 le_rfl, htiles, ?_⟩
  intro u
  rw [hin]
  constructor
  · rintro ⟨v, hv, hlevel, hup, hrow⟩
    exact ⟨v, hv, hlevel, hup ▸ ht, hrow⟩
  · rintro ⟨v, hv, hlevel, hup, hrow⟩
    exact ⟨v, hv, hlevel, hup.tile_eq ht, hrow⟩

/-- A tile is in the next level when its parent is in this one, and in the rows that are kept. -/
theorem Splits.inLevel_succ_iff (h : Splits scheme height split) {n : ℕ} (hn : n + 1 ≤ 31)
    (u : TileKey) :
    InLevel scheme (n + 1) u ↔ ∃ k, InLevel scheme n k ∧ ∃ v : Tile, KeyOf v u ∧
      v.level = n + 1 ∧ KeyOf (v.ancestor 1) k ∧ v.row % 2 < split n := by
  rw [h.inLevel_iff hn]
  constructor
  · rintro ⟨v, hv, hlevel, hrow⟩
    have hvrow := v.row_lt
    rw [hlevel] at hvrow
    obtain ⟨hupper, hlow⟩ := (h.row_iff n v.row hvrow).mp hrow
    obtain ⟨k, hk⟩ := exists_keyOf (t := v.ancestor 1) (by rw [Tile.ancestor_level]; omega)
    refine ⟨k, (h.inLevel_iff (by omega) k).mpr ⟨v.ancestor 1, hk, ?_, ?_⟩, v, hv, hlevel, hk, hlow⟩
    · rw [Tile.ancestor_level]
      omega
    · simpa [Tile.ancestor] using hupper
  · rintro ⟨k, hk, v, hv, hlevel, hup, hrow⟩
    obtain ⟨t, ht, -, htrow⟩ := (h.inLevel_iff (by omega) k).mp hk
    have hvrow := v.row_lt
    rw [hlevel] at hvrow
    refine ⟨v, hv, hlevel, (h.row_iff n v.row hvrow).mpr ⟨?_, hrow⟩⟩
    have htile := congrArg Tile.row (hup.tile_eq ht)
    simp only [Tile.ancestor, pow_one] at htile
    omega

/-- **Steps of `SubNodes` come to every tile of a level, and once.** -/
theorem Splits.nodesAfter (h : Splits scheme height split) {n : ℕ} (hn : n ≤ 31) :
    ∃ tiles, TileTreeTraverse.nodesAfter scheme 4 n = some tiles ∧ tiles.Nodup ∧
      ∀ u, u ∈ tiles ↔ InLevel scheme n u := by
  induction n with
  | zero =>
    refine ⟨_, rfl, List.nodup_singleton _, ?_⟩
    intro u
    rw [List.mem_singleton, h.inLevel_zero_iff]
  | succ n ih =>
    obtain ⟨nodes, hnodes, hnodup, hmem⟩ := ih (by omega)
    have hranges : ∀ k : TileKey, ∃ tiles : List TileKey, k ∈ nodes →
        (TileTreeTraverse.subNodes scheme k).iterate 4 = some tiles ∧ tiles.Nodup ∧
          ∀ u, u ∈ tiles ↔ ∃ v : Tile, KeyOf v u ∧ v.level = n + 1 ∧ KeyOf (v.ancestor 1) k ∧
            v.row % 2 < split n := by
      intro k
      by_cases hk : k ∈ nodes
      · obtain ⟨t, ht, rfl, -⟩ := (h.inLevel_iff (by omega) k).mp ((hmem k).mp hk)
        obtain ⟨tiles, hchildren⟩ := h.iterate_children ht (by omega)
        exact ⟨tiles, fun _ => hchildren⟩
      · exact ⟨[], fun hin => absurd hin hk⟩
    choose range hrange using hranges
    refine ⟨nodes.flatMap range, ?_, ?_, ?_⟩
    · simp only [TileTreeTraverse.nodesAfter]
      rw [hnodes, Option.bind_eq_bind, Option.bind_some,
        mapM_eq_some fun k hk => (hrange k hk).1]
      rfl
    · -- two nodes have no child in common
      rw [List.nodup_flatMap]
      refine ⟨fun k hk => (hrange k hk).2.1, ?_⟩
      apply hnodup.imp_of_mem
      intro k other hk hother hne u hu hu'
      obtain ⟨v, hv, -, hup, -⟩ := ((hrange k hk).2.2 u).mp hu
      obtain ⟨v', hv', -, hup', -⟩ := ((hrange other hother).2.2 u).mp hu'
      rw [← hv.tile_eq hv'] at hup'
      exact hne (hup.key_eq hup')
    · intro u
      rw [List.mem_flatMap, h.inLevel_succ_iff hn]
      constructor
      · rintro ⟨k, hk, hu⟩
        exact ⟨k, (hmem k).mp hk, ((hrange k hk).2.2 u).mp hu⟩
      · rintro ⟨k, hk, hv⟩
        have hin := (hmem k).mpr hk
        exact ⟨k, hin, ((hrange k hin).2.2 u).mpr hv⟩

end

/-- **Enumeration and traversal are complete, without duplicates.** -/
theorem subTiles_complete :
    (∀ (k : TileKey) (level : BitVec 32), k.isValid = true → level.toNat ≤ 15 →
      k.level.toNat + level.toNat ≤ 31 →
      ∃ tiles, (∃ fuel, (ofTile k level defaultMask).iterate fuel = some tiles) ∧ tiles.Nodup ∧
        tiles.length = 4 ^ level.toNat ∧ ∀ u, u ∈ tiles ↔ Below k level.toNat u) ∧
    (∀ scheme ∈ [quadTreeSubdivisionScheme, halfQuadTreeSubdivisionScheme], ∀ n ≤ 31,
      ∃ tiles, (∃ fuel, TileTreeTraverse.nodesAfter scheme fuel n = some tiles) ∧ tiles.Nodup ∧
        ∀ u, u ∈ tiles ↔ InLevel scheme n u) := by
  constructor
  · intro k level hk hlevel hfit
    obtain ⟨t, ht⟩ := isValid_iff_keyOf.mp hk
    rw [ht.level] at hfit
    exact iterate_defaultMask ht hlevel (by omega)
  · intro scheme hscheme n hn
    simp only [List.mem_cons, List.not_mem_nil, or_false] at hscheme
    rcases hscheme with rfl | rfl
    · obtain ⟨tiles, hnodes, hrest⟩ := splits_quadTree.nodesAfter hn
      exact ⟨tiles, ⟨4, hnodes⟩, hrest⟩
    · obtain ⟨tiles, hnodes, hrest⟩ := splits_halfQuadTree.nodesAfter hn
      exact ⟨tiles, ⟨4, hnodes⟩, hrest⟩

theorem subTiles_complete_at_two :
    (∃ tiles, (∃ fuel, (ofTile (fromRowColumnLevel 1#32 0#32 1#32) 2#32 defaultMask).iterate fuel =
        some tiles) ∧ tiles.length = 16) ∧
      ∃ tiles, (∃ fuel, TileTreeTraverse.nodesAfter halfQuadTreeSubdivisionScheme fuel 3 =
        some tiles) ∧ tiles.Nodup := by
  constructor
  · obtain ⟨tiles, hiterate, -, hlength, -⟩ := subTiles_complete.1
      (fromRowColumnLevel 1#32 0#32 1#32) 2#32 (by decide) (by decide) (by decide)
    exact ⟨tiles, hiterate, hlength⟩
  · obtain ⟨tiles, hnodes, hnodup, -⟩ :=
      subTiles_complete.2 halfQuadTreeSubdivisionScheme (by simp) 3 (by decide)
    exact ⟨tiles, hnodes, hnodup⟩

/-! ## The mask -/

/-- The range takes the tiles below those that the same mask takes two levels below. -/
def SelectsSubtrees (k : TileKey) (level : BitVec 32) (mask : BitVec 16) : Prop :=
  ∃ tiles coarse, (∃ fuel, (ofTile k level mask).iterate fuel = some tiles) ∧
    (∃ fuel, (ofTile k 2#32 mask).iterate fuel = some coarse) ∧
    ∀ u, u ∈ tiles ↔ ∃ q ∈ coarse, Below q (level.toNat - 2) u

/-- The mask takes each of its four rows as a whole or not at all. -/
def WholeRows (mask : BitVec 16) : Prop :=
  ∀ row < 4, ∀ column < 4, mask.getLsbD (4 * row + column) = mask.getLsbD (4 * row)

/-- Where a tile's ancestor two levels below the range's tile stands in the mask. -/
def coarseBit (s : Tile) : ℕ := maskBit (s.ancestor (s.level - 2))

/-- **The range takes whole subtrees** when the bit of every tile is as the bit of its
ancestor. -/
theorem selectsSubtrees_iff {t : Tile} {k : TileKey} (h : KeyOf t k) {level : BitVec 32}
    (mask : BitVec 16) (hlow : 2 ≤ level.toNat) (hlevel : level.toNat ≤ 15)
    (hfit : t.level + level.toNat < 32) :
    SelectsSubtrees k level mask ↔ ∀ s : Tile, s.level = level.toNat →
      mask.getLsbD (maskBit s) = mask.getLsbD (coarseBit s) := by
  have htwo : (2#32).toNat = 2 := rfl
  have hcount := toNat_count k level mask hlevel
  have hcountTwo := toNat_count k 2#32 mask (by rw [htwo]; omega)
  have hmem := mem_tilesBelow h level mask hlevel hfit
  have hmemTwo := mem_tilesBelow h 2#32 mask (by rw [htwo]; omega) (by rw [htwo]; omega)
  -- the tiles below the coarse ones are those whose coarse bit is set
  have hcoarse : ∀ u, (∃ q ∈ tilesBelow (ofTile k 2#32 mask) (4 ^ (2#32).toNat),
      Below q (level.toNat - 2) u) ↔
        ∃ s : Tile, s.level = level.toNat ∧ mask.getLsbD (coarseBit s) = true ∧
          KeyOf (t.below s) u := by
    intro u
    constructor
    · rintro ⟨q, hq, hbelow⟩
      obtain ⟨r, hr, hbit, hkey⟩ := (hmemTwo q).mp hq
      obtain ⟨s, hs, hu⟩ := (below_iff hkey _ u).mp hbelow
      have hr' : r.level = 2 := hr
      have hlevels : (r.below s).level = level.toNat := by
        rw [Tile.below_level, hr', hs]
        omega
      refine ⟨r.below s, hlevels, ?_, ?_⟩
      · rw [coarseBit, hlevels, ← hs, Tile.ancestor_below]
        exact hbit
      · rwa [Tile.below_below] at hu
    · rintro ⟨s, hs, hbit, hu⟩
      have hr : (s.ancestor (s.level - 2)).level = 2 := by
        rw [Tile.ancestor_level]
        omega
      obtain ⟨q, hq⟩ := exists_keyOf (t := t.below (s.ancestor (s.level - 2)))
        (by rw [Tile.below_level, hr]; omega)
      refine ⟨q, (hmemTwo q).mpr ⟨_, hr, hbit, hq⟩, ?_⟩
      rw [below_iff hq]
      refine ⟨s.relative (s.level - 2), by rw [Tile.relative_level, hs], ?_⟩
      rw [Tile.below_below, Tile.below_relative (by omega)]
      exact hu
  constructor
  · rintro ⟨tiles, coarse, ⟨fuel, htiles⟩, ⟨fuel', hcoarseTiles⟩, hsame⟩ s hs
    rw [eq_of_iterate htiles, eq_of_iterate hcoarseTiles, hcount, hcountTwo] at hsame
    obtain ⟨u, hu⟩ := exists_keyOf (t := t.below s) (by rw [Tile.below_level, hs]; omega)
    have hiff := hsame u
    rw [hmem, hcoarse] at hiff
    rw [Bool.eq_iff_iff]
    constructor
    · intro hbit
      obtain ⟨s', -, hbit', hu'⟩ := hiff.mp ⟨s, hs, hbit, hu⟩
      rwa [← Tile.below_injective (hu'.tile_eq hu)]
    · intro hbit
      obtain ⟨s', -, hbit', hu'⟩ := hiff.mpr ⟨s, hs, hbit, hu⟩
      rwa [← Tile.below_injective (hu'.tile_eq hu)]
  · intro hbits
    refine ⟨_, _, ⟨_, iterate_of_count_le _ le_rfl⟩, ⟨_, iterate_of_count_le _ le_rfl⟩, ?_⟩
    intro u
    rw [hcount, hcountTwo, hmem, hcoarse]
    constructor
    · rintro ⟨s, hs, hbit, hu⟩
      exact ⟨s, hs, by rw [← hbits s hs]; exact hbit, hu⟩
    · rintro ⟨s, hs, hbit, hu⟩
      exact ⟨s, hs, by rw [hbits s hs]; exact hbit, hu⟩

/-- A tile's bit in the mask is the highest bits of its row, while there are enough. -/
theorem maskBit_of_four_le {s : Tile} (h : 4 ≤ s.level) :
    maskBit s = s.row / 2 ^ (s.level - 4) := by
  have hsplit : 4 ^ (s.level - 2) = 2 ^ s.level * 2 ^ (s.level - 4) := by
    rw [show 4 ^ (s.level - 2) = 2 ^ (2 * (s.level - 2)) from (pow_mul 2 2 _).symm, ← pow_add]
    congr 1
    omega
  rw [maskBit, hsplit, ← Nat.div_div_eq_div_mul, indexOf, mul_two_pow_add_div s.column_lt]

theorem coarseBit_eq {s : Tile} (h : 2 ≤ s.level) :
    coarseBit s = 4 * (s.row / 2 ^ (s.level - 2)) + s.column / 2 ^ (s.level - 2) := by
  have hlevel : s.level - (s.level - 2) = 2 := by omega
  simp only [coarseBit, maskBit, indexOf, Tile.ancestor, hlevel, Nat.sub_self, pow_zero,
    Nat.div_one]
  rw [show 2 ^ 2 = 4 from rfl, Nat.mul_comm]

/-- The row of the mask is the same for a tile and its ancestor. -/
theorem maskBit_div_four {s : Tile} (h : 2 ≤ s.level) :
    maskBit s / 4 = s.row / 2 ^ (s.level - 2) := by
  have hsplit : 4 ^ (s.level - 2) * 4 = 2 ^ s.level * 2 ^ (s.level - 2) := by
    rw [← pow_succ, show 4 ^ (s.level - 2 + 1) = 2 ^ (2 * (s.level - 2 + 1)) from
      (pow_mul 2 2 _).symm, ← pow_add]
    congr 1
    omega
  rw [maskBit, Nat.div_div_eq_div_mul, hsplit, ← Nat.div_div_eq_div_mul, indexOf,
    mul_two_pow_add_div s.column_lt]

theorem bits_agree_of_wholeRows {mask : BitVec 16} (h : WholeRows mask) {s : Tile}
    (hlevel : 2 ≤ s.level) : mask.getLsbD (maskBit s) = mask.getLsbD (coarseBit s) := by
  have hrow := maskBit_div_four hlevel
  have hlt : maskBit s < 16 := div_four_pow_lt (indexOf_lt s)
  have hcoarse := coarseBit_eq hlevel
  have hcolumn : s.column / 2 ^ (s.level - 2) < 4 := by
    rw [Nat.div_lt_iff_lt_mul (Nat.two_pow_pos _)]
    calc s.column < 2 ^ s.level := s.column_lt
      _ = 2 ^ (2 + (s.level - 2)) := by rw [Nat.add_sub_cancel' hlevel]
      _ = 4 * 2 ^ (s.level - 2) := by rw [pow_add, show 2 ^ 2 = 4 from rfl]
  have hmask := h (maskBit s / 4) (by omega) (maskBit s % 4) (by omega)
  rw [Nat.div_add_mod] at hmask
  rw [hmask, hcoarse, hrow]
  exact (h _ (by omega) _ hcolumn).symm

/-- The tile of a row and a column. -/
theorem exists_tile {l row column : ℕ} (hrow : row < 2 ^ l) (hcolumn : column < 2 ^ l) :
    ∃ s : Tile, s.level = l ∧ s.row = row ∧ s.column = column :=
  ⟨⟨l, row, column, hrow, hcolumn⟩, rfl, rfl, rfl⟩

/-- **A mask whose bits agree takes whole rows.** From four levels on a tile's bit does not
depend on its column at all; with three levels the pairs of bits that have to agree link the
four bits of a row. -/
theorem wholeRows_of_bits_agree {mask : BitVec 16} {l : ℕ} (hl : 3 ≤ l)
    (h : ∀ s : Tile, s.level = l → mask.getLsbD (maskBit s) = mask.getLsbD (coarseBit s)) :
    WholeRows mask := by
  intro q hq x hx
  by_cases hthree : l = 3
  · subst hthree
    have hpair : ∀ row < 8, ∀ column < 8,
        mask.getLsbD (2 * row + column / 4) = mask.getLsbD (4 * (row / 2) + column / 2) := by
      intro row hrow column hcolumn
      obtain ⟨s, hs, rfl, rfl⟩ := exists_tile (l := 3) hrow hcolumn
      have hbits := h s hs
      rw [coarseBit_eq (by omega), maskBit, indexOf, hs,
        show (s.row * 2 ^ 3 + s.column) / 4 ^ (3 - 2) = 2 * s.row + s.column / 4 by omega] at hbits
      exact hbits
    have hzeroTwo := hpair (2 * q + 1) (by omega) 0 (by omega)
    have hzeroOne := hpair (2 * q) (by omega) 2 (by omega)
    have htwoThree := hpair (2 * q + 1) (by omega) 4 (by omega)
    rw [show 2 * (2 * q + 1) + 0 / 4 = 4 * q + 2 by omega,
      show 4 * ((2 * q + 1) / 2) + 0 / 2 = 4 * q by omega] at hzeroTwo
    rw [show 2 * (2 * q) + 2 / 4 = 4 * q by omega,
      show 4 * (2 * q / 2) + 2 / 2 = 4 * q + 1 by omega] at hzeroOne
    rw [show 2 * (2 * q + 1) + 4 / 4 = 4 * q + 3 by omega,
      show 4 * ((2 * q + 1) / 2) + 4 / 2 = 4 * q + 2 by omega] at htwoThree
    obtain rfl | rfl | rfl | rfl : x = 0 ∨ x = 1 ∨ x = 2 ∨ x = 3 := by omega
    · rfl
    · exact hzeroOne.symm
    · exact hzeroTwo
    · exact htwoThree.trans hzeroTwo
  · have hsplit : 2 ^ l = 16 * 2 ^ (l - 4) := by
      rw [show 16 = 2 ^ 4 from rfl, ← pow_add]
      congr 1
      omega
    have hquarter : 2 ^ (l - 2) = 2 ^ (l - 4) * 4 := by
      rw [show 4 = 2 ^ 2 from rfl, ← pow_add]
      congr 1
      omega
    have hrow : (4 * q + x) * 2 ^ (l - 4) < 2 ^ l := by
      rw [hsplit]
      exact Nat.mul_lt_mul_of_pos_right (by omega) (Nat.two_pow_pos _)
    obtain ⟨s, hs, hsrow, hscolumn⟩ := exists_tile hrow (Nat.two_pow_pos l)
    have hbits := h s hs
    rw [maskBit_of_four_le (by omega), coarseBit_eq (by omega), hs, hsrow, hscolumn,
      Nat.mul_div_cancel _ (Nat.two_pow_pos _), Nat.zero_div, Nat.add_zero, hquarter,
      ← Nat.div_div_eq_div_mul, Nat.mul_div_cancel _ (Nat.two_pow_pos _),
      show (4 * q + x) / 4 = q by omega] at hbits
    exact hbits

/-- **The mask takes whole subtrees**, on every level from the second one below on, exactly
when that level is the second one or the mask takes each of its rows as a whole. -/
theorem selectsSubtrees_iff_wholeRows (k : TileKey) (level : BitVec 32) (mask : BitVec 16)
    (hk : k.isValid = true) (hlow : 2 ≤ level.toNat) (hlevel : level.toNat ≤ 15)
    (hfit : k.level.toNat + level.toNat ≤ 31) :
    SelectsSubtrees k level mask ↔ level = 2#32 ∨ WholeRows mask := by
  obtain ⟨t, ht⟩ := isValid_iff_keyOf.mp hk
  rw [ht.level] at hfit
  rw [selectsSubtrees_iff ht mask hlow hlevel (by omega)]
  constructor
  · intro hbits
    by_cases htwo : level.toNat = 2
    · exact Or.inl (BitVec.eq_of_toNat_eq htwo)
    · exact Or.inr (wholeRows_of_bits_agree (by omega) hbits)
  · rintro (rfl | hrows) s hs
    · have hs' : s.level = 2 := hs
      rw [coarseBit, hs', Nat.sub_self, Tile.ancestor_zero]
    · exact bits_agree_of_wholeRows hrows (by omega)

theorem selectsSubtrees_of_whole_rows :
    SelectsSubtrees (fromRowColumnLevel 0#32 0#32 0#32) 3#32 0xF0F0#16 :=
  (selectsSubtrees_iff_wholeRows _ _ _ (by decide) (by decide) (by decide) (by decide)).mpr
    (Or.inr (by unfold WholeRows; decide))

/-- With one bit of the mask set, the third level has the first four tiles of a row. -/
theorem mask_takes_a_row :
    ¬ SelectsSubtrees (fromRowColumnLevel 0#32 0#32 0#32) 3#32 0x0001#16 := by
  have hroot : KeyOf (Tile.corner 0) (fromRowColumnLevel 0#32 0#32 0#32) :=
    ⟨by decide, rfl, rfl, rfl⟩
  rw [selectsSubtrees_iff hroot _ (by decide) (by decide) (by decide)]
  intro hbits
  have hlast := hbits ⟨3, 0, 3, by decide, by decide⟩ rfl
  exact absurd hlast (by decide)

end OlpEdgeSdk.Analysis.SubTileEnumeration

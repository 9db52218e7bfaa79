import OlpEdgeSdk.Analysis.TileKeyStrings

/-!
# Sub keys

A sub key is the key of a tile relative to one of its ancestors. `GetSubkey64` cuts it off the
64-bit quad key, and four functions put it back: one with a loop over a mask, three through
rows and columns. On the quad tree all of these are `Tile.relative` and `Tile.below`, as long
as the mask of the loop fits its word, and for a sub key of 31 levels it does not.
-/

set_option autoImplicit false

namespace OlpEdgeSdk.Analysis

open OlpEdgeSdk.Base OlpEdgeSdk.Interface OlpEdgeSdk.Model TileKey QuadKey64Helper

/-! ## The loop of `AddedSubkey` -/

theorem shiftKeyAndMask_iterate (key : BitVec 64) (n : ℕ) :
    shiftKeyAndMask^[n] (key, 1#64) = (key <<< (2 * n), 1#64 <<< (2 * n)) := by
  induction n with
  | zero => simp
  | succ n ih =>
    rw [Function.iterate_succ_apply', ih]
    simp only [shiftKeyAndMask, BitVec.shiftLeft_add, Nat.mul_succ]

theorem toNat_one_shiftLeft_64 {n : ℕ} (h : n < 64) : (1#64 <<< n).toNat = 2 ^ n := by
  have hlt : 2 ^ n < 2 ^ 64 := Nat.pow_lt_pow_right (by omega) h
  rw [BitVec.toNat_shiftLeft, BitVec.toNat_one (by omega), Nat.one_shiftLeft,
    Nat.mod_eq_of_lt hlt]

/-- The guard after `n` turns, while the mask fits. -/
theorem subKeyReaches_iterate {key subKey : BitVec 64} {n : ℕ} (h : n < 31) :
    subKeyReaches subKey (shiftKeyAndMask^[n] (key, 1#64)) = true ↔ 4 ^ (n + 1) ≤ subKey.toNat := by
  have hmask : ((1#64 <<< (2 * n)) <<< 2).toNat = 4 ^ (n + 1) := by
    rw [← BitVec.shiftLeft_add, toNat_one_shiftLeft_64 (by omega), ← Nat.mul_succ, pow_mul]
    rfl
  rw [shiftKeyAndMask_iterate, subKeyReaches, decide_eq_true_eq, BitVec.le_def, hmask]

/-- **The loop shifts the key by the levels of the sub key.** -/
theorem addedSubkey_endsIn (key subKey : BitVec 64) {n : ℕ} (h : n < 31)
    (hlow : 4 ^ n ≤ subKey.toNat) (hhigh : subKey.toNat < 4 ^ (n + 1)) :
    EndsIn (subKeyReaches subKey) shiftKeyAndMask (key, 1#64)
      (key <<< (2 * n), 1#64 <<< (2 * n)) := by
  rw [← shiftKeyAndMask_iterate]
  apply endsIn_iterate
  · intro i hi
    rw [subKeyReaches_iterate (by omega)]
    exact le_trans (Nat.pow_le_pow_right (by omega) (by omega)) hlow
  · rw [← Bool.not_eq_true, subKeyReaches_iterate h]
    omega

/-- **A sub key of 31 levels keeps the loop going for ever**: once the mask has been shifted
out of its word, every sub key reaches it. -/
theorem addedSubkey_not_endsIn (key : BitVec 64) {subKey : BitVec 64} (h : 4 ^ 31 ≤ subKey.toNat)
    (s : BitVec 64 × BitVec 64) :
    ¬ EndsIn (subKeyReaches subKey) shiftKeyAndMask (key, 1#64) s := by
  apply not_endsIn fun s => ∃ n, s = shiftKeyAndMask^[n] (key, 1#64)
  · rintro _ ⟨n, rfl⟩
    by_cases hn : n < 31
    · rw [subKeyReaches_iterate hn]
      exact le_trans (Nat.pow_le_pow_right (by omega) (by omega)) h
    · rw [shiftKeyAndMask_iterate, subKeyReaches, decide_eq_true_eq, ← BitVec.shiftLeft_add,
        BitVec.shiftLeft_eq_zero (by omega)]
      exact Nat.zero_le _
  · rintro _ ⟨n, rfl⟩
    exact ⟨n + 1, (Function.iterate_succ_apply' shiftKeyAndMask n _).symm⟩
  · exact ⟨0, rfl⟩

/-! ## Adding a sub key -/

/-- The mask of a sub key keeps its digits. -/
theorem toNat_and_mask (word : BitVec 64) {n : ℕ} (h : n < 32) :
    (word &&& (1#64 <<< (2 * n) - 1#64)).toNat = word.toNat % 4 ^ n := by
  have hone : 1#64 ≤ 1#64 <<< (2 * n) := by
    rw [BitVec.le_def, toNat_one_shiftLeft_64 (by omega)]
    exact Nat.one_le_two_pow
  have hmask : (1#64 <<< (2 * n) - 1#64).toNat = 2 ^ (2 * n) - 1 := by
    rw [BitVec.toNat_sub_of_le hone, toNat_one_shiftLeft_64 (by omega)]
    rfl
  rw [BitVec.toNat_and, hmask, Nat.and_two_pow_sub_one_eq_mod,
    show 2 ^ (2 * n) = 4 ^ n from pow_mul 2 2 n]

/-- Digits or'ed into the places that a shift has freed. -/
theorem toNat_shiftLeft_or {word digits : BitVec 64} {n : ℕ} (hword : word.toNat * 4 ^ n < 2 ^ 64)
    (hdigits : digits.toNat < 4 ^ n) :
    (word <<< (2 * n) ||| digits).toNat = word.toNat * 4 ^ n + digits.toNat := by
  have hfour : 2 ^ (2 * n) = 4 ^ n := pow_mul 2 2 n
  rw [← hfour] at hword hdigits
  rw [BitVec.toNat_or, BitVec.toNat_shiftLeft, Nat.shiftLeft_eq, Nat.mod_eq_of_lt hword,
    ← Nat.shiftLeft_eq, ← Nat.shiftLeft_add_eq_or_of_lt hdigits, Nat.shiftLeft_eq, hfour]

/-- **`AddedSubkey64` is the tile below**, for a sub key of up to 30 levels. -/
theorem addedSubkey64_of_keyOf {t s : Tile} {k : TileKey} {subKey : BitVec 64} (h : KeyOf t k)
    (hsub : subKey.toNat = morton s.level s.row s.column) (hlevel : s.level < 31)
    (hfit : t.level + s.level < 32) :
    ∃ fuel c, k.addedSubkey64 fuel subKey = some c ∧ KeyOf (t.below s) c := by
  have hkey := toNat_toQuadKey64 h
  obtain ⟨hlow, hhigh⟩ := morton_bounds_four s.level s.row s.column
  obtain ⟨fuel, hfuel⟩ := addedSubkey_endsIn k.toQuadKey64 subKey hlevel (by omega)
    (by rw [pow_succ]; omega)
  have hbelow := morton_below t.level s.level t.row t.column s.row_lt s.column_lt
  have hroom : k.toQuadKey64.toNat * 4 ^ s.level < 2 ^ 64 := by
    obtain ⟨-, hlt⟩ := morton_bounds (t.level + s.level) (t.below s).row (t.below s).column
    have hle : 2 ^ (2 * (t.level + s.level) + 1) ≤ 2 ^ 64 :=
      Nat.pow_le_pow_right (by omega) (by omega)
    simp only [Tile.below, hbelow] at hlt
    rw [hkey]
    omega
  have hdigits := toNat_and_mask subKey (n := s.level) (by omega)
  refine ⟨fuel, fromQuadKey64 (k.toQuadKey64 <<< (2 * s.level) |||
    subKey &&& (1#64 <<< (2 * s.level) - 1#64)), ?_, ?_⟩
  · simp only [TileKey.addedSubkey64, QuadKey64Helper.addedSubkey, hfuel, Option.map_some]
  · apply keyOf_fromQuadKey64 (by rw [Tile.below_level]; exact hfit)
    rw [toNat_shiftLeft_or hroom (by rw [hdigits]; exact Nat.mod_lt _ (by positivity)), hdigits,
      hkey, hsub]
    exact hbelow.symm

/-- A sub key of 31 levels has no tile below: the call does not return. -/
theorem addedSubkey64_eq_none (k : TileKey) {subKey : BitVec 64} (h : 4 ^ 31 ≤ subKey.toNat)
    (fuel : ℕ) : k.addedSubkey64 fuel subKey = none := by
  rw [TileKey.addedSubkey64, QuadKey64Helper.addedSubkey, Option.map_map,
    Option.map_eq_none_iff, Option.eq_none_iff_forall_ne_some]
  intro s hs
  exact addedSubkey_not_endsIn k.toQuadKey64 h s ⟨fuel, hs⟩

/-! ## Cutting a sub key off -/

/-- **`GetSubkey64` is the quad key of the place below the ancestor.** -/
theorem toNat_getSubkey64 {t : Tile} {k : TileKey} (h : KeyOf t k) {delta : BitVec 32}
    (hdelta : delta.toNat ≤ t.level) :
    (k.getSubkey64 delta).toNat = morton delta.toNat (t.relative delta.toNat).row
      (t.relative delta.toNat).column := by
  have hlt := h.level_lt
  have htwice : (delta * 2#32).toNat = 2 * delta.toNat := by
    rw [BitVec.toNat_mul]
    simp only [BitVec.toNat_ofNat]
    omega
  have hdigits := toNat_and_mask k.toQuadKey64 (n := delta.toNat) (by omega)
  have hbound : k.toQuadKey64.toNat % 4 ^ delta.toNat < 4 ^ delta.toNat :=
    Nat.mod_lt _ (by positivity)
  have hroom : (1#64).toNat * 4 ^ delta.toNat < 2 ^ 64 := by
    have hpow : 4 ^ delta.toNat ≤ 4 ^ 31 := Nat.pow_le_pow_right (by omega) (by omega)
    simp only [BitVec.toNat_ofNat]
    omega
  simp only [TileKey.getSubkey64, QuadKey64Helper.getSubkey, BitVec.shiftLeft_eq', htwice]
  rw [BitVec.or_comm, toNat_shiftLeft_or hroom (by rw [hdigits]; exact hbound), hdigits,
    toNat_toQuadKey64 h]
  simp only [Tile.relative]
  rw [← morton_mod hdelta]
  simp only [BitVec.toNat_ofNat]
  omega

/-- **`AddedSubkey64` puts back what `GetSubkey64` cut off**, exactly as long as that is no more
than 30 levels; beyond, it does not return. -/
theorem addedSubkey64_getSubkey64_iff (k : TileKey) (hk : k.isValid = true) (delta : BitVec 32)
    (hdelta : delta ≤ k.level) :
    (∃ fuel, (k.changedLevelBy (-delta)).addedSubkey64 fuel (k.getSubkey64 delta) = some k) ↔
      delta < 31#32 := by
  obtain ⟨t, ht⟩ := isValid_iff_keyOf.mp hk
  have hlt := ht.level_lt
  rw [BitVec.le_def, ht.level] at hdelta
  have hup : KeyOf (t.ancestor delta.toNat) (k.changedLevelBy (-delta)) := by
    have hneg := ht.changedLevelBy_up (-delta) (by rw [BitVec.neg_neg]; exact hdelta)
    rwa [BitVec.neg_neg] at hneg
  have hsub := toNat_getSubkey64 ht hdelta
  rw [BitVec.lt_def]
  constructor
  · rintro ⟨fuel, hfuel⟩
    by_contra hge
    have hlow := (morton_bounds_four delta.toNat (t.relative delta.toNat).row
      (t.relative delta.toNat).column).1
    have hpow : 4 ^ 31 ≤ 4 ^ delta.toNat := Nat.pow_le_pow_right (by omega) (not_lt.mp hge)
    rw [addedSubkey64_eq_none _ (by omega)] at hfuel
    cases hfuel
  · intro hless
    have hless' : delta.toNat < 31 := hless
    obtain ⟨fuel, c, hc, hkey⟩ := addedSubkey64_of_keyOf (s := t.relative delta.toNat) hup hsub
      (by rw [Tile.relative_level]; exact hless')
      (by rw [Tile.relative_level, Tile.ancestor_level]; omega)
    rw [Tile.below_relative hdelta] at hkey
    exact ⟨fuel, by rw [hc, hkey.key_eq ht]⟩

theorem addedSubkey64_getSubkey64_at_thirty :
    ∃ fuel, ((fromRowColumnLevel 5#32 9#32 31#32).changedLevelBy (-30#32)).addedSubkey64 fuel
      ((fromRowColumnLevel 5#32 9#32 31#32).getSubkey64 30#32) =
        some (fromRowColumnLevel 5#32 9#32 31#32) :=
  (addedSubkey64_getSubkey64_iff _ (by decide) _ (by decide)).mpr (by decide)

/-- The first tile of the deepest level, cut off at the root, does not come back. -/
theorem deepest_sub_key_does_not_return :
    ¬ ∃ fuel, ((fromRowColumnLevel 0#32 0#32 31#32).changedLevelBy (-31#32)).addedSubkey64 fuel
      ((fromRowColumnLevel 0#32 0#32 31#32).getSubkey64 31#32) =
        some (fromRowColumnLevel 0#32 0#32 31#32) := by
  rintro ⟨fuel, hfuel⟩
  rw [addedSubkey64_eq_none _ (by decide +kernel)] at hfuel
  cases hfuel

/-! ## The four ways to add a sub key -/

theorem toQuadKey_ne_nil {t : Tile} {k : TileKey} (h : KeyOf t k) : k.toQuadKey ≠ [] := by
  rw [toQuadKey_of_keyOf h, pathString]
  split
  · simp
  · next hpath => simpa using hpath

theorem fromQuadKey_toQuadKey {t : Tile} {k : TileKey} (h : KeyOf t k) :
    fromQuadKey k.toQuadKey = k := by
  rw [toQuadKey_of_keyOf h]
  exact (keyOf_fromQuadKey h.level_lt).key_eq h

theorem addedSubkey_of_keyOf {t s : Tile} {k sub : TileKey} (h : KeyOf t k) (hsub : KeyOf s sub)
    (hfit : t.level + s.level < 32) : KeyOf (t.below s) (k.addedSubkey sub.toQuadKey) := by
  simp only [TileKey.addedSubkey]
  rw [if_neg (toQuadKey_ne_nil hsub), fromQuadKey_toQuadKey hsub]
  exact h.added hsub hfit

theorem addedSubHereTile_of_keyOf {t s : Tile} {k sub : TileKey} (h : KeyOf t k)
    (hsub : KeyOf s sub) (hfit : t.level + s.level < 32) :
    KeyOf (t.below s) (k.addedSubHereTile sub.toHereTile) := by
  simp only [TileKey.addedSubHereTile]
  rw [fromHereTile_toHereTile hsub]
  exact h.added hsub hfit

/-- **Adding a sub key has one meaning.** For a sub tile of up to 30 levels that fits below its
parent, the 64-bit sub key, the string, the HERE tile and the row and column all lead to the
same valid tile: the descendant of the parent in the sub tile's place, from which the sub tile
is read off again. -/
theorem subKeys_have_one_meaning (p s : TileKey) (hp : p.isValid = true) (hs : s.isValid = true)
    (hlevel : s.level ≤ 30#32) (hfit : p.level.toNat + s.level.toNat ≤ 31) :
    ∃ c : TileKey, c.isValid = true ∧
      (∃ fuel, p.addedSubkey64 fuel s.toQuadKey64 = some c) ∧
      p.addedSubkey s.toQuadKey = c ∧
      p.addedSubHereTile s.toHereTile = c ∧
      TileKeyUtils.getAbsoluteSubTileKey p s = c ∧
      (c.level.toNat = p.level.toNat + s.level.toNat ∧
        c.row.toNat = p.row.toNat * 2 ^ s.level.toNat + s.row.toNat ∧
        c.column.toNat = p.column.toNat * 2 ^ s.level.toNat + s.column.toNat) ∧
      c.changedLevelTo p.level = p ∧
      (c = p ∨ c.isChildOf p = true) ∧
      TileKeyUtils.getRelativeSubTileKey c p.level = s := by
  obtain ⟨t, ht⟩ := isValid_iff_keyOf.mp hp
  obtain ⟨u, hu⟩ := isValid_iff_keyOf.mp hs
  rw [BitVec.le_def, hu.level] at hlevel
  have hlevel' : u.level ≤ 30 := hlevel
  rw [ht.level, hu.level] at hfit
  obtain ⟨fuel, c, hc, hkey⟩ := addedSubkey64_of_keyOf ht (toNat_toQuadKey64 hu) (by omega)
    (by omega)
  have hparent : p.level.toNat ≤ (t.below u).level := by
    rw [ht.level, Tile.below_level]
    omega
  have hup : (t.below u).level - p.level.toNat = u.level := by
    rw [ht.level, Tile.below_level]
    omega
  have hancestor := hkey.changedLevelTo_up hparent
  have hplace := hkey.relative hparent
  rw [hup, Tile.ancestor_below] at hancestor
  rw [hup, Tile.relative_below] at hplace
  refine ⟨c, hkey.isValid, ⟨fuel, hc⟩, ?_, ?_, ?_, ?_, hancestor.key_eq ht, ?_, hplace.key_eq hu⟩
  · exact (addedSubkey_of_keyOf ht hu (by omega)).key_eq hkey
  · exact (addedSubHereTile_of_keyOf ht hu (by omega)).key_eq hkey
  · exact (ht.added hu (by omega)).key_eq hkey
  · rw [hkey.level, hkey.row, hkey.column, ht.level, ht.row, ht.column, hu.level, hu.row,
      hu.column]
    exact ⟨rfl, rfl, rfl⟩
  · rcases (Tile.le_below t u).eq_or_lt with heq | hbelow
    · rw [← heq] at hkey
      exact Or.inl (hkey.key_eq ht)
    · exact Or.inr ((hkey.isChildOf_iff ht).mpr hbelow)

theorem subKeys_have_one_meaning_at_three :
    ∃ c : TileKey, c.isValid = true ∧
      (∃ fuel, (fromRowColumnLevel 1#32 1#32 1#32).addedSubkey64 fuel
        (fromRowColumnLevel 8#32 8#32 5#32).toQuadKey64 = some c) ∧
      c.level.toNat = 6 := by
  obtain ⟨c, hvalid, hadded, -, -, -, ⟨hlevel, -, -⟩, -⟩ := subKeys_have_one_meaning
    (fromRowColumnLevel 1#32 1#32 1#32) (fromRowColumnLevel 8#32 8#32 5#32) (by decide)
    (by decide) (by decide) (by decide)
  exact ⟨c, hvalid, hadded, hlevel⟩

end OlpEdgeSdk.Analysis

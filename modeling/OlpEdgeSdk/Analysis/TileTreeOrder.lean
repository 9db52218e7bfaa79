import OlpEdgeSdk.Analysis.TileKeyStrings

/-!
# Ancestry of tile keys

`IsChildOf`, the iterated `Parent` and the prefixes of the quad key string are one order on
the valid keys, that of the quad tree, and `ChangedLevelTo` finds the ancestors. The parents
are counted from the key up to the root: the root's parent is the invalid key, and going on
from there `Parent` comes back to valid keys that are no ancestors.
-/

set_option autoImplicit false

namespace OlpEdgeSdk.Analysis

open OlpEdgeSdk.Base OlpEdgeSdk.Interface OlpEdgeSdk.Model TileKey

/-- The quad key string, where the root's is empty. -/
def pathOfKey (k : TileKey) : List Char := if k.level = 0#32 then [] else k.toQuadKey

/-! ## Parents -/

/-- **Parents of parents are the ancestors**, up to the root. -/
theorem keyOf_parent_iterate {t : Tile} {k : TileKey} (h : KeyOf t k) {n : ℕ}
    (hn : n ≤ t.level) : KeyOf (t.ancestor n) (TileKey.parent^[n] k) := by
  induction n with
  | zero => simpa using h
  | succ n ih =>
    have hup := (ih (by omega)).parent (by rw [Tile.ancestor_level]; omega)
    rw [Tile.ancestor_ancestor] at hup
    rw [Function.iterate_succ_apply']
    exact hup

theorem isChildOf_iff_parent_iterate {t u : Tile} {k other : TileKey} (h : KeyOf t k)
    (hother : KeyOf u other) :
    k.isChildOf other = true ↔ ∃ n, 1 ≤ n ∧ n ≤ t.level ∧ TileKey.parent^[n] k = other := by
  rw [h.isChildOf_iff hother]
  constructor
  · intro hlt
    obtain ⟨hle, hup⟩ := Tile.le_iff_ancestor.mp hlt.le
    have hne : u.level ≠ t.level := by
      intro heq
      exact hlt.ne (Tile.eq_of_le_of_level_le hlt.le heq.ge)
    refine ⟨t.level - u.level, by omega, by omega, ?_⟩
    have hkey := keyOf_parent_iterate h (n := t.level - u.level) (by omega)
    rw [hup] at hkey
    exact hkey.key_eq hother
  · rintro ⟨n, hpos, hn, rfl⟩
    have htile := (keyOf_parent_iterate h hn).tile_eq hother
    apply lt_of_le_of_ne (htile ▸ Tile.ancestor_le t n)
    rintro rfl
    have hlevel := congrArg Tile.level htile
    rw [Tile.ancestor_level] at hlevel
    omega

/-! ## Prefixes -/

/-- A digit is read off its character. -/
theorem map_digitChar_injective {path path' : List ℕ} (h : ∀ d ∈ path, d < 4)
    (h' : ∀ d ∈ path', d < 4) :
    path.map digitChar <+: path'.map digitChar ↔ path <+: path' := by
  have hback : ∀ p : List ℕ, (∀ d ∈ p, d < 4) →
      (p.map digitChar).map (fun c => c.toNat - '0'.toNat) = p := by
    intro p hp
    rw [List.map_map]
    conv_rhs => rw [← List.map_id p]
    apply List.map_congr_left
    intro d hd
    simp only [Function.comp, id, toNat_digitChar (hp d hd), Nat.add_sub_cancel]
  constructor
  · intro hprefix
    have hmap := hprefix.map fun c => c.toNat - '0'.toNat
    rwa [hback path h, hback path' h'] at hmap
  · exact fun hprefix => hprefix.map digitChar

theorem pathOfKey_of_keyOf {t : Tile} {k : TileKey} (h : KeyOf t k) :
    pathOfKey k = t.path.map digitChar := by
  have hlength := Tile.length_path t
  unfold pathOfKey
  split
  · next hzero =>
    have hroot : t.level = 0 := by rw [← h.level, hzero]; rfl
    rw [hroot] at hlength
    rw [List.eq_nil_of_length_eq_zero hlength]
    rfl
  · next hne =>
    have hpath : t.path ≠ [] := by
      intro heq
      rw [heq, List.length_nil, ← h.level] at hlength
      exact hne (BitVec.eq_of_toNat_eq hlength.symm)
    rw [toQuadKey_of_keyOf h, pathString, if_neg hpath]

/-- **Proper ancestry is having a proper prefix of the string.** -/
theorem isChildOf_iff_prefix {t u : Tile} {k other : TileKey} (h : KeyOf t k)
    (hother : KeyOf u other) :
    k.isChildOf other = true ↔
      k ≠ other ∧ pathOfKey other <+: k.toQuadKey ∧ pathOfKey other ≠ k.toQuadKey := by
  rw [h.isChildOf_iff hother, pathOfKey_of_keyOf hother, toQuadKey_of_keyOf h, pathString]
  have hdigits : u.path.map digitChar <+: t.path.map digitChar ↔ u ≤ t := by
    rw [map_digitChar_injective (fun _ => Tile.lt_of_mem_path) (fun _ => Tile.lt_of_mem_path),
      ← Tile.le_iff_path_prefix]
  have hkeys : k = other ↔ u = t := by
    constructor
    · rintro rfl
      exact hother.tile_eq h
    · rintro rfl
      exact h.key_eq hother
  by_cases hpath : t.path = []
  · -- below the root there is nothing, and the root's string begins no other
    have hroot : t.level = 0 := by rw [← Tile.length_path, hpath]; rfl
    rw [if_pos hpath, hpath] at *
    constructor
    · intro hlt
      have hle := Tile.level_le_of_le hlt.le
      exact absurd (Tile.eq_of_le_of_level_le hlt.le (by omega)) hlt.ne
    · rintro ⟨hne, hprefix, -⟩
      cases hu : u.path with
      | nil =>
        rw [hu] at hdigits
        exact absurd (hdigits.mp List.nil_prefix)
          fun hle => hne (hkeys.mpr (Tile.eq_of_le_of_level_le hle (by omega)))
      | cons d path =>
        rw [hu, List.map_cons, List.cons_prefix_cons] at hprefix
        exact absurd hprefix.1 (digitChar_ne_minus (Tile.lt_of_mem_path (by rw [hu]; simp)))
  · rw [if_neg hpath, hdigits, lt_iff_le_and_ne, ne_eq, ne_eq, ne_eq, hkeys]
    constructor
    · rintro ⟨hle, hne⟩
      refine ⟨hne, hle, ?_⟩
      intro heq
      have hback : t ≤ u := by
        rw [Tile.le_iff_path_prefix, ← map_digitChar_injective (fun _ => Tile.lt_of_mem_path)
          (fun _ => Tile.lt_of_mem_path), heq]
      exact hne (le_antisymm hle hback)
    · rintro ⟨hne, hle, -⟩
      exact ⟨hle, hne⟩

/-! ## The order -/

/-- **`ChangedLevelTo` finds the one ancestor**, or the key itself, at a level. -/
theorem changedLevelTo_unique {t : Tile} {k : TileKey} (h : KeyOf t k) {level : BitVec 32}
    (hlevel : level ≤ k.level) (u : TileKey) :
    (u.isValid = true ∧ u.level = level ∧ (u = k ∨ k.isChildOf u = true)) ↔
      u = k.changedLevelTo level := by
  rw [BitVec.le_def, h.level] at hlevel
  have hup := h.changedLevelTo_up hlevel
  have hlow : (t.ancestor (t.level - level.toNat)).level = level.toNat := by
    rw [Tile.ancestor_level]
    omega
  constructor
  · rintro ⟨hvalid, rfl, hchild⟩
    obtain ⟨v, hv⟩ := isValid_iff_keyOf.mp hvalid
    have hle : v ≤ t := by
      rcases hchild with rfl | hchild
      · exact (hv.tile_eq h).le
      · exact ((h.isChildOf_iff hv).mp hchild).le
    obtain ⟨-, hanc⟩ := Tile.le_iff_ancestor.mp hle
    rw [hv.level, hanc] at hup
    exact hv.key_eq hup
  · rintro rfl
    refine ⟨hup.isValid, BitVec.eq_of_toNat_eq (hup.level.trans hlow), ?_⟩
    rcases (Tile.ancestor_le t (t.level - level.toNat)).eq_or_lt with heq | hlt
    · rw [heq] at hup
      exact Or.inl (hup.key_eq h)
    · exact Or.inr ((h.isChildOf_iff hup).mpr hlt)

/-- **`IsChildOf` is the order of the quad tree.** On valid keys it is being reached by taking
parents, no further than the root; the converse of `IsParentOf`; and having a longer quad key
string with the same beginning. It is a strict partial order, and `ChangedLevelTo` an upper
level is the one key there that is an ancestor or the key itself. -/
theorem isChildOf_is_tree_order :
    (∀ a b : TileKey, a.isValid = true → b.isValid = true →
      (a.isChildOf b = true ↔ ∃ n, 1 ≤ n ∧ n ≤ a.level.toNat ∧ TileKey.parent^[n] a = b) ∧
      (a.isChildOf b = true ↔ b.isParentOf a = true) ∧
      (a.isChildOf b = true ↔
        a ≠ b ∧ pathOfKey b <+: a.toQuadKey ∧ pathOfKey b ≠ a.toQuadKey)) ∧
    (∀ a : TileKey, a.isValid = true → a.isChildOf a = false) ∧
    (∀ a b c : TileKey, a.isValid = true → b.isValid = true → c.isValid = true →
      a.isChildOf b = true → b.isChildOf c = true → a.isChildOf c = true) ∧
    (∀ (a : TileKey) (level : BitVec 32), a.isValid = true → level ≤ a.level →
      ∀ u : TileKey, (u.isValid = true ∧ u.level = level ∧ (u = a ∨ a.isChildOf u = true)) ↔
        u = a.changedLevelTo level) := by
  refine ⟨?_, ?_, ?_, ?_⟩
  · intro a b ha hb
    obtain ⟨t, ht⟩ := isValid_iff_keyOf.mp ha
    obtain ⟨u, hu⟩ := isValid_iff_keyOf.mp hb
    refine ⟨?_, Iff.rfl, isChildOf_iff_prefix ht hu⟩
    rw [ht.level]
    exact isChildOf_iff_parent_iterate ht hu
  · intro a ha
    obtain ⟨t, ht⟩ := isValid_iff_keyOf.mp ha
    rw [← Bool.not_eq_true, ht.isChildOf_iff ht]
    exact lt_irrefl t
  · intro a b c ha hb hc hab hbc
    obtain ⟨t, ht⟩ := isValid_iff_keyOf.mp ha
    obtain ⟨u, hu⟩ := isValid_iff_keyOf.mp hb
    obtain ⟨v, hv⟩ := isValid_iff_keyOf.mp hc
    rw [ht.isChildOf_iff hu] at hab
    rw [hu.isChildOf_iff hv] at hbc
    rw [ht.isChildOf_iff hv]
    exact hbc.trans hab
  · intro a level ha hlevel u
    obtain ⟨t, ht⟩ := isValid_iff_keyOf.mp ha
    exact changedLevelTo_unique ht hlevel u

theorem isChildOf_is_tree_order_at_three :
    (fromRowColumnLevel 5#32 3#32 3#32).isChildOf (fromRowColumnLevel 1#32 0#32 1#32) = true :=
  (isChildOf_is_tree_order.1 _ _ (by decide) (by decide)).1.mpr ⟨2, by decide, by decide, rfl⟩

/-- Taking parents past the root comes to a valid key again, which is no ancestor. -/
theorem parents_past_the_root :
    (fromRowColumnLevel 0#32 0#32 0#32).isValid = true ∧
      (fromRowColumnLevel 0#32 0#32 31#32).isValid = true ∧
      TileKey.parent^[2] (fromRowColumnLevel 0#32 0#32 0#32) =
        fromRowColumnLevel 0#32 0#32 31#32 ∧
      (fromRowColumnLevel 0#32 0#32 0#32).isChildOf (fromRowColumnLevel 0#32 0#32 31#32) =
        false := by
  refine ⟨rfl, rfl, rfl, rfl⟩

end OlpEdgeSdk.Analysis

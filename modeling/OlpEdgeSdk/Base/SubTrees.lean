import OlpEdgeSdk.Base.QuadTree

/-!
# Tiles below a tile

The tiles below a tile form a quad tree again. A tile of it, numbered as if the tile above
were the root, is put below that tile by `below`, and `relative` takes it out again. On Morton
numbers the two cut the digits of the lower levels off and put them back.
-/

set_option autoImplicit false

namespace OlpEdgeSdk.Base

/-- A coordinate below another one. -/
theorem mul_two_pow_add_lt {a b l m : ℕ} (ha : a < 2 ^ l) (hb : b < 2 ^ m) :
    a * 2 ^ m + b < 2 ^ (l + m) := by
  calc a * 2 ^ m + b < a * 2 ^ m + 2 ^ m := Nat.add_lt_add_left hb _
    _ = (a + 1) * 2 ^ m := by ring
    _ ≤ 2 ^ l * 2 ^ m := Nat.mul_le_mul_right _ ha
    _ = 2 ^ (l + m) := (pow_add 2 l m).symm

/-- What is put below a coordinate does not reach it. -/
theorem mul_two_pow_add_div {a b m : ℕ} (hb : b < 2 ^ m) : (a * 2 ^ m + b) / 2 ^ m = a := by
  rw [Nat.mul_comm, Nat.mul_add_div (Nat.two_pow_pos m), Nat.div_eq_of_lt hb, Nat.add_zero]

theorem mul_two_pow_add_mod {a b m : ℕ} (hb : b < 2 ^ m) : (a * 2 ^ m + b) % 2 ^ m = b := by
  rw [Nat.mul_comm, Nat.mul_add_mod, Nat.mod_eq_of_lt hb]

namespace Tile

/-- The tile that lies below `t` where `s` lies below the root. -/
def below (t s : Tile) : Tile where
  level := t.level + s.level
  row := t.row * 2 ^ s.level + s.row
  column := t.column * 2 ^ s.level + s.column
  row_lt := mul_two_pow_add_lt t.row_lt s.row_lt
  column_lt := mul_two_pow_add_lt t.column_lt s.column_lt

/-- Where a tile lies below its ancestor `n` levels up. -/
def relative (t : Tile) (n : ℕ) : Tile where
  level := n
  row := t.row % 2 ^ n
  column := t.column % 2 ^ n
  row_lt := Nat.mod_lt _ (Nat.two_pow_pos n)
  column_lt := Nat.mod_lt _ (Nat.two_pow_pos n)

/-- The first tile of a level. -/
def corner (n : ℕ) : Tile where
  level := n
  row := 0
  column := 0
  row_lt := Nat.two_pow_pos n
  column_lt := Nat.two_pow_pos n

@[simp] theorem below_level (t s : Tile) : (t.below s).level = t.level + s.level := rfl

@[simp] theorem corner_level (n : ℕ) : (corner n).level = n := rfl

@[simp] theorem below_corner_zero (t : Tile) : t.below (corner 0) = t := by
  ext <;> simp [below, corner]

@[simp] theorem relative_level (t : Tile) (n : ℕ) : (t.relative n).level = n := rfl

@[simp] theorem ancestor_below (t s : Tile) : (t.below s).ancestor s.level = t := by
  ext
  · simp
  · exact mul_two_pow_add_div s.row_lt
  · exact mul_two_pow_add_div s.column_lt

@[simp] theorem relative_below (t s : Tile) : (t.below s).relative s.level = s := by
  ext
  · rfl
  · exact mul_two_pow_add_mod s.row_lt
  · exact mul_two_pow_add_mod s.column_lt

/-- Different tiles lie below a tile in different places. -/
theorem below_injective {t s s' : Tile} (h : t.below s = t.below s') : s = s' := by
  have hlevel : s.level = s'.level := Nat.add_left_cancel (congrArg Tile.level h)
  rw [← relative_below t s, h, hlevel, relative_below]

/-- Below a tile below a tile. -/
theorem below_below (t s u : Tile) : (t.below s).below u = t.below (s.below u) := by
  ext
  · simp only [below_level, Nat.add_assoc]
  · simp only [below, pow_add]
    ring
  · simp only [below, pow_add]
    ring

theorem le_below (t s : Tile) : t ≤ t.below s := ⟨s.level, ancestor_below t s⟩

/-- **A tile is put together** from its ancestor and its place below it. -/
theorem below_relative {t : Tile} {n : ℕ} (h : n ≤ t.level) :
    (t.ancestor n).below (t.relative n) = t := by
  ext
  · simp only [below_level, ancestor_level, relative_level]
    omega
  · simp only [below, ancestor, relative]
    rw [Nat.mul_comm, Nat.div_add_mod]
  · simp only [below, ancestor, relative]
    rw [Nat.mul_comm, Nat.div_add_mod]

/-- The tiles below a tile, by level. -/
theorem le_iff_exists_below {t u : Tile} : t ≤ u ↔ ∃ s, t.below s = u := by
  constructor
  · intro h
    obtain ⟨hlevel, hup⟩ := le_iff_ancestor.mp h
    refine ⟨u.relative (u.level - t.level), ?_⟩
    rw [← hup]
    convert below_relative (t := u) (n := u.level - t.level) (by omega) using 2
    rw [hup]
  · rintro ⟨s, rfl⟩
    exact le_below t s

end Tile

namespace Tile

/-! ## Paths -/

/-- The path to a tile's parent is its path without the last step. -/
theorem exists_path_ancestor_one {t : Tile} (h : 0 < t.level) :
    ∃ d < 4, (t.ancestor 1).path ++ [d] = t.path := by
  obtain ⟨d, hd, hchild⟩ := exists_child_eq h
  exact ⟨d, hd, by rw [← path_child _ hd, hchild]⟩

/-- A path leads to one tile. -/
theorem path_injective {t u : Tile} (h : t.path = u.path) : t = u := by
  have hlength := congrArg List.length h
  rw [length_path, length_path] at hlength
  generalize hl : t.level = l at hlength
  induction l generalizing t u with
  | zero =>
    have ht := t.row_lt
    have htc := t.column_lt
    have hu := u.row_lt
    have huc := u.column_lt
    rw [hl, pow_zero, Nat.lt_one_iff] at ht htc
    rw [← hlength, pow_zero, Nat.lt_one_iff] at hu huc
    ext
    · rw [hl, hlength]
    · rw [ht, hu]
    · rw [htc, huc]
  | succ l ih =>
    obtain ⟨d, hd, htchild⟩ := exists_child_eq (t := t) (by omega)
    obtain ⟨e, he, huchild⟩ := exists_child_eq (t := u) (by omega)
    rw [← htchild, ← huchild, path_child _ hd, path_child _ he] at h
    obtain ⟨hpath, hlast⟩ := List.append_inj' h rfl
    have hup := ih hpath (by rw [ancestor_level]; omega) (by rw [ancestor_level]; omega)
    rw [← htchild, ← huchild, hup, List.singleton_inj.mp hlast]

/-- The path to an ancestor is the beginning of the path. -/
theorem path_ancestor_prefix (t : Tile) (n : ℕ) : (t.ancestor n).path <+: t.path := by
  induction n with
  | zero =>
    have hzero : (t.ancestor 0).path = t.path := by rw [ancestor_zero]
    exact ⟨[], by rw [List.append_nil, hzero]⟩
  | succ n ih =>
    refine List.IsPrefix.trans ?_ ih
    rw [← ancestor_ancestor]
    by_cases h : 0 < (t.ancestor n).level
    · obtain ⟨d, -, hpath⟩ := exists_path_ancestor_one h
      exact ⟨[d], hpath⟩
    · have hzero : (t.ancestor n).ancestor 1 = t.ancestor n := by
        rw [ancestor_of_level_le (by omega), show (t.ancestor n).level = 0 by omega, ancestor_zero]
      exact ⟨[], by rw [List.append_nil, hzero]⟩

/-- **Ancestry is having the beginning of the path.** -/
theorem le_iff_path_prefix {t u : Tile} : t ≤ u ↔ t.path <+: u.path := by
  constructor
  · rintro ⟨n, rfl⟩
    exact path_ancestor_prefix u n
  · intro h
    have hlevel := h.length_le
    rw [length_path, length_path] at hlevel
    obtain ⟨v, hv, hvlevel⟩ := exists_le_level hlevel
    have hvpath : v.path <+: u.path := by
      obtain ⟨n, rfl⟩ := hv
      exact path_ancestor_prefix u n
    have hsame : v.path = t.path := by
      apply List.IsPrefix.eq_of_length
      · exact List.prefix_of_prefix_length_le hvpath h (by rw [length_path, length_path, hvlevel])
      · rw [length_path, length_path, hvlevel]
    rw [← path_injective hsame]
    exact hv

end Tile

/-! ## Digits -/

/-- **The digits of a tile below another one** stand after those of that one. -/
theorem morton_below (l m row column : ℕ) {subRow subColumn : ℕ} (hrow : subRow < 2 ^ m)
    (hcolumn : subColumn < 2 ^ m) :
    morton (l + m) (row * 2 ^ m + subRow) (column * 2 ^ m + subColumn) =
      morton l row column * 4 ^ m + morton m subRow subColumn % 4 ^ m := by
  induction m generalizing subRow subColumn with
  | zero =>
    rw [pow_zero, Nat.lt_one_iff] at hrow hcolumn
    simp [hrow, hcolumn, morton]
  | succ m ih =>
    rw [pow_succ] at hrow hcolumn
    have hhalf := ih (show subRow / 2 < 2 ^ m by omega) (show subColumn / 2 < 2 ^ m by omega)
    have hupper : (row * 2 ^ (m + 1) + subRow) / 2 = row * 2 ^ m + subRow / 2 := by
      rw [pow_succ, ← Nat.mul_assoc]
      omega
    have hleft : (column * 2 ^ (m + 1) + subColumn) / 2 = column * 2 ^ m + subColumn / 2 := by
      rw [pow_succ, ← Nat.mul_assoc]
      omega
    have hdigit : (row * 2 ^ (m + 1) + subRow) % 2 = subRow % 2 := by
      rw [pow_succ, ← Nat.mul_assoc]
      omega
    have hdigit' : (column * 2 ^ (m + 1) + subColumn) % 2 = subColumn % 2 := by
      rw [pow_succ, ← Nat.mul_assoc]
      omega
    have hmod : morton (m + 1) subRow subColumn % 4 ^ (m + 1) =
        4 * (morton m (subRow / 2) (subColumn / 2) % 4 ^ m) + 2 * (subRow % 2) +
          subColumn % 2 := by
      rw [pow_succ', Nat.mod_mul, morton, show (4 * morton m (subRow / 2) (subColumn / 2) +
        2 * (subRow % 2) + subColumn % 2) / 4 = morton m (subRow / 2) (subColumn / 2) by omega]
      omega
    rw [hmod, ← Nat.add_assoc, morton, hupper, hleft, hdigit, hdigit', hhalf, pow_succ']
    ring

/-- The bounds of a Morton number, counted in digits. -/
theorem morton_bounds_four (m row column : ℕ) :
    4 ^ m ≤ morton m row column ∧ morton m row column < 2 * 4 ^ m := by
  obtain ⟨hlow, hhigh⟩ := morton_bounds m row column
  have hfour : 2 ^ (2 * m) = 4 ^ m := pow_mul 2 2 m
  rw [pow_succ, hfour] at hhigh
  rw [hfour] at hlow
  omega

/-- The leading one stands above the digits of the level. -/
theorem morton_mod_add (m row column : ℕ) :
    morton m row column % 4 ^ m + 4 ^ m = morton m row column := by
  obtain ⟨hlow, hhigh⟩ := morton_bounds_four m row column
  rw [Nat.mod_eq_sub_mod hlow, Nat.mod_eq_of_lt (by omega)]
  omega

/-- **The last digits of a tile**, below a leading one, are those of its place below its
ancestor. -/
theorem morton_mod {l m : ℕ} (h : m ≤ l) (row column : ℕ) :
    morton l row column % 4 ^ m + 4 ^ m = morton m (row % 2 ^ m) (column % 2 ^ m) := by
  have hsplit := morton_below (l - m) m (row / 2 ^ m) (column / 2 ^ m)
    (Nat.mod_lt row (Nat.two_pow_pos m)) (Nat.mod_lt column (Nat.two_pow_pos m))
  rw [Nat.sub_add_cancel h, Nat.mul_comm (row / 2 ^ m), Nat.mul_comm (column / 2 ^ m),
    Nat.div_add_mod, Nat.div_add_mod] at hsplit
  rw [hsplit, Nat.mul_comm, Nat.mul_add_mod, Nat.mod_mod, morton_mod_add]

end OlpEdgeSdk.Base

import Mathlib.Data.List.Induction
import Mathlib.Data.Nat.Bitwise
import Mathlib.Order.Basic
import Mathlib.Tactic.Ring

/-!
# The tiles of a quad tree

A tile is a level with a row and a column of it; the bounds of the two are fields, so that
a tile outside its level cannot be built. Tiles are ordered by ancestry, `t ≤ u` when `t`
is `u` or one of the tiles above it. The second half is the Morton number of a tile, the
bits of its row and its column alternated below a leading one.
-/

set_option autoImplicit false

namespace OlpEdgeSdk.Base

/-- A tile: the square in a row and a column of the grid of `2 ^ level` by `2 ^ level`. -/
@[ext] structure Tile where
  level : ℕ
  row : ℕ
  column : ℕ
  row_lt : row < 2 ^ level
  column_lt : column < 2 ^ level
deriving DecidableEq

/-- A coordinate, halved as often as there are levels to go up, is one of the level above. -/
theorem div_lt_two_pow_sub {a l : ℕ} (h : a < 2 ^ l) (n : ℕ) : a / 2 ^ n < 2 ^ (l - n) := by
  rw [Nat.div_lt_iff_lt_mul (Nat.two_pow_pos n), ← pow_add]
  exact lt_of_lt_of_le h (Nat.pow_le_pow_right (by omega) (by omega))

namespace Tile

/-- The tile `n` levels up; above the root there is only the root. -/
def ancestor (t : Tile) (n : ℕ) : Tile where
  level := t.level - n
  row := t.row / 2 ^ n
  column := t.column / 2 ^ n
  row_lt := div_lt_two_pow_sub t.row_lt n
  column_lt := div_lt_two_pow_sub t.column_lt n

/-- One of the four tiles a tile is split into: the low bit of the index is the column, the
next one the row. -/
def child (t : Tile) (i : ℕ) : Tile where
  level := t.level + 1
  row := 2 * t.row + i / 2 % 2
  column := 2 * t.column + i % 2
  row_lt := by have h := t.row_lt; rw [pow_succ]; omega
  column_lt := by have h := t.column_lt; rw [pow_succ]; omega

@[simp] theorem ancestor_zero (t : Tile) : t.ancestor 0 = t := by
  ext <;> simp [ancestor]

theorem ancestor_ancestor (t : Tile) (m n : ℕ) :
    (t.ancestor m).ancestor n = t.ancestor (m + n) := by
  ext
  · simp only [ancestor]
    omega
  · simp only [ancestor, Nat.div_div_eq_div_mul, pow_add]
  · simp only [ancestor, Nat.div_div_eq_div_mul, pow_add]

@[simp] theorem ancestor_level (t : Tile) (n : ℕ) : (t.ancestor n).level = t.level - n := rfl

@[simp] theorem child_level (t : Tile) (i : ℕ) : (t.child i).level = t.level + 1 := rfl

@[simp] theorem ancestor_child (t : Tile) (i : ℕ) : (t.child i).ancestor 1 = t := by
  ext
  · simp
  · simp only [ancestor, child, pow_one]
    omega
  · simp only [ancestor, child, pow_one]
    omega

/-- Every tile below the root is a child of the tile above it. -/
theorem exists_child_eq {t : Tile} (h : 0 < t.level) :
    ∃ i < 4, (t.ancestor 1).child i = t := by
  refine ⟨2 * (t.row % 2) + t.column % 2, by omega, ?_⟩
  ext
  · simp only [child, ancestor]
    omega
  · simp only [child, ancestor, pow_one]
    omega
  · simp only [child, ancestor, pow_one]
    omega

/-- `t ≤ u`: going up from `u` one comes to `t`. -/
instance : PartialOrder Tile where
  le t u := ∃ n, u.ancestor n = t
  le_refl t := ⟨0, ancestor_zero t⟩
  le_trans := by
    rintro _ _ u ⟨n, rfl⟩ ⟨m, rfl⟩
    exact ⟨m + n, (ancestor_ancestor u m n).symm⟩
  le_antisymm := by
    rintro _ u ⟨n, rfl⟩ ⟨m, hm⟩
    have hlevel := congrArg Tile.level hm
    simp only [ancestor_level] at hlevel
    by_cases hn : n = 0
    · rw [hn, ancestor_zero]
    · -- going up and coming back to the same level is possible in the root alone
      have hroot : u.level = 0 := by omega
      have hrow := u.row_lt
      have hcolumn := u.column_lt
      rw [hroot, pow_zero, Nat.lt_one_iff] at hrow hcolumn
      ext
      · rw [ancestor_level, hroot, Nat.zero_sub]
      · simp [ancestor, hrow]
      · simp [ancestor, hcolumn]

theorem le_def {t u : Tile} : t ≤ u ↔ ∃ n, u.ancestor n = t := Iff.rfl

theorem ancestor_le (t : Tile) (n : ℕ) : t.ancestor n ≤ t := ⟨n, rfl⟩

theorem le_child (t : Tile) (i : ℕ) : t ≤ t.child i := ⟨1, ancestor_child t i⟩

theorem level_le_of_le {t u : Tile} (h : t ≤ u) : t.level ≤ u.level := by
  obtain ⟨n, rfl⟩ := h
  exact Nat.sub_le u.level n

/-- A number of levels up that is more than there are is as good as all of them. -/
theorem ancestor_of_level_le {t : Tile} {n : ℕ} (h : t.level ≤ n) :
    t.ancestor n = t.ancestor t.level := by
  have hle : 2 ^ t.level ≤ 2 ^ n := Nat.pow_le_pow_right (by omega) h
  have hrow := t.row_lt
  have hcolumn := t.column_lt
  ext
  · simp only [ancestor]
    omega
  · simp only [ancestor]
    rw [Nat.div_eq_of_lt hrow, Nat.div_eq_of_lt (by omega)]
  · simp only [ancestor]
    rw [Nat.div_eq_of_lt hcolumn, Nat.div_eq_of_lt (by omega)]

/-- The tile above at a level is told by the level alone. -/
theorem le_iff_ancestor {t u : Tile} :
    t ≤ u ↔ t.level ≤ u.level ∧ u.ancestor (u.level - t.level) = t := by
  constructor
  · intro h
    refine ⟨level_le_of_le h, ?_⟩
    obtain ⟨n, rfl⟩ := h
    rw [ancestor_level]
    by_cases hn : n ≤ u.level
    · rw [show u.level - (u.level - n) = n by omega]
    · rw [show u.level - (u.level - n) = u.level by omega]
      exact (ancestor_of_level_le (by omega)).symm
  · rintro ⟨-, h⟩
    exact ⟨_, h⟩

theorem eq_of_le_of_level_le {t u : Tile} (h : t ≤ u) (hlevel : u.level ≤ t.level) : t = u := by
  obtain ⟨-, hup⟩ := le_iff_ancestor.mp h
  rw [show u.level - t.level = 0 by omega, ancestor_zero] at hup
  exact hup.symm

/-- Two tiles above a third one are above one another: ancestry is a tree order. -/
theorem le_of_le_of_level_le {t u v : Tile} (ht : t ≤ v) (hu : u ≤ v)
    (hlevel : t.level ≤ u.level) : t ≤ u := by
  have hupt := (le_iff_ancestor.mp ht).2
  obtain ⟨hle, hupu⟩ := le_iff_ancestor.mp hu
  refine ⟨u.level - t.level, ?_⟩
  rw [← hupu, ancestor_ancestor, hupu, show v.level - u.level + (u.level - t.level) =
    v.level - t.level by omega, hupt]

/-- The tile above `u` at a level that `u` has reached. -/
theorem exists_le_level {u : Tile} {l : ℕ} (h : l ≤ u.level) : ∃ t ≤ u, t.level = l := by
  refine ⟨u.ancestor (u.level - l), ancestor_le u _, ?_⟩
  rw [ancestor_level]
  omega

/-- Strictly below a tile is below one of its children. -/
theorem le_iff_exists_child_le {t u : Tile} (h : t.level < u.level) :
    t ≤ u ↔ ∃ i < 4, t.child i ≤ u := by
  constructor
  · intro hle
    obtain ⟨v, hvu, hv⟩ := exists_le_level (u := u) (l := t.level + 1) (by omega)
    obtain ⟨i, hi, hchild⟩ := exists_child_eq (t := v) (by omega)
    have hup : t = v.ancestor 1 := by
      apply eq_of_le_of_level_le
      · apply le_of_le_of_level_le hle ((ancestor_le v 1).trans hvu)
        rw [ancestor_level]
        omega
      · rw [ancestor_level]
        omega
    exact ⟨i, hi, by rw [hup, hchild]; exact hvu⟩
  · rintro ⟨i, -, hle⟩
    exact (le_child t i).trans hle

/-- Strictly above a tile is above its parent. -/
theorem le_ancestor_one_iff {t u : Tile} (h : t.level < u.level) :
    t ≤ u.ancestor 1 ↔ t ≤ u := by
  constructor
  · intro hle
    exact hle.trans (ancestor_le u 1)
  · intro hle
    apply le_of_le_of_level_le hle (ancestor_le u 1)
    rw [ancestor_level]
    omega

end Tile

/-- The bits of a row and a column alternated below a leading one, from the level's
lowest bits up. -/
def morton : ℕ → ℕ → ℕ → ℕ
  | 0, _, _ => 1
  | l + 1, row, column => 4 * morton l (row / 2) (column / 2) + 2 * (row % 2) + column % 2

theorem morton_pos (l row column : ℕ) : 0 < morton l row column := by
  induction l generalizing row column with
  | zero => simp [morton]
  | succ l ih =>
    have hpos := ih (row / 2) (column / 2)
    simp only [morton]
    omega

/-- The number has the bits of its level and no more. -/
theorem morton_bounds (l row column : ℕ) :
    2 ^ (2 * l) ≤ morton l row column ∧ morton l row column < 2 ^ (2 * l + 1) := by
  induction l generalizing row column with
  | zero => simp [morton]
  | succ l ih =>
    obtain ⟨hlow, hhigh⟩ := ih (row / 2) (column / 2)
    have hfour : 2 ^ (2 * (l + 1)) = 4 * 2 ^ (2 * l) := by ring
    have hhalf : 2 ^ (2 * l + 1) = 2 * 2 ^ (2 * l) := by ring
    simp only [morton]
    rw [pow_succ, hfour]
    omega

/-- The bits of a number after its two lowest ones. -/
theorem testBit_four_mul_add {a b : ℕ} (h : b < 4) (j : ℕ) :
    (4 * a + b).testBit (j + 2) = a.testBit j := by
  rw [show j + 2 = j + 1 + 1 by omega, ← Nat.testBit_div_two, ← Nat.testBit_div_two,
    show (4 * a + b) / 2 / 2 = a by omega]

/-- **Even bits are the column's, odd bits the row's.** -/
theorem testBit_morton {l i : ℕ} (h : i < l) (row column : ℕ) :
    (morton l row column).testBit (2 * i) = column.testBit i ∧
      (morton l row column).testBit (2 * i + 1) = row.testBit i := by
  induction l generalizing i row column with
  | zero => omega
  | succ l ih =>
    simp only [morton, Nat.add_assoc]
    cases i with
    | zero =>
      constructor
      · rw [Nat.mul_zero, Nat.testBit_zero, Nat.testBit_zero]
        congr 1
        rw [eq_iff_iff]
        omega
      · rw [Nat.mul_zero, ← Nat.testBit_div_two, Nat.testBit_zero, Nat.testBit_zero]
        congr 1
        rw [eq_iff_iff]
        omega
    | succ i =>
      obtain ⟨heven, hodd⟩ := ih (i := i) (by omega) (row / 2) (column / 2)
      constructor
      · rw [show 2 * (i + 1) = 2 * i + 2 by omega, testBit_four_mul_add (by omega), heven,
          Nat.testBit_div_two]
      · rw [show 2 * (i + 1) + 1 = 2 * i + 1 + 2 by omega, testBit_four_mul_add (by omega),
          hodd, Nat.testBit_div_two]

/-- The bit above all of these is set. -/
theorem testBit_morton_top (l row column : ℕ) : (morton l row column).testBit (2 * l) = true := by
  induction l generalizing row column with
  | zero => simp [morton]
  | succ l ih =>
    simp only [morton, Nat.add_assoc]
    rw [show 2 * (l + 1) = 2 * l + 2 by omega, testBit_four_mul_add (by omega), ih]

/-- **A number is the Morton number** of the row and column its bits spell, when its highest
bit is in an even place. -/
theorem exists_morton_eq {l n : ℕ} (hlow : 2 ^ (2 * l) ≤ n) (hhigh : n < 2 ^ (2 * l + 1)) :
    ∃ row column, row < 2 ^ l ∧ column < 2 ^ l ∧ morton l row column = n := by
  induction l generalizing n with
  | zero =>
    refine ⟨0, 0, by simp, by simp, ?_⟩
    simp only [morton]
    omega
  | succ l ih =>
    have hfour : 2 ^ (2 * (l + 1)) = 4 * 2 ^ (2 * l) := by ring
    have hhalf : 2 ^ (2 * l + 1) = 2 * 2 ^ (2 * l) := by ring
    rw [pow_succ, hfour] at hhigh
    rw [hfour] at hlow
    obtain ⟨row, column, hrow, hcolumn, heq⟩ := ih (n := n / 4) (by omega) (by omega)
    refine ⟨2 * row + n / 2 % 2, 2 * column + n % 2, ?_, ?_, ?_⟩
    · rw [pow_succ]
      omega
    · rw [pow_succ]
      omega
    · simp only [morton]
      rw [show (2 * row + n / 2 % 2) / 2 = row by omega,
        show (2 * column + n % 2) / 2 = column by omega, heq]
      omega

/-- A Morton number without its lowest digits is the one of the tile that many levels up. -/
theorem morton_div_four_pow {l i : ℕ} (h : i ≤ l) (row column : ℕ) :
    morton l row column / 4 ^ i = morton (l - i) (row / 2 ^ i) (column / 2 ^ i) := by
  induction i with
  | zero => simp
  | succ i ih =>
    have hstep : l - i = l - (i + 1) + 1 := by omega
    rw [pow_succ, ← Nat.div_div_eq_div_mul, ih (by omega), hstep, morton, pow_succ,
      ← Nat.div_div_eq_div_mul, ← Nat.div_div_eq_div_mul]
    omega

/-- The digit to the base 4 at a place below the leading one. -/
theorem digit_morton {l i : ℕ} (h : i < l) (row column : ℕ) :
    morton l row column / 4 ^ i % 4 = 2 * (row / 2 ^ i % 2) + column / 2 ^ i % 2 := by
  have hstep : l - i = l - (i + 1) + 1 := by omega
  rw [morton_div_four_pow h.le, hstep, morton]
  omega

namespace Tile

/-- The path to a tile: the index of the child taken on every level from the root on. -/
def path (t : Tile) : List ℕ :=
  (List.range t.level).reverse.map fun i => 2 * (t.row / 2 ^ i % 2) + t.column / 2 ^ i % 2

@[simp] theorem length_path (t : Tile) : t.path.length = t.level := by simp [path]

theorem lt_of_mem_path {t : Tile} {d : ℕ} (h : d ∈ t.path) : d < 4 := by
  simp only [path, List.mem_map] at h
  obtain ⟨i, -, rfl⟩ := h
  omega

/-- **The path to a child** is the path to the tile and the child's index. -/
theorem path_child (t : Tile) {i : ℕ} (h : i < 4) : (t.child i).path = t.path ++ [i] := by
  have hlast : 2 * ((t.child i).row / 2 ^ 0 % 2) + (t.child i).column / 2 ^ 0 % 2 = i := by
    simp only [child, pow_zero]
    omega
  have hrest : ∀ j, 2 * ((t.child i).row / 2 ^ (j + 1) % 2) + (t.child i).column / 2 ^ (j + 1) % 2 =
      2 * (t.row / 2 ^ j % 2) + t.column / 2 ^ j % 2 := by
    intro j
    rw [pow_succ', ← Nat.div_div_eq_div_mul, ← Nat.div_div_eq_div_mul]
    simp only [child]
    rw [show (2 * t.row + i / 2 % 2) / 2 = t.row by omega,
      show (2 * t.column + i % 2) / 2 = t.column by omega]
  simp only [path, child_level, List.range_succ_eq_map, List.reverse_cons, List.map_append,
    List.map_cons, List.map_nil, hlast, ← List.map_reverse, List.map_map]
  congr 1
  apply List.map_congr_left
  intro j _
  exact hrest j

/-- Every path leads to a tile. -/
theorem exists_path_eq {digits : List ℕ} (h : ∀ d ∈ digits, d < 4) :
    ∃ t : Tile, t.path = digits := by
  induction digits using List.reverseRecOn with
  | nil => exact ⟨⟨0, 0, 0, by omega, by omega⟩, rfl⟩
  | append_singleton digits d ih =>
    obtain ⟨t, ht⟩ := ih fun e he => h e (List.mem_append_left _ he)
    exact ⟨t.child d, by rw [path_child t (h d (by simp)), ht]⟩

end Tile

end OlpEdgeSdk.Base

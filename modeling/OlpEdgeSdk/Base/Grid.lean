import Mathlib.Algebra.Order.Floor.Ring
import Mathlib.Algebra.Order.Floor.Semifield
import Mathlib.Tactic.Linarith
import Mathlib.Tactic.Ring

/-!
# Cells of a unit interval

The unit interval is cut into cells of one length, counted from zero; its far end belongs to
the last cell. A position's cell in twice as many cells is in its cell in the fewer ones.
-/

set_option autoImplicit false

namespace OlpEdgeSdk.Base

/-- The cell of a position, of so many. -/
def gridCell {K : Type*} [Field K] [LinearOrder K] [FloorRing K] (cells : ℕ) (t : K) : ℕ :=
  min (cells - 1) ⌊(cells : K) * t⌋₊

section

variable {K : Type*} [Field K] [LinearOrder K] [FloorRing K] {cells : ℕ} {s t : K}

theorem gridCell_lt (h : 0 < cells) (t : K) : gridCell cells t < cells := by
  unfold gridCell
  omega

theorem gridCell_one (t : K) : gridCell 1 t = 0 := by
  unfold gridCell
  omega

variable [IsStrictOrderedRing K]

/-- The cells stand in the order of the positions. -/
theorem gridCell_mono (h : s ≤ t) : gridCell cells s ≤ gridCell cells t := by
  apply min_le_min_left
  apply Nat.floor_mono
  exact mul_le_mul_of_nonneg_left h (Nat.cast_nonneg cells)

/-- **Half as many cells** are made of two cells each. -/
theorem gridCell_half (cells : ℕ) (t : K) : gridCell (2 * cells) t / 2 = gridCell cells t := by
  have hfloor : ⌊((2 * cells : ℕ) : K) * t⌋₊ / 2 = ⌊(cells : K) * t⌋₊ := by
    have hscaled : ((2 * cells : ℕ) : K) * t / (2 : ℕ) = (cells : K) * t := by
      push_cast
      ring
    rw [← hscaled, Nat.floor_div_natCast]
  unfold gridCell
  omega

theorem gridCell_first : gridCell cells (0 : K) = 0 := by
  simp [gridCell]

/-- The last cell begins one cell before the end. -/
theorem gridCell_eq_last_iff (h : 0 < cells) (hpos : 0 ≤ t) :
    gridCell cells t = cells - 1 ↔ (cells : K) - 1 ≤ cells * t := by
  have hcast : ((cells - 1 : ℕ) : K) = (cells : K) - 1 := by
    rw [Nat.cast_sub (Nat.one_le_of_lt h), Nat.cast_one]
  rw [← hcast, ← Nat.le_floor_iff (by positivity)]
  unfold gridCell
  omega

theorem gridCell_last (h : 0 < cells) : gridCell cells (1 : K) = cells - 1 := by
  rw [gridCell_eq_last_iff h zero_le_one]
  linarith

end

end OlpEdgeSdk.Base

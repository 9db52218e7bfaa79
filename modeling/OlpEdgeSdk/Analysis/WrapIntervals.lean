import Mathlib.Algebra.Order.ToIntervalMod
import OlpEdgeSdk.Model.GeoRectangle

/-!
# Wrapping into an interval

`fmod` of a value that is not negative is its reduction into `[0, y)` (`fmod_eq_toIcoMod`).
`Wrap` therefore reduces values from the lower bound on into the interval closed on the left
(`wrap_of_le`), and values below it into the interval closed on the right (`wrap_of_lt`). The
second is the upper bound for the values whole ranges below the interval (`wrap_eq_upper_iff`),
which `Wrap` otherwise reduces to `[lower, upper)` as well (`wrap_reduces`, `wrap_eq_self`).
-/

set_option autoImplicit false

namespace OlpEdgeSdk.Analysis.WrapIntervals

open OlpEdgeSdk.Model.Math

variable {K : Type*} [Field K] [LinearOrder K] [IsStrictOrderedRing K] [FloorRing K]

section Remainder

variable {x y : K}

/-- The division of `fmod` is rounded downwards where the value is not negative. -/
theorem fmod_eq_toIcoMod (hx : 0 ≤ x) (hy : 0 < y) : fmod x y = toIcoMod hy 0 x := by
  have hquotient : 0 ≤ x / y := div_nonneg hx hy.le
  rw [fmod, if_pos hquotient, toIcoMod, toIcoDiv_eq_floor, sub_zero, zsmul_eq_mul, mul_comm]

end Remainder

section Intervals

variable {value lower upper : K}

/-- Whole ranges lie between the value and the lower bound above it. -/
def WholeRangesBelow (value lower upper : K) : Prop :=
  value < lower ∧ ∃ n : ℤ, lower - value = n * (upper - lower)

/-- The reduction into `(lower, upper]` is the upper bound for values whole ranges away from the
ends. -/
theorem toIocMod_eq_upper_iff (h : 0 < upper - lower) :
    toIocMod h lower value = upper ↔ ∃ n : ℤ, lower - value = n * (upper - lower) := by
  have hend : lower + (upper - lower) = upper := add_sub_cancel lower upper
  have hright := AddCommGroup.modEq_iff_toIocMod_eq_right h (a := lower) (b := value)
  rw [hend] at hright
  rw [← hright, AddCommGroup.modEq_comm, AddCommGroup.modEq_iff_zsmul']
  simp only [zsmul_eq_mul]

omit [IsStrictOrderedRing K] [FloorRing K] in
theorem epsilonEqual_eq_false (h : epsilon K ≤ upper - lower) :
    epsilonEqual lower upper = false := by
  rw [epsilonEqual, decide_eq_false_iff_not, not_lt, abs_sub_comm]
  exact h.trans (le_abs_self _)

/-- A value from the lower bound on is reduced into `[lower, upper)`. -/
theorem wrap_of_le (heps : epsilon K ≤ upper - lower) (h : 0 < upper - lower)
    (hvalue : lower ≤ value) : wrap value lower upper = toIcoMod h lower value := by
  rw [wrap, epsilonEqual_eq_false heps, if_neg Bool.false_ne_true, if_neg (not_lt.mpr hvalue)]
  split
  · next hupper =>
    rw [fmod_eq_toIcoMod (sub_nonneg.mpr hvalue) h, toIcoMod_eq_sub h lower value, add_comm]
  · next hupper =>
    symm
    apply (toIcoMod_eq_self h).mpr
    exact ⟨hvalue, by linarith [not_le.mp hupper]⟩

/-- A value below the lower bound is reduced into `(lower, upper]`. -/
theorem wrap_of_lt (heps : epsilon K ≤ upper - lower) (h : 0 < upper - lower)
    (hvalue : value < lower) : wrap value lower upper = toIocMod h lower value := by
  rw [wrap, epsilonEqual_eq_false heps, if_neg Bool.false_ne_true, if_pos hvalue,
    fmod_eq_toIcoMod (sub_nonneg.mpr hvalue.le) h, toIcoMod_zero_sub_comm,
    toIocMod_eq_sub h lower value]
  ring

/-- `Wrap` stays in the closed interval and keeps the value up to whole ranges. -/
theorem wrap_reduces (heps : epsilon K ≤ upper - lower) (h : 0 < upper - lower) (value : K) :
    (lower ≤ wrap value lower upper ∧ wrap value lower upper ≤ upper) ∧
      ∃ k : ℤ, wrap value lower upper = value + k * (upper - lower) := by
  rcases lt_or_ge value lower with hvalue | hvalue
  · have hend := toIocMod_le_right h lower value
    rw [wrap_of_lt heps h hvalue]
    refine ⟨⟨(left_lt_toIocMod h lower value).le, by linarith⟩, -toIocDiv h lower value, ?_⟩
    rw [toIocMod, zsmul_eq_mul, Int.cast_neg]
    ring
  · have hend := toIcoMod_lt_right h lower value
    rw [wrap_of_le heps h hvalue]
    refine ⟨⟨left_le_toIcoMod h lower value, by linarith⟩, -toIcoDiv h lower value, ?_⟩
    rw [toIcoMod, zsmul_eq_mul, Int.cast_neg]
    ring

/-- The upper bound itself is the result exactly below the interval at whole ranges. -/
theorem wrap_eq_upper_iff (heps : epsilon K ≤ upper - lower) (h : 0 < upper - lower) (value : K) :
    wrap value lower upper = upper ↔ WholeRangesBelow value lower upper := by
  rcases lt_or_ge value lower with hvalue | hvalue
  · rw [wrap_of_lt heps h hvalue, toIocMod_eq_upper_iff h]
    exact ⟨fun hranges => ⟨hvalue, hranges⟩, And.right⟩
  · have hend := toIcoMod_lt_right h lower value
    rw [wrap_of_le heps h hvalue]
    constructor
    · intro heq
      linarith
    · rintro ⟨hbelow, -⟩
      exact absurd hbelow (not_lt.mpr hvalue)

omit [IsStrictOrderedRing K] in
/-- A value of the interval is its own result. -/
theorem wrap_eq_self (heps : epsilon K ≤ upper - lower) {r : K} (hlower : lower ≤ r)
    (hupper : r < upper) : wrap r lower upper = r := by
  rw [wrap, epsilonEqual_eq_false heps, if_neg Bool.false_ne_true, if_neg (not_lt.mpr hlower),
    if_neg (not_le.mpr hupper)]

/-- **`Wrap` is the reduction into `[lower, upper)`** unless the value is whole ranges below
the interval: its result lies in the interval, differs from the value by whole ranges and is
its own result. -/
theorem wrap_halfOpen_iff (heps : epsilon K ≤ upper - lower) (h : lower < upper) (value : K) :
    ((lower ≤ wrap value lower upper ∧ wrap value lower upper < upper) ∧
        (∃ k : ℤ, wrap value lower upper = value + k * (upper - lower)) ∧
        wrap (wrap value lower upper) lower upper = wrap value lower upper) ↔
      ¬ WholeRangesBelow value lower upper := by
  have hrange : 0 < upper - lower := sub_pos.mpr h
  have hreduces := wrap_reduces heps hrange value
  rw [← wrap_eq_upper_iff heps hrange value]
  constructor
  · rintro ⟨⟨-, hbelow⟩, -⟩
    exact hbelow.ne
  · intro hne
    have hbelow : wrap value lower upper < upper := lt_of_le_of_ne hreduces.1.2 hne
    exact ⟨⟨hreduces.1.1, hbelow⟩, hreduces.2, wrap_eq_self heps hreduces.1.1 hbelow⟩

/-- Two ranges above, and below, the interval `[0, 4)`, at values with remainder one. -/
theorem wrap_halfOpen_iff_shifted :
    ((0 ≤ wrap (9 : ℚ) 0 4 ∧ wrap (9 : ℚ) 0 4 < 4) ∧
        (∃ k : ℤ, wrap (9 : ℚ) 0 4 = 9 + k * (4 - 0)) ∧
        wrap (wrap (9 : ℚ) 0 4) 0 4 = wrap (9 : ℚ) 0 4 ↔ ¬ WholeRangesBelow (9 : ℚ) 0 4) ∧
      ¬ WholeRangesBelow (9 : ℚ) 0 4 ∧ wrap (9 : ℚ) 0 4 = 1 ∧ wrap (-7 : ℚ) 0 4 = 1 := by
  refine ⟨wrap_halfOpen_iff ?_ (by norm_num) 9, ?_, ?_, ?_⟩
  · norm_num [epsilon]
  · rintro ⟨hbelow, -⟩
    norm_num at hbelow
  · norm_num [wrap, fmod, epsilonEqual, epsilon]
  · norm_num [wrap, fmod, epsilonEqual, epsilon]

/-- One range below the interval `[0, 4)`, `Wrap` gives its upper bound, whose own result is the
lower bound. -/
theorem not_wrap_halfOpen :
    ¬ ∀ value lower upper : ℚ, lower < upper → epsilon ℚ ≤ upper - lower →
      lower ≤ wrap value lower upper ∧ wrap value lower upper < upper ∧
        (∃ k : ℤ, wrap value lower upper = value + k * (upper - lower)) ∧
        wrap (wrap value lower upper) lower upper = wrap value lower upper := by
  intro h
  have hwrap : wrap (-4 : ℚ) 0 4 = 4 := by norm_num [wrap, fmod, epsilonEqual, epsilon]
  obtain ⟨-, hbelow, -⟩ := h (-4) 0 4 (by norm_num) (by norm_num [epsilon])
  rw [hwrap] at hbelow
  exact lt_irrefl 4 hbelow

end Intervals

end OlpEdgeSdk.Analysis.WrapIntervals

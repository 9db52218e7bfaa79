import Mathlib.Data.Nat.Log
import Mathlib.Algebra.Order.Ring.Nat

/-!
# Rounding to a number of significant bits

`roundTo` rounds to the nearest number with that many significant bits, and to the even one of
two. `roundTo_eq_iff` says which numbers are kept: those whose last set bit is not below the
last bit that is kept.
-/

set_option autoImplicit false

namespace OlpEdgeSdk.Base

/-- How many low bits of a number do not fit. -/
def excess (bits n : ℕ) : ℕ := n.log2 + 1 - bits

/-- Round to the nearest, ties to even. -/
def roundTo (bits n : ℕ) : ℕ :=
  let unit := 2 ^ excess bits n
  let kept := n / unit
  let rest := n % unit
  if 2 * rest < unit then kept * unit
  else if unit < 2 * rest then (kept + 1) * unit
  else if kept % 2 = 0 then kept * unit
  else (kept + 1) * unit

variable {bits n : ℕ}

theorem excess_eq_zero (hbits : 0 < bits) (h : n < 2 ^ bits) : excess bits n = 0 := by
  unfold excess
  rcases Nat.eq_zero_or_pos n with rfl | hpos
  · rw [Nat.log2_zero]
    omega
  · have hlog := (Nat.log2_lt (Nat.pos_iff_ne_zero.mp hpos)).mpr h
    omega

/-- Rounding gives a multiple of the unit, on one side of the number or the other. -/
theorem roundTo_cases (bits n : ℕ) :
    roundTo bits n = n / 2 ^ excess bits n * 2 ^ excess bits n ∨
      roundTo bits n = (n / 2 ^ excess bits n + 1) * 2 ^ excess bits n ∧
        n % 2 ^ excess bits n ≠ 0 := by
  have hunit : 0 < 2 ^ excess bits n := Nat.two_pow_pos _
  unfold roundTo
  dsimp only
  split
  · exact Or.inl rfl
  · next hhalf =>
    have hrest : n % 2 ^ excess bits n ≠ 0 := by omega
    split
    · exact Or.inr ⟨rfl, hrest⟩
    · split
      · exact Or.inl rfl
      · exact Or.inr ⟨rfl, hrest⟩

/-- **What rounding keeps.** -/
theorem roundTo_eq_iff : roundTo bits n = n ↔ 2 ^ excess bits n ∣ n := by
  have hunit : 0 < 2 ^ excess bits n := Nat.two_pow_pos _
  have hparts := Nat.div_add_mod n (2 ^ excess bits n)
  rw [Nat.mul_comm] at hparts
  rw [Nat.dvd_iff_mod_eq_zero]
  rcases roundTo_cases bits n with hdown | ⟨hup, hrest⟩
  · rw [hdown]
    omega
  · have hlt := Nat.mod_lt n hunit
    rw [hup, Nat.add_mul, Nat.one_mul]
    omega

end OlpEdgeSdk.Base

import Mathlib.Logic.Function.Iterate
import Mathlib.Order.Basic

/-!
# `while` loops

A loop runs with a bound on its turns and has no result when the bound is too small. A loop
ends in a state when some bound is enough, and the state does not depend on which one. A
variant shows that a loop ends; an invariant on which the guard holds shows that it never does.
-/

set_option autoImplicit false

namespace OlpEdgeSdk.Base

/-- A `while` loop of at most `fuel` turns. -/
def whileLoop {σ : Type*} (guard : σ → Bool) (turn : σ → σ) : ℕ → σ → Option σ
  | 0, s => if guard s then none else some s
  | fuel + 1, s => if guard s then whileLoop guard turn fuel (turn s) else some s

/-- The loop ends, and the state is then `s'`. -/
def EndsIn {σ : Type*} (guard : σ → Bool) (turn : σ → σ) (s s' : σ) : Prop :=
  ∃ fuel, whileLoop guard turn fuel s = some s'

section

variable {σ : Type*} {guard : σ → Bool} {turn : σ → σ} {s s' s'' : σ}

theorem whileLoop_of_not (h : guard s = false) (fuel : ℕ) :
    whileLoop guard turn fuel s = some s := by
  cases fuel with
  | zero => simp [whileLoop, h]
  | succ fuel => simp [whileLoop, h]

theorem whileLoop_succ (h : guard s = true) (fuel : ℕ) :
    whileLoop guard turn (fuel + 1) s = whileLoop guard turn fuel (turn s) := by
  simp [whileLoop, h]

theorem whileLoop_zero (h : guard s = true) : whileLoop guard turn 0 s = none := by
  simp [whileLoop, h]

/-- One turn more of the bound does no harm. -/
theorem whileLoop_fuel_succ {fuel : ℕ} (h : whileLoop guard turn fuel s = some s') :
    whileLoop guard turn (fuel + 1) s = some s' := by
  induction fuel generalizing s with
  | zero =>
    cases hguard : guard s with
    | true =>
      rw [whileLoop_zero hguard] at h
      cases h
    | false =>
      rw [whileLoop_of_not hguard] at h ⊢
      exact h
  | succ fuel ih =>
    cases hguard : guard s with
    | true =>
      rw [whileLoop_succ hguard] at h ⊢
      exact ih h
    | false =>
      rw [whileLoop_of_not hguard] at h ⊢
      exact h

theorem whileLoop_fuel_mono {fuel fuel' : ℕ} (hle : fuel ≤ fuel')
    (h : whileLoop guard turn fuel s = some s') : whileLoop guard turn fuel' s = some s' := by
  induction hle with
  | refl => exact h
  | step _ ih => exact whileLoop_fuel_succ ih

/-- **A loop ends in one state at most.** -/
theorem EndsIn.unique (h : EndsIn guard turn s s') (h' : EndsIn guard turn s s'') : s' = s'' := by
  obtain ⟨fuel, hfuel⟩ := h
  obtain ⟨fuel', hfuel'⟩ := h'
  have hleft := whileLoop_fuel_mono (Nat.le_max_left fuel fuel') hfuel
  have hright := whileLoop_fuel_mono (Nat.le_max_right fuel fuel') hfuel'
  rw [hleft] at hright
  exact Option.some.inj hright

theorem endsIn_of_not (h : guard s = false) : EndsIn guard turn s s :=
  ⟨0, whileLoop_of_not h 0⟩

/-- A turn is taken off the front. -/
theorem endsIn_iff_turn (hguard : guard s = true) :
    EndsIn guard turn s s' ↔ EndsIn guard turn (turn s) s' := by
  constructor
  · rintro ⟨fuel, hfuel⟩
    cases fuel with
    | zero =>
      rw [whileLoop_zero hguard] at hfuel
      cases hfuel
    | succ fuel => exact ⟨fuel, by rwa [whileLoop_succ hguard] at hfuel⟩
  · rintro ⟨fuel, hfuel⟩
    exact ⟨fuel + 1, by rw [whileLoop_succ hguard, hfuel]⟩

/-- The first `n` turns are taken off the front. -/
theorem endsIn_iff_iterate {n : ℕ} (hguard : ∀ i < n, guard (turn^[i] s) = true) :
    EndsIn guard turn s s' ↔ EndsIn guard turn (turn^[n] s) s' := by
  induction n generalizing s with
  | zero => exact Iff.rfl
  | succ n ih =>
    have hfirst : guard s = true := hguard 0 (Nat.succ_pos n)
    rw [endsIn_iff_turn hfirst, Function.iterate_succ_apply]
    apply ih
    intro i hi
    exact hguard (i + 1) (Nat.succ_lt_succ hi)

/-- A loop that takes exactly `n` turns. -/
theorem endsIn_iterate {n : ℕ} (hguard : ∀ i < n, guard (turn^[i] s) = true)
    (hend : guard (turn^[n] s) = false) : EndsIn guard turn s (turn^[n] s) :=
  (endsIn_iff_iterate hguard).mpr (endsIn_of_not hend)

/-- **The rule of total correctness**: an invariant that a turn keeps while the variant goes
down, which is then a bound on the turns. -/
theorem whileLoop_variant (guard : σ → Bool) (turn : σ → σ) {Inv : σ → Prop}
    (variant : σ → ℕ)
    (hstep : ∀ s, Inv s → guard s = true → Inv (turn s) ∧ variant (turn s) < variant s)
    (h : Inv s) :
    ∃ s', whileLoop guard turn (variant s) s = some s' ∧ Inv s' ∧ guard s' = false := by
  generalize hn : variant s = n
  induction n using Nat.strongRecOn generalizing s with
  | ind n ih =>
    cases hguard : guard s with
    | true =>
      obtain ⟨hinv, hlt⟩ := hstep s h hguard
      rw [hn] at hlt
      obtain ⟨s', hloop, hinv', hnot⟩ := ih _ hlt hinv rfl
      obtain ⟨m, rfl⟩ := Nat.exists_eq_succ_of_ne_zero (Nat.ne_zero_of_lt hlt)
      refine ⟨s', ?_, hinv', hnot⟩
      rw [Nat.succ_eq_add_one, whileLoop_succ hguard]
      exact whileLoop_fuel_mono (Nat.le_of_lt_succ hlt) hloop
    | false => exact ⟨s, whileLoop_of_not hguard n, h, hguard⟩

/-- **A loop that never ends**: the guard holds on an invariant of the turns. -/
theorem not_endsIn (Inv : σ → Prop) (hguard : ∀ s, Inv s → guard s = true)
    (hturn : ∀ s, Inv s → Inv (turn s)) (h : Inv s) : ¬ EndsIn guard turn s s' := by
  rintro ⟨fuel, hfuel⟩
  induction fuel generalizing s with
  | zero =>
    rw [whileLoop_zero (hguard s h)] at hfuel
    cases hfuel
  | succ fuel ih =>
    rw [whileLoop_succ (hguard s h)] at hfuel
    exact ih (hturn s h) hfuel

end

end OlpEdgeSdk.Base

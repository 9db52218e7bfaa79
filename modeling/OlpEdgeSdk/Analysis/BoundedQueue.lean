import Mathlib.Data.List.DropRight
import OlpEdgeSdk.Model.ThreadSafeQueue

/-!
# The bounded push of the thread-safe queue

What a push with a bound leaves is told by `bounded`. The overload that moves meets it
(`pushMove_vec`); the one that copies clears the queue at the bound zero whatever it is told
about overwriting (`pushCopy_vec_iff`). Pushes that overwrite keep a window on the end of what
was pushed (`vec_foldl_pushMove`).
-/

set_option autoImplicit false

namespace OlpEdgeSdk.Analysis.BoundedQueue

open OlpEdgeSdk.Base OlpEdgeSdk.Model ThreadSafeQueue

variable {T : Type*}

/-- What a push with a bound leaves: up to the bound the value is put behind the others, and
from then on it takes the place of the oldest ones or is left out. -/
def bounded (q : List T) (val : T) (maxSize : ℕ) (overwrite : Bool) : List T :=
  if q.length < maxSize then q ++ [val]
  else if overwrite then if maxSize = 0 then [] else q.rtake (maxSize - 1) ++ [val]
  else q

/-! ## The oldest elements -/

/-- The elements in front are erased by rotating them to the end. -/
theorem eraseRotated_eq {l : List T} {n : ℕ} (h : n ≤ l.length) :
    eraseRotated l n = l.drop n := by
  unfold eraseRotated
  dsimp only
  rw [eraseRange_rotate (Nat.zero_le n) h le_rfl, eraseRange, List.take_zero, List.nil_append]

variable (q : ThreadSafeQueue T) (val : T) (maxSize : ℕ) (overwrite : Bool)

/-- **`pop`** removes the first element, if there is one. -/
theorem pop_vec : (pop q).vec = q.vec.drop 1 := by
  unfold pop
  split
  · next h => rw [List.isEmpty_iff.mp h, List.drop_nil]
  · next h =>
    apply eraseRotated_eq
    apply List.length_pos_of_ne_nil
    intro hnil
    exact h (List.isEmpty_iff.mpr hnil)

/-- **`pop` of a number** removes so many elements, if there are so many. -/
theorem popNum_vec (num : ℕ) :
    (popNum q num).1.vec = (if num ≤ q.vec.length then q.vec.drop num else q.vec) ∧
      ((popNum q num).2 = true ↔ num ≠ 0 ∧ num ≤ q.vec.length) := by
  unfold popNum
  split
  · next h =>
    rw [if_pos h.2]
    exact ⟨rfl, iff_of_true rfl h⟩
  · next h =>
    refine ⟨?_, iff_of_false Bool.false_ne_true h⟩
    split
    · next hle =>
      have hzero : num = 0 := by
        by_contra hne
        exact h ⟨hne, hle⟩
      rw [hzero, List.drop_zero]
    · rfl

/-- **The overload that moves** leaves what the bound says. -/
theorem pushMove_vec : (pushMove q val maxSize overwrite).vec =
    bounded q.vec val maxSize overwrite := by
  unfold pushMove bounded
  by_cases hzero : maxSize = 0
  · have hnot : ¬ q.vec.length < maxSize := by omega
    rw [if_pos hzero, if_neg hnot, if_pos hzero]
    cases overwrite with
    | true => rfl
    | false => rfl
  · rw [if_neg hzero]
    by_cases hfull : maxSize ≤ q.vec.length
    · rw [if_pos hfull, if_neg (not_lt.mpr hfull), if_neg hzero]
      cases overwrite with
      | true =>
        have hkept : q.vec.length - maxSize + 1 = q.vec.length - (maxSize - 1) := by omega
        show eraseRotated q.vec (q.vec.length - maxSize + 1) ++ [val] =
          q.vec.rtake (maxSize - 1) ++ [val]
        rw [eraseRotated_eq (by omega), hkept, List.rtake]
      | false => rfl
    · rw [if_neg hfull, if_pos (not_le.mp hfull)]

/-- The overloads differ at the bound zero without overwriting. -/
theorem pushCopy_eq : pushCopy q val maxSize overwrite =
    if maxSize = 0 ∧ overwrite = false then ⟨[]⟩ else pushMove q val maxSize overwrite := by
  unfold pushCopy pushMove
  by_cases hzero : maxSize = 0
  · cases overwrite with
    | true => simp [hzero]
    | false => simp [hzero]
  · simp [hzero]

/-- The overload that copies leaves what the bound says unless it clears a queue that was to be
left alone. -/
theorem pushCopy_vec_iff : (pushCopy q val maxSize overwrite).vec =
    bounded q.vec val maxSize overwrite ↔
      ¬ (maxSize = 0 ∧ overwrite = false ∧ q.vec ≠ []) := by
  rw [pushCopy_eq]
  by_cases h : maxSize = 0 ∧ overwrite = false
  · obtain ⟨rfl, rfl⟩ := h
    rw [if_pos ⟨rfl, rfl⟩]
    show [] = q.vec ↔ ¬ (0 = 0 ∧ false = false ∧ q.vec ≠ [])
    rw [eq_comm]
    simp
  · rw [if_neg h, pushMove_vec]
    apply iff_of_true rfl
    rintro ⟨hzero, hkeep, -⟩
    exact h ⟨hzero, hkeep⟩

/-- **One specification for both overloads** of the bounded push, and the two of `pop`: met
unless a queue that is not empty is pushed to with the bound zero and without overwriting. -/
theorem push_pop_iff :
    (((pushCopy q val maxSize overwrite).vec = bounded q.vec val maxSize overwrite ∧
        (pushMove q val maxSize overwrite).vec = bounded q.vec val maxSize overwrite) ∧
      (pop q).vec = q.vec.drop 1 ∧
      ∀ num, (popNum q num).1.vec = if num ≤ q.vec.length then q.vec.drop num else q.vec) ↔
    ¬ (maxSize = 0 ∧ overwrite = false ∧ q.vec ≠ []) := by
  rw [← pushCopy_vec_iff q val maxSize overwrite]
  constructor
  · rintro ⟨⟨hcopy, -⟩, -⟩
    exact hcopy
  · intro hcopy
    refine ⟨⟨hcopy, pushMove_vec q val maxSize overwrite⟩, pop_vec q, ?_⟩
    intro num
    exact (popNum_vec q num).1

/-- At the bound zero and without overwriting the overload that copies clears the queue, and the
one that moves leaves it. -/
theorem not_push_pop :
    (¬ ∀ (q : ThreadSafeQueue ℕ) (val maxSize : ℕ) (overwrite : Bool),
      (pushCopy q val maxSize overwrite).vec = (pushMove q val maxSize overwrite).vec) ∧
      (pushCopy ⟨[1]⟩ 2 0 false).vec = [] ∧ bounded [1] 2 0 false = [1] := by
  refine ⟨?_, rfl, rfl⟩
  intro h
  have hsame : [] = [1] := h ⟨[1]⟩ 2 0 false
  exact List.cons_ne_nil 1 [] hsame.symm

/-! ## Runs of pushes -/

section Window

variable {l vals : List T} {val : T} {maxSize : ℕ}

/-- What is in the window stays told by the elements that were. -/
theorem rtake_rtake_append : (l.rtake maxSize ++ vals).rtake maxSize =
    (l ++ vals).rtake maxSize := by
  have hin : l.length - maxSize ≤ l.length := Nat.sub_le _ _
  unfold List.rtake
  rw [← List.drop_append_of_le_length hin, List.drop_drop, List.length_drop]
  congr 1
  rw [List.length_append]
  omega

/-- **Step.** A push that overwrites moves the window by one. -/
theorem bounded_overwrite (h : l.length ≤ maxSize) :
    bounded l val maxSize true = (l ++ [val]).rtake maxSize := by
  unfold bounded
  split
  · next hlt =>
    have hfits : (l ++ [val]).length - maxSize = 0 := by
      rw [List.length_append, List.length_singleton]
      omega
    rw [List.rtake, hfits, List.drop_zero]
  · next hfull =>
    cases maxSize with
    | zero => rw [if_pos rfl, if_pos rfl, List.rtake_zero]
    | succ n =>
      rw [if_pos rfl, if_neg (Nat.succ_ne_zero n), List.rtake_concat_succ]
      rfl

/-- **Run.** Pushes that overwrite leave the end of what there was and what was pushed. -/
theorem vec_foldl_pushMove {q : ThreadSafeQueue T} (h : q.vec.length ≤ maxSize) :
    (vals.foldl (fun q val => pushMove q val maxSize true) q).vec =
      (q.vec ++ vals).rtake maxSize := by
  induction vals generalizing q with
  | nil =>
    have hfits : q.vec.length - maxSize = 0 := Nat.sub_eq_zero_of_le h
    rw [List.foldl_nil, List.append_nil, List.rtake, hfits, List.drop_zero]
  | cons val vals ih =>
    have hstep : (pushMove q val maxSize true).vec = (q.vec ++ [val]).rtake maxSize := by
      rw [pushMove_vec, bounded_overwrite h]
    have hlength : (pushMove q val maxSize true).vec.length ≤ maxSize := by
      rw [hstep, List.rtake, List.length_drop]
      omega
    rw [List.foldl_cons, ih hlength, hstep, rtake_rtake_append, List.append_assoc,
      List.singleton_append]

end Window

end OlpEdgeSdk.Analysis.BoundedQueue

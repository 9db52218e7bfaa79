import Mathlib.Data.List.Basic
import Mathlib.Data.List.Count
import Mathlib.Data.List.Perm.Basic

/-!
# One entry of a list

What happens to the entries of a list, and to the number of those that pass a test, when one
entry is changed or taken out. The entry is named by its place, and its old value is known.
-/

set_option autoImplicit false

namespace OlpEdgeSdk.Base

variable {A : Type} {l : List A} {i : ℕ} {a : A}

theorem getElem?_set_of_some (h : l[i]? = some a) (a' : A) (j : ℕ) :
    (l.set i a')[j]? = if j = i then some a' else l[j]? := by
  rw [List.getElem?_set]
  by_cases hj : i = j
  · rw [if_pos hj, if_pos (Eq.symm hj), if_pos (List.getElem?_eq_some_iff.mp h).1]
  · rw [if_neg hj, if_neg (Ne.symm hj)]

theorem getElem?_concat (l : List A) (a : A) (j : ℕ) :
    (l ++ [a])[j]? = if j = l.length then some a else l[j]? := by
  rcases Nat.lt_trichotomy j l.length with hlt | rfl | hgt
  · rw [List.getElem?_append_left hlt, if_neg (Nat.ne_of_lt hlt)]
  · rw [List.getElem?_concat_length, if_pos rfl]
  · rw [if_neg (Nat.ne_of_gt hgt), List.getElem?_eq_none (Nat.le_of_lt hgt)]
    apply List.getElem?_eq_none
    rw [List.length_append, List.length_singleton]
    exact hgt

theorem toNat_eq_ite (b : Bool) : b.toNat = if b = true then 1 else 0 := by
  cases b <;> rfl

theorem countP_set_of_some (p : A → Bool) (h : l[i]? = some a) (a' : A) :
    (l.set i a').countP p + (p a).toNat = l.countP p + (p a').toNat := by
  obtain ⟨hlt, hget⟩ := List.getElem?_eq_some_iff.mp h
  have hle := List.boole_getElem_le_countP (p := p) hlt
  have hset := List.countP_set (p := p) (a := a') hlt
  rw [hget] at hle hset
  rw [hset, toNat_eq_ite, toNat_eq_ite]
  omega

theorem countP_eraseIdx_of_some (p : A → Bool) (h : l[i]? = some a) :
    l.countP p = (l.eraseIdx i).countP p + (p a).toNat := by
  obtain ⟨hlt, hget⟩ := List.getElem?_eq_some_iff.mp h
  rw [← (List.getElem_cons_eraseIdx_perm hlt).countP_eq, List.countP_cons, hget,
    toNat_eq_ite]

end OlpEdgeSdk.Base

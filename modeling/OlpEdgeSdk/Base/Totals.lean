import Mathlib.Algebra.GroupWithZero.Nat
import OlpEdgeSdk.Base.SortedMap

/-!
# Totals of a map of amounts

The sum of all amounts of a finite map, and how it changes when one of them is set or removed:
by the difference to the amount that was there before, and a missing amount counts as zero.
-/

set_option autoImplicit false

namespace OlpEdgeSdk.Base.SortedMap

variable {K : Type} [LinearOrder K]

/-- The sum of the amounts. -/
def total (m : SortedMap K ℕ) : ℕ := (m.entries.map Prod.snd).sum

/-- The amount under a key. -/
def amount (m : SortedMap K ℕ) (key : K) : ℕ := (m.find key).getD 0

@[simp] theorem total_empty : (empty : SortedMap K ℕ).total = 0 := rfl

theorem total_of_perm_cons {m m' : SortedMap K ℕ} {key : K} {n : ℕ}
    (h : m'.entries.Perm ((key, n) :: m.entries)) : m'.total = n + m.total := by
  have hsum := (h.map Prod.snd).sum_nat
  rw [total, hsum, List.map_cons, List.sum_cons, total]

/-- **Removing** an amount takes it off the total. -/
theorem total_erase (m : SortedMap K ℕ) (key : K) :
    (m.erase key).total + m.amount key = m.total := by
  rw [amount]
  cases hfind : m.find key with
  | none => rw [erase_of_find_none hfind, Option.getD_none, Nat.add_zero]
  | some n =>
    rw [total_of_perm_cons (entries_perm_of_find hfind), Option.getD_some, Nat.add_comm]

/-- **Setting** an amount puts it in the place of the one before. -/
theorem total_insert (m : SortedMap K ℕ) (key : K) (n : ℕ) :
    (m.insert key n).total + m.amount key = m.total + n := by
  have herase := m.total_erase key
  rw [total_of_perm_cons (m.entries_insert_perm key n)]
  omega

theorem amount_le_total (m : SortedMap K ℕ) (key : K) : m.amount key ≤ m.total :=
  (Nat.le_add_left _ _).trans_eq (m.total_erase key)

theorem amount_erase_of_ne (m : SortedMap K ℕ) {key other : K} (hne : other ≠ key) :
    (m.erase key).amount other = m.amount other := by
  rw [amount, find_erase, if_neg hne, amount]

omit [LinearOrder K] in
/-- Entries that pass a test, against all of them. -/
theorem sum_filter_keys (p : K → Bool) (entries : List (K × ℕ)) :
    ((entries.filter fun e => p e.1).map Prod.snd).sum ≤ (entries.map Prod.snd).sum ∧
      (((entries.filter fun e => p e.1).map Prod.snd).sum = (entries.map Prod.snd).sum ↔
        ∀ e ∈ entries, p e.1 = false → e.2 = 0) := by
  induction entries with
  | nil => simp
  | cons e entries ih =>
    obtain ⟨hle, hiff⟩ := ih
    rw [List.filter_cons]
    cases hp : p e.1 with
    | true =>
      simp only [if_true, List.map_cons, List.sum_cons, List.forall_mem_cons, hp]
      refine ⟨by omega, ?_⟩
      rw [← hiff]
      simp
    | false =>
      simp only [Bool.false_eq_true, if_false, List.map_cons, List.sum_cons,
        List.forall_mem_cons, hp, true_implies]
      refine ⟨by omega, ?_⟩
      rw [← hiff]
      omega

theorem total_filterKeys_le (m : SortedMap K ℕ) (p : K → Bool) :
    (m.filterKeys p).total ≤ m.total :=
  (sum_filter_keys p m.entries).1

theorem total_filterKeys_eq_iff (m : SortedMap K ℕ) (p : K → Bool) :
    (m.filterKeys p).total = m.total ↔
      ∀ key n, m.find key = some n → p key = false → n = 0 := by
  apply (sum_filter_keys p m.entries).2.trans
  constructor
  · exact fun h key n hfind => h (key, n) (mem_of_find hfind)
  · exact fun h e he => h e.1 e.2 (find_of_mem he)

end OlpEdgeSdk.Base.SortedMap

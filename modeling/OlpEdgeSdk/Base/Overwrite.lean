import Mathlib.Data.List.Basic

/-!
# Lists written over one another

Writing a list over another one from a position on, as a file or a stream is written: what was
there stays before the position and behind the new elements. Lists written over one another
from the start leave the last one, with the tail of any longer one before it.
-/

set_option autoImplicit false

namespace OlpEdgeSdk.Base

variable {α : Type}

/-- `new` written over `old` from a position on. -/
def overwriteAt (old : List α) (pos : ℕ) (new : List α) : List α :=
  old.take pos ++ new ++ old.drop (pos + new.length)

/-- `new` written over `old` from the start. -/
def overwrite (old new : List α) : List α := new ++ old.drop new.length

theorem overwriteAt_zero (old new : List α) : overwriteAt old 0 new = overwrite old new := by
  unfold overwriteAt overwrite
  rw [List.take_zero, List.nil_append, Nat.zero_add]

theorem overwriteAt_nil {old : List α} {pos : ℕ} : overwriteAt old pos [] = old := by
  unfold overwriteAt
  rw [List.append_nil, List.length_nil, Nat.add_zero, List.take_append_drop]

/-- At the end the new elements are put behind the old ones. -/
theorem overwriteAt_length (old new : List α) : overwriteAt old old.length new = old ++ new := by
  unfold overwriteAt
  rw [List.take_length, List.drop_of_length_le (Nat.le_add_right _ _), List.append_nil]

theorem length_overwriteAt {old : List α} {pos : ℕ} (h : pos ≤ old.length) (new : List α) :
    (overwriteAt old pos new).length = max old.length (pos + new.length) := by
  unfold overwriteAt
  rw [List.length_append, List.length_append, List.length_take, List.length_drop,
    Nat.min_eq_left h]
  omega

/-- **Two pieces one behind the other** are written like the two together. -/
theorem overwriteAt_append {old : List α} {pos : ℕ} (h : pos ≤ old.length) (a b : List α) :
    overwriteAt (overwriteAt old pos a) (pos + a.length) b = overwriteAt old pos (a ++ b) := by
  have hlength : (old.take pos ++ a).length = pos + a.length := by
    rw [List.length_append, List.length_take, Nat.min_eq_left h]
  have htake : (overwriteAt old pos a).take (pos + a.length) = old.take pos ++ a := by
    unfold overwriteAt
    rw [← hlength, List.take_left]
  have hdrop : (overwriteAt old pos a).drop (pos + a.length + b.length) =
      old.drop (pos + (a ++ b).length) := by
    unfold overwriteAt
    rw [← hlength, ← List.drop_drop, List.drop_left, List.drop_drop, hlength,
      List.length_append, Nat.add_assoc]
  show (overwriteAt old pos a).take (pos + a.length) ++ b ++ _ = _
  rw [htake, hdrop]
  unfold overwriteAt
  simp only [List.append_assoc]

theorem length_overwrite (old new : List α) :
    (overwrite old new).length = max old.length new.length := by
  rw [← overwriteAt_zero, length_overwriteAt (Nat.zero_le _), Nat.zero_add]

/-- **The new list alone is left** exactly if the old one is not longer. -/
theorem overwrite_eq_right_iff {old new : List α} :
    overwrite old new = new ↔ old.length ≤ new.length := by
  unfold overwrite
  rw [List.append_right_eq_self, List.drop_eq_nil_iff]

/-- Lists written over one another are as long as the longest of them. -/
theorem length_foldl_overwrite_le {lists : List (List α)} {old : List α} {n : ℕ} :
    (lists.foldl overwrite old).length ≤ n ↔ old.length ≤ n ∧ ∀ l ∈ lists, l.length ≤ n := by
  induction lists generalizing old with
  | nil => simp
  | cons l lists ih =>
    rw [List.foldl_cons, ih, length_overwrite, Nat.max_le, List.forall_mem_cons, and_assoc]

end OlpEdgeSdk.Base

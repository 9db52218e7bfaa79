import Mathlib.Data.List.Basic

/-!
# Ranges of a vector

`rotate`, `erase` and `remove_if` on the positions of a list. A range is erased by moving it
behind the others and cutting the end off, at the position that the move returns
(`eraseRange_rotate`, `eraseRange_removeIf`).
-/

set_option autoImplicit false

namespace OlpEdgeSdk.Base

variable {α : Type*}

/-- `std::rotate`: the elements from `nFirst` on change places with those before them, and the
position of the element that was the first is returned. -/
def rotate (l : List α) (first nFirst last : ℕ) : List α × ℕ :=
  (l.take first ++ ((l.take last).drop nFirst ++ (l.take nFirst).drop first) ++ l.drop last,
    first + (last - nFirst))

/-- `erase` of a range. -/
def eraseRange (l : List α) (first last : ℕ) : List α := l.take first ++ l.drop last

/-- `erase` of one element. -/
def eraseAt (l : List α) (pos : ℕ) : List α := eraseRange l pos (pos + 1)

/-- `insert` of one element. -/
def insertAt (l : List α) (pos : ℕ) (a : α) : List α := l.take pos ++ a :: l.drop pos

/-- `std::remove_if`: what stays is moved to the front, and its end is returned. -/
def removeIf (p : α → Bool) (l : List α) : List α × ℕ :=
  let kept := l.filter fun a => !p a
  (kept ++ l.drop kept.length, kept.length)

theorem insertAt_length (front back : List α) (a : α) :
    insertAt (front ++ back) front.length a = front ++ a :: back := by
  rw [insertAt, List.take_left, List.drop_left]

theorem eraseAt_length (front back : List α) (a : α) :
    eraseAt (front ++ a :: back) front.length = front ++ back := by
  rw [eraseAt, eraseRange, List.take_left, ← List.drop_drop, List.drop_left]
  rfl

section

variable {l : List α} {first nFirst last : ℕ}

/-- **A range is erased by rotating it to the end.** -/
theorem eraseRange_rotate (hfirst : first ≤ nFirst) (hnFirst : nFirst ≤ last)
    (hlast : last ≤ l.length) :
    eraseRange (rotate l first nFirst last).1 (rotate l first nFirst last).2 last =
      eraseRange l first nFirst := by
  have hfront : (l.take first ++ (l.take last).drop nFirst).length = first + (last - nFirst) := by
    rw [List.length_append, List.length_take_of_le (by omega), List.length_drop,
      List.length_take_of_le hlast]
  have hrange : (l.take first ++ (l.take last).drop nFirst ++ (l.take nFirst).drop first).length =
      last := by
    rw [List.length_append, hfront, List.length_drop, List.length_take_of_le (by omega)]
    omega
  have hback : (l.take last).drop nFirst ++ l.drop last = l.drop nFirst := by
    have hin : nFirst ≤ (l.take last).length := by
      rw [List.length_take_of_le hlast]
      exact hnFirst
    rw [← List.drop_append_of_le_length hin, List.take_append_drop]
  unfold eraseRange rotate
  dsimp only
  rw [← List.append_assoc, List.drop_left' hrange, List.append_assoc _ _ (l.drop last),
    List.take_left' hfront, List.append_assoc, hback]

/-- One element is erased by rotating it to the end. -/
theorem eraseAt_rotate (h : first < l.length) :
    eraseAt (rotate l first (first + 1) l.length).1 (rotate l first (first + 1) l.length).2 =
      eraseAt l first := by
  have hlast : (rotate l first (first + 1) l.length).2 + 1 = l.length := by
    show first + (l.length - (first + 1)) + 1 = l.length
    omega
  unfold eraseAt
  rw [hlast]
  exact eraseRange_rotate (Nat.le_succ first) h (Nat.le_refl _)

/-- What is behind the returned position is erased with what was to be removed. -/
theorem eraseRange_removeIf (p : α → Bool) :
    eraseRange (removeIf p l).1 (removeIf p l).2 l.length = l.filter fun a => !p a := by
  have hkept : (l.filter fun a => !p a).length ≤ l.length := List.length_filter_le _ l
  unfold eraseRange removeIf
  dsimp only
  rw [List.take_left, List.drop_of_length_le, List.append_nil]
  rw [List.length_append, List.length_drop]
  omega

end

end OlpEdgeSdk.Base

import Mathlib.Data.List.Flatten
import Mathlib.Data.Nat.Basic

/-!
# Regrouping bits

A list of words is a list of bits, the highest bit of a word first, and the bits can be cut into
words of another width. The last of these may be incomplete: it is filled up with zeros
(`packed`) or dropped (`whole`). Bits that were packed into narrower words come back whole.
-/

set_option autoImplicit false

namespace OlpEdgeSdk.Base.Regroup

/-- The bits of a word, the highest first. -/
def bits : {w : ℕ} → BitVec w → List Bool
  | 0, _ => []
  | w + 1, x => x.msb :: bits (x.setWidth w)

/-- The word at the front of a list of bits; missing bits are zeros. -/
def word : (w : ℕ) → List Bool → BitVec w
  | 0, _ => 0
  | w + 1, l => BitVec.cons (l.headD false) (word w l.tail)

/-- A number of words from the front of a list of bits. -/
def words (w : ℕ) : ℕ → List Bool → List (BitVec w)
  | 0, _ => []
  | count + 1, l => word w l :: words w count (l.drop w)

/-- All bits in words of another width, the last one filled up. -/
def packed {a : ℕ} (b : ℕ) (xs : List (BitVec a)) : List (BitVec b) :=
  words b ((a * xs.length + (b - 1)) / b) (xs.flatMap bits)

/-- The words of another width that are complete. -/
def whole {a : ℕ} (b : ℕ) (xs : List (BitVec a)) : List (BitVec b) :=
  words b (a * xs.length / b) (xs.flatMap bits)

variable {a b w : ℕ}

@[simp] theorem length_bits (x : BitVec w) : (bits x).length = w := by
  induction w with
  | zero => rfl
  | succ w ih => rw [bits, List.length_cons, ih]

@[simp] theorem length_words (count : ℕ) (l : List Bool) : (words w count l).length = count := by
  induction count generalizing l with
  | zero => rfl
  | succ count ih => rw [words, List.length_cons, ih]

@[simp] theorem length_flatMap_bits (xs : List (BitVec w)) :
    (xs.flatMap bits).length = w * xs.length := by
  induction xs with
  | nil => rfl
  | cons x xs ih =>
    rw [List.flatMap_cons, List.length_append, length_bits, ih, List.length_cons, Nat.mul_succ,
      Nat.add_comm]

theorem bits_cons (b : Bool) (x : BitVec w) : bits (BitVec.cons b x) = b :: bits x := by
  rw [bits, BitVec.msb_cons, BitVec.setWidth_cons]

/-- The bits of a word make up the word. -/
theorem word_bits_append (x : BitVec w) (rest : List Bool) : word w (bits x ++ rest) = x := by
  induction w with
  | zero => exact BitVec.eq_of_zero_length rfl
  | succ w ih =>
    rw [bits, List.cons_append, word, List.headD_cons, List.tail_cons, ih,
      BitVec.cons_msb_setWidth]

/-- **Words come back from their bits.** -/
theorem words_flatMap_bits_append (xs : List (BitVec w)) (rest : List Bool) :
    words w xs.length (xs.flatMap bits ++ rest) = xs := by
  induction xs with
  | nil => rfl
  | cons x xs ih =>
    rw [List.flatMap_cons, List.append_assoc, List.length_cons, words, word_bits_append,
      List.drop_left' (length_bits x), ih]

theorem bits_word_of_le {l : List Bool} (h : l.length ≤ w) :
    bits (word w l) = l ++ List.replicate (w - l.length) false := by
  induction w generalizing l with
  | zero =>
    obtain rfl : l = [] := List.length_eq_zero_iff.mp (by omega)
    rfl
  | succ w ih =>
    rw [word, bits_cons]
    cases l with
    | nil =>
      rw [List.headD_nil, List.tail_nil, ih (l := []) (Nat.zero_le w)]
      rfl
    | cons b l =>
      rw [List.headD_cons, List.tail_cons, ih (by simpa using h), List.length_cons,
        Nat.add_sub_add_right, List.cons_append]

theorem bits_word_of_ge {l : List Bool} (h : w ≤ l.length) : bits (word w l) = l.take w := by
  induction w generalizing l with
  | zero => rfl
  | succ w ih =>
    cases l with
    | nil => cases h
    | cons b l =>
      rw [word, bits_cons, List.headD_cons, List.tail_cons, ih (by simpa using h),
        List.take_succ_cons]

/-- Words that have room for all bits begin with them. -/
theorem flatMap_bits_words {count : ℕ} {l : List Bool} (h : l.length ≤ w * count) :
    ∃ rest, (words w count l).flatMap bits = l ++ rest := by
  induction count generalizing l with
  | zero =>
    obtain rfl : l = [] := List.length_eq_zero_iff.mp (by omega)
    exact ⟨[], rfl⟩
  | succ count ih =>
    rw [Nat.mul_succ] at h
    rcases Nat.le_total l.length w with hle | hge
    · rw [words, List.flatMap_cons, bits_word_of_le hle, List.append_assoc]
      exact ⟨_, rfl⟩
    · obtain ⟨rest, hrest⟩ := ih (l := l.drop w) (by rw [List.length_drop]; omega)
      refine ⟨rest, ?_⟩
      rw [words, List.flatMap_cons, bits_word_of_ge hge, hrest, ← List.append_assoc,
        List.take_append_drop]

/-- **Bits that were packed into narrower words come back whole.** What was filled up is less
than a word. -/
theorem whole_packed (hb : 0 < b) (hba : b ≤ a) (xs : List (BitVec a)) :
    whole a (packed b xs) = xs := by
  have hcount := Nat.div_add_mod (a * xs.length + (b - 1)) b
  have hmod := Nat.mod_lt (a * xs.length + (b - 1)) hb
  have hroom : (xs.flatMap bits).length ≤ b * ((a * xs.length + (b - 1)) / b) := by
    rw [length_flatMap_bits]
    omega
  have hwhole : b * ((a * xs.length + (b - 1)) / b) / a = xs.length := by
    rw [Nat.div_eq_iff (by omega)]
    rw [length_flatMap_bits] at hroom
    rw [Nat.mul_comm xs.length a]
    omega
  obtain ⟨rest, hrest⟩ := flatMap_bits_words hroom
  unfold whole packed
  rw [length_words, hwhole, hrest]
  exact words_flatMap_bits_append xs rest

end OlpEdgeSdk.Base.Regroup

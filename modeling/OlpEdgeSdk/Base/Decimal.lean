import Mathlib.Data.Int.Basic
import Mathlib.Data.List.TakeWhile
import Mathlib.Data.Nat.Basic

/-!
# Integers in decimal

The decimal form of an integer and the reading of one at the start of a text, as the C
library does both.
-/

set_option autoImplicit false

namespace OlpEdgeSdk.Base

/-- The decimal form: the digits, after a minus sign if the number is negative. -/
def decimal (n : ℤ) : List Char :=
  if n < 0 then '-' :: Nat.toDigits 10 n.natAbs else Nat.toDigits 10 n.natAbs

theorem mem_decimal {n : ℤ} {c : Char} (h : c ∈ decimal n) : c = '-' ∨ c.isDigit = true := by
  have hdigit : c ∈ Nat.toDigits 10 n.natAbs → c.isDigit = true :=
    Nat.isDigit_of_mem_toDigits (by decide) (by decide)
  unfold decimal at h
  split at h
  · rcases List.mem_cons.mp h with h | h
    · exact Or.inl h
    · exact Or.inr (hdigit h)
  · exact Or.inr (hdigit h)

theorem toDigits_ne_minus {n : ℕ} {l : List Char} : Nat.toDigits 10 n ≠ '-' :: l := by
  intro h
  have hminus : '-'.isDigit = true :=
    Nat.isDigit_of_mem_toDigits (by decide) (by decide) (h ▸ List.mem_cons_self)
  exact absurd hminus (by decide)

theorem toDigits_injective {m n : ℕ} (h : Nat.toDigits 10 m = Nat.toDigits 10 n) : m = n := by
  rw [← Nat.ofDigitChars_ten_toDigits (n := m), h, Nat.ofDigitChars_ten_toDigits]

/-- **The decimal form determines the number.** -/
theorem decimal_injective : Function.Injective decimal := by
  intro m n h
  unfold decimal at h
  split at h
  · split at h
    · have habs := toDigits_injective (List.cons.inj h).2
      omega
    · exact absurd h.symm toDigits_ne_minus
  · split at h
    · exact absurd h toDigits_ne_minus
    · have habs := toDigits_injective h
      omega

/-- The characters skipped before a number. -/
def isSpace (c : Char) : Bool :=
  c = ' ' || ('\t' ≤ c && c ≤ '\r')

/-- An optional sign, read off the start of a text. -/
def readSign : List Char → Bool × List Char
  | '-' :: text => (true, text)
  | '+' :: text => (false, text)
  | text => (false, text)

/-- The number at the start of a text: spaces, an optional sign and at least one digit.
What follows the digits is ignored. -/
def readDecimal (text : List Char) : Option ℤ :=
  let (negative, text) := readSign (text.dropWhile isSpace)
  let digits := text.takeWhile Char.isDigit
  if digits = [] then none
  else
    let n : ℤ := Nat.ofDigitChars 10 digits 0
    some (if negative then -n else n)

theorem not_isSpace_of_mem_decimal {n : ℤ} {c : Char} (h : c ∈ decimal n) : isSpace c = false := by
  rcases mem_decimal h with rfl | hdigit
  · decide
  · have hzero : '0'.val ≤ c.val := by
      simp only [Char.isDigit, Bool.and_eq_true, decide_eq_true_eq] at hdigit
      exact hdigit.1
    have hspace : c ≠ ' ' := by
      rintro rfl
      exact absurd hdigit (by decide)
    have hlate : ¬ c ≤ '\r' := by
      intro hle
      exact absurd (UInt32.le_trans hzero hle) (by decide)
    simp [isSpace, hspace, hlate]

theorem readSign_digits {digits : List Char} (h : ∀ c ∈ digits, c.isDigit = true) :
    readSign digits = (false, digits) := by
  unfold readSign
  split
  · exact absurd (h '-' List.mem_cons_self) (by decide)
  · exact absurd (h '+' List.mem_cons_self) (by decide)
  · rfl

/-- **Round trip.** The number read at the start of a decimal form is the number. -/
theorem readDecimal_decimal (n : ℤ) : readDecimal (decimal n) = some n := by
  have hdigits : ∀ c ∈ Nat.toDigits 10 n.natAbs, c.isDigit = true := fun c hc =>
    Nat.isDigit_of_mem_toDigits (by decide) (by decide) hc
  have hspaces : (decimal n).dropWhile isSpace = decimal n := by
    cases htext : decimal n with
    | nil => rfl
    | cons c text =>
      have hc : isSpace c = false :=
        not_isSpace_of_mem_decimal (n := n) (htext ▸ List.mem_cons_self)
      simp [hc]
  have htake : (Nat.toDigits 10 n.natAbs).takeWhile Char.isDigit = Nat.toDigits 10 n.natAbs :=
    List.takeWhile_eq_self_iff.mpr hdigits
  have hne : Nat.toDigits 10 n.natAbs ≠ [] := Nat.toDigits_ne_nil
  have hsign : readSign (decimal n) = (decide (n < 0), Nat.toDigits 10 n.natAbs) := by
    unfold decimal
    split
    · rename_i hneg
      rw [decide_eq_true hneg]
      rfl
    · rename_i hneg
      rw [decide_eq_false hneg]
      exact readSign_digits hdigits
  simp only [readDecimal, hspaces, hsign, htake, hne, if_false, Nat.ofDigitChars_ten_toDigits,
    Option.some.injEq, decide_eq_true_eq]
  split
  · omega
  · omega

end OlpEdgeSdk.Base

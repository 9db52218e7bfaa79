import Mathlib.Data.List.Lex
import Mathlib.Order.Lattice
import Mathlib.Tactic.Push

/-!
# The block of a prefix

In a list of words in lexicographic order, the words that start with a given prefix stand
together: a scan that starts at the first word not smaller than the prefix, and stops at the
first one that does not start with it, passes exactly them.
-/

set_option autoImplicit false

namespace OlpEdgeSdk.Base

variable {α : Type} [LinearOrder α]

/-- A word between a prefix and one of its extensions starts with the prefix. -/
theorem prefix_of_between {p x s : List α} (hlow : ¬ x < p) (hhigh : ¬ p ++ s < x) :
    p <+: x := by
  induction p generalizing x with
  | nil => exact List.nil_prefix
  | cons a p ih =>
    cases x with
    | nil => exact absurd (List.nil_lt_cons a p) hlow
    | cons b x =>
      rw [List.cons_lt_cons_iff] at hlow
      rw [List.cons_append, List.cons_lt_cons_iff] at hhigh
      push Not at hlow hhigh
      obtain rfl : a = b := le_antisymm hlow.1 hhigh.1
      exact (List.prefix_cons_inj a).mpr (ih (not_lt.mpr (hlow.2 rfl)) (not_lt.mpr (hhigh.2 rfl)))

theorem not_lt_of_start {p x : List α} (h : p <+: x) : ¬ x < p := by
  obtain ⟨s, rfl⟩ := h
  induction p with
  | nil => exact List.not_lt_nil _
  | cons a p ih =>
    rw [List.cons_append, List.cons_lt_cons_iff]
    rintro (hlt | ⟨-, hlt⟩)
    · exact lt_irrefl a hlt
    · exact ih hlt

section

variable {words : List (List α)} {p : List α} {below starts : List α → Bool}

/-- From the first word that is not smaller than the prefix on, the scan passes exactly the
words that start with it. -/
theorem takeWhile_eq_filter (hstarts : ∀ y, starts y = true ↔ p <+: y)
    (hsorted : words.Pairwise (· < ·)) (hlow : ∀ y ∈ words, ¬ y < p) :
    words.takeWhile starts = words.filter starts := by
  induction words with
  | nil => rfl
  | cons y words ih =>
    obtain ⟨hhead, htail⟩ := List.pairwise_cons.mp hsorted
    by_cases hy : starts y = true
    · rw [List.takeWhile_cons_of_pos hy, List.filter_cons_of_pos hy,
        ih htail fun z hz => hlow z (List.mem_cons_of_mem _ hz)]
    · rw [List.takeWhile_cons_of_neg hy]
      symm
      rw [List.filter_eq_nil_iff]
      intro z hz hz'
      -- a word behind `y` that started with the prefix would make `y` start with it
      obtain ⟨s, rfl⟩ := (hstarts z).mp hz'
      apply hy
      apply (hstarts y).mpr
      apply prefix_of_between (s := s) (hlow y List.mem_cons_self)
      cases List.mem_cons.mp hz with
      | inl heq => exact heq ▸ lt_irrefl _
      | inr hmem => exact not_lt.mpr (hhead _ hmem).le

/-- **The block.** The scan passes exactly the words that start with the prefix. -/
theorem block_eq_filter (hbelow : ∀ y, below y = true ↔ y < p)
    (hstarts : ∀ y, starts y = true ↔ p <+: y) (hsorted : words.Pairwise (· < ·)) :
    (words.dropWhile below).takeWhile starts = words.filter starts := by
  induction words with
  | nil => rfl
  | cons y words ih =>
    obtain ⟨hhead, htail⟩ := List.pairwise_cons.mp hsorted
    by_cases hlt : y < p
    · have hy : ¬ starts y = true := fun hbegins => not_lt_of_start ((hstarts y).mp hbegins) hlt
      rw [List.dropWhile_cons_of_pos ((hbelow y).mpr hlt), List.filter_cons_of_neg hy, ih htail]
    · rw [List.dropWhile_cons_of_neg fun hbelow' => hlt ((hbelow y).mp hbelow')]
      apply takeWhile_eq_filter hstarts hsorted
      intro z hz
      cases List.mem_cons.mp hz with
      | inl heq => exact heq ▸ hlt
      | inr hmem => exact fun hz' => hlt ((hhead z hmem).trans hz')

end

end OlpEdgeSdk.Base

import Mathlib.Algebra.Order.Ring.Int
import OlpEdgeSdk.Analysis.HeaderLines

/-!
# Searching a text in whatever case

`CaseInsensitiveFind` looks at the offsets below the difference of the two lengths. The last
offset at which the text would fit is that difference, so a text that stands there and nowhere
before is missed. For a text longer than the string the difference wraps, and the search goes
on to the terminating null and past it (`findLoop_past`). Else it finds the first occurrence
from the offset on (`isFirstFrom_find_iff`).
-/

set_option autoImplicit false

namespace OlpEdgeSdk.Analysis.InsensitiveSearch

open OlpEdgeSdk.Model NetworkUtils HeaderLines

/-! ## The first index from a start on -/

section FirstIndex

/-- The least index from a start on that has a property, or that there is none. -/
def IsFirstFrom (P : ℕ → Prop) (start : ℕ) : Option ℕ → Prop
  | some i => (start ≤ i ∧ P i) ∧ ∀ j, start ≤ j → j < i → ¬ P j
  | none => ∀ j, start ≤ j → ¬ P j

variable {p : ℕ → Bool} {start turns : ℕ}

/-- The first index of a range is the first one of all unless the range has none and an index
beyond it has the property. -/
theorem isFirstFrom_find_iff :
    IsFirstFrom (p · = true) start ((List.range' start turns).find? p) ↔
      ((∀ j, start ≤ j → j < start + turns → ¬ p j = true) →
        ∀ j, start + turns ≤ j → ¬ p j = true) := by
  cases hfind : (List.range' start turns).find? p with
  | none =>
    rw [List.find?_eq_none] at hfind
    have hrange : ∀ j, start ≤ j → j < start + turns → ¬ p j = true := by
      intro j hstart hend
      apply hfind
      exact List.mem_range'_1.mpr ⟨hstart, hend⟩
    constructor
    · intro hnone _ j hj
      exact hnone j (by omega)
    · intro hbeyond j hj
      by_cases hend : j < start + turns
      · exact hrange j hj hend
      · exact hbeyond hrange j (not_lt.mp hend)
  | some i =>
    rw [List.find?_range'_eq_some, List.mem_range'_1] at hfind
    obtain ⟨hi, ⟨hstart, hend⟩, hbefore⟩ := hfind
    constructor
    · intro _ hrange
      exact absurd hi (hrange i hstart hend)
    · intro _
      refine ⟨⟨hstart, hi⟩, ?_⟩
      intro j hj hlt
      have hno := hbefore j hj hlt
      rw [Bool.not_eq_true'] at hno
      show ¬ p j = true
      rw [hno]
      exact Bool.false_ne_true

end FirstIndex

/-! ## Occurrences up to ASCII case -/

/-- The text stands in the string at an index, up to ASCII case. -/
def OccursAt (str text : List Char) (i : ℕ) : Prop :=
  ((str.drop i).take text.length).map Char.toUpper = text.map Char.toUpper

theorem simpleToUpper_eq_toUpper : simpleToUpper = Char.toUpper := by
  have hletters : ∀ n < 26,
      simpleToUpper (Char.ofNat (n + 97)) = (Char.ofNat (n + 97)).toUpper := by decide
  funext c
  by_cases h : 'a' ≤ c ∧ c ≤ 'z'
  · have hlow : 97 ≤ c.toNat := h.1
    have hhigh : c.toNat ≤ 122 := h.2
    have hc : Char.ofNat (c.toNat - 97 + 97) = c := by
      rw [Nat.sub_add_cancel hlow, Char.ofNat_toNat]
    rw [← hc]
    exact hletters (c.toNat - 97) (by omega)
  · have hval : ¬ ('a'.val ≤ c.val ∧ c.val ≤ 'z'.val) := h
    delta Char.toUpper
    rw [simpleToUpper, if_neg h, dif_neg hval]

variable {str text : List Char}

theorem hasAt_iff (i : ℕ) : hasAt str i text = true ↔ OccursAt str text i := by
  unfold hasAt OccursAt
  rw [decide_eq_true_eq, simpleToUpper_eq_toUpper]

/-- The text stands at the end of the string, and nowhere else from the offset on. -/
def OnlyAtEnd (str text : List Char) (offset : ℕ) : Prop :=
  offset + text.length ≤ str.length ∧ OccursAt str text (str.length - text.length) ∧
    ∀ i, offset ≤ i → i + text.length < str.length → ¬ OccursAt str text i

/-- A text that occurs has its place in the string. -/
theorem add_length_le_of_occursAt (hne : text ≠ []) {i : ℕ} (h : OccursAt str text i) :
    i + text.length ≤ str.length := by
  have hroom := length_le_of_hasAt ((hasAt_iff i).mpr h)
  have hpos := List.length_pos_of_ne_nil hne
  omega

/-! ## The search -/

section Search

variable {offset : ℕ}

/-- A string with room for the text is searched up to the last place where it fits. -/
theorem isFirstFrom_findAt_iff (hne : text ≠ []) :
    IsFirstFrom (OccursAt str text) offset (findAt str text offset) ↔
      ¬ OnlyAtEnd str text offset := by
  have hP : OccursAt str text = fun i => hasAt str i text = true := by
    funext i
    exact propext (hasAt_iff i).symm
  rw [hP, findAt, isFirstFrom_find_iff]
  simp only [hasAt_iff]
  constructor
  · rintro hbeyond ⟨hroom, hend, hbefore⟩
    apply hbeyond ?_ (str.length - text.length) (by omega) hend
    intro j hstart hlt
    exact hbefore j hstart (by omega)
  · intro hnot hbefore j hj hoccurs
    have hplace := add_length_le_of_occursAt hne hoccurs
    apply hnot
    refine ⟨by omega, ?_, ?_⟩
    · rwa [show str.length - text.length = j by omega]
    · intro i hstart hlt
      exact hbefore i hstart (by omega)

/-- **Run.** Past the terminating null the loop reads no more: with a text longer than the
string no turn before finds it. -/
theorem findLoop_past (hshort : str.length < text.length) {turns : ℕ} (hpos : 0 < turns)
    (h : str.length + 1 < offset + turns) :
    findLoop str text turns offset = .error .readPast := by
  induction turns generalizing offset with
  | zero => exact absurd hpos (lt_irrefl 0)
  | succ turns ih =>
    have hne : text ≠ [] := List.ne_nil_of_length_pos (by omega)
    obtain ⟨c, rest, rfl⟩ := List.exists_cons_of_ne_nil hne
    unfold findLoop
    by_cases hlt : str.length < offset
    · have hread : charAt str offset = .error .readPast := by
        unfold charAt
        rw [List.getElem?_eq_none hlt.le, if_neg hlt.ne']
      rw [hread]
      rfl
    · have hread : ∃ d, charAt str offset = .ok d := by
        rcases (not_lt.mp hlt).lt_or_eq with hin | hend
        · exact ⟨str[offset], charAt_of_lt hin⟩
        · exact ⟨Char.ofNat 0, hend ▸ charAt_length str⟩
      have hno : hasAt str offset (c :: rest) = false := by
        by_contra hyes
        have hroom := length_le_of_hasAt (Bool.not_eq_false _ ▸ hyes)
        omega
      obtain ⟨d, hd⟩ := hread
      rw [hd, charAt_of_lt (show 0 < (c :: rest).length from Nat.succ_pos _),
        caseInsensitiveStartsWith_eq (not_lt.mp hlt), hno, ih (by omega) (by omega)]
      simp only [bind, Except.bind]
      split
      · rfl
      · rfl

/-- **`CaseInsensitiveFind` is exact** for a text that the string has room for unless the text
stands at the end only, and for a longer one if the offset is beyond the wrapped difference. -/
theorem caseInsensitiveFind_exact_iff (hne : text ≠ []) (hsize : text.length < 2 ^ 63)
    (offset : ℕ) :
    (∃ found, caseInsensitiveFind str text offset = .ok found ∧
        IsFirstFrom (OccursAt str text) offset found) ↔
      (text.length ≤ str.length ∧ ¬ OnlyAtEnd str text offset) ∨
        (str.length < text.length ∧ 2 ^ 64 - (text.length - str.length) ≤ offset) := by
  by_cases h : text.length ≤ str.length
  · have hexact : IsFirstFrom (OccursAt str text) offset (findAt str text offset) ↔
        ¬ OnlyAtEnd str text offset := isFirstFrom_findAt_iff hne
    rw [caseInsensitiveFind_eq hne h]
    constructor
    · rintro ⟨found, hfound, hfirst⟩
      cases hfound
      exact Or.inl ⟨h, hexact.mp hfirst⟩
    · rintro (⟨-, hnot⟩ | ⟨hlonger, -⟩)
      · exact ⟨_, rfl, hexact.mpr hnot⟩
      · exact absurd h (not_le.mpr hlonger)
  · have hlonger := not_le.mp h
    have hdiff : sizeSub str.length text.length = 2 ^ 64 - (text.length - str.length) := by
      unfold sizeSub
      rw [if_neg h]
      omega
    unfold caseInsensitiveFind
    rw [hdiff]
    by_cases hbeyond : 2 ^ 64 - (text.length - str.length) ≤ offset
    · rw [Nat.sub_eq_zero_of_le hbeyond]
      refine iff_of_true ⟨none, rfl, ?_⟩ (Or.inr ⟨hlonger, hbeyond⟩)
      intro i _ hoccurs
      have hplace := add_length_le_of_occursAt hne hoccurs
      omega
    · rw [findLoop_past hlonger (by omega) (by omega)]
      apply iff_of_false
      · rintro ⟨found, hfound, -⟩
        cases hfound
      · rintro (⟨hle, -⟩ | ⟨-, hle⟩)
        · exact h hle
        · exact hbeyond hle

/-- The text is found in front of the end, in another case. -/
theorem caseInsensitiveFind_exact_iff_inside :
    ((∃ found, caseInsensitiveFind "Max-Age=60".toList "max-age=".toList 0 = .ok found ∧
        IsFirstFrom (OccursAt "Max-Age=60".toList "max-age=".toList) 0 found) ↔
      ("max-age=".toList.length ≤ "Max-Age=60".toList.length ∧
          ¬ OnlyAtEnd "Max-Age=60".toList "max-age=".toList 0) ∨
        ("Max-Age=60".toList.length < "max-age=".toList.length ∧
          2 ^ 64 - ("max-age=".toList.length - "Max-Age=60".toList.length) ≤ 0)) ∧
      caseInsensitiveFind "Max-Age=60".toList "max-age=".toList 0 = .ok (some 0) := by
  refine ⟨caseInsensitiveFind_exact_iff ?_ ?_ 0, by rfl⟩
  · decide
  · decide

/-- A text that is the whole string is not found, and a longer one is looked for beyond the end
of the string. -/
theorem not_caseInsensitiveFind_exact :
    (¬ ∀ (str text : List Char) (offset : ℕ), text ≠ [] →
      ∃ found, caseInsensitiveFind str text offset = .ok found ∧
        IsFirstFrom (OccursAt str text) offset found) ∧
      caseInsensitiveFind "a".toList "a".toList 0 = .ok none ∧
      caseInsensitiveFind "a".toList "ab".toList 0 = .error .readPast := by
  have hmissed : caseInsensitiveFind "a".toList "a".toList 0 = .ok none := by rfl
  have hthere : OccursAt "a".toList "a".toList 0 := by rfl
  have hpast : caseInsensitiveFind "a".toList "ab".toList 0 = .error .readPast := by
    unfold caseInsensitiveFind
    apply findLoop_past
    · decide
    · decide
    · decide
  refine ⟨?_, hmissed, hpast⟩
  intro h
  obtain ⟨found, hfound, hfirst⟩ := h "a".toList "a".toList 0 (by decide)
  rw [hmissed] at hfound
  cases hfound
  exact hfirst 0 le_rfl hthere

end Search

end OlpEdgeSdk.Analysis.InsensitiveSearch

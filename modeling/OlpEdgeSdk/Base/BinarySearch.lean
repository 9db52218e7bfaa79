import Mathlib.Data.List.TakeWhile
import Mathlib.Order.Lattice

/-!
# Binary search in a list

The search halves a range in which the elements that a predicate holds of come first
(`Partitioned`), and returns the position of the first other one. On such a list that position
is the length of the part in front (`partitionPoint_eq`), which `partitionPoint_append` gives
for a list that is cut there.
-/

set_option autoImplicit false

namespace OlpEdgeSdk.Base

variable {α : Type*}

/-- The halving of a range that starts at `first` and has `len` elements, of which `inFront`
tells whether they are before the position searched. -/
def halvings (inFront : ℕ → Bool) : ℕ → ℕ → ℕ → ℕ
  | 0, first, _ => first
  | fuel + 1, first, len =>
    if len = 0 then first
    else if inFront (first + len / 2) then
      halvings inFront fuel (first + len / 2 + 1) (len - len / 2 - 1)
    else halvings inFront fuel first (len / 2)

/-- The position of the first element that the predicate does not hold of. -/
def partitionPoint (p : α → Bool) (l : List α) : ℕ :=
  halvings (fun i => l[i]?.any p) l.length 0 l.length

/-- The elements that the predicate holds of come first. -/
def Partitioned (p : α → Bool) (l : List α) : Prop :=
  l.Pairwise fun a b => p b = true → p a = true

section

variable {p : α → Bool} {l front back : List α}

/-- **Run.** The halvings end at the position that divides the range. -/
theorem halvings_eq {inFront : ℕ → Bool} {fuel first len pos : ℕ} (hfuel : len ≤ fuel)
    (hpos : first ≤ pos ∧ pos ≤ first + len)
    (h : ∀ i, first ≤ i → i < first + len → (inFront i = true ↔ i < pos)) :
    halvings inFront fuel first len = pos := by
  induction fuel generalizing first len with
  | zero =>
    show first = pos
    omega
  | succ fuel ih =>
    unfold halvings
    split
    · omega
    · next hlen =>
      have hmiddle := h (first + len / 2) (by omega) (by omega)
      split
      · next hfront =>
        have hlt := hmiddle.mp hfront
        apply ih (by omega) (by omega)
        intro i hlow hhigh
        exact h i (by omega) (by omega)
      · next hback =>
        have hge := mt hmiddle.mpr hback
        apply ih (by omega) (by omega)
        intro i hlow hhigh
        exact h i (by omega) (by omega)

/-- **The search finds where a list is cut** by the predicate. -/
theorem partitionPoint_append (hfront : ∀ a ∈ front, p a = true)
    (hback : ∀ a ∈ back, p a = false) : partitionPoint p (front ++ back) = front.length := by
  apply halvings_eq le_rfl
  · rw [List.length_append]
    omega
  · intro i _ hi
    by_cases hlt : i < front.length
    · have hget : (front ++ back)[i]? = some front[i] := by
        rw [List.getElem?_append_left hlt, List.getElem?_eq_getElem hlt]
      rw [hget]
      exact iff_of_true (hfront _ (List.getElem_mem hlt)) hlt
    · have hlen : i - front.length < back.length := by
        rw [List.length_append] at hi
        omega
      have hget : (front ++ back)[i]? = some back[i - front.length] := by
        rw [List.getElem?_append_right (not_lt.mp hlt), List.getElem?_eq_getElem hlen]
      rw [hget]
      apply iff_of_false _ hlt
      rw [Option.any_some, hback _ (List.getElem_mem hlen)]
      exact Bool.false_ne_true

/-- A partitioned list is cut behind the elements that the predicate holds of. -/
theorem exists_cut (h : Partitioned p l) : ∃ front back, l = front ++ back ∧
    (∀ a ∈ front, p a = true) ∧ (∀ a ∈ back, p a = false) := by
  induction l with
  | nil => exact ⟨[], [], rfl, by simp, by simp⟩
  | cons a l ih =>
    rw [Partitioned, List.pairwise_cons] at h
    cases ha : p a with
    | true =>
      obtain ⟨front, back, rfl, hfront, hback⟩ := ih h.2
      exact ⟨a :: front, back, rfl, List.forall_mem_cons.mpr ⟨ha, hfront⟩, hback⟩
    | false =>
      refine ⟨[], a :: l, rfl, by simp, List.forall_mem_cons.mpr ⟨ha, ?_⟩⟩
      intro b hb
      have hba := mt (h.1 b hb)
      rw [ha] at hba
      exact Bool.eq_false_iff.mpr (hba Bool.false_ne_true)

end

/-! ## Lists sorted by a key -/

section

variable {K : Type*} [LinearOrder K]

/-- The elements are in the order of their keys. -/
def SortedBy (key : α → K) (l : List α) : Prop := l.Pairwise fun a b => key a ≤ key b

/-- `std::lower_bound`: the first element whose key is not below the one searched. -/
def lowerBound (key : α → K) (l : List α) (k : K) : ℕ := partitionPoint (fun a => key a < k) l

/-- `std::upper_bound`: the first element whose key is above the one searched. -/
def upperBound (key : α → K) (l : List α) (k : K) : ℕ := partitionPoint (fun a => !(k < key a)) l

variable {key : α → K} {l : List α}

/-- **`lower_bound`** cuts a sorted list in front of the key. -/
theorem exists_lowerBound (h : SortedBy key l) (k : K) : ∃ front back, l = front ++ back ∧
    (∀ a ∈ front, key a < k) ∧ (∀ a ∈ back, k ≤ key a) ∧
    lowerBound key l k = front.length := by
  have hparts : Partitioned (fun a => decide (key a < k)) l := by
    apply List.Pairwise.imp _ h
    intro a b hab hb
    exact decide_eq_true (hab.trans_lt (of_decide_eq_true hb))
  obtain ⟨front, back, rfl, hfront, hback⟩ := exists_cut hparts
  refine ⟨front, back, rfl, ?_, ?_, partitionPoint_append hfront hback⟩
  · intro a ha
    exact of_decide_eq_true (hfront a ha)
  · intro a ha
    exact not_lt.mp (of_decide_eq_false (hback a ha))

/-- **`upper_bound`** cuts a sorted list behind the key. -/
theorem exists_upperBound (h : SortedBy key l) (k : K) : ∃ front back, l = front ++ back ∧
    (∀ a ∈ front, key a ≤ k) ∧ (∀ a ∈ back, k < key a) ∧
    upperBound key l k = front.length := by
  have hparts : Partitioned (fun a => !decide (k < key a)) l := by
    apply List.Pairwise.imp _ h
    intro a b hab hb
    rw [Bool.not_eq_true', decide_eq_false_iff_not, not_lt] at hb ⊢
    exact hab.trans hb
  obtain ⟨front, back, rfl, hfront, hback⟩ := exists_cut hparts
  refine ⟨front, back, rfl, ?_, ?_, partitionPoint_append hfront hback⟩
  · intro a ha
    have hle := hfront a ha
    rwa [Bool.not_eq_true', decide_eq_false_iff_not, not_lt] at hle
  · intro a ha
    have hlt := hback a ha
    rwa [Bool.not_eq_false', decide_eq_true_eq] at hlt

/-- **A key is looked up** in a sorted list: what `lower_bound` points at has the key if an
element of the list has it. -/
theorem lookup_lowerBound (h : SortedBy key l) (k : K) :
    (∃ front a back, l = front ++ a :: back ∧ key a = k ∧ (∀ b ∈ front, key b < k) ∧
        lowerBound key l k = front.length ∧ l[lowerBound key l k]? = some a) ∨
      (k ∉ l.map key ∧ ∀ a, l[lowerBound key l k]? = some a → key a ≠ k) := by
  obtain ⟨front, back, rfl, hfront, hback, hpos⟩ := exists_lowerBound h k
  have hget : (front ++ back)[lowerBound key (front ++ back) k]? = back[0]? := by
    rw [hpos, List.getElem?_append_right le_rfl, Nat.sub_self]
  cases back with
  | nil =>
    right
    refine ⟨?_, ?_⟩
    · rw [List.append_nil, List.mem_map]
      rintro ⟨a, ha, hkey⟩
      exact (hfront a ha).ne hkey
    · intro a ha
      rw [hget] at ha
      cases ha
  | cons b back =>
    by_cases hkey : key b = k
    · exact Or.inl ⟨front, b, back, rfl, hkey, hfront, hpos, hget⟩
    · have hlt : k < key b := lt_of_le_of_ne (hback b List.mem_cons_self) (Ne.symm hkey)
      have hsorted : ∀ c ∈ back, key b ≤ key c := by
        rw [SortedBy, List.pairwise_append, List.pairwise_cons] at h
        exact h.2.1.1
      right
      refine ⟨?_, ?_⟩
      · rw [List.mem_map]
        rintro ⟨a, ha, hkeya⟩
        rcases List.mem_append.mp ha with hin | hin
        · exact (hfront a hin).ne hkeya
        · rcases List.mem_cons.mp hin with rfl | hin
          · exact hkey hkeya
          · exact (hlt.trans_le (hsorted a hin)).ne hkeya.symm
      · intro a ha
        rw [hget] at ha
        cases ha
        exact hkey

/-- A list with an element put in behind those of its key is sorted. -/
theorem sortedBy_insert {front back : List α} {a : α} (h : SortedBy key (front ++ back))
    (hfront : ∀ b ∈ front, key b ≤ key a) (hback : ∀ b ∈ back, key a ≤ key b) :
    SortedBy key (front ++ a :: back) := by
  rw [SortedBy, List.pairwise_append] at h ⊢
  refine ⟨h.1, List.pairwise_cons.mpr ⟨hback, h.2.1⟩, ?_⟩
  intro b hb
  rw [List.forall_mem_cons]
  exact ⟨hfront b hb, h.2.2 b hb⟩

end

end OlpEdgeSdk.Base

import Mathlib.Order.Basic
import OlpEdgeSdk.Model.TileKeyLevels

/-!
# The nearest level of a set

The least element of a set of levels comes from a table indexed by the top bits of a product,
the greatest one from a logarithm. The nearest one is searched outwards from the reference
level, moved between the two; moving it there does not change which elements are nearest.
-/

set_option autoImplicit false

namespace OlpEdgeSdk.Analysis.NearestLevels

open OlpEdgeSdk.Model TileKeyLevels

variable {levels : BitVec 32}

theorem lt_of_getLsbD {l : ℕ} (h : levels.getLsbD l = true) : l < 32 := by
  by_contra hge
  rw [BitVec.getLsbD_of_ge _ _ (by omega)] at h
  cases h

theorem exists_getLsbD (h : levels ≠ 0#32) : ∃ l, levels.getLsbD l = true := by
  by_contra hnone
  apply h
  apply BitVec.eq_of_getLsbD_eq
  intro l _
  rw [BitVec.getLsbD_zero, ← Bool.not_eq_true]
  exact fun hl => hnone ⟨l, hl⟩

/-! ## The least and the greatest level -/

/-- A word and its negative share the lowest bit of the word. -/
theorem and_neg_of_lowest {w i : ℕ} {x : BitVec w} (hi : x.getLsbD i = true)
    (hlow : ∀ j < i, x.getLsbD j = false) : x &&& -x = 1#w <<< i := by
  apply BitVec.eq_of_getLsbD_eq
  intro j hj
  rw [BitVec.getLsbD_and, BitVec.getLsbD_neg, BitVec.getLsbD_shiftLeft, BitVec.getLsbD_one]
  rcases lt_trichotomy j i with hlt | rfl | hgt
  · simp [hlow j hlt, hlt]
  · have hnone : ¬ ∃ k < j, x.getLsbD k = true := by
      rintro ⟨k, hk, hset⟩
      rw [hlow k hk] at hset
      cases hset
    rw [hi, decide_eq_false hnone]
    simp [hj, show 0 < w by omega]
  · have hsome : ∃ k < j, x.getLsbD k = true := ⟨i, hgt, hi⟩
    have hnot : ¬ j - i = 0 := by omega
    simp [hsome, hnot, hj]

/-- **The table** holds the place of a single bit where its product points. -/
theorem lookupTable_getD {i : ℕ} (h : i < 32) :
    lookupTable.getD (((1#64 <<< i) * 0x077CB531#64).setWidth 32 >>> 27).toNat 0#32 =
      BitVec.ofNat 32 i := by
  have hall : ∀ i : Fin 32,
      lookupTable.getD (((1#64 <<< i.val) * 0x077CB531#64).setWidth 32 >>> 27).toNat 0#32 =
        BitVec.ofNat 32 i.val := by
    decide
  exact hall ⟨i, h⟩

/-- **`GetMinTileKeyLevel` is the least level.** -/
theorem getMinTileKeyLevel_of_least {l : ℕ} (hl : levels.getLsbD l = true)
    (hleast : ∀ j < l, levels.getLsbD j = false) :
    getMinTileKeyLevel levels = some (BitVec.ofNat 32 l) := by
  have hlt := lt_of_getLsbD hl
  have hne : levels ≠ 0#32 := by
    rintro rfl
    simp at hl
  have hbits : levels.setWidth 64 &&& -levels.setWidth 64 = 1#64 <<< l := by
    apply and_neg_of_lowest
    · simp [BitVec.getLsbD_setWidth, hl]
      omega
    · intro j hj
      simp [BitVec.getLsbD_setWidth, hleast j hj]
  unfold getMinTileKeyLevel
  rw [if_neg hne]
  simp only [hbits, lookupTable_getD hlt]

/-- **`GetMaxTileKeyLevel` is the greatest level.** -/
theorem getMaxTileKeyLevel_of_greatest {l : ℕ} (hl : levels.getLsbD l = true)
    (hgreatest : ∀ j, l < j → levels.getLsbD j = false) :
    getMaxTileKeyLevel levels = some (BitVec.ofNat 32 l) := by
  have hne : levels ≠ 0#32 := by
    rintro rfl
    simp at hl
  have hnat : levels.toNat ≠ 0 := fun heq => hne (BitVec.eq_of_toNat_eq heq)
  have hlog : levels.toNat.log2 = l := by
    rcases lt_trichotomy levels.toNat.log2 l with hlt | heq | hgt
    · have hzero : levels.toNat.testBit l = false := by
        apply Nat.testBit_lt_two_pow
        exact (Nat.log2_lt hnat).mp hlt
      rw [BitVec.testBit_toNat, hl] at hzero
      cases hzero
    · exact heq
    · have hset := Nat.testBit_log2 hnat
      rw [BitVec.testBit_toNat, hgreatest _ hgt] at hset
      cases hset
  have hwidth : (levels.setWidth 64).toNat = levels.toNat := by
    rw [BitVec.toNat_setWidth, Nat.mod_eq_of_lt (by have := levels.isLt; omega)]
  unfold getMaxTileKeyLevel
  rw [if_neg hne, hwidth, hlog]

/-- A set that is not empty has a least and a greatest level. -/
theorem exists_least_greatest (h : levels ≠ 0#32) :
    ∃ least greatest, levels.getLsbD least = true ∧ levels.getLsbD greatest = true ∧
      ∀ l, levels.getLsbD l = true → least ≤ l ∧ l ≤ greatest := by
  have hsome : ∃ l, levels.getLsbD l = true := exists_getLsbD h
  obtain ⟨l, hl⟩ := exists_getLsbD h
  have hbound := lt_of_getLsbD hl
  refine ⟨Nat.find hsome, Nat.findGreatest (fun l => levels.getLsbD l = true) 31,
    Nat.find_spec hsome, Nat.findGreatest_spec (P := fun l => levels.getLsbD l = true)
      (show l ≤ 31 by omega) hl, ?_⟩
  intro j hj
  have hlt := lt_of_getLsbD hj
  exact ⟨Nat.find_min' hsome hj, Nat.le_findGreatest (by omega) hj⟩

theorem eq_false_of_lt_least {least j : ℕ}
    (hleast : ∀ l, levels.getLsbD l = true → least ≤ l) (h : j < least) :
    levels.getLsbD j = false := by
  rw [← Bool.not_eq_true]
  intro hj
  exact absurd (hleast j hj) (by omega)

theorem eq_false_of_greatest_lt {greatest j : ℕ}
    (hgreatest : ∀ l, levels.getLsbD l = true → l ≤ greatest) (h : greatest < j) :
    levels.getLsbD j = false := by
  rw [← Bool.not_eq_true]
  intro hj
  exact absurd (hgreatest j hj) (by omega)

/-! ## The search -/

/-- How far two levels are apart. -/
def distance (a b : ℕ) : ℕ := (a - b) + (b - a)

/-- `l` is nearest to `reference` in the set, the upper one of two that are equally near. -/
def Nearest (levels : BitVec 32) (reference l : ℕ) : Prop :=
  levels.getLsbD l = true ∧ ∀ j, levels.getLsbD j = true →
    distance l reference < distance j reference ∨
      (distance l reference = distance j reference ∧ j ≤ l)

/-- A turn of the search, counted in natural numbers. -/
theorem levelAtDistance_eq (levels : BitVec 32) (c dist : ℕ) :
    levelAtDistance levels c dist =
      if levels.getLsbD (c + dist) = true then some ↑(c + dist)
      else if dist ≤ c ∧ levels.getLsbD (c - dist) = true then some ↑(c - dist)
      else none := by
  have hup : ((c : ℤ) + dist < 32 ∧ levels.getLsbD ((c : ℤ) + dist).toNat = true) ↔
      levels.getLsbD (c + dist) = true := by
    rw [show ((c : ℤ) + dist).toNat = c + dist by omega]
    constructor
    · exact fun h => h.2
    · intro h
      have hlt := lt_of_getLsbD h
      exact ⟨by omega, h⟩
  have hdown : ((dist : ℤ) ≤ c ∧ levels.getLsbD ((c : ℤ) - dist).toNat = true) ↔
      dist ≤ c ∧ levels.getLsbD (c - dist) = true := by
    rw [show ((c : ℤ) - dist).toNat = c - dist by omega, Int.ofNat_le]
  simp only [levelAtDistance, hup, hdown]
  split
  · rfl
  · split
    · next h => rw [Int.ofNat_sub h.1]
    · rfl

/-- A loop that stops at its first result. -/
theorem findSome?_range_eq {β : Type} {f : ℕ → Option β} {n d : ℕ} {b : β} (hd : d < n)
    (hnone : ∀ i < d, f i = none) (h : f d = some b) : (List.range n).findSome? f = some b := by
  induction n with
  | zero => omega
  | succ n ih =>
    rw [List.range_succ, List.findSome?_append]
    by_cases hlt : d < n
    · rw [ih hlt, Option.some_or]
    · have heq : d = n := by omega
      have hrest : (List.range n).findSome? f = none := by
        rw [List.findSome?_eq_none_iff]
        intro i hi
        exact hnone i (by rw [heq]; exact List.mem_range.mp hi)
      rw [hrest, Option.none_or, ← heq, List.findSome?_singleton, h]

/-- **The search outwards** ends at the nearest level, when there is one within reach. -/
theorem findSome_levelAtDistance {c : ℕ} (maxDist : ℕ) {l : ℕ} (hl : levels.getLsbD l = true)
    (hreach : distance l c ≤ maxDist) :
    ∃ r : ℕ, (List.range (maxDist + 1)).findSome? (levelAtDistance levels c) = some (r : ℤ) ∧
      Nearest levels c r := by
  have hfinds : ∀ j, levels.getLsbD j = true →
      (levelAtDistance levels c (distance j c)).isSome = true := by
    intro j hj
    rw [levelAtDistance_eq]
    by_cases hup : levels.getLsbD (c + distance j c) = true
    · rw [if_pos hup]
      rfl
    · have hbelow : distance j c ≤ c ∧ c - distance j c = j := by
        by_cases hle : c ≤ j
        · rw [show c + distance j c = j by unfold distance; omega] at hup
          exact absurd hj hup
        · unfold distance
          omega
      rw [if_neg hup, if_pos ⟨hbelow.1, by rw [hbelow.2]; exact hj⟩]
      rfl
  have hsome : ∃ d, (levelAtDistance levels c d).isSome = true := ⟨_, hfinds l hl⟩
  have hfirst : ∀ d < Nat.find hsome, levelAtDistance levels c d = none := by
    intro d hd
    have hnot := Nat.find_min hsome hd
    rwa [Bool.not_eq_true, Option.isSome_eq_false_iff, Option.isNone_iff_eq_none] at hnot
  have hle : ∀ j, levels.getLsbD j = true → Nat.find hsome ≤ distance j c :=
    fun j hj => Nat.find_min' hsome (hfinds j hj)
  have hat := Nat.find_spec hsome
  generalize Nat.find hsome = d at hfirst hle hat
  have hfound : ∀ r : ℤ, levelAtDistance levels c d = some r →
      (List.range (maxDist + 1)).findSome? (levelAtDistance levels c) = some r :=
    fun r hr => findSome?_range_eq (by have := hle l hl; omega) hfirst hr
  rw [levelAtDistance_eq] at hat
  by_cases hup : levels.getLsbD (c + d) = true
  · refine ⟨c + d, hfound _ (by rw [levelAtDistance_eq, if_pos hup]), hup, ?_⟩
    intro j hj
    have hfar := hle j hj
    unfold distance at hfar ⊢
    omega
  · rw [if_neg hup] at hat
    by_cases hdown : d ≤ c ∧ levels.getLsbD (c - d) = true
    · refine ⟨c - d, hfound _ (by rw [levelAtDistance_eq, if_neg hup, if_pos hdown]), hdown.2, ?_⟩
      intro j hj
      have hfar := hle j hj
      have hne : j ≠ c + d := by
        rintro rfl
        exact hup hj
      unfold distance at hfar ⊢
      omega
    · rw [if_neg hdown] at hat
      cases hat

/-- Moving the reference level into the range of the set keeps the nearest level. -/
theorem Nearest.of_clamped {least greatest reference l : ℕ}
    (hrange : ∀ j, levels.getLsbD j = true → least ≤ j ∧ j ≤ greatest)
    (h : Nearest levels (max (min reference greatest) least) l) : Nearest levels reference l := by
  obtain ⟨hl, hnear⟩ := h
  refine ⟨hl, ?_⟩
  intro j hj
  have hfar := hnear j hj
  have hj' := hrange j hj
  have hl' := hrange l hl
  unfold distance at hfar ⊢
  omega

/-- The difference of two levels as a signed word. -/
theorem toInt_sub_of_lt {a b : BitVec 32} (ha : a.toNat < 32) (hb : b.toNat < 32) :
    (a - b).toInt = a.toNat - b.toNat := by
  rw [BitVec.toInt_eq_toNat_cond, BitVec.toNat_sub]
  split
  · omega
  · omega

/-- **`GetNearestAvailableTileKeyLevel` finds the nearest level.** -/
theorem getNearest_of_range {least greatest : ℕ} (hleast : levels.getLsbD least = true)
    (hgreatest : levels.getLsbD greatest = true)
    (hrange : ∀ j, levels.getLsbD j = true → least ≤ j ∧ j ≤ greatest) (reference : BitVec 32) :
    ∃ l, getNearestAvailableTileKeyLevel levels reference = some (BitVec.ofNat 32 l) ∧
      Nearest levels reference.toNat l := by
  have hlt := lt_of_getLsbD hgreatest
  have hle := (hrange greatest hgreatest).1
  have hmin := getMinTileKeyLevel_of_least hleast
    fun j hj => eq_false_of_lt_least (fun l hl => (hrange l hl).1) hj
  have hmax := getMaxTileKeyLevel_of_greatest hgreatest
    fun j hj => eq_false_of_greatest_lt (fun l hl => (hrange l hl).2) hj
  have hleastNat : (BitVec.ofNat 32 least).toNat = least := by
    rw [BitVec.toNat_ofNat]
    omega
  have hgreatestNat : (BitVec.ofNat 32 greatest).toNat = greatest := by
    rw [BitVec.toNat_ofNat]
    omega
  simp only [getNearestAvailableTileKeyLevel, hmin, hmax]
  generalize hlower : (if BitVec.ofNat 32 greatest < reference then BitVec.ofNat 32 greatest
    else reference) = lower
  generalize hlevel : (if lower < BitVec.ofNat 32 least then BitVec.ofNat 32 least
    else lower) = level
  have hclamped : level.toNat = max (min reference.toNat greatest) least := by
    have hlowerNat : lower.toNat = min reference.toNat greatest := by
      rw [← hlower]
      split
      · next h => rw [BitVec.lt_def, hgreatestNat] at h; omega
      · next h => rw [BitVec.lt_def, hgreatestNat] at h; omega
    rw [← hlowerNat, ← hlevel]
    split
    · next h => rw [BitVec.lt_def, hleastNat] at h; omega
    · next h => rw [BitVec.lt_def, hleastNat] at h; omega
  have hint : level.toInt = level.toNat := by
    rw [BitVec.toInt_eq_toNat_of_lt (by omega)]
  rw [toInt_sub_of_lt (by omega) (by omega), toInt_sub_of_lt (by omega) (by omega), hint,
    hleastNat, hgreatestNat]
  obtain ⟨l, hfound, hnearest⟩ := findSome_levelAtDistance (c := level.toNat)
    (max ((level.toNat : ℤ) - least).natAbs ((level.toNat : ℤ) - greatest).natAbs) hleast (by
      unfold distance
      omega)
  refine ⟨l, ?_, ?_⟩
  · rw [hfound, Option.getD_some, BitVec.ofInt_natCast]
  · rw [hclamped] at hnearest
    exact hnearest.of_clamped hrange

theorem toNat_ofNat_of_getLsbD {l : ℕ} (h : levels.getLsbD l = true) :
    (BitVec.ofNat 32 l).toNat = l := by
  have hlt := lt_of_getLsbD h
  rw [BitVec.toNat_ofNat]
  omega

/-- **The three searches are true on every set of levels.** On the empty set they find nothing;
on every other one the least level, the greatest one, and for every reference level the one
that no other is nearer than, the greater of two that are equally near. -/
theorem levels_are_found (levels : BitVec 32) :
    (∀ reference, getNearestAvailableTileKeyLevel levels reference = none ↔ levels = 0#32) ∧
    (∀ reference l, getNearestAvailableTileKeyLevel levels reference = some l →
      Nearest levels reference.toNat l.toNat) ∧
    (getMinTileKeyLevel levels = none ↔ levels = 0#32) ∧
    (∀ l, getMinTileKeyLevel levels = some l →
      levels.getLsbD l.toNat = true ∧ ∀ j, levels.getLsbD j = true → l.toNat ≤ j) ∧
    (getMaxTileKeyLevel levels = none ↔ levels = 0#32) ∧
    (∀ l, getMaxTileKeyLevel levels = some l →
      levels.getLsbD l.toNat = true ∧ ∀ j, levels.getLsbD j = true → j ≤ l.toNat) := by
  by_cases hempty : levels = 0#32
  · subst hempty
    refine ⟨fun _ => ⟨fun _ => rfl, fun _ => rfl⟩, ?_, ⟨fun _ => rfl, fun _ => rfl⟩, ?_,
      ⟨fun _ => rfl, fun _ => rfl⟩, ?_⟩
    · intro reference l h
      cases h
    · intro l h
      cases h
    · intro l h
      cases h
  · obtain ⟨least, greatest, hleast, hgreatest, hrange⟩ := exists_least_greatest hempty
    have hmin := getMinTileKeyLevel_of_least hleast
      fun j hj => eq_false_of_lt_least (fun l hl => (hrange l hl).1) hj
    have hmax := getMaxTileKeyLevel_of_greatest hgreatest
      fun j hj => eq_false_of_greatest_lt (fun l hl => (hrange l hl).2) hj
    refine ⟨?_, ?_, ?_, ?_, ?_, ?_⟩
    · intro reference
      obtain ⟨l, hfound, -⟩ := getNearest_of_range hleast hgreatest hrange reference
      rw [hfound]
      simp [hempty]
    · intro reference l h
      obtain ⟨l', hfound, hnearest⟩ := getNearest_of_range hleast hgreatest hrange reference
      rw [hfound, Option.some.injEq] at h
      rw [← h, toNat_ofNat_of_getLsbD hnearest.1]
      exact hnearest
    · rw [hmin]
      simp [hempty]
    · intro l h
      rw [hmin, Option.some.injEq] at h
      rw [← h, toNat_ofNat_of_getLsbD hleast]
      exact ⟨hleast, fun j hj => (hrange j hj).1⟩
    · rw [hmax]
      simp [hempty]
    · intro l h
      rw [hmax, Option.some.injEq] at h
      rw [← h, toNat_ofNat_of_getLsbD hgreatest]
      exact ⟨hgreatest, fun j hj => (hrange j hj).2⟩

theorem levels_are_found_on_a_tie : Nearest 0x208#32 6 9 :=
  (levels_are_found 0x208#32).2.1 6#32 9#32 (by decide)

end OlpEdgeSdk.Analysis.NearestLevels

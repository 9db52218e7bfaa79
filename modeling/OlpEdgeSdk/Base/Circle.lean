import Mathlib.Algebra.Order.Field.Basic
import Mathlib.Algebra.Order.Ring.Cast
import Mathlib.Tactic.Linarith

/-!
# Positions on a circle

A circle of circumference `c` is cut open into an interval of that length, so its two ends are
one point. The eastward distance from a position to another one is the one number between zero
and the circumference that leads there, round the circle or not. An arc is given by where it
begins and how long it is.
-/

set_option autoImplicit false

namespace OlpEdgeSdk.Base

/-- Going a distance `d` eastwards from `w` one comes to `x`, and no shorter way does. -/
def Eastward {K : Type*} [Field K] [LinearOrder K] (c w x d : K) : Prop :=
  0 ≤ d ∧ d < c ∧ ∃ turns : ℤ, x = w + d + turns * c

section

variable {K : Type*} [Field K] [LinearOrder K] [IsStrictOrderedRing K] {c w x d d' : K}

/-- A whole number of turns that is less than one turn either way is none. -/
theorem turns_eq_zero {turns : ℤ} (hlow : -c < turns * c) (hhigh : turns * c < c) : turns = 0 := by
  have hc : 0 < c := by linarith
  have hless : (turns : K) < 1 := by
    rwa [← one_mul c, ← mul_assoc, mul_one, mul_lt_mul_iff_left₀ hc] at hhigh
  have hmore : (-1 : K) < turns := by
    rwa [← neg_one_mul, mul_lt_mul_iff_left₀ hc] at hlow
  have hless' : turns < 1 := by exact_mod_cast hless
  have hmore' : -1 < turns := by exact_mod_cast hmore
  omega

theorem Eastward.unique (h : Eastward c w x d) (h' : Eastward c w x d') : d = d' := by
  obtain ⟨hlow, hhigh, turns, hx⟩ := h
  obtain ⟨hlow', hhigh', turns', hx'⟩ := h'
  have hdiff : d' - d = (turns - turns' : ℤ) * c := by
    push_cast
    linarith
  have hzero : turns - turns' = 0 := by
    apply turns_eq_zero (c := c)
    · rw [← hdiff]
      linarith
    · rw [← hdiff]
      linarith
  rw [hzero, Int.cast_zero, zero_mul] at hdiff
  linarith

theorem eastward_of_le (hle : w ≤ x) (hlt : x - w < c) : Eastward c w x (x - w) :=
  ⟨by linarith, hlt, 0, by rw [Int.cast_zero, zero_mul]; linarith⟩

theorem eastward_of_lt (hlt : x < w) (hle : w - x ≤ c) : Eastward c w x (x - w + c) :=
  ⟨by linarith, by linarith, -1, by rw [Int.cast_neg, Int.cast_one]; linarith⟩

theorem eastward_of_ends (hc : 0 < c) (h : x - w = c) : Eastward c w x 0 :=
  ⟨le_rfl, hc, 1, by rw [Int.cast_one]; linarith⟩

/-- **The distance between two positions of the interval**: straight on, across the ends, or
nothing from one end to the other. -/
theorem eastward_iff (hc : 0 < c) (hlow : w - x ≤ c) (hhigh : x - w ≤ c) :
    Eastward c w x d ↔
      (w ≤ x ∧ x - w < c ∧ d = x - w) ∨ (x < w ∧ d = x - w + c) ∨ (x - w = c ∧ d = 0) := by
  constructor
  · intro h
    rcases lt_or_ge x w with hlt | hge
    · exact Or.inr (Or.inl ⟨hlt, h.unique (eastward_of_lt hlt hlow)⟩)
    · rcases hhigh.lt_or_eq with hless | heq
      · exact Or.inl ⟨hge, hless, h.unique (eastward_of_le hge hless)⟩
      · exact Or.inr (Or.inr ⟨heq, h.unique (eastward_of_ends hc heq)⟩)
  · rintro (⟨hge, hless, rfl⟩ | ⟨hlt, rfl⟩ | ⟨heq, rfl⟩)
    · exact eastward_of_le hge hless
    · exact eastward_of_lt hlt hlow
    · exact eastward_of_ends hc heq

/-- A position lies on the arc that begins at `w` and is `l` long, its ends included. -/
def OnArc (c w l x : K) : Prop := ∃ d, Eastward c w x d ∧ d ≤ l

/-- A position lies strictly within the arc that begins at `w` and is `l` long. -/
def WithinArc (c w l x : K) : Prop := ∃ d, Eastward c w x d ∧ 0 < d ∧ d < l

variable {lo e : K}

/-- **On an arc that stays in the interval** is between its ends, or at one end of the interval
where the arc has the other one. -/
theorem onArc_iff_between (hc : 0 < c) (hw : lo ≤ w) (hwe : w < e) (he : e ≤ lo + c)
    (hx : lo ≤ x) (hx' : x ≤ lo + c) :
    OnArc c w (e - w) x ↔
      (w ≤ x ∧ x ≤ e) ∨ (w = lo ∧ x = lo + c) ∨ (e = lo + c ∧ x = lo) := by
  constructor
  · rintro ⟨d, hd, hle⟩
    rcases (eastward_iff hc (by linarith) (by linarith)).mp hd with
      ⟨hwx, -, rfl⟩ | ⟨-, rfl⟩ | ⟨hends, -⟩
    · exact Or.inl ⟨hwx, by linarith⟩
    · exact Or.inr (Or.inr ⟨by linarith, by linarith⟩)
    · exact Or.inr (Or.inl ⟨by linarith, by linarith⟩)
  · rintro (⟨hwx, hxe⟩ | ⟨rfl, rfl⟩ | ⟨rfl, rfl⟩)
    · rcases (show x - w ≤ c by linarith).lt_or_eq with hlt | heq
      · exact ⟨x - w, eastward_of_le hwx hlt, by linarith⟩
      · exact ⟨0, eastward_of_ends hc heq, by linarith⟩
    · exact ⟨0, eastward_of_ends hc (by linarith), by linarith⟩
    · rcases hw.eq_or_lt with heq | hlt
      · exact ⟨x - w, eastward_of_le heq.ge (by linarith), by linarith⟩
      · exact ⟨x - w + c, eastward_of_lt hlt (by linarith), by linarith⟩

/-- **On an arc across the ends** is from its beginning on or up to its end. -/
theorem onArc_iff_across (hc : 0 < c) (hlo : lo ≤ e) (hew : e < w) (hw : w ≤ lo + c)
    (hx : lo ≤ x) (hx' : x ≤ lo + c) : OnArc c w (e - w + c) x ↔ w ≤ x ∨ x ≤ e := by
  constructor
  · rintro ⟨d, hd, hle⟩
    rcases (eastward_iff hc (by linarith) (by linarith)).mp hd with
      ⟨hwx, -, -⟩ | ⟨-, rfl⟩ | ⟨hends, -⟩
    · exact Or.inl hwx
    · exact Or.inr (by linarith)
    · exact Or.inl (by linarith)
  · rintro (hwx | hxe)
    · exact ⟨x - w, eastward_of_le hwx (by linarith), by linarith⟩
    · exact ⟨x - w + c, eastward_of_lt (by linarith) (by linarith), by linarith⟩

/-- On an arc without length is only where it begins. -/
theorem onArc_zero_iff (hc : 0 < c) (hlow : w - x ≤ c) (hhigh : x - w ≤ c) :
    OnArc c w 0 x ↔ x = w ∨ x - w = c ∨ w - x = c := by
  constructor
  · rintro ⟨d, hd, hle⟩
    rcases (eastward_iff hc hlow hhigh).mp hd with ⟨hwx, -, rfl⟩ | ⟨-, rfl⟩ | ⟨hends, -⟩
    · exact Or.inl (by linarith)
    · exact Or.inr (Or.inr (by linarith))
    · exact Or.inr (Or.inl hends)
  · rintro (rfl | hends | hends)
    · exact ⟨x - x, eastward_of_le le_rfl (by linarith), by linarith⟩
    · exact ⟨0, eastward_of_ends hc hends, le_rfl⟩
    · exact ⟨x - w + c, eastward_of_lt (by linarith) hlow, by linarith⟩

/-- **Within an arc that stays in the interval** is between its ends. -/
theorem withinArc_iff_between (hc : 0 < c) (hw : lo ≤ w) (he : e ≤ lo + c)
    (hx : lo ≤ x) (hx' : x ≤ lo + c) : WithinArc c w (e - w) x ↔ w < x ∧ x < e := by
  constructor
  · rintro ⟨d, hd, hpos, hlt⟩
    rcases (eastward_iff hc (by linarith) (by linarith)).mp hd with
      ⟨-, -, rfl⟩ | ⟨-, rfl⟩ | ⟨-, rfl⟩
    · exact ⟨by linarith, by linarith⟩
    · linarith
    · linarith
  · rintro ⟨hwx, hxe⟩
    exact ⟨x - w, eastward_of_le hwx.le (by linarith), by linarith, by linarith⟩

/-- **Within an arc across the ends** is beyond its beginning or before its end; the ends
themselves are one point, and an arc may begin or end there. -/
theorem withinArc_iff_across (hc : 0 < c) (hlo : lo ≤ e) (hew : e < w) (hw : w ≤ lo + c)
    (hx : lo ≤ x) (hx' : x ≤ lo + c) :
    WithinArc c w (e - w + c) x ↔
      (w < x ∧ ¬ (x = lo + c ∧ e = lo)) ∨ (x < e ∧ ¬ (x = lo ∧ w = lo + c)) := by
  constructor
  · rintro ⟨d, hd, hpos, hlt⟩
    rcases (eastward_iff hc (by linarith) (by linarith)).mp hd with
      ⟨-, -, rfl⟩ | ⟨-, rfl⟩ | ⟨-, rfl⟩
    · refine Or.inl ⟨by linarith, ?_⟩
      rintro ⟨rfl, rfl⟩
      linarith
    · refine Or.inr ⟨by linarith, ?_⟩
      rintro ⟨rfl, rfl⟩
      linarith
    · exact absurd hpos (lt_irrefl 0)
  · rintro (⟨hwx, hends⟩ | ⟨hxe, hends⟩)
    · refine ⟨x - w, eastward_of_le hwx.le (by linarith), by linarith, ?_⟩
      by_contra hge
      exact hends ⟨by linarith, by linarith⟩
    · refine ⟨x - w + c, eastward_of_lt (by linarith) (by linarith), ?_, by linarith⟩
      by_contra hge
      exact hends ⟨by linarith, by linarith⟩

omit [IsStrictOrderedRing K] in
theorem WithinArc.length_pos {l : K} (h : WithinArc c w l x) : 0 < l := by
  obtain ⟨d, -, hpos, hlt⟩ := h
  exact hpos.trans hlt

/-- A position lies before `w`, no further than `eps`. -/
def Before (c w eps x : K) : Prop :=
  ∃ gap, 0 < gap ∧ gap ≤ eps ∧ ∃ turns : ℤ, x = w - gap + turns * c

/-- **An arc that is cut short** before it comes round to its beginning: a position that was
reached within two turns is still on it, or in the gap. -/
theorem onArc_or_before {eps l : K} (hlow : 0 ≤ d) (hhigh : d < 2 * c)
    (hx : ∃ turns : ℤ, x = w + d + turns * c) (hl : min d (c - eps) ≤ l) :
    OnArc c w l x ∨ Before c w eps x := by
  have hreduced : ∃ d', 0 ≤ d' ∧ d' < c ∧ d' ≤ d ∧ ∃ turns : ℤ, x = w + d' + turns * c := by
    obtain ⟨turns, hx⟩ := hx
    rcases lt_or_ge d c with hlt | hge
    · exact ⟨d, hlow, hlt, le_rfl, turns, hx⟩
    · refine ⟨d - c, by linarith, by linarith, by linarith, turns + 1, ?_⟩
      push_cast
      linarith
  obtain ⟨d', hlow', hhigh', hle, turns, hx'⟩ := hreduced
  rcases le_or_gt d' l with hon | hoff
  · exact Or.inl ⟨d', ⟨hlow', hhigh', turns, hx'⟩, hon⟩
  · right
    rcases min_le_iff.mp hl with hdl | hcut
    · linarith
    · refine ⟨c - d', by linarith, by linarith, turns + 1, ?_⟩
      push_cast
      linarith

/-! ## Where two arcs meet -/

variable {w' e' : K}

/-- Two intervals meet when each begins before the other ends. -/
theorem exists_between_both (hwe : w < e) (hwe' : w' < e') (h : w < e') (h' : w' < e) :
    ∃ x, (w < x ∧ x < e) ∧ w' < x ∧ x < e' := by
  obtain ⟨x, hlow, hhigh⟩ := exists_between (max_lt (lt_min hwe h) (lt_min h' hwe'))
  rw [max_lt_iff] at hlow
  rw [lt_min_iff] at hhigh
  exact ⟨x, ⟨hlow.1, hhigh.1⟩, hlow.2, hhigh.2⟩

/-- **Two arcs in the interval.** -/
theorem arcs_meet_iff (hc : 0 < c) (hw : lo ≤ w) (hwe : w < e) (he : e ≤ lo + c) (hw' : lo ≤ w')
    (hwe' : w' < e') (he' : e' ≤ lo + c) :
    (∃ x, (lo ≤ x ∧ x ≤ lo + c) ∧ WithinArc c w (e - w) x ∧ WithinArc c w' (e' - w') x) ↔
      w < e' ∧ w' < e := by
  constructor
  · rintro ⟨x, ⟨hx, hx'⟩, hin, hin'⟩
    rw [withinArc_iff_between hc hw he hx hx'] at hin
    rw [withinArc_iff_between hc hw' he' hx hx'] at hin'
    exact ⟨hin.1.trans hin'.2, hin'.1.trans hin.2⟩
  · rintro ⟨h, h'⟩
    obtain ⟨x, hin, hin'⟩ := exists_between_both hwe hwe' h h'
    have hx : lo ≤ x := hw.trans hin.1.le
    have hx' : x ≤ lo + c := hin.2.le.trans he
    refine ⟨x, ⟨hx, hx'⟩, ?_, ?_⟩
    · rw [withinArc_iff_between hc hw he hx hx']
      exact hin
    · rw [withinArc_iff_between hc hw' he' hx hx']
      exact hin'

/-- **An arc across the ends and an arc in the interval.** -/
theorem arcs_meet_iff_across (hc : 0 < c) (hlo : lo ≤ e) (hew : e < w) (hw : w ≤ lo + c)
    (hw' : lo ≤ w') (hwe' : w' < e') (he' : e' ≤ lo + c) :
    (∃ x, (lo ≤ x ∧ x ≤ lo + c) ∧ WithinArc c w (e - w + c) x ∧ WithinArc c w' (e' - w') x) ↔
      w < e' ∨ w' < e := by
  constructor
  · rintro ⟨x, ⟨hx, hx'⟩, hin, hin'⟩
    rw [withinArc_iff_across hc hlo hew hw hx hx'] at hin
    rw [withinArc_iff_between hc hw' he' hx hx'] at hin'
    rcases hin with ⟨hwx, -⟩ | ⟨hxe, -⟩
    · exact Or.inl (hwx.trans hin'.2)
    · exact Or.inr (hin'.1.trans hxe)
  · rintro (h | h)
    · obtain ⟨x, hlow, hhigh⟩ := exists_between (max_lt h hwe')
      rw [max_lt_iff] at hlow
      have hx : lo ≤ x := by linarith [hlow.2]
      have hx' : x ≤ lo + c := by linarith
      refine ⟨x, ⟨hx, hx'⟩, ?_, ?_⟩
      · rw [withinArc_iff_across hc hlo hew hw hx hx']
        exact Or.inl ⟨hlow.1, fun hends => by linarith [hends.1]⟩
      · rw [withinArc_iff_between hc hw' he' hx hx']
        exact ⟨hlow.2, hhigh⟩
    · obtain ⟨x, hlow, hhigh⟩ := exists_between (lt_min h hwe')
      rw [lt_min_iff] at hhigh
      have hx : lo ≤ x := by linarith
      have hx' : x ≤ lo + c := by linarith [hhigh.2]
      refine ⟨x, ⟨hx, hx'⟩, ?_, ?_⟩
      · rw [withinArc_iff_across hc hlo hew hw hx hx']
        exact Or.inr ⟨hhigh.1, fun hends => by linarith [hends.1]⟩
      · rw [withinArc_iff_between hc hw' he' hx hx']
        exact ⟨hlow, hhigh.2⟩

/-- An arc across the ends and one that begins before it stops. -/
theorem exists_within_both_across (hc : 0 < c) (hlo : lo ≤ e) (hew : e < w) (hw : w ≤ lo + c)
    (hlo' : lo ≤ e') (hew' : e' < w') (hw' : w' ≤ lo + c) (h : w' < e) :
    ∃ x, (lo ≤ x ∧ x ≤ lo + c) ∧ WithinArc c w (e - w + c) x ∧
      WithinArc c w' (e' - w' + c) x := by
  obtain ⟨x, hlow, hhigh⟩ := exists_between h
  have hx : lo ≤ x := by linarith
  have hx' : x ≤ lo + c := by linarith
  refine ⟨x, ⟨hx, hx'⟩, ?_, ?_⟩
  · rw [withinArc_iff_across hc hlo hew hw hx hx']
    exact Or.inr ⟨hhigh, fun hends => by linarith [hends.1]⟩
  · rw [withinArc_iff_across hc hlo' hew' hw' hx hx']
    exact Or.inl ⟨hlow, fun hends => by linarith [hends.1]⟩

/-- **Two arcs across the ends** meet there, unless one begins at the end where the other
stops. -/
theorem arcs_meet_iff_both_across (hc : 0 < c) (hlo : lo ≤ e) (hew : e < w) (hw : w ≤ lo + c)
    (hlo' : lo ≤ e') (hew' : e' < w') (hw' : w' ≤ lo + c) (hlong : 0 < e - w + c)
    (hlong' : 0 < e' - w' + c) :
    (∃ x, (lo ≤ x ∧ x ≤ lo + c) ∧ WithinArc c w (e - w + c) x ∧ WithinArc c w' (e' - w' + c) x) ↔
      ¬ (w = lo + c ∧ e' = lo ∧ e ≤ w') ∧ ¬ (w' = lo + c ∧ e = lo ∧ e' ≤ w) := by
  constructor
  · rintro ⟨x, ⟨hx, hx'⟩, hin, hin'⟩
    rw [withinArc_iff_across hc hlo hew hw hx hx'] at hin
    rw [withinArc_iff_across hc hlo' hew' hw' hx hx'] at hin'
    constructor
    · rintro ⟨rfl, rfl, hle⟩
      rcases hin with ⟨hwx, -⟩ | ⟨hxe, -⟩
      · linarith
      · rcases hin' with ⟨hwx', -⟩ | ⟨hxe', -⟩
        · linarith
        · linarith
    · rintro ⟨rfl, rfl, hle⟩
      rcases hin' with ⟨hwx', -⟩ | ⟨hxe', -⟩
      · linarith
      · rcases hin with ⟨hwx, -⟩ | ⟨hxe, -⟩
        · linarith
        · linarith
  · rintro ⟨hapart, hapart'⟩
    by_cases hbegin : w < lo + c ∧ w' < lo + c
    · -- both go on before the end
      obtain ⟨x, hlow, hhigh⟩ := exists_between (max_lt hbegin.1 hbegin.2)
      rw [max_lt_iff] at hlow
      have hx : lo ≤ x := by linarith [hlow.1]
      refine ⟨x, ⟨hx, hhigh.le⟩, ?_, ?_⟩
      · rw [withinArc_iff_across hc hlo hew hw hx hhigh.le]
        exact Or.inl ⟨hlow.1, fun hends => hhigh.ne hends.1⟩
      · rw [withinArc_iff_across hc hlo' hew' hw' hx hhigh.le]
        exact Or.inl ⟨hlow.2, fun hends => hhigh.ne hends.1⟩
    · by_cases hstop : lo < e ∧ lo < e'
      · -- both come in at the beginning
        obtain ⟨x, hlow, hhigh⟩ := exists_between (lt_min hstop.1 hstop.2)
        rw [lt_min_iff] at hhigh
        have hx' : x ≤ lo + c := by linarith [hhigh.1]
        refine ⟨x, ⟨hlow.le, hx'⟩, ?_, ?_⟩
        · rw [withinArc_iff_across hc hlo hew hw hlow.le hx']
          exact Or.inr ⟨hhigh.1, fun hends => hlow.ne' hends.1⟩
        · rw [withinArc_iff_across hc hlo' hew' hw' hlow.le hx']
          exact Or.inr ⟨hhigh.2, fun hends => hlow.ne' hends.1⟩
      · -- one begins at the end and the other stops there
        rcases hw.eq_or_lt with heq | hlt
        · have he' : e' = lo := by
            by_contra hne
            exact hstop ⟨by linarith, lt_of_le_of_ne hlo' (Ne.symm hne)⟩
          apply exists_within_both_across hc hlo hew hw hlo' hew' hw'
          by_contra hge
          exact hapart ⟨heq, he', not_lt.mp hge⟩
        · have heq' : w' = lo + c := by
            by_contra hne
            exact hbegin ⟨hlt, lt_of_le_of_ne hw' hne⟩
          have he : e = lo := by
            by_contra hne
            exact hstop ⟨lt_of_le_of_ne hlo (Ne.symm hne), by linarith⟩
          have hlt' : w < e' := by
            by_contra hge
            exact hapart' ⟨heq', he, not_lt.mp hge⟩
          obtain ⟨x, hx, hin', hin⟩ :=
            exists_within_both_across hc hlo' hew' hw' hlo hew hw hlt'
          exact ⟨x, hx, hin, hin'⟩

end

end OlpEdgeSdk.Base

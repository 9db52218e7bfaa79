import Mathlib.Data.List.Basic
import OlpEdgeSdk.Model.FormatBuffer

/-!
# Formatting a time ends

A try in a buffer tells the length of the text, and zero if it does not fit. The loop of
`formatTm` doubles the buffer until a try tells another number than zero. A text that is not
empty fits at some size, so the loop ends with all of it (`growLoop_ends`), in a buffer at most
twice as long. An empty text fits at once and its length is zero, which the loop takes for a
failure at every size (`formatTm_of_empty`).
-/

set_option autoImplicit false

namespace OlpEdgeSdk.Analysis.TimeFormatting

open OlpEdgeSdk.Base OlpEdgeSdk.Model FormatBuffer

variable {Tm : Type} [TimeLibrary Tm] {timestampTm : Tm} {formatStr : List Char}

/-! ## One try -/

section Try

variable {buffer : Buffer}

theorem strftime_of_fits
    (h : (TimeLibrary.expansion formatStr timestampTm).length < buffer.size) :
    strftime buffer formatStr timestampTm =
      (⟨buffer.size, some (TimeLibrary.expansion formatStr timestampTm)⟩,
        (TimeLibrary.expansion formatStr timestampTm).length) := if_pos h

theorem strftime_of_not_fits
    (h : buffer.size ≤ (TimeLibrary.expansion formatStr timestampTm).length) :
    strftime buffer formatStr timestampTm = (⟨buffer.size, none⟩, 0) :=
  if_neg (Nat.not_lt.mpr h)

/-- A try in a buffer fails if the text is too long for it, or empty. -/
theorem strftime_eq_zero_iff : (strftime buffer formatStr timestampTm).2 = 0 ↔
    buffer.size ≤ (TimeLibrary.expansion formatStr timestampTm).length ∨
      TimeLibrary.expansion formatStr timestampTm = [] := by
  rcases Nat.lt_or_ge (TimeLibrary.expansion formatStr timestampTm).length buffer.size with h | h
  · rw [strftime_of_fits h, List.length_eq_zero_iff]
    exact (or_iff_right (Nat.not_le.mpr h)).symm
  · rw [strftime_of_not_fits h]
    exact iff_of_true rfl (Or.inl h)

end Try

/-! ## The loop -/

theorem growGuard_iff {buffer : Buffer} : growGuard formatStr timestampTm buffer = true ↔
    buffer.size ≤ (TimeLibrary.expansion formatStr timestampTm).length ∨
      TimeLibrary.expansion formatStr timestampTm = [] := by
  rw [growGuard, decide_eq_true_eq, strftime_eq_zero_iff]

/-- A buffer on the way: the first one, or one at most twice as long as the text. -/
def WithinTwice (length : ℕ) (buffer : Buffer) : Prop :=
  0 < buffer.size ∧ buffer.size ≤ max (bufferSize * 2) (2 * length)

/-- **Step.** A text that is not empty and does not fit comes nearer to fitting. -/
theorem growTurn_step (h : TimeLibrary.expansion formatStr timestampTm ≠ []) (buffer : Buffer)
    (hinv : WithinTwice (TimeLibrary.expansion formatStr timestampTm).length buffer)
    (hguard : growGuard formatStr timestampTm buffer = true) :
    WithinTwice (TimeLibrary.expansion formatStr timestampTm).length
        (growTurn formatStr timestampTm buffer) ∧
      (TimeLibrary.expansion formatStr timestampTm).length + 1 -
          (growTurn formatStr timestampTm buffer).size <
        (TimeLibrary.expansion formatStr timestampTm).length + 1 - buffer.size := by
  have hsize : (growTurn formatStr timestampTm buffer).size = buffer.size * 2 := rfl
  have hlong : buffer.size ≤ (TimeLibrary.expansion formatStr timestampTm).length := by
    rcases growGuard_iff.mp hguard with hlong | hempty
    · exact hlong
    · exact absurd hempty h
  unfold WithinTwice at hinv ⊢
  rw [hsize]
  omega

/-- **Run.** The loop ends for a text that is not empty, in a buffer that it fits in and that is
the first one or at most twice as long as the text. -/
theorem growLoop_ends (h : TimeLibrary.expansion formatStr timestampTm ≠ []) :
    ∃ buffer, EndsIn (growGuard formatStr timestampTm) (growTurn formatStr timestampTm)
        ⟨bufferSize * 2, none⟩ buffer ∧
      (TimeLibrary.expansion formatStr timestampTm).length < buffer.size ∧
      WithinTwice (TimeLibrary.expansion formatStr timestampTm).length buffer := by
  have hstart : WithinTwice (TimeLibrary.expansion formatStr timestampTm).length
      ⟨bufferSize * 2, none⟩ := ⟨by decide, Nat.le_max_left _ _⟩
  obtain ⟨buffer, hloop, hinv, hguard⟩ := whileLoop_variant (growGuard formatStr timestampTm)
    (growTurn formatStr timestampTm)
    (fun buffer => (TimeLibrary.expansion formatStr timestampTm).length + 1 - buffer.size)
    (growTurn_step h) hstart
  refine ⟨buffer, ⟨_, hloop⟩, ?_, hinv⟩
  by_contra hlong
  have hagain := growGuard_iff.mpr (Or.inl (Nat.not_lt.mp hlong))
  rw [hguard] at hagain
  exact Bool.false_ne_true hagain

/-- The loop never ends for an empty text. -/
theorem not_growLoop_ends (h : TimeLibrary.expansion formatStr timestampTm = [])
    (start buffer : Buffer) :
    ¬ EndsIn (growGuard formatStr timestampTm) (growTurn formatStr timestampTm) start buffer := by
  apply not_endsIn (fun _ => True)
  · intro s _
    exact growGuard_iff.mpr (Or.inr h)
  · intro s _
    trivial
  · trivial

/-! ## The whole call -/

/-- **A time with an empty text** is never formatted. -/
theorem formatTm_of_empty (h : TimeLibrary.expansion formatStr timestampTm = []) (fuel : ℕ) :
    formatTm fuel timestampTm formatStr = none := by
  unfold formatTm
  dsimp only
  rw [if_neg (not_not.mpr (strftime_eq_zero_iff.mpr (Or.inr h)))]
  rw [Option.bind_eq_none_iff]
  intro buffer hloop
  exact absurd ⟨fuel, hloop⟩ (not_growLoop_ends h _ buffer)

/-- A time with another text is formatted, after so many turns of the loop at most. -/
theorem formatTm_of_ne (h : TimeLibrary.expansion formatStr timestampTm ≠ []) :
    ∃ turns, ∀ fuel, turns ≤ fuel →
      formatTm fuel timestampTm formatStr = some (TimeLibrary.expansion formatStr timestampTm) := by
  unfold formatTm
  dsimp only
  rcases Nat.lt_or_ge (TimeLibrary.expansion formatStr timestampTm).length bufferSize with
    hfits | hlong
  · refine ⟨0, ?_⟩
    intro fuel _
    rw [strftime_of_fits hfits, if_pos]
    exact Nat.ne_of_gt (List.length_pos_of_ne_nil h)
  · obtain ⟨buffer, ⟨turns, hloop⟩, hfits, -⟩ := growLoop_ends h
    refine ⟨turns, ?_⟩
    intro fuel hfuel
    rw [strftime_of_not_fits hlong, if_neg (not_not.mpr rfl),
      whileLoop_fuel_mono hfuel hloop, Option.bind_some, strftime_of_fits hfits]

/-- **`formatTm` ends with the whole text** unless the text is empty. -/
theorem formatTm_ends_iff (timestampTm : Tm) (formatStr : List Char) :
    (∃ turns, ∀ fuel, turns ≤ fuel → formatTm fuel timestampTm formatStr =
        some (TimeLibrary.expansion formatStr timestampTm)) ↔
      TimeLibrary.expansion formatStr timestampTm ≠ [] := by
  constructor
  · rintro ⟨turns, hends⟩ hempty
    have hend := hends turns (Nat.le_refl turns)
    rw [formatTm_of_empty hempty] at hend
    cases hend
  · exact formatTm_of_ne

/-- A format of ordinary characters stands for itself. -/
abbrev ordinaryCharacters : TimeLibrary Unit where
  localtime _ := ()
  gmtime _ := ()
  expansion formatStr _ := formatStr

/-- The format without a character has an empty text. -/
theorem not_formatTm_ends :
    ¬ ∀ (Tm : Type) [TimeLibrary Tm] (timestampTm : Tm) (formatStr : List Char),
      ∃ fuel, formatTm fuel timestampTm formatStr =
        some (TimeLibrary.expansion formatStr timestampTm) := by
  intro h
  obtain ⟨fuel, hend⟩ := @h Unit ordinaryCharacters () []
  rw [@formatTm_of_empty Unit ordinaryCharacters () [] rfl] at hend
  cases hend

/-- A point in time is formatted in local time and in UTC if its text is not empty there. -/
theorem formatTime_ends (ticks timestamp : ℤ)
    (hlocal : TimeLibrary.expansion formatStr
      (TimeLibrary.localtime (toTimeT ticks timestamp) : Tm) ≠ [])
    (hutc : TimeLibrary.expansion formatStr
      (TimeLibrary.gmtime (toTimeT ticks timestamp) : Tm) ≠ []) :
    ∃ turns, ∀ fuel, turns ≤ fuel →
      (@formatLocalTime Tm _ fuel ticks timestamp formatStr).isSome ∧
        (@formatUtcTime Tm _ fuel ticks timestamp formatStr).isSome := by
  obtain ⟨turns, hends⟩ := formatTm_of_ne hlocal
  obtain ⟨turns', hends'⟩ := formatTm_of_ne hutc
  refine ⟨max turns turns', ?_⟩
  intro fuel hfuel
  rw [formatLocalTime, formatUtcTime, hends fuel (by omega), hends' fuel (by omega)]
  exact ⟨rfl, rfl⟩

end OlpEdgeSdk.Analysis.TimeFormatting

import Mathlib.Data.List.Infix
import Mathlib.Data.List.TakeWhile

/-!
# The first occurrence of a text

`cutAt` splits a text at the first occurrence of another one. In a text of parts with
separators between them, a needle without a separator occurs inside of a part, so the search
goes through the parts one by one.
-/

set_option autoImplicit false

namespace OlpEdgeSdk.Base

variable {α : Type} [DecidableEq α]

/-- What is before and behind the first occurrence of a text. -/
def cutAt (needle : List α) : List α → Option (List α × List α)
  | [] => if needle = [] then some ([], []) else none
  | x :: l =>
    if needle <+: x :: l then some ([], (x :: l).drop needle.length)
    else (cutAt needle l).map fun (before, after) => (x :: before, after)

variable {needle l before after : List α}

theorem cutAt_needle_append (needle rest : List α) :
    cutAt needle (needle ++ rest) = some ([], rest) := by
  cases h : needle ++ rest with
  | nil =>
    obtain ⟨rfl, rfl⟩ := List.append_eq_nil_iff.mp h
    rfl
  | cons x l =>
    have hpre : needle <+: x :: l := ⟨rest, h⟩
    rw [cutAt, if_pos hpre, ← h, List.drop_left]

/-- The parts make up the text. -/
theorem eq_of_cutAt (h : cutAt needle l = some (before, after)) :
    l = before ++ needle ++ after := by
  induction l generalizing before with
  | nil =>
    rw [cutAt] at h
    split at h
    · rename_i hneedle
      cases h
      rw [hneedle]
      rfl
    · cases h
  | cons x l ih =>
    rw [cutAt] at h
    split at h
    · rename_i hpre
      cases h
      obtain ⟨rest, hrest⟩ := hpre
      rw [← hrest, List.drop_left, List.nil_append]
    · rw [Option.map_eq_some_iff] at h
      obtain ⟨⟨before', after'⟩, hcut, heq⟩ := h
      cases heq
      rw [ih hcut]
      rfl

/-- A text is found iff it occurs. -/
theorem cutAt_eq_none_iff : cutAt needle l = none ↔ ¬ needle <:+: l := by
  induction l with
  | nil =>
    rw [cutAt, List.infix_nil]
    split
    · rename_i hneedle
      simp [hneedle]
    · rename_i hneedle
      simp [hneedle]
  | cons x l ih =>
    rw [cutAt, List.infix_cons_iff]
    split
    · rename_i hpre
      simp [hpre]
    · rename_i hpre
      simp [hpre, ih]

/-- **The search goes from part to part**, as the needle does not reach over a separator. -/
theorem cutAt_append_cons {sep : α} (hsep : sep ∉ needle) (hne : needle ≠ []) (a b : List α) :
    cutAt needle (a ++ sep :: b) =
      match cutAt needle a with
      | some (before, after) => some (before, after ++ sep :: b)
      | none => (cutAt needle b).map fun (before, after) => (a ++ sep :: before, after) := by
  induction a with
  | nil =>
    have hpre : ¬ needle <+: sep :: b := by
      intro hpre
      cases needle with
      | nil => exact hne rfl
      | cons y needle =>
        obtain ⟨rfl, -⟩ := List.cons_prefix_cons.mp hpre
        exact hsep List.mem_cons_self
    have hnil : cutAt needle [] = none := if_neg hne
    rw [List.nil_append, hnil, cutAt, if_neg hpre]
    rfl
  | cons x a ih =>
    have hiff : needle <+: x :: (a ++ sep :: b) ↔ needle <+: x :: a := by
      constructor
      · intro hpre
        rcases Nat.lt_or_ge (x :: a).length needle.length with hlt | hge
        · obtain ⟨more, hmore⟩ := List.prefix_of_prefix_length_le
            (List.prefix_append (x :: a) (sep :: b)) hpre (Nat.le_of_lt hlt)
          cases more with
          | nil =>
            rw [← hmore, List.append_nil] at hlt
            exact absurd hlt (Nat.lt_irrefl _)
          | cons y more =>
            obtain ⟨rest, hrest⟩ := hpre
            rw [← hmore, ← List.cons_append, List.append_assoc] at hrest
            obtain ⟨rfl, -⟩ := List.cons.inj (List.append_cancel_left hrest)
            exact absurd (hmore ▸ List.mem_append_right _ List.mem_cons_self) hsep
        · exact List.prefix_of_prefix_length_le hpre (List.prefix_append (x :: a) (sep :: b)) hge
      · intro hpre
        exact hpre.trans (List.prefix_append (x :: a) (sep :: b))
    rw [List.cons_append, cutAt, cutAt]
    by_cases hpre : needle <+: x :: a
    · rw [if_pos hpre, if_pos (hiff.mpr hpre)]
      obtain ⟨rest, hrest⟩ := hpre
      have hlong : (x :: (a ++ sep :: b)).drop needle.length = rest ++ sep :: b := by
        rw [← List.cons_append, ← hrest, List.append_assoc, List.drop_left]
      rw [hlong, ← hrest, List.drop_left]
    · rw [if_neg hpre, if_neg (fun h => hpre (hiff.mp h)), ih]
      cases hcut : cutAt needle a with
      | none =>
        simp only [Option.map_none, Option.map_map]
        rfl
      | some cut => rfl

/-- **A front is skipped** in which the needle does not begin: no end of it is a beginning of
the needle, and none begins with it. -/
theorem cutAt_append_of_apart {front : List α}
    (h : ∀ l ∈ front.tails, l ≠ [] → ¬ l <+: needle ∧ ¬ needle <+: l) (rest : List α) :
    cutAt needle (front ++ rest) =
      (cutAt needle rest).map fun (before, after) => (front ++ before, after) := by
  induction front with
  | nil => simp
  | cons x front ih =>
    rw [List.tails_cons] at h
    have hpre : ¬ needle <+: x :: (front ++ rest) := by
      intro hpre
      obtain ⟨hfront, hneedle⟩ := h (x :: front) List.mem_cons_self (List.cons_ne_nil x front)
      have hstart := List.prefix_append (x :: front) rest
      rcases List.prefix_or_prefix_of_prefix hpre hstart with hp | hp
      · exact hneedle hp
      · exact hfront hp
    rw [List.cons_append, cutAt, if_neg hpre, ih fun l hl => h l (List.mem_cons_of_mem _ hl),
      Option.map_map]
    rfl

/-- A single element is found where the elements before it end. -/
theorem cutAt_singleton (c : α) (l : List α) :
    cutAt [c] l = match l.dropWhile (· ≠ c) with
      | [] => none
      | _ :: after => some (l.takeWhile (· ≠ c), after) := by
  induction l with
  | nil => rfl
  | cons x l ih =>
    rw [cutAt]
    by_cases hx : x = c
    · subst hx
      simp
    · have hpre : ¬ [c] <+: x :: l := by
        rw [List.cons_prefix_cons]
        exact fun h => hx h.1.symm
      have hstep : decide (x ≠ c) = true := decide_eq_true hx
      simp only [List.dropWhile_cons, List.takeWhile_cons, hstep, if_true, if_neg hpre, ih]
      cases l.dropWhile (· ≠ c) with
      | nil => rfl
      | cons y after => rfl

end OlpEdgeSdk.Base

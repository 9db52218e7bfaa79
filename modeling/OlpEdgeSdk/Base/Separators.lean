import Mathlib.Data.List.TakeDrop

/-!
# Texts put together from fields

A key is often written by concatenating fields with separators between them. If the fields
hold no separator, the text determines them; this file has that for one field at the start,
for an optional field behind its own separator, and for the joined items of a list, whose
lengths must be known too. Items may also each be followed by a separator, which then counts
them.
-/

set_option autoImplicit false

namespace OlpEdgeSdk.Base

variable {α : Type}

/-- No element of the list is a separator. -/
def Free (separator : α → Bool) (l : List α) : Prop :=
  ∀ x ∈ l, separator x = false

/-- The list is empty or begins with a separator. -/
def Stops (separator : α → Bool) (l : List α) : Prop :=
  ∀ x ∈ l.head?, separator x = true

/-- A field that is left out, or written behind its own separator. -/
def optionalField (c : α) : Option (List α) → List α
  | none => []
  | some l => c :: l

section

variable {separator : α → Bool}

theorem stops_cons {c : α} (h : separator c = true) (l : List α) : Stops separator (c :: l) := by
  intro x hx
  cases hx
  exact h

/-- A field ends where the rest begins. -/
theorem takeWhile_append_of_free {l rest : List α} (hl : Free separator l)
    (hrest : Stops separator rest) : (l ++ rest).takeWhile (fun x => !separator x) = l := by
  rw [List.takeWhile_append_of_pos fun x hx => by simp [hl x hx]]
  cases rest with
  | nil => simp
  | cons c rest =>
    have hc : separator c = true := hrest c rfl
    simp [List.takeWhile, hc]

/-- **The field at the start of a text**: it and what follows are determined. -/
theorem append_inj_of_free {l l' rest rest' : List α} (hl : Free separator l)
    (hl' : Free separator l') (hrest : Stops separator rest) (hrest' : Stops separator rest')
    (h : l ++ rest = l' ++ rest') : l = l' ∧ rest = rest' := by
  have heq : l = l' := by
    rw [← takeWhile_append_of_free hl hrest, h, takeWhile_append_of_free hl' hrest']
  subst heq
  exact ⟨rfl, List.append_cancel_left h⟩

/-- A field does not reach into what follows another one. -/
theorem prefix_of_free {l l' rest : List α} (hl : Free separator l) (hrest : Stops separator rest)
    (h : l <+: l' ++ rest) : l <+: l' := by
  rcases Nat.lt_or_ge l'.length l.length with hlt | hle
  · obtain ⟨more, rfl⟩ :=
      List.prefix_of_prefix_length_le (List.prefix_append l' rest) h (Nat.le_of_lt hlt)
    cases more with
    | nil => simp
    | cons c more =>
      obtain ⟨after, hafter⟩ := (List.prefix_append_right_inj l').mp h
      have hc : separator c = true := by
        apply hrest
        rw [← hafter]
        rfl
      rw [hl c (by simp)] at hc
      cases hc
  · exact List.prefix_of_prefix_length_le h (List.prefix_append l' rest) hle

/-- **An optional field**: whether it is there, its text and what follows are determined, if
what follows does not begin with the same separator. -/
theorem optionalField_append_inj {c : α} {o o' : Option (List α)} {rest rest' : List α}
    (ho : ∀ l ∈ o, Free separator l) (ho' : ∀ l ∈ o', Free separator l)
    (hrest : Stops separator rest) (hrest' : Stops separator rest')
    (hc : ∀ x ∈ rest.head?, x ≠ c) (hc' : ∀ x ∈ rest'.head?, x ≠ c)
    (h : optionalField c o ++ rest = optionalField c o' ++ rest') : o = o' ∧ rest = rest' := by
  cases o with
  | none =>
    cases o' with
    | none => exact ⟨rfl, h⟩
    | some l' =>
      refine absurd rfl (hc c ?_)
      rw [show rest = c :: (l' ++ rest') from h]
      rfl
  | some l =>
    cases o' with
    | none =>
      refine absurd rfl (hc' c ?_)
      rw [show rest' = c :: (l ++ rest) from h.symm]
      rfl
    | some l' =>
      have htail : l ++ rest = l' ++ rest' := (List.cons.inj h).2
      obtain ⟨hl, hr⟩ := append_inj_of_free (ho l rfl) (ho' l' rfl) hrest hrest' htail
      exact ⟨congrArg some hl, hr⟩

end

theorem mem_of_mem_intercalate {sep : List α} {items : List (List α)} {x : α}
    (h : x ∈ sep.intercalate items) : x ∈ sep ∨ ∃ l ∈ items, x ∈ l := by
  induction items with
  | nil => simp at h
  | cons l items ih =>
    cases items with
    | nil => exact Or.inr ⟨l, List.mem_singleton_self l, by simpa using h⟩
    | cons l' items =>
      rw [List.intercalate_cons_cons, List.mem_append, List.mem_append] at h
      rcases h with (h | h) | h
      · exact Or.inr ⟨l, List.mem_cons_self, h⟩
      · exact Or.inl h
      · rcases ih h with h | ⟨k, hk, hx⟩
        · exact Or.inl h
        · exact Or.inr ⟨k, List.mem_cons_of_mem _ hk, hx⟩

/-- **Joined items**: the text and the lengths of the items determine them. -/
theorem intercalate_inj_of_lengths {sep : List α} {items items' : List (List α)}
    (hlengths : items.map List.length = items'.map List.length)
    (h : sep.intercalate items = sep.intercalate items') : items = items' := by
  induction items generalizing items' with
  | nil =>
    cases items' with
    | nil => rfl
    | cons => cases hlengths
  | cons l items ih =>
    cases items' with
    | nil => cases hlengths
    | cons l' items' =>
      rw [List.map_cons, List.map_cons, List.cons.injEq] at hlengths
      obtain ⟨hlength, hlengths⟩ := hlengths
      cases items with
      | nil =>
        obtain rfl : items' = [] := by simpa using hlengths.symm
        simpa using h
      | cons k items =>
        cases items' with
        | nil => cases hlengths
        | cons k' items' =>
          rw [List.intercalate_cons_cons, List.intercalate_cons_cons, List.append_assoc,
            List.append_assoc] at h
          obtain ⟨hl, hrest⟩ := List.append_inj h hlength
          rw [hl, ih hlengths (List.append_cancel_left hrest)]

/-- Every text is joined from items that hold no separator. -/
theorem exists_intercalate [DecidableEq α] (c : α) (l : List α) :
    ∃ items, items ≠ [] ∧ (∀ item ∈ items, c ∉ item) ∧ [c].intercalate items = l := by
  induction l with
  | nil => exact ⟨[[]], by simp, by simp, by simp⟩
  | cons x l ih =>
    obtain ⟨items, hne, hfree, rfl⟩ := ih
    obtain ⟨item, rest, rfl⟩ := List.exists_cons_of_ne_nil hne
    by_cases hx : x = c
    · refine ⟨[] :: item :: rest, by simp, ?_, ?_⟩
      · intro other hother
        rcases List.mem_cons.mp hother with rfl | hother
        · simp
        · exact hfree other hother
      · rw [List.intercalate_cons_cons, hx]
        rfl
    · refine ⟨(x :: item) :: rest, by simp, ?_, ?_⟩
      · intro other hother
        rcases List.mem_cons.mp hother with rfl | hother
        · rw [List.mem_cons, not_or]
          exact ⟨Ne.symm hx, hfree item List.mem_cons_self⟩
        · exact hfree other (List.mem_cons_of_mem item hother)
      · cases rest with
        | nil => simp
        | cons other rest =>
          rw [List.intercalate_cons_cons, List.intercalate_cons_cons]
          rfl

/-- Items each of which is followed by a separator. -/
def terminated (c : α) (items : List (List α)) : List α := items.flatMap fun item => item ++ [c]

@[simp] theorem terminated_nil (c : α) : terminated c [] = [] := rfl

theorem terminated_cons (c : α) (item : List α) (items : List (List α)) :
    terminated c (item :: items) = item ++ c :: terminated c items := by
  simp [terminated]

theorem terminated_append_singleton (c : α) (items : List (List α)) (item : List α) :
    terminated c (items ++ [item]) = terminated c items ++ item ++ [c] := by
  simp [terminated]

/-- **One separator an item**, where the items hold none. -/
theorem count_terminated [BEq α] [LawfulBEq α] {c : α} {items : List (List α)}
    (h : ∀ item ∈ items, c ∉ item) : (terminated c items).count c = items.length := by
  induction items with
  | nil => rfl
  | cons item items ih =>
    have hitem : item.count c = 0 := List.count_eq_zero_of_not_mem (h item List.mem_cons_self)
    rw [terminated_cons, List.count_append, List.count_cons_self, hitem,
      ih fun other hother => h other (List.mem_cons_of_mem _ hother), List.length_cons]
    omega

/-- **The first separator ends the first item.** -/
theorem span_terminated_cons [DecidableEq α] {c : α} {item : List α} (h : c ∉ item)
    (items : List (List α)) :
    (terminated c (item :: items)).span (· ≠ c) = (item, c :: terminated c items) := by
  have hother : ∀ x ∈ item, decide (x ≠ c) = true := by
    intro x hx
    exact decide_eq_true fun heq => h (heq ▸ hx)
  rw [terminated_cons, List.span_eq_takeWhile_dropWhile, List.takeWhile_append_of_pos hother,
    List.dropWhile_append_of_pos hother]
  simp

end OlpEdgeSdk.Base

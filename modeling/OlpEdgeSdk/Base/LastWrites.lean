import Mathlib.Data.List.Basic
import Mathlib.Tactic.Tauto

/-!
# The last write of a key

Actions in a list that may each write a value under a key: what was written last is what the
last action wrote that writes the key at all. A state that every action changes accordingly
reads the last write (`read_foldl_iff`).
-/

set_option autoImplicit false

namespace OlpEdgeSdk.Base

variable {Action Key Value : Type*}

/-- No action writes the key. -/
def Untouched (writes : Action → Key → Value → Prop) (actions : List Action) (key : Key) : Prop :=
  ∀ action ∈ actions, ∀ value, ¬ writes action key value

/-- The last action that writes the key writes this value. -/
def LastWrite (writes : Action → Key → Value → Prop) (actions : List Action) (key : Key)
    (value : Value) : Prop :=
  ∃ before action after, actions = before ++ action :: after ∧ writes action key value ∧
    Untouched writes after key

section

variable {writes : Action → Key → Value → Prop} {actions more : List Action} {key : Key}
  {value value' : Value}

theorem untouched_nil : Untouched writes [] key := by
  intro action hmem
  cases hmem

theorem untouched_cons_iff {action : Action} : Untouched writes (action :: actions) key ↔
    (∀ value, ¬ writes action key value) ∧ Untouched writes actions key :=
  List.forall_mem_cons

theorem untouched_append_iff : Untouched writes (actions ++ more) key ↔
    Untouched writes actions key ∧ Untouched writes more key :=
  List.forall_mem_append

theorem not_lastWrite_nil : ¬ LastWrite writes [] key value := by
  rintro ⟨before, action, after, hnil, -⟩
  exact List.append_ne_nil_of_right_ne_nil before (List.cons_ne_nil action after) hnil.symm

/-- The first action is the last write if no other one writes the key. -/
theorem lastWrite_cons_iff {action : Action} : LastWrite writes (action :: actions) key value ↔
    LastWrite writes actions key value ∨
      (Untouched writes actions key ∧ writes action key value) := by
  constructor
  · rintro ⟨before, last, after, hparts, hwrites, hafter⟩
    cases before with
    | nil =>
      rw [List.nil_append, List.cons.injEq] at hparts
      obtain ⟨rfl, rfl⟩ := hparts
      exact Or.inr ⟨hafter, hwrites⟩
    | cons first before =>
      rw [List.cons_append, List.cons.injEq] at hparts
      exact Or.inl ⟨before, last, after, hparts.2, hwrites, hafter⟩
  · rintro (⟨before, last, after, rfl, hwrites, hafter⟩ | ⟨hafter, hwrites⟩)
    · exact ⟨action :: before, last, after, rfl, hwrites, hafter⟩
    · exact ⟨[], action, actions, rfl, hwrites, hafter⟩

/-- **The last write of two lists** is that of the second one, if it has one. -/
theorem lastWrite_append_iff : LastWrite writes (actions ++ more) key value ↔
    LastWrite writes more key value ∨
      (Untouched writes more key ∧ LastWrite writes actions key value) := by
  induction actions with
  | nil =>
    have hnil : ¬ LastWrite writes [] key value := not_lastWrite_nil
    rw [List.nil_append]
    tauto
  | cons action actions ih =>
    rw [List.cons_append, lastWrite_cons_iff, lastWrite_cons_iff, untouched_append_iff, ih]
    tauto

/-- A key that is written has a last write. -/
theorem exists_lastWrite (h : ¬ Untouched writes actions key) :
    ∃ value, LastWrite writes actions key value := by
  induction actions with
  | nil => exact absurd untouched_nil h
  | cons action actions ih =>
    by_cases hlater : Untouched writes actions key
    · rw [untouched_cons_iff, not_and_or] at h
      rcases h with hwrites | hrest
      · simp only [not_forall, not_not] at hwrites
        obtain ⟨value, hvalue⟩ := hwrites
        exact ⟨value, lastWrite_cons_iff.mpr (Or.inr ⟨hlater, hvalue⟩)⟩
      · exact absurd hlater hrest
    · obtain ⟨value, hvalue⟩ := ih hlater
      exact ⟨value, lastWrite_cons_iff.mpr (Or.inl hvalue)⟩

/-- Actions that are others under a map write what these write. -/
theorem lastWrite_map_iff {Source : Type*} {f : Source → Action} {sources : List Source} :
    LastWrite writes (sources.map f) key value ↔
      LastWrite (fun source => writes (f source)) sources key value := by
  induction sources with
  | nil => exact iff_of_false not_lastWrite_nil not_lastWrite_nil
  | cons source sources ih =>
    have huntouched : Untouched writes (sources.map f) key ↔
        Untouched (fun source => writes (f source)) sources key := List.forall_mem_map
    rw [List.map_cons, lastWrite_cons_iff, lastWrite_cons_iff, ih, huntouched]

theorem LastWrite.not_untouched (h : LastWrite writes actions key value) :
    ¬ Untouched writes actions key := by
  obtain ⟨before, action, after, rfl, hwrites, -⟩ := h
  intro huntouched
  exact huntouched action (List.mem_append_right before List.mem_cons_self) value hwrites

/-- There is one last write if no action writes two values. -/
theorem LastWrite.unique (hone : ∀ action key value value', writes action key value →
    writes action key value' → value = value') (h : LastWrite writes actions key value)
    (h' : LastWrite writes actions key value') : value = value' := by
  induction actions with
  | nil => exact absurd h not_lastWrite_nil
  | cons action actions ih =>
    rcases lastWrite_cons_iff.mp h with hrest | ⟨huntouched, hwrites⟩
    · rcases lastWrite_cons_iff.mp h' with hrest' | ⟨huntouched', -⟩
      · exact ih hrest hrest'
      · exact absurd huntouched' hrest.not_untouched
    · rcases lastWrite_cons_iff.mp h' with hrest' | ⟨-, hwrites'⟩
      · exact absurd huntouched hrest'.not_untouched
      · exact hone action key value value' hwrites hwrites'

/-- **The rule of the last write**: a state that reads what an action writes, and else what it
read before, reads the last write of a list of actions. -/
theorem read_foldl_iff {State : Type*} {act : State → Action → State}
    {read : State → Key → Option Value}
    (hact : ∀ s action key value, read (act s action) key = some value ↔
      writes action key value ∨
        ((∀ other, ¬ writes action key other) ∧ read s key = some value)) (s : State) :
    read (actions.foldl act s) key = some value ↔ LastWrite writes actions key value ∨
      (Untouched writes actions key ∧ read s key = some value) := by
  induction actions generalizing s with
  | nil =>
    have hnil : ¬ LastWrite writes [] key value := not_lastWrite_nil
    have huntouched : Untouched writes [] key := untouched_nil
    rw [List.foldl_nil]
    tauto
  | cons action actions ih =>
    rw [List.foldl_cons, ih, hact, lastWrite_cons_iff, untouched_cons_iff]
    tauto

end

end OlpEdgeSdk.Base

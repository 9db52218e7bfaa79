import Mathlib.Data.List.Basic
import OlpEdgeSdk.Base.Runs

/-!
# Parties over a shared state

Any number of parties take steps on a state they share and on their own. `Parties.step` lets a
new party in, or lets one of those that are there act; a property of every party is kept if a new
one has it and an act keeps it.
-/

set_option autoImplicit false

namespace OlpEdgeSdk.Base

structure Parties (Shared Party : Type) where
  shared : Shared
  parties : List Party

/-- A new party comes, or the one at a place acts. -/
inductive Action (Arrival Event : Type) where
  | join (arrival : Arrival)
  | act (i : ℕ) (event : Event)
deriving DecidableEq

namespace Parties

variable {Shared Party Arrival Event : Type} (enter : Arrival → Party)
  (act : Shared → Party → Event → Option (Shared × Party))

def step (s : Parties Shared Party) : Action Arrival Event → Option (Parties Shared Party)
  | .join arrival => some { s with parties := s.parties ++ [enter arrival] }
  | .act i event => do
    let party ← s.parties[i]?
    let (shared, party) ← act s.shared party event
    return ⟨shared, s.parties.set i party⟩

variable {enter act}

theorem step_act {s s' : Parties Shared Party} {i : ℕ} {event : Event}
    (h : step enter act s (.act i event) = some s') :
    ∃ party shared party', s.parties[i]? = some party ∧
      act s.shared party event = some (shared, party') ∧
      s' = ⟨shared, s.parties.set i party'⟩ := by
  simp only [step, Option.bind_eq_bind, Option.bind_eq_some_iff] at h
  obtain ⟨party, hparty, ⟨shared, party'⟩, hact, heq⟩ := h
  cases heq
  exact ⟨party, shared, party', hparty, hact, rfl⟩

/-- A party that is there cannot act. -/
theorem act_eq_none_of_step {s : Parties Shared Party} {i : ℕ} {event : Event} {party : Party}
    (h : step enter act s (.act i event) = none) (hi : s.parties[i]? = some party) :
    act s.shared party event = none := by
  cases hact : act s.shared party event with
  | none => rfl
  | some after => simp [step, hi, hact] at h

/-- **What holds of every party beside the shared state** stays so, if moreover no act of a party
takes it from another. -/
theorem forall_step_shared {P : Shared → Party → Prop}
    (henter : ∀ shared arrival, P shared (enter arrival))
    (hact : ∀ shared party event shared' party', P shared party →
      act shared party event = some (shared', party') →
      P shared' party' ∧ ∀ other, P shared other → P shared' other)
    {s s' : Parties Shared Party} {action : Action Arrival Event}
    (hs : ∀ party ∈ s.parties, P s.shared party) (hstep : step enter act s action = some s') :
    ∀ party ∈ s'.parties, P s'.shared party := by
  intro party hparty
  cases action with
  | join arrival =>
    cases hstep
    rcases List.mem_append.mp hparty with hparty | hparty
    · exact hs party hparty
    · rw [List.mem_singleton.mp hparty]
      exact henter s.shared arrival
  | act i event =>
    obtain ⟨old, shared, new, hi, hacted, rfl⟩ := step_act hstep
    obtain ⟨hnew, hothers⟩ := hact s.shared old event shared new
      (hs old (List.mem_of_getElem? hi)) hacted
    rcases List.mem_or_eq_of_mem_set hparty with hparty | rfl
    · exact hothers party (hs party hparty)
    · exact hnew

/-- **What holds of every party** stays so, if it holds of a new one and an act keeps it. -/
theorem forall_step {P : Party → Prop} (henter : ∀ arrival, P (enter arrival))
    (hact : ∀ shared party event shared' party', P party →
      act shared party event = some (shared', party') → P party')
    {s s' : Parties Shared Party} {action : Action Arrival Event}
    (hs : ∀ party ∈ s.parties, P party) (hstep : step enter act s action = some s') :
    ∀ party ∈ s'.parties, P party := by
  refine forall_step_shared (P := fun _ party => P party) (fun _ => henter) ?_ hs hstep
  intro shared party event shared' party' hparty hacted
  exact ⟨hact shared party event shared' party' hparty hacted, fun _ hother => hother⟩

end Parties

end OlpEdgeSdk.Base

import Mathlib.Algebra.GroupWithZero.Nat
import OlpEdgeSdk.Base.Runs

/-!
# Progress

Every event does some work and costs something. If a step never raises a measure of the state
by more than its cost, less its work, then the work of a run is bounded by its costs and by the
measure it starts from (`work_le_of_potential`). With it, a system whose own steps each lower a
measure comes to rest, whichever of them it takes (`exists_settled`).
-/

set_option autoImplicit false

namespace OlpEdgeSdk.Base

variable {State Event : Type} {step : State → Event → Option State}

/-- **The potential rule.** -/
theorem work_le_of_potential (Inv : State → Prop) (measure : State → ℕ) (work cost : Event → ℕ)
    (hinv : ∀ s event s', Inv s → step s event = some s' → Inv s')
    (hstep : ∀ s event s', Inv s → step s event = some s' →
      measure s' + work event ≤ measure s + cost event)
    {s s' : State} {events : List Event} (hs : Inv s) (hrun : runFrom step s events = some s') :
    (events.map work).sum + measure s' ≤ measure s + (events.map cost).sum := by
  induction events generalizing s with
  | nil =>
    cases hrun
    simp
  | cons event events ih =>
    obtain ⟨m, hm, hrest⟩ := runFrom_cons.mp hrun
    have hevent := hstep s event m hs hm
    have hevents := ih (hinv s event m hs hm) hrest
    simp only [List.map_cons, List.sum_cons]
    omega

/-- A sum over a pool, one of whose members changes. -/
theorem sum_map_set {α : Type} (f : α → ℕ) {pool : List α} {i : ℕ} {old : α}
    (h : pool[i]? = some old) (new : α) :
    ((pool.set i new).map f).sum + f old = (pool.map f).sum + f new := by
  induction pool generalizing i with
  | nil => simp at h
  | cons a pool ih =>
    cases i with
    | zero =>
      rw [List.getElem?_cons_zero] at h
      cases h
      simp only [List.set_cons_zero, List.map_cons, List.sum_cons]
      omega
    | succ i =>
      rw [List.getElem?_cons_succ] at h
      have hrest := ih h
      simp only [List.set_cons_succ, List.map_cons, List.sum_cons]
      omega

theorem count_eq_sum {α : Type} [DecidableEq α] (a : α) (pool : List α) :
    pool.count a = (pool.map fun b => if b = a then 1 else 0).sum := by
  induction pool with
  | nil => rfl
  | cons b pool ih =>
    rw [List.count_cons, ih, List.map_cons, List.sum_cons, Nat.add_comm]
    simp only [beq_iff_eq]

/-- How many members are of one kind, once one of them changes. -/
theorem count_set {α : Type} [DecidableEq α] {pool : List α} {i : ℕ} {old : α}
    (h : pool[i]? = some old) (new a : α) :
    (pool.set i new).count a + (if old = a then 1 else 0) =
      pool.count a + (if new = a then 1 else 0) := by
  rw [count_eq_sum, count_eq_sum]
  exact sum_map_set (fun b => if b = a then 1 else 0) h new

/-- None of the events that the system takes by itself can happen. -/
def Settled (step : State → Event → Option State) (Own : Event → Prop) (s : State) : Prop :=
  ∀ event, Own event → step s event = none

/-- **Coming to rest**: a system whose own steps lower a measure can always take them until it
is settled. -/
theorem exists_settled (Inv : State → Prop) {Own : Event → Prop} (measure : State → ℕ)
    (hinv : ∀ s event s', Inv s → step s event = some s' → Inv s')
    (hlower : ∀ s event s', Inv s → Own event → step s event = some s' → measure s' < measure s)
    {s : State} (hs : Inv s) :
    ∃ events s', (∀ event ∈ events, Own event) ∧ runFrom step s events = some s' ∧
      Settled step Own s' := by
  induction hn : measure s using Nat.strongRecOn generalizing s with
  | ind n ih =>
    subst hn
    by_cases hsettled : Settled step Own s
    · exact ⟨[], s, by simp, rfl, hsettled⟩
    · simp only [Settled, not_forall] at hsettled
      obtain ⟨event, hown, hne⟩ := hsettled
      obtain ⟨m, hm⟩ := Option.ne_none_iff_exists'.mp hne
      obtain ⟨events, s', howns, hrun, hrest⟩ :=
        ih (measure m) (hlower s event m hs hown hm) (hinv s event m hs hm) rfl
      refine ⟨event :: events, s', ?_, runFrom_cons.mpr ⟨m, hm, hrun⟩, hrest⟩
      intro event' hevent'
      rcases List.mem_cons.mp hevent' with rfl | hmem
      · exact hown
      · exact howns event' hmem

end OlpEdgeSdk.Base

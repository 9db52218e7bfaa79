import Mathlib.Data.Option.Basic

/-!
# Runs of a partial step function

A system is a step function from a state and an event to the next state, or to none if the
event cannot happen. A run is a list of events; `Along` says that every event of a run
satisfies a condition on the state it happens in.
-/

set_option autoImplicit false

namespace OlpEdgeSdk.Base

variable {State Event : Type} (step : State → Event → Option State)

/-- The state a run ends in, if all its events can happen. -/
def runFrom : State → List Event → Option State
  | s, [] => some s
  | s, event :: events => (step s event).bind fun s' => runFrom s' events

/-- Every event of a run satisfies `P` in the state it happens in. -/
def Along (P : State → Event → Prop) : State → List Event → Prop
  | _, [] => True
  | s, event :: events => P s event ∧ ∀ s', step s event = some s' → Along P s' events

theorem runFrom_append (s : State) (events more : List Event) :
    runFrom step s (events ++ more) =
      (runFrom step s events).bind fun s' => runFrom step s' more := by
  induction events generalizing s with
  | nil => rfl
  | cons event events ih => simp [runFrom, Option.bind_assoc, ih]

variable {step}

theorem runFrom_cons {s s' : State} {event : Event} {events : List Event} :
    runFrom step s (event :: events) = some s' ↔
      ∃ m, step s event = some m ∧ runFrom step m events = some s' := by
  simp [runFrom, Option.bind_eq_some_iff]

theorem runFrom_concat {s s' : State} {events : List Event} {event : Event} :
    runFrom step s (events ++ [event]) = some s' ↔
      ∃ m, runFrom step s events = some m ∧ step m event = some s' := by
  simp [runFrom_append, runFrom, Option.bind_eq_some_iff]

/-- **The invariant rule**: what every step preserves, under a condition that holds along the
run, holds at its end. -/
theorem invariant_along {P : State → Event → Prop} (Inv : State → Prop)
    (hstep : ∀ s event s', Inv s → P s event → step s event = some s' → Inv s')
    {s s' : State} {events : List Event} (hrun : runFrom step s events = some s')
    (halong : Along step P s events) (hinv : Inv s) : Inv s' := by
  induction events generalizing s with
  | nil =>
    cases hrun
    exact hinv
  | cons event events ih =>
    obtain ⟨m, hm, hrest⟩ := runFrom_cons.mp hrun
    exact ih hrest (halong.2 m hm) (hstep s event m hinv halong.1 hm)

/-- An event that leads to a known state. -/
theorem along_cons_of_step {P : State → Event → Prop} {s m : State} {event : Event}
    {events : List Event} (hevent : P s event) (hstep : step s event = some m)
    (hrest : Along step P m events) : Along step P s (event :: events) := by
  refine ⟨hevent, fun s' hs' => ?_⟩
  rw [hstep] at hs'
  cases hs'
  exact hrest

/-- A run can be checked event by event. -/
instance decidableAlong {P : State → Event → Prop} [∀ s event, Decidable (P s event)] :
    ∀ s events, Decidable (Along step P s events)
  | _, [] => isTrue trivial
  | s, event :: events =>
    match h : step s event with
    | none => decidable_of_iff (P s event)
      ⟨fun hp => ⟨hp, fun _ hs' => nomatch h.symm.trans hs'⟩, And.left⟩
    | some m =>
      have := decidableAlong (P := P) m events
      decidable_of_iff (P s event ∧ Along step P m events)
        ⟨fun hp => ⟨hp.1, fun _ hs' => Option.some.inj (h.symm.trans hs') ▸ hp.2⟩,
          fun hp => ⟨hp.1, hp.2 m h⟩⟩

theorem along_of_forall {P : State → Event → Prop} (h : ∀ s event, P s event) (s : State)
    (events : List Event) : Along step P s events := by
  induction events generalizing s with
  | nil => trivial
  | cons event events ih => exact ⟨h s event, fun s' _ => ih s'⟩

theorem along_and {P Q : State → Event → Prop} {s : State} {events : List Event}
    (hP : Along step P s events) (hQ : Along step Q s events) :
    Along step (fun s event => P s event ∧ Q s event) s events := by
  induction events generalizing s with
  | nil => trivial
  | cons event events ih =>
    exact ⟨⟨hP.1, hQ.1⟩, fun s' hs' => ih (hP.2 s' hs') (hQ.2 s' hs')⟩

theorem along_append {P : State → Event → Prop} {s : State} {events more : List Event} :
    Along step P s (events ++ more) ↔ Along step P s events ∧
      ∀ s', runFrom step s events = some s' → Along step P s' more := by
  induction events generalizing s with
  | nil => simp [Along, runFrom]
  | cons event events ih =>
    simp only [List.cons_append, Along, ih, runFrom_cons, and_assoc]
    constructor
    · rintro ⟨hevent, hrest⟩
      refine ⟨hevent, fun m hm => (hrest m hm).1, ?_⟩
      rintro s' ⟨m, hm, hrun⟩
      exact (hrest m hm).2 s' hrun
    · rintro ⟨hevent, hevents, hmore⟩
      exact ⟨hevent, fun m hm => ⟨hevents m hm, fun s' hrun => hmore s' ⟨m, hm, hrun⟩⟩⟩

/-- A condition that holds along a run, position by position. -/
theorem along_iff_forall_split {P : State → Event → Prop} {s : State} {events : List Event} :
    Along step P s events ↔ ∀ earlier event later, events = earlier ++ event :: later →
      ∀ s', runFrom step s earlier = some s' → P s' event := by
  constructor
  · rintro h earlier event later rfl s' hrun
    exact ((along_append.mp h).2 s' hrun).1
  · intro h
    induction events generalizing s with
    | nil => trivial
    | cons event events ih =>
      refine ⟨h [] event events rfl s rfl, fun m hm => ?_⟩
      apply ih
      intro earlier event' later heq s' hrun
      apply h (event :: earlier) event' later
      · rw [heq]
        rfl
      · exact runFrom_cons.mpr ⟨m, hm, hrun⟩

theorem along_total_cons {f : State → Event → State} {P : State → Event → Prop} {s : State}
    {event : Event} {events : List Event} :
    Along (fun s event => some (f s event)) P s (event :: events) ↔
      P s event ∧ Along (fun s event => some (f s event)) P (f s event) events := by
  simp [Along]

theorem runFrom_total (f : State → Event → State) (s : State) (events : List Event) :
    runFrom (fun s event => some (f s event)) s events = some (events.foldl f s) := by
  induction events generalizing s with
  | nil => rfl
  | cons event events ih => exact ih (f s event)

/-- **Exact invariants.** If a step from a good state ends in a good one iff it satisfies `P`,
all states of a run are good iff every event of it satisfies `P`. -/
theorem forall_prefix_iff_along {f : State → Event → State} {P : State → Event → Prop}
    (Good : State → Prop) (hstep : ∀ s, Good s → ∀ event, Good (f s event) ↔ P s event)
    {s : State} (hgood : Good s) (events : List Event) :
    (∀ before, before <+: events → Good (before.foldl f s)) ↔
      Along (fun s event => some (f s event)) P s events := by
  induction events generalizing s with
  | nil =>
    refine iff_of_true (fun before hbefore => ?_) trivial
    rw [List.prefix_nil.mp hbefore]
    exact hgood
  | cons event events ih =>
    rw [along_total_cons]
    constructor
    · intro h
      have hnext : Good (f s event) := h [event] ⟨events, rfl⟩
      refine ⟨(hstep s hgood event).mp hnext, (ih hnext).mp fun before hbefore => ?_⟩
      exact h (event :: before) (List.cons_prefix_cons.mpr ⟨rfl, hbefore⟩)
    · rintro ⟨hevent, hrest⟩ before hbefore
      cases before with
      | nil => exact hgood
      | cons event' before =>
        obtain ⟨rfl, hrestBefore⟩ := List.cons_prefix_cons.mp hbefore
        exact (ih ((hstep s hgood event').mpr hevent)).mpr hrest before hrestBefore

theorem invariant_of_steps (Inv : State → Prop)
    (hstep : ∀ s event s', Inv s → step s event = some s' → Inv s') {s s' : State}
    {events : List Event} (hrun : runFrom step s events = some s') (hinv : Inv s) : Inv s' :=
  invariant_along (P := fun _ _ => True) Inv (fun s event s' hs _ => hstep s event s' hs) hrun
    (along_of_forall (fun _ _ => trivial) _ _) hinv

/-- A condition that holds along a run can be weakened, where an invariant helps. -/
theorem along_imp {P Q : State → Event → Prop} (Inv : State → Prop)
    (hstep : ∀ s event s', Inv s → step s event = some s' → Inv s')
    (himp : ∀ s event, Inv s → P s event → Q s event) {s : State} {events : List Event}
    (hinv : Inv s) (h : Along step P s events) : Along step Q s events := by
  induction events generalizing s with
  | nil => trivial
  | cons event events ih =>
    exact ⟨himp s event hinv h.1, fun s' hs' => ih (hstep s event s' hinv hs') (h.2 s' hs')⟩

/-- Two conditions that agree wherever an invariant holds agree along a run that keeps it. -/
theorem along_congr {P Q R : State → Event → Prop} (Inv : State → Prop)
    (hstep : ∀ s event s', Inv s → R s event → step s event = some s' → Inv s')
    (hiff : ∀ s event, Inv s → (P s event ↔ Q s event)) {s : State} {events : List Event}
    (hinv : Inv s) (hkept : Along step R s events) :
    Along step P s events ↔ Along step Q s events := by
  induction events generalizing s with
  | nil => exact Iff.rfl
  | cons event events ih =>
    refine and_congr (hiff s event hinv) (forall_congr' fun s' => imp_congr_right fun hs' => ?_)
    exact ih (hstep s event s' hinv hkept.1 hs') (hkept.2 s' hs')

/-- **Exact conditions on a run.** If, from a good state, a step ends in a good one iff it
satisfies `P`, and no step mends a bad state, then a run ends in a good state iff all its
events satisfy `P`. -/
theorem good_iff_along (Inv Good : State → Prop) {P : State → Event → Prop}
    (hinv : ∀ s event s', Inv s → step s event = some s' → Inv s')
    (hgood : ∀ s event s', Inv s → Good s → step s event = some s' → (Good s' ↔ P s event))
    (hbad : ∀ s event s', Inv s → ¬ Good s → step s event = some s' → ¬ Good s')
    {s s' : State} {events : List Event} (hrun : runFrom step s events = some s')
    (hs : Inv s) (hstart : Good s) : Good s' ↔ Along step P s events := by
  induction events generalizing s with
  | nil =>
    cases hrun
    exact iff_of_true hstart trivial
  | cons event events ih =>
    obtain ⟨m, hm, hrest⟩ := runFrom_cons.mp hrun
    have hone := hgood s event m hs hstart hm
    have hm' := hinv s event m hs hm
    by_cases hP : P s event
    · rw [ih hrest hm' (hone.mpr hP)]
      constructor
      · intro halong
        refine ⟨hP, fun s₁ hs₁ => ?_⟩
        rw [hm] at hs₁
        cases hs₁
        exact halong
      · exact fun halong => halong.2 m hm
    · refine iff_of_false ?_ fun halong => hP halong.1
      have hbadRun := invariant_of_steps (fun s => Inv s ∧ ¬ Good s)
        (fun s event s' h hstep => ⟨hinv s event s' h.1 hstep, hbad s event s' h.1 h.2 hstep⟩)
        hrest ⟨hm', fun hmgood => hP (hone.mp hmgood)⟩
      exact hbadRun.2

/-- **Exact safety of a run.** If, from a good state, a step ends in a good one iff it satisfies
`P`, then all states that a run passes through are good iff all its events satisfy `P`. An event
that cannot happen has to satisfy it by itself. -/
theorem forall_before_iff_along (Inv Good : State → Prop) {P : State → Event → Prop}
    (hinv : ∀ s event s', Inv s → step s event = some s' → Inv s')
    (hgood : ∀ s event s', Inv s → Good s → step s event = some s' → (Good s' ↔ P s event))
    (hnone : ∀ s event, Inv s → step s event = none → P s event) {s : State} (hs : Inv s)
    (hstart : Good s) (events : List Event) :
    (∀ before, before <+: events → ∀ s', runFrom step s before = some s' → Good s') ↔
      Along step P s events := by
  induction events generalizing s with
  | nil =>
    refine iff_of_true (fun before hbefore s' hrun => ?_) trivial
    rw [List.prefix_nil.mp hbefore] at hrun
    cases hrun
    exact hstart
  | cons event events ih =>
    constructor
    · intro h
      cases hcase : step s event with
      | none =>
        refine ⟨hnone s event hs hcase, fun m hm => ?_⟩
        rw [hcase] at hm
        cases hm
      | some m =>
        have hm : Good m := by
          refine h [event] ⟨events, rfl⟩ m ?_
          rw [runFrom, hcase]
          rfl
        refine ⟨(hgood s event m hs hstart hcase).mp hm, fun m' hm' => ?_⟩
        rw [hcase] at hm'
        cases hm'
        refine (ih (hinv s event m hs hcase) hm).mp fun before hbefore s' hrun => ?_
        exact h (event :: before) (List.cons_prefix_cons.mpr ⟨rfl, hbefore⟩) s'
          (runFrom_cons.mpr ⟨m, hcase, hrun⟩)
    · rintro ⟨hevent, hrest⟩ before hbefore s' hrun
      cases before with
      | nil =>
        cases hrun
        exact hstart
      | cons event' before =>
        obtain ⟨rfl, hrestBefore⟩ := List.cons_prefix_cons.mp hbefore
        obtain ⟨m, hm, hrestRun⟩ := runFrom_cons.mp hrun
        exact (ih (hinv s event' m hs hm) ((hgood s event' m hs hstart hm).mpr hevent)).mpr
          (hrest m hm) before hrestBefore s' hrestRun

/-- What a state of a run has that the first one had not was brought about by an event. -/
theorem caused_runFrom {P : State → Prop} {C : Event → Prop}
    (hstep : ∀ s event s', step s event = some s' → P s' → P s ∨ C event) {s s' : State}
    {events : List Event} (hrun : runFrom step s events = some s') (h : P s') :
    P s ∨ ∃ event ∈ events, C event := by
  induction events generalizing s with
  | nil =>
    cases hrun
    exact Or.inl h
  | cons event events ih =>
    obtain ⟨m, hm, hrest⟩ := runFrom_cons.mp hrun
    rcases ih hrest with hp | ⟨event', hmem, hc⟩
    · rcases hstep s event m hm hp with hp | hc
      · exact Or.inl hp
      · exact Or.inr ⟨event, List.mem_cons_self, hc⟩
    · exact Or.inr ⟨event', List.mem_cons_of_mem _ hmem, hc⟩

end OlpEdgeSdk.Base

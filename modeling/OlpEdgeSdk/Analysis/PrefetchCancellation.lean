import OlpEdgeSdk.Analysis.CancellationContextRuns
import OlpEdgeSdk.Model.PrefetchTilesProvider

/-!
# What the cancellation of a prefetch reaches

All tasks of a prefetch share one cancellation context, which holds one token: that of the
request whose start returned last. `CancelOperation` reaches all requests that are under way only
if there is no other one.
-/

set_option autoImplicit false

namespace OlpEdgeSdk.Analysis.PrefetchCancellation

open OlpEdgeSdk.Base OlpEdgeSdk.Model OlpEdgeSdk.Model.PrefetchTiles

/-- A request has been started and has not answered. -/
def Pending (s : State) (id : ℕ) : Prop := ∃ branch ∈ s.branches, branch.pending = some id

theorem pending_of_mem_set {branches : List Branch} {i id : ℕ} {new branch : Branch}
    (hmem : branch ∈ branches.set i new) (hpending : branch.pending = some id) :
    new.pending = some id ∨ ∃ branch ∈ branches, branch.pending = some id := by
  rcases List.mem_or_eq_of_mem_set hmem with hmem | rfl
  · exact Or.inr ⟨branch, hmem, hpending⟩
  · exact Or.inl hpending

/-- The events that leave the context alone. -/
def Quiet : Event → Prop
  | .queryDataForEachSubTile _ | .withoutRequest _ | .lookupAnswers _ _ | .requestAnswers _ => True
  | _ => False

/-- What a step can do. A step that leaves the context alone starts no request; a call into the
context is refused or starts the next request; the rest is the context's own. -/
inductive Moved (s : State) : Event → State → Prop where
  | quiet {event : Event} {branches : List Branch} {queried : Bool}
      (hquiet : Quiet event)
      (hpending : ∀ branch ∈ branches, ∀ id, branch.pending = some id → Pending s id) :
      Moved s event { s with branches := branches, queried := queried }
  | refused {event : Event} {i : ℕ} (h : s.context.context.isCancelled = true) :
      Moved s event { s with
        context := { s.context with frames := .notifying :: s.context.frames }
        branches := s.branches.set i .done }
  | lookup {i : ℕ} (hwaiting : s.branches[i]? = some .waiting) (hframes : s.context.frames = [])
      (h : s.context.context.isCancelled = false) :
      Moved s (.executeLookup i) { s with
        context := { s.context with
          frames := .executing s.context.started :: s.context.frames
          started := s.context.started + 1 }
        branches := s.branches.set i (.lookup s.context.started) }
  | request {i : ℕ} (hfound : s.branches[i]? = some .found)
      (h : s.context.context.isCancelled = false) :
      Moved s (.executeRequest i) { s with
        context := { s.context with
          frames := .executing s.context.started :: s.context.frames
          started := s.context.started + 1 }
        branches := s.branches.set i (.request s.context.started) }
  | returned {id : ℕ} {frames : List CancellationContext.Frame}
      (h : s.context.frames = .executing id :: frames) :
      Moved s .executeFnReturns { s with
        context := { s.context with
          context := s.context.context.assign (some id)
          frames := frames }
        returned := id :: s.returned }
  | notified {frames : List CancellationContext.Frame}
      (h : s.context.frames = .notifying :: frames) :
      Moved s .cancelFnReturns { s with context := { s.context with frames := frames } }
  | ignored (h : s.context.context.isCancelled = true) : Moved s .cancelOperation s
  | cancelled (h : s.context.context.isCancelled = false) :
      Moved s .cancelOperation { s with
        context := { s.context with
          frames := .cancelling :: s.context.frames
          cancelled := s.context.cancelled ++ [s.context.context.subOperationCancelToken] } }
  | finished {frames : List CancellationContext.Frame}
      (h : s.context.frames = .cancelling :: frames) :
      Moved s .cancelReturns { s with
        context := { s.context with context := s.context.context.finishCancel, frames := frames } }

theorem quiet_set {s : State} {event : Event} {i : ℕ} {new : Branch}
    (hquiet : Quiet event) (h : new.pending = none) :
    Moved s event { s with branches := s.branches.set i new } := by
  refine Moved.quiet hquiet ?_
  intro branch hbranch id hid
  rcases pending_of_mem_set hbranch hid with hnew | hold
  · rw [h] at hnew
    cases hnew
  · exact hold

/-- The two ways a call of `ExecuteOrCancelled` can go. -/
theorem executeOrCancelled_cases {s s' : State} {i : ℕ} {start : ℕ → Branch}
    (h : executeOrCancelled s i start = some s') :
    (s.context.context.isCancelled = true ∧
      s' = { s with
        context := { s.context with frames := .notifying :: s.context.frames }
        branches := s.branches.set i .done }) ∨
    (s.context.context.isCancelled = false ∧
      s' = { s with
        context := { s.context with
          frames := .executing s.context.started :: s.context.frames
          started := s.context.started + 1 }
        branches := s.branches.set i (start s.context.started) }) := by
  obtain ⟨context, hcontext, rfl⟩ := Option.map_eq_some_iff.mp h
  cases CancellationContext.moved_step hcontext with
  | refused hcancelled =>
    rw [if_pos hcancelled]
    exact Or.inl ⟨hcancelled, rfl⟩
  | begun hnot =>
    have hcancelled : s.context.context.isCancelled = false :=
      Bool.eq_false_iff.mpr fun hcancelled => hnot ⟨hcancelled, rfl⟩
    rw [if_neg (Bool.eq_false_iff.mp hcancelled)]
    exact Or.inr ⟨hcancelled, rfl⟩

theorem moved_step {s s' : State} {event : Event} (h : step s event = some s') :
    Moved s event s' := by
  cases event with
  | queryDataForEachSubTile count =>
    simp only [step] at h
    split at h
    · cases h
      refine .quiet trivial ?_
      intro branch hbranch id hid
      rcases List.mem_append.mp hbranch with hold | hnew
      · exact ⟨branch, hold, hid⟩
      · rw [List.eq_of_mem_replicate hnew] at hid
        cases hid
    · cases h
  | executeLookup i =>
    simp only [step] at h
    split at h
    · next hguard =>
      rcases executeOrCancelled_cases h with ⟨hcancelled, rfl⟩ | ⟨hcancelled, rfl⟩
      · exact .refused hcancelled
      · exact .lookup hguard.1 hguard.2 hcancelled
    · cases h
  | withoutRequest i =>
    simp only [step] at h
    split at h
    · cases h
      exact quiet_set trivial rfl
    · cases h
  | lookupAnswers i isSuccessful =>
    simp only [step] at h
    split at h
    · cases h
      refine quiet_set trivial ?_
      cases isSuccessful <;> rfl
    · cases h
  | executeRequest i =>
    simp only [step] at h
    split at h
    · next hfound =>
      rcases executeOrCancelled_cases h with ⟨hcancelled, rfl⟩ | ⟨hcancelled, rfl⟩
      · exact .refused hcancelled
      · exact .request hfound hcancelled
    · cases h
  | requestAnswers i =>
    simp only [step] at h
    split at h
    · cases h
      exact quiet_set trivial rfl
    · cases h
  | executeFnReturns =>
    simp only [step] at h
    split at h
    · next id frames hframes =>
      obtain ⟨context, hcontext, rfl⟩ := Option.map_eq_some_iff.mp h
      cases CancellationContext.moved_step hcontext with
      | returned hreturned =>
        rw [hframes] at hreturned
        obtain ⟨hid, rfl⟩ := List.cons.inj hreturned
        obtain rfl := CancellationContext.Frame.executing.inj hid
        exact .returned hframes
    · cases h
  | cancelFnReturns =>
    obtain ⟨context, hcontext, rfl⟩ := Option.map_eq_some_iff.mp h
    cases CancellationContext.moved_step hcontext with
    | notified hframes => exact .notified hframes
  | cancelOperation =>
    obtain ⟨context, hcontext, rfl⟩ := Option.map_eq_some_iff.mp h
    cases CancellationContext.moved_step hcontext with
    | ignored hcancelled => exact .ignored hcancelled
    | cancelled hcancelled => exact .cancelled hcancelled
  | cancelReturns =>
    obtain ⟨context, hcontext, rfl⟩ := Option.map_eq_some_iff.mp h
    cases CancellationContext.moved_step hcontext with
    | finished hframes => exact .finished hframes

/-! ## The invariant -/

/-- Requests are numbered as they are started; before the cancellation the context holds the token
of the one whose start returned last; and `CancelOperation` has been called iff it is under way or
has set the flag. -/
structure Ordered (s : State) : Prop where
  pending_lt : ∀ id, Pending s id → id < s.context.started
  executing_lt : ∀ id, .executing id ∈ s.context.frames → id < s.context.started
  returned_lt : ∀ id ∈ s.returned, id < s.context.started
  cancelled_lt : ∀ id, some id ∈ s.context.cancelled → id < s.context.started
  token_eq : s.context.context.isCancelled = false →
    s.context.context.subOperationCancelToken = s.returned.head?
  cancelling : s.context.cancelled ≠ [] → s.context.context.isCancelled = false →
    .cancelling ∈ s.context.frames

theorem ordered_initial (count : ℕ) : Ordered (initial count) where
  pending_lt := by
    rintro id ⟨branch, hbranch, hid⟩
    rw [List.eq_of_mem_replicate hbranch] at hid
    cases hid
  executing_lt := by
    intro id hid
    cases hid
  returned_lt := by
    intro id hid
    cases hid
  cancelled_lt := by
    intro id hid
    cases hid
  token_eq := fun _ => rfl
  cancelling := fun h => absurd rfl h

/-- The start of a request. -/
theorem Ordered.start {s : State} (h : Ordered s) {i : ℕ} {new : Branch}
    (hnew : new.pending = some s.context.started) :
    Ordered { s with
      context := { s.context with
        frames := .executing s.context.started :: s.context.frames
        started := s.context.started + 1 }
      branches := s.branches.set i new } where
  pending_lt := by
    rintro id ⟨branch, hbranch, hid⟩
    rcases pending_of_mem_set hbranch hid with hid | hid
    · rw [hnew] at hid
      cases hid
      exact Nat.lt_succ_self _
    · exact Nat.lt_succ_of_lt (h.pending_lt id hid)
  executing_lt := by
    intro id hid
    rcases List.mem_cons.mp hid with hid | hid
    · cases hid
      exact Nat.lt_succ_self _
    · exact Nat.lt_succ_of_lt (h.executing_lt id hid)
  returned_lt := fun id hid => Nat.lt_succ_of_lt (h.returned_lt id hid)
  cancelled_lt := fun id hid => Nat.lt_succ_of_lt (h.cancelled_lt id hid)
  token_eq := h.token_eq
  cancelling := fun hcalled hflag => List.mem_cons_of_mem _ (h.cancelling hcalled hflag)

theorem ordered_step {s s' : State} {event : Event} (h : Ordered s)
    (hstep : step s event = some s') : Ordered s' := by
  cases moved_step hstep with
  | quiet _ hpending =>
    exact { h with
      pending_lt := fun id ⟨branch, hbranch, hid⟩ =>
        h.pending_lt id (hpending branch hbranch id hid) }
  | refused hcancelled =>
    refine { h with pending_lt := ?_, executing_lt := ?_, cancelling := ?_ }
    · rintro id ⟨branch, hbranch, hid⟩
      rcases pending_of_mem_set hbranch hid with hid | hid
      · cases hid
      · exact h.pending_lt id hid
    · intro id hid
      rcases List.mem_cons.mp hid with hid | hid
      · cases hid
      · exact h.executing_lt id hid
    · intro _ hflag
      rw [hcancelled] at hflag
      cases hflag
  | lookup => exact h.start rfl
  | request => exact h.start rfl
  | returned hframes =>
    have hlt := h.executing_lt _ (hframes ▸ List.mem_cons_self)
    refine { h with executing_lt := ?_, returned_lt := ?_, token_eq := ?_, cancelling := ?_ }
    · intro id hid
      exact h.executing_lt id (hframes ▸ List.mem_cons_of_mem _ hid)
    · intro id hid
      rcases List.mem_cons.mp hid with rfl | hid
      · exact hlt
      · exact h.returned_lt id hid
    · exact fun _ => rfl
    · intro hcalled hflag
      have hframe := h.cancelling hcalled hflag
      rw [hframes] at hframe
      exact List.mem_of_ne_of_mem CancellationContext.Frame.noConfusion hframe
  | notified hframes =>
    refine { h with executing_lt := ?_, cancelling := ?_ }
    · intro id hid
      exact h.executing_lt id (hframes ▸ List.mem_cons_of_mem _ hid)
    · intro hcalled hflag
      have hframe := h.cancelling hcalled hflag
      rw [hframes] at hframe
      exact List.mem_of_ne_of_mem CancellationContext.Frame.noConfusion hframe
  | ignored => exact h
  | cancelled hflag =>
    refine { h with executing_lt := ?_, cancelled_lt := ?_, cancelling := ?_ }
    · intro id hid
      rcases List.mem_cons.mp hid with hid | hid
      · cases hid
      · exact h.executing_lt id hid
    · intro id hid
      rcases List.mem_append.mp hid with hid | hid
      · exact h.cancelled_lt id hid
      · rw [List.mem_singleton, h.token_eq hflag] at hid
        exact h.returned_lt id (List.mem_of_mem_head? hid.symm)
    · exact fun _ _ => List.mem_cons_self
  | finished hframes =>
    refine { h with executing_lt := ?_, token_eq := ?_, cancelling := ?_ }
    · intro id hid
      exact h.executing_lt id (hframes ▸ List.mem_cons_of_mem _ hid)
    · intro hflag
      cases hflag
    · intro _ hflag
      cases hflag

/-! ## What is reached -/

/-- Once `CancelOperation` has been called, the token of every request that is under way has been
cancelled. -/
def Reached (s : State) : Prop :=
  s.context.cancelled ≠ [] → ∀ id, Pending s id → some id ∈ s.context.cancelled

/-- Once `CancelOperation` has been called, no request is started. -/
def StartsNothing (s : State) (event : Event) : Prop :=
  s.context.cancelled ≠ [] → ∀ s', step s event = some s' →
    s'.context.started = s.context.started

/-- When `CancelOperation` is called, no request is under way but the one whose start returned
last, and while it cancels the token no lookup leads to a request. -/
def OneUnderWay (s : State) : Event → Prop
  | .cancelOperation =>
    s.context.cancelled = [] → s.context.context.isCancelled = false →
      ∀ id, Pending s id → s.returned.head? = some id
  | .executeRequest i =>
    s.branches[i]? = some .found → s.context.context.isCancelled = false →
      s.context.cancelled = []
  | _ => True

theorem not_reached_of_start {s : State} (h : Ordered s) {i : ℕ} {old new : Branch}
    (hi : s.branches[i]? = some old) (hnew : new.pending = some s.context.started)
    (hcalled : s.context.cancelled ≠ []) :
    ¬ Reached { s with
      context := { s.context with
        frames := .executing s.context.started :: s.context.frames
        started := s.context.started + 1 }
      branches := s.branches.set i new } := by
  intro hreached
  have hmem : new ∈ s.branches.set i new :=
    List.mem_set (List.getElem?_eq_some_iff.mp hi).1 new
  have hin := hreached hcalled s.context.started ⟨new, hmem, hnew⟩
  exact absurd (h.cancelled_lt _ hin) (Nat.lt_irrefl _)

/-- **One step** after which everything is reached. -/
theorem reached_step {s s' : State} {event : Event} (h : Ordered s) (hreached : Reached s)
    (hstep : step s event = some s') : Reached s' ↔ OneUnderWay s event := by
  cases moved_step hstep with
  | quiet hquiet hpending =>
    apply iff_of_true
    · rintro hcalled id ⟨branch, hbranch, hid⟩
      exact hreached hcalled id (hpending branch hbranch id hid)
    · cases event with
      | queryDataForEachSubTile | withoutRequest | lookupAnswers | requestAnswers => trivial
      | executeLookup | executeFnReturns | cancelFnReturns | cancelReturns => trivial
      | executeRequest | cancelOperation => exact hquiet.elim
  | refused hcancelled =>
    apply iff_of_true
    · rintro hcalled id ⟨branch, hbranch, hid⟩
      rcases pending_of_mem_set hbranch hid with hid | hid
      · cases hid
      · exact hreached hcalled id hid
    · have hnot : s.context.context.isCancelled ≠ false := by
        rw [hcancelled]
        exact Bool.noConfusion
      cases event with
      | executeRequest => exact fun _ hflag => absurd hflag hnot
      | cancelOperation => exact fun _ hflag => absurd hflag hnot
      | queryDataForEachSubTile | withoutRequest | lookupAnswers | requestAnswers => trivial
      | executeLookup | executeFnReturns | cancelFnReturns | cancelReturns => trivial
  | lookup hwaiting hframes hflag =>
    -- no thread is inside, so `CancelOperation` would have set the flag
    have hnone : s.context.cancelled = [] := by
      by_contra hcalled
      have hframe := h.cancelling hcalled hflag
      rw [hframes] at hframe
      cases hframe
    exact iff_of_true (fun hcalled => absurd hnone hcalled) trivial
  | request hfound hflag =>
    by_cases hcalled : s.context.cancelled = []
    · exact iff_of_true (fun hnot => absurd hcalled hnot) fun _ _ => hcalled
    · apply iff_of_false
      · exact not_reached_of_start h hfound rfl hcalled
      · exact fun hunder => hcalled (hunder hfound hflag)
  | returned => exact iff_of_true hreached trivial
  | notified => exact iff_of_true hreached trivial
  | ignored hcancelled =>
    refine iff_of_true hreached fun _ hflag => ?_
    rw [hcancelled] at hflag
    cases hflag
  | cancelled hflag =>
    by_cases hcalled : s.context.cancelled = []
    · rw [Reached]
      simp only [OneUnderWay, hcalled, hflag, h.token_eq hflag, List.nil_append,
        List.mem_singleton, true_implies]
      constructor
      · exact fun hall id hid => (hall (List.cons_ne_nil _ _) id hid).symm
      · exact fun hall _ id hid => (hall id hid).symm
    · apply iff_of_true
      · exact fun _ id hid => List.mem_append_left _ (hreached hcalled id hid)
      · exact fun hnone => absurd hnone hcalled
  | finished => exact iff_of_true hreached trivial

theorem oneUnderWay_of_step_eq_none {s : State} {event : Event} (hstep : step s event = none) :
    OneUnderWay s event := by
  cases event with
  | cancelOperation =>
    intro _ hflag
    rw [step, CancellationContext.step, if_neg (Bool.eq_false_iff.mp hflag)] at hstep
    cases hstep
  | executeRequest i =>
    intro hfound hflag
    rw [step, if_pos hfound, executeOrCancelled, CancellationContext.step,
      CancellationContext.branch, hflag] at hstep
    cases hstep
  | queryDataForEachSubTile | withoutRequest | lookupAnswers | requestAnswers => trivial
  | executeLookup | executeFnReturns | cancelFnReturns | cancelReturns => trivial

theorem startsNothing_of_oneUnderWay {s : State} {event : Event} (h : Ordered s)
    (hunder : OneUnderWay s event) : StartsNothing s event := by
  intro hcalled s' hstep
  cases moved_step hstep with
  | lookup hwaiting hframes hflag =>
    have hframe := h.cancelling hcalled hflag
    rw [hframes] at hframe
    cases hframe
  | request hfound hflag => exact absurd (hunder hfound hflag) hcalled
  | quiet | refused | returned | notified | ignored | cancelled | finished => rfl

/-- **What a prefetch cancellation reaches.** For any number of sub-quads and every interleaving
of the steps of their tasks, and of the tasks for the tiles found, with `CancelOperation`: from
its call on the token of every request under way has been cancelled and no request is started, if
and only if at that call no request is under way but the one whose start returned last, and no
lookup leads to a request while the token is cancelled.
SOURCE: PrefetchTilesRepository.cpp:141-272, PrefetchTilesProvider.cpp:207-259,
CancellationContext.inl:28-62 -/
theorem prefetch_cancellation_reaches (count : ℕ) (events : List Event) :
    ((∀ before, before <+: events → ∀ s, runFrom step (initial count) before = some s →
        Reached s) ∧ Along step StartsNothing (initial count) events) ↔
      Along step OneUnderWay (initial count) events := by
  have hreached : (∀ before, before <+: events → ∀ s,
      runFrom step (initial count) before = some s → Reached s) ↔
        Along step OneUnderWay (initial count) events :=
    forall_before_iff_along Ordered Reached (fun _ _ _ => ordered_step)
      (fun _ _ _ => reached_step) (fun _ _ _ => oneUnderWay_of_step_eq_none)
      (ordered_initial count) (fun hcalled => absurd rfl hcalled) events
  constructor
  · exact fun h => hreached.mp h.1
  · intro hunder
    refine ⟨hreached.mpr hunder, ?_⟩
    exact along_imp Ordered (fun _ _ _ => ordered_step)
      (fun _ _ h hunder => startsNothing_of_oneUnderWay h hunder) (ordered_initial count) hunder

/-- Two sub-quads are looked up when the prefetch is cancelled: the first lookup goes on. -/
theorem second_lookup_hides_first :
    let events : List Event := [.executeLookup 0, .executeFnReturns, .executeLookup 1,
      .executeFnReturns, .cancelOperation, .cancelReturns]
    ∃ s, runFrom step (initial 2) events = some s ∧ Pending s 0 ∧
      s.context.cancelled = [some 1] ∧ ¬ Reached s := by
  intro events
  refine ⟨_, rfl, ⟨.lookup 0, by decide, rfl⟩, rfl, fun hreached => ?_⟩
  have hin := hreached (by decide) 0 ⟨.lookup 0, by decide, rfl⟩
  revert hin
  decide

end OlpEdgeSdk.Analysis.PrefetchCancellation

import OlpEdgeSdk.Analysis.OlpClientRetries

/-!
# Cancelling a call

Once the cancellation of a call has begun, no further attempt should be made, and the caller
should still be answered once. The second holds in every run. The first can fail at one moment
only: the context calls the token of the attempt under way before it counts as cancelled, and a
handler that answers from inside that call starts a retry on the same thread, which finds the
context not cancelled yet. `no_attempt_after_cancel_iff` says that this is all.

The cancellation begins when the thread that cancels has the mutex of the context.
-/

set_option autoImplicit false

namespace OlpEdgeSdk.Analysis.OlpClient

open OlpEdgeSdk.Base OlpEdgeSdk.Model OlpEdgeSdk.Model.OlpClient

variable {call : Call} {s s' : State} {event : Event}

/-! ## In every run -/

/-- The attempt the chain is at, if it is not over. -/
def attemptOf : Control → Option ℕ
  | .waiting attempt _ => some attempt
  | .sleeping attempt _ _ => some attempt
  | .locked attempt _ _ => some attempt
  | .done => none

/-- The chain is at the attempt that was made last, and the caller has been answered iff the
chain is over. -/
structure Accounted (s : State) : Prop where
  attempt : ∀ attempt, attemptOf s.control = some attempt → s.invocations.length = attempt
  answered : s.delivered.length = if s.control = .done then 1 else 0

theorem accounted_start (call : Call) : Accounted (start call) where
  attempt := by simp [start, attemptOf]
  answered := rfl

/-- **Step.** -/
theorem Accounted.step (h : Accounted s) (hstep : OlpClient.step call s event = some s') :
    Accounted s' := by
  have hattempt := h.attempt
  have hanswered := h.answered
  cases moved_step hstep with
  | answered hcontrol _ _ | orphaned hcontrol _ | refused hcontrol _ _ =>
    rw [hcontrol] at hanswered
    refine ⟨fun _ hnone => (Option.some_ne_none _ hnone.symm).elim, ?_⟩
    simpa using hanswered
  | slept hcontrol _ _ | locked hcontrol _ =>
    rw [hcontrol] at hattempt hanswered
    exact ⟨hattempt, by simpa using hanswered⟩
  | retried hcontrol _ _ =>
    rw [hcontrol] at hattempt hanswered
    refine ⟨fun attempt hattempt' => ?_, by simpa using hanswered⟩
    rw [List.length_append, hattempt _ rfl]
    exact Option.some.inj hattempt'
  | returned | ignored | cancelStarted | cancelEnded | discarded => exact ⟨hattempt, hanswered⟩

theorem accounted_run {events : List Event} (h : Accounted s)
    (hrun : runFrom (step call) s events = some s') : Accounted s' :=
  invariant_of_steps Accounted (fun _ _ _ h hstep => h.step hstep) hrun h

/-- Attempts are never undone. -/
theorem invocations_run {events : List Event} (hrun : runFrom (step call) s events = some s') :
    s.invocations.length ≤ s'.invocations.length := by
  refine invariant_of_steps (fun t => s.invocations.length ≤ t.invocations.length) ?_ hrun le_rfl
  intro t event t' hle hstep
  cases moved_step hstep with
  | retried =>
    rw [List.length_append]
    exact Nat.le_add_right_of_le hle
  | answered | slept | locked | orphaned | refused | returned | ignored | cancelStarted
  | cancelEnded | discarded => exact hle

/-- Before a cancellation the context is not cancelled, and none is under way. -/
theorem not_cancelled_run {events : List Event} (hevents : .cancel ∉ events)
    (hrun : runFrom (step call) (start call) events = some s) :
    s.context.isCancelled = false ∧ .cancelling ∉ s.frames := by
  have halong : Along (step call) (fun _ event => event ≠ .cancel) (start call) events := by
    rw [along_iff_forall_split]
    rintro earlier event later rfl s' - rfl
    exact hevents (by simp)
  refine invariant_along (fun s => s.context.isCancelled = false ∧ .cancelling ∉ s.frames) ?_ hrun
    halong ⟨rfl, by simp [start]⟩
  rintro t event t' ⟨hflag, hframes⟩ hevent hstep
  cases moved_step hstep with
  | answered | slept | locked | orphaned | refused | discarded => exact ⟨hflag, hframes⟩
  | retried => exact ⟨hflag, by simpa using hframes⟩
  | returned htop _ =>
    rw [htop] at hframes
    exact ⟨hflag, fun hmem => hframes (List.mem_cons_of_mem _ hmem)⟩
  | ignored | cancelStarted => exact absurd rfl hevent
  | cancelEnded htop _ =>
    rw [htop] at hframes
    exact absurd List.mem_cons_self hframes

/-! ## While a cancellation is under way -/

/-- The context is cancelled, or it is being cancelled and the thread that does so is not in a
callback. -/
def Quiet (s : State) : Prop :=
  s.context.isCancelled = true ∨ (s.isBusy = false ∧ .cancelling ∈ s.frames)

/-- An answer is given inside before a cancelled token has returned. -/
def answersInside : List Event → Bool
  | [] => false
  | .answer true :: _ => true
  | .cancelReturns :: _ => false
  | _ :: events => answersInside events

theorem answersInside_cons (event : Event) (events : List Event) :
    answersInside (event :: events) = true ↔ event = .answer true ∨
      (event ≠ .cancelReturns ∧ answersInside events = true) := by
  cases event with
  | answer inside =>
    cases inside with
    | true => simp [answersInside]
    | false => simp [answersInside]
  | lockContext | enter | handlerReturns | cancel | cancelReturns | discard =>
    simp [answersInside]

/-- **Step.** In a quiet state no attempt is made, and the next state is quiet unless an answer
from inside has to be retried. -/
theorem Quiet.step (h : Quiet s) (hstep : OlpClient.step call s event = some s') :
    s'.invocations = s.invocations ∧
      (Quiet s' ∨ (s.context.isCancelled = false ∧ event = .answer true ∧
        s'.context.isCancelled = false ∧ s'.isBusy = true ∧ s'.frames ≠ [] ∧
        ∀ attempt, attemptOf s.control = some attempt → call.isLast attempt = false)) := by
  have hquiet : s'.invocations = s.invocations → Quiet s' →
      s'.invocations = s.invocations ∧ (Quiet s' ∨ (s.context.isCancelled = false ∧
        event = .answer true ∧ s'.context.isCancelled = false ∧ s'.isBusy = true ∧
        s'.frames ≠ [] ∧
        ∀ attempt, attemptOf s.control = some attempt → call.isLast attempt = false)) :=
    fun hsame hs' => ⟨hsame, Or.inl hs'⟩
  cases moved_step hstep with
  | answered hcontrol hinside hlast =>
    exact hquiet rfl (h.imp_right fun hbusy => ⟨rfl, hbusy.2⟩)
  | slept hcontrol hinside hlast =>
    rename_i attempt period inside
    by_cases hflag : s.context.isCancelled = true
    · exact hquiet rfl (Or.inl hflag)
    · have hframes : .cancelling ∈ s.frames := (h.resolve_left hflag).2
      rw [Bool.not_eq_true] at hflag
      cases inside with
      | true =>
        refine ⟨rfl, Or.inr ⟨hflag, rfl, hflag, rfl, List.ne_nil_of_mem hframes, ?_⟩⟩
        intro attempt' hattempt
        rw [hcontrol] at hattempt
        rwa [← Option.some.inj hattempt]
      | false => exact hquiet rfl (Or.inr ⟨rfl, hframes⟩)
  | locked hcontrol halive =>
    refine hquiet rfl (h.imp_right fun hbusy => ⟨?_, hbusy.2⟩)
    simpa [State.isBusy, hcontrol] using hbusy.1
  | orphaned hcontrol hdead => exact hquiet rfl (h.imp_right fun hbusy => ⟨rfl, hbusy.2⟩)
  | retried hcontrol hfree hflag =>
    obtain ⟨hidle, hframes⟩ := h.resolve_left (by simp [hflag])
    rcases hfree with rfl | hnil
    · simp [State.isBusy, hcontrol] at hidle
    · simp [hnil] at hframes
  | refused hcontrol hfree hflag => exact hquiet rfl (Or.inl hflag)
  | returned hframes hidle =>
    refine hquiet rfl (h.imp_right fun hbusy => ⟨hbusy.1, ?_⟩)
    have hmem := hbusy.2
    rw [hframes] at hmem
    simpa using hmem
  | ignored hflag hidle hheld => exact hquiet rfl h
  | cancelStarted hflag hidle hheld =>
    exact hquiet rfl (Or.inr ⟨hidle, List.mem_cons_self⟩)
  | cancelEnded hframes hidle => exact hquiet rfl (Or.inl rfl)
  | discarded hheld => exact hquiet rfl h

/-- The flag is set by the return of a cancelled token and by nothing else. -/
theorem isCancelled_step (hstep : step call s event = some s') :
    s'.context.isCancelled = true ↔ s.context.isCancelled = true ∨ event = .cancelReturns := by
  cases moved_step hstep with
  | cancelEnded => simp [CancellationContext.finishCancel]
  | returned => simp [CancellationContext.assign]
  | answered | slept | locked | orphaned | retried | refused | ignored | cancelStarted
  | discarded => simp

/-- **Run.** No attempt is made from a quiet state on, if the answers that come from inside a
cancelled token are not retried. -/
theorem Quiet.run {k : ℕ} {after : List Event} (h : Quiet s) (haccounted : Accounted s)
    (hk : s.invocations.length = k)
    (hinside : s.context.isCancelled = false → answersInside after = true → call.isLast k = true)
    (hrun : runFrom (OlpClient.step call) s after = some s') :
    s'.invocations = s.invocations := by
  induction after generalizing s with
  | nil =>
    cases hrun
    rfl
  | cons event events ih =>
    obtain ⟨m, hm, hrest⟩ := runFrom_cons.mp hrun
    obtain ⟨hsame, hm'⟩ := h.step hm
    rcases hm' with hquiet | ⟨hflag, rfl, -, -, -, hlast⟩
    · have hevents : m.context.isCancelled = false → answersInside events = true →
          call.isLast k = true := by
        intro hflag hanswers
        have hstep := isCancelled_step hm
        rw [hflag] at hstep
        simp only [Bool.false_eq_true, false_iff, not_or] at hstep
        refine hinside (Bool.eq_false_iff.mpr hstep.1) ?_
        exact (answersInside_cons event events).mpr (Or.inr ⟨hstep.2, hanswers⟩)
      rw [ih hquiet (haccounted.step hm) (hsame ▸ hk) hevents hrest, hsame]
    · -- the answer is one to the attempt that was made last
      cases moved_step hm with
      | answered hcontrol hframes hanswered =>
        rw [hlast _ (by rw [hcontrol]; rfl)] at hanswered
        cases hanswered
      | slept hcontrol hframes hretry =>
        have hattempt := haccounted.attempt _ (by rw [hcontrol]; rfl)
        rw [← hattempt, hk, hinside hflag rfl] at hretry
        cases hretry

/-- **Run.** A callback that runs inside a context that is not cancelled goes on to the next
attempt. -/
theorem attempt_of_busy {after : List Event} (hbusy : s.isBusy = true) (hframes : s.frames ≠ [])
    (hflag : s.context.isCancelled = false)
    (hrun : runFrom (step call) s after = some s') (hsettled : Settled call s') :
    s.invocations.length < s'.invocations.length := by
  induction after generalizing s with
  | nil =>
    cases hrun
    rw [State.isBusy, (settled_iff.mp hsettled).1] at hbusy
    cases hbusy
  | cons event events ih =>
    obtain ⟨m, hm, hrest⟩ := runFrom_cons.mp hrun
    cases moved_step hm with
    | answered hcontrol _ _ | slept hcontrol _ _ => simp [State.isBusy, hcontrol] at hbusy
    | locked hcontrol halive =>
      rename_i attempt period inside
      have hbusy' : State.isBusy { s with control := .locked attempt period inside } = true := by
        simpa [State.isBusy, hcontrol] using hbusy
      have hlt := ih hbusy' hframes hflag hrest
      exact hlt
    | orphaned _ hdead => simp [State.isAlive, hframes] at hdead
    | retried =>
      have hle := invocations_run hrest
      rw [List.length_append] at hle
      exact Nat.lt_of_lt_of_le (Nat.lt_succ_self _) hle
    | refused _ _ hcancelled =>
      rw [hflag] at hcancelled
      cases hcancelled
    | returned _ hidle | ignored _ hidle _ | cancelStarted _ hidle _ | cancelEnded _ hidle =>
      rw [hbusy] at hidle
      cases hidle
    | discarded =>
      have hbusy' : State.isBusy { s with held := false } = true := hbusy
      have hlt := ih hbusy' hframes hflag hrest
      exact hlt

/-- **Run.** An answer from inside a cancelled token that has to be retried is retried. -/
theorem attempt_of_answersInside {k : ℕ} {after : List Event} (h : Quiet s)
    (hflag : s.context.isCancelled = false) (haccounted : Accounted s)
    (hk : s.invocations.length = k) (hanswers : answersInside after = true)
    (hretry : call.isLast k = false) (hrun : runFrom (step call) s after = some s')
    (hsettled : Settled call s') : k < s'.invocations.length := by
  induction after generalizing s with
  | nil => cases hanswers
  | cons event events ih =>
    obtain ⟨m, hm, hrest⟩ := runFrom_cons.mp hrun
    obtain ⟨hsame, hm'⟩ := h.step hm
    rcases hm' with hquiet | ⟨-, -, hflag', hbusy, hframes, -⟩
    · rcases (answersInside_cons event events).mp hanswers with rfl | ⟨hevent, hanswers'⟩
      · -- an answer to the attempt that was made last, so it is retried, inside
        cases moved_step hm with
        | answered hcontrol _ hlast =>
          have hattempt := haccounted.attempt _ (by rw [hcontrol]; rfl)
          rw [← hattempt, hk, hretry] at hlast
          cases hlast
        | slept hcontrol _ _ =>
          rcases hquiet with hcancelled | ⟨hidle, -⟩
          · rw [hflag] at hcancelled
            cases hcancelled
          · cases hidle
      · have hstep := isCancelled_step hm
        have hflag' : m.context.isCancelled = false := by
          rw [Bool.eq_false_iff, ne_eq, hstep, hflag]
          simpa using hevent
        exact ih hquiet hflag' (haccounted.step hm) (hsame ▸ hk) hanswers' hrest
    · have hlt := attempt_of_busy hbusy hframes hflag' hrest hsettled
      rwa [hsame, hk] at hlt

/-! ## The cancellation -/

/-- **When no attempt escapes a cancellation.** For every call, sequence of responses and moment
of the cancellation, and every way the run goes on until nothing is left to happen: no attempt is
made once the cancellation has begun and the caller is answered exactly once, iff an answer that
comes from inside the cancelled token is one that is not retried (the attempts are used up, or
the retry condition does not ask for it).
SOURCE: OlpClient.cpp:146-230, CancellationContext.inl:28-62 -/
theorem no_attempt_after_cancel_iff (call : Call) (before after : List Event) (s s' s'' : State)
    (hbefore : runFrom (step call) (start call) before = some s) (hone : .cancel ∉ before)
    (hcancel : step call s .cancel = some s')
    (hafter : runFrom (step call) s' after = some s'') (hsettled : Settled call s'') :
    (s''.invocations = s.invocations ∧ s''.delivered.length = 1) ↔
      (answersInside after = true → call.isLast s.invocations.length = true) := by
  obtain ⟨hflag, -⟩ := not_cancelled_run hone hbefore
  have haccounted := accounted_run (accounted_start call) hbefore
  have haccounted' := haccounted.step hcancel
  have hanswered : s''.delivered.length = 1 := by
    have hend := (accounted_run haccounted' hafter).answered
    rwa [if_pos (settled_iff.mp hsettled).1] at hend
  obtain ⟨hinvocations, hflag', hquiet⟩ : s'.invocations = s.invocations ∧
      s'.context.isCancelled = false ∧ Quiet s' := by
    cases moved_step hcancel with
    | ignored hcancelled _ _ =>
      rw [hflag] at hcancelled
      cases hcancelled
    | cancelStarted _ hidle _ => exact ⟨rfl, hflag, Or.inr ⟨hidle, List.mem_cons_self⟩⟩
  have hk : s'.invocations.length = s.invocations.length := by rw [hinvocations]
  constructor
  · rintro ⟨hsame, -⟩ hanswers
    by_contra hretry
    have hlt := attempt_of_answersInside hquiet hflag' haccounted' hk hanswers
      (Bool.eq_false_iff.mpr hretry) hafter hsettled
    rw [hsame] at hlt
    exact Nat.lt_irrefl _ hlt
  · intro hinside
    refine ⟨?_, hanswered⟩
    rw [hquiet.run haccounted' hk (fun _ => hinside) hafter, hinvocations]

/-- The handler answers from inside its token with a response that is not retried. -/
theorem cancelled_call_ends :
    let call := exampleClient.callApi "sdk".toList "/p".toList "GET".toList [] [] none []
      fun _ => ⟨200, []⟩
    ∃ s s' s'', runFrom (step call) (start call) [.handlerReturns] = some s ∧
      step call s .cancel = some s' ∧
      runFrom (step call) s' [.answer true, .cancelReturns] = some s'' ∧
      s''.invocations = s.invocations ∧ s''.delivered.length = 1 := by
  intro call
  exact ⟨_, _, _, rfl, rfl, rfl, (no_attempt_after_cancel_iff call [.handlerReturns]
    [.answer true, .cancelReturns] _ _ _ rfl (by decide) rfl rfl
    (settled_iff.mpr ⟨rfl, rfl⟩)).mpr fun _ => rfl⟩

/-- The handler answers from inside its token that it was cancelled, which the settings ask to
retry: a second attempt is made while the cancellation is under way, and its response is what the
caller gets. -/
theorem attempt_escapes_cancel :
    let responses : ℕ → HttpResponse := fun i => if i = 1 then HttpResponse.cancelled else ⟨200, []⟩
    let call := exampleClient.callApi "sdk".toList "/p".toList "GET".toList [] [] none [] responses
    ∃ s s' s'', runFrom (step call) (start call) [.handlerReturns] = some s ∧
      step call s .cancel = some s' ∧
      runFrom (step call) s' [.answer true, .lockContext, .enter, .handlerReturns,
        .cancelReturns, .answer false] = some s'' ∧ Settled call s'' ∧
      s.invocations.length = 1 ∧ s''.invocations.length = 2 ∧ s''.delivered = [⟨200, []⟩] := by
  intro responses call
  exact ⟨_, _, _, rfl, rfl, rfl, settled_iff.mpr ⟨rfl, rfl⟩, rfl, rfl, rfl⟩

end OlpEdgeSdk.Analysis.OlpClient

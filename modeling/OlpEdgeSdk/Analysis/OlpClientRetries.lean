import Mathlib.Data.List.Range
import Mathlib.Logic.Function.Iterate
import OlpEdgeSdk.Model.OlpClient

/-!
# The law of retries

Without a cancellation, and as long as the caller keeps the token, a call makes the attempts its
settings ask for and answers the caller once, with the last response: `retry_law`. It does not
matter whether the handler answers inside the call, later, or in any mix of the two.

If the caller drops the token the context dies with it, and the callback of the first attempt
that has to be repeated finds nothing to go on with: `same_outcome_iff` says when dropping the
token makes no difference.
-/

set_option autoImplicit false

namespace OlpEdgeSdk.Analysis.OlpClient

open OlpEdgeSdk.Base OlpEdgeSdk.Model OlpEdgeSdk.Model.OlpClient

variable {call : Call} {s s' : State} {event : Event}

/-! ## What one event can do -/

/-- What an event can do, guards included. -/
inductive Moved (call : Call) (s : State) : Event → State → Prop where
  | answered {attempt : ℕ} {period : ℤ} {inside : Bool}
      (hcontrol : s.control = .waiting attempt period) (hinside : inside = true → s.frames ≠ [])
      (hlast : call.isLast attempt = true) :
      Moved call s (.answer inside) { s with
        control := .done, delivered := s.delivered ++ [call.responses attempt] }
  | slept {attempt : ℕ} {period : ℤ} {inside : Bool}
      (hcontrol : s.control = .waiting attempt period) (hinside : inside = true → s.frames ≠ [])
      (hlast : call.isLast attempt = false) :
      Moved call s (.answer inside) { s with
        control := .sleeping attempt period inside, waits := s.waits ++ [period] }
  | locked {attempt : ℕ} {period : ℤ} {inside : Bool}
      (hcontrol : s.control = .sleeping attempt period inside) (halive : s.isAlive = true) :
      Moved call s .lockContext { s with control := .locked attempt period inside }
  | orphaned {attempt : ℕ} {period : ℤ} {inside : Bool}
      (hcontrol : s.control = .sleeping attempt period inside) (hdead : s.isAlive = false) :
      Moved call s .lockContext { s with
        control := .done, delivered := s.delivered ++ [HttpResponse.unknownError] }
  | retried {attempt : ℕ} {period : ℤ} {inside : Bool}
      (hcontrol : s.control = .locked attempt period inside)
      (hfree : inside = true ∨ s.frames = []) (hflag : s.context.isCancelled = false) :
      Moved call s .enter { s with
        control := .waiting (attempt + 1) (call.settings.backdownPolicy period),
        frames := .handler (attempt + 1) :: s.frames,
        invocations := s.invocations ++ [(call.request, call.config)] }
  | refused {attempt : ℕ} {period : ℤ} {inside : Bool}
      (hcontrol : s.control = .locked attempt period inside)
      (hfree : inside = true ∨ s.frames = []) (hflag : s.context.isCancelled = true) :
      Moved call s .enter { s with
        control := .done, delivered := s.delivered ++ [HttpResponse.cancelled] }
  | returned {attempt : ℕ} {frames : List Frame} (hframes : s.frames = .handler attempt :: frames)
      (hidle : s.isBusy = false) :
      Moved call s .handlerReturns { s with
        context := s.context.assign (some attempt), frames := frames,
        held := s.held || attempt == 1 }
  | ignored (hflag : s.context.isCancelled = true) (hidle : s.isBusy = false)
      (hheld : s.held = true) : Moved call s .cancel s
  | cancelStarted (hflag : s.context.isCancelled = false) (hidle : s.isBusy = false)
      (hheld : s.held = true) :
      Moved call s .cancel { s with frames := .cancelling :: s.frames }
  | cancelEnded {frames : List Frame} (hframes : s.frames = .cancelling :: frames)
      (hidle : s.isBusy = false) :
      Moved call s .cancelReturns { s with context := s.context.finishCancel, frames := frames }
  | discarded (hheld : s.held = true) : Moved call s .discard { s with held := false }

theorem moved_step (h : step call s event = some s') : Moved call s event s' := by
  cases event with
  | answer inside =>
    simp only [step] at h
    split at h
    · rename_i attempt period hcontrol
      split at h
      · cases h
      · rename_i hinside
        have hframes : inside = true → s.frames ≠ [] := by
          intro htrue hnil
          simp [htrue, hnil] at hinside
        split at h
        · rename_i hlast
          cases h
          exact .answered hcontrol hframes hlast
        · rename_i hlast
          cases h
          exact .slept hcontrol hframes (Bool.eq_false_iff.mpr hlast)
    · cases h
  | lockContext =>
    simp only [step] at h
    split at h
    · rename_i attempt period inside hcontrol
      split at h
      · rename_i halive
        cases h
        exact .locked hcontrol halive
      · rename_i hdead
        cases h
        exact .orphaned hcontrol (Bool.eq_false_iff.mpr hdead)
    · cases h
  | enter =>
    simp only [step] at h
    split at h
    · rename_i attempt period inside hcontrol
      split at h
      · rename_i hfree
        simp only [Bool.or_eq_true, List.isEmpty_iff] at hfree
        cases hflag : s.context.isCancelled with
        | true =>
          simp only [enterContext, CancellationContext.branch, hflag, Bool.and_self, if_true,
            Option.some.injEq] at h
          subst h
          exact .refused hcontrol hfree hflag
        | false =>
          simp only [enterContext, CancellationContext.branch, hflag, Bool.false_and,
            Bool.false_eq_true, if_false, if_true, Option.some.injEq] at h
          subst h
          exact .retried hcontrol hfree hflag
      · cases h
    · cases h
  | handlerReturns =>
    simp only [step] at h
    split at h
    · rename_i attempt frames hframes
      split at h
      · cases h
      · rename_i hidle
        cases h
        exact .returned hframes (Bool.eq_false_iff.mpr hidle)
    · cases h
  | cancel =>
    simp only [step] at h
    split at h
    · cases h
    · rename_i hnot
      simp only [Bool.or_eq_true, Bool.not_eq_true', not_or, Bool.not_eq_true,
        Bool.not_eq_false] at hnot
      split at h
      · rename_i hflag
        cases h
        exact .ignored hflag hnot.1 hnot.2
      · rename_i hflag
        cases h
        exact .cancelStarted (Bool.eq_false_iff.mpr hflag) hnot.1 hnot.2
  | cancelReturns =>
    simp only [step] at h
    split at h
    · rename_i frames hframes
      split at h
      · cases h
      · rename_i hidle
        cases h
        exact .cancelEnded hframes (Bool.eq_false_iff.mpr hidle)
    · cases h
  | discard =>
    simp only [step] at h
    split at h
    · rename_i hheld
      cases h
      exact .discarded hheld
    · cases h

/-- Nothing is left to happen by itself: only the caller could still cancel or drop the
token. -/
def Settled (call : Call) (s : State) : Prop :=
  ∀ event, event ≠ .cancel → event ≠ .discard → step call s event = none

/-- **Progress.** A state is settled iff the caller has its answer and no thread is inside the
context. -/
theorem settled_iff : Settled call s ↔ s.control = .done ∧ s.frames = [] := by
  constructor
  · intro h
    have hframes : s.isBusy = false → s.frames = [] := by
      intro hidle
      cases hf : s.frames with
      | nil => rfl
      | cons frame frames =>
        cases frame with
        | handler attempt =>
          have hstep := h .handlerReturns (by decide) (by decide)
          simp [step, hf, hidle] at hstep
        | cancelling =>
          have hstep := h .cancelReturns (by decide) (by decide)
          simp [step, hf, hidle] at hstep
    cases hcontrol : s.control with
    | waiting attempt period =>
      have hstep := h (.answer false) (by decide) (by decide)
      simp only [step, hcontrol, Bool.false_and, Bool.false_eq_true, if_false] at hstep
      split at hstep
      · cases hstep
      · cases hstep
    | sleeping attempt period inside =>
      have hstep := h .lockContext (by decide) (by decide)
      simp only [step, hcontrol] at hstep
      split at hstep
      · cases hstep
      · cases hstep
    | locked attempt period inside =>
      have hstep := h .enter (by decide) (by decide)
      have hidle : s.isBusy = inside := by simp [State.isBusy, hcontrol]
      cases inside with
      | true => simp [step, hcontrol] at hstep
      | false => simp [step, hcontrol, hframes hidle] at hstep
    | done => exact ⟨rfl, hframes (by simp [State.isBusy, hcontrol])⟩
  · rintro ⟨hcontrol, hframes⟩ event hcancel hdiscard
    cases event with
    | answer | lockContext | enter => simp [step, hcontrol]
    | handlerReturns | cancelReturns => simp [step, hframes]
    | cancel => exact absurd rfl hcancel
    | discard => exact absurd rfl hdiscard

/-! ## How many attempts -/

/-- The most attempts the settings allow. -/
def maxAttempts (call : Call) : ℕ := max 1 call.settings.maxAttempts.toNat

/-- The number of attempts: the first one whose response is not to be retried, or the last one
the settings allow. -/
def attempts (call : Call) : ℕ :=
  match (List.range (maxAttempts call)).find? fun i =>
      !call.settings.retryCondition (call.responses (i + 1)) with
  | some i => i + 1
  | none => maxAttempts call

/-- The wait before the attempt after the next `k` ones. -/
def backdownPeriod (call : Call) (k : ℕ) : ℤ :=
  call.settings.backdownPolicy^[k] call.settings.initialBackdownPeriod

/-- The waits before the first `k` retries. -/
def backdownPeriods (call : Call) (k : ℕ) : List ℤ := (List.range k).map (backdownPeriod call)

theorem backdownPeriods_succ (call : Call) (k : ℕ) :
    backdownPeriods call (k + 1) = backdownPeriods call k ++ [backdownPeriod call k] := by
  simp [backdownPeriods, List.range_succ]

theorem backdownPeriod_succ (call : Call) (k : ℕ) :
    call.settings.backdownPolicy (backdownPeriod call k) = backdownPeriod call (k + 1) :=
  (Function.iterate_succ_apply' _ _ _).symm

theorem one_le_attempts (call : Call) : 1 ≤ attempts call := by
  unfold attempts
  split
  · omega
  · exact le_max_left _ _

/-- The attempts before the last one are retried, and the last one is not. -/
theorem isLast_iff {k : ℕ} (hk : k < attempts call) :
    call.isLast (k + 1) = true ↔ k + 1 = attempts call := by
  have hmax : call.settings.maxAttempts ≤ maxAttempts call := by
    unfold maxAttempts
    omega
  have hbelow : k + 1 < maxAttempts call → ¬ call.settings.maxAttempts ≤ (k + 1 : ℕ) := by
    intro hlt
    unfold maxAttempts at hlt
    omega
  unfold attempts at hk ⊢
  simp only [Call.isLast, Bool.or_eq_true, decide_eq_true_eq]
  split
  · rename_i i hfind
    rw [hfind] at hk
    obtain ⟨hlast, hi, hretried⟩ := List.find?_range_eq_some.mp hfind
    rw [List.mem_range] at hi
    constructor
    · intro hanswered
      by_contra hne
      have hlt : k < i := by
        dsimp only at hk
        omega
      rcases hanswered with hle | hstop
      · exact hbelow (by omega) hle
      · have hretry := hretried k hlt
        rw [hstop] at hretry
        cases hretry
    · intro heq
      obtain rfl : k = i := by omega
      exact Or.inr hlast
  · rename_i hfind
    rw [hfind] at hk
    have hretried := List.find?_range_eq_none.mp hfind
    constructor
    · intro hanswered
      by_contra hne
      have hlt : k + 1 < maxAttempts call := by
        dsimp only at hk
        omega
      rcases hanswered with hle | hstop
      · exact hbelow hlt hle
      · have hretry := hretried k (by omega)
        rw [hstop] at hretry
        cases hretry
    · intro heq
      rw [heq]
      exact Or.inl hmax

/-! ## Runs without a cancellation -/

/-- What a call has done when its chain of attempts is at some point. -/
inductive OnTrack (call : Call) :
    Control → List (NetworkRequest × NetworkConfig) → List ℤ → List HttpResponse → Prop where
  | waiting {k : ℕ} (hk : k < attempts call) :
      OnTrack call (.waiting (k + 1) (backdownPeriod call k))
        (List.replicate (k + 1) (call.request, call.config)) (backdownPeriods call k) []
  | sleeping {k : ℕ} {inside : Bool} (hk : k + 1 < attempts call) :
      OnTrack call (.sleeping (k + 1) (backdownPeriod call k) inside)
        (List.replicate (k + 1) (call.request, call.config)) (backdownPeriods call (k + 1)) []
  | locked {k : ℕ} {inside : Bool} (hk : k + 1 < attempts call) :
      OnTrack call (.locked (k + 1) (backdownPeriod call k) inside)
        (List.replicate (k + 1) (call.request, call.config)) (backdownPeriods call (k + 1)) []
  | done :
      OnTrack call .done (List.replicate (attempts call) (call.request, call.config))
        (backdownPeriods call (attempts call - 1)) [call.responses (attempts call)]

namespace OnTrack

variable {attempt : ℕ} {period : ℤ} {inside : Bool}
  {invocations : List (NetworkRequest × NetworkConfig)} {waits : List ℤ}
  {delivered : List HttpResponse}

theorem of_waiting (h : OnTrack call (.waiting attempt period) invocations waits delivered) :
    ∃ k < attempts call, attempt = k + 1 ∧ period = backdownPeriod call k ∧
      invocations = List.replicate (k + 1) (call.request, call.config) ∧
      waits = backdownPeriods call k ∧ delivered = [] := by
  cases h with
  | waiting hk => exact ⟨_, hk, rfl, rfl, rfl, rfl, rfl⟩

theorem of_sleeping
    (h : OnTrack call (.sleeping attempt period inside) invocations waits delivered) :
    ∃ k, k + 1 < attempts call ∧ attempt = k + 1 ∧ period = backdownPeriod call k ∧
      invocations = List.replicate (k + 1) (call.request, call.config) ∧
      waits = backdownPeriods call (k + 1) ∧ delivered = [] := by
  cases h with
  | sleeping hk => exact ⟨_, hk, rfl, rfl, rfl, rfl, rfl⟩

theorem of_locked
    (h : OnTrack call (.locked attempt period inside) invocations waits delivered) :
    ∃ k, k + 1 < attempts call ∧ attempt = k + 1 ∧ period = backdownPeriod call k ∧
      invocations = List.replicate (k + 1) (call.request, call.config) ∧
      waits = backdownPeriods call (k + 1) ∧ delivered = [] := by
  cases h with
  | locked hk => exact ⟨_, hk, rfl, rfl, rfl, rfl, rfl⟩

theorem of_done (h : OnTrack call .done invocations waits delivered) :
    invocations = List.replicate (attempts call) (call.request, call.config) ∧
      waits = backdownPeriods call (attempts call - 1) ∧
      delivered = [call.responses (attempts call)] := by
  cases h with
  | done => exact ⟨rfl, rfl, rfl⟩

end OnTrack

/-- A state of a call that was not cancelled and whose context is alive: the first handler call
is the outermost frame until the token is with the caller. -/
structure Kept (call : Call) (s : State) : Prop where
  onTrack : OnTrack call s.control s.invocations s.waits s.delivered
  notCancelled : s.context.isCancelled = false
  owned : s.held = true ∨ s.frames.getLast? = some (.handler 1)
  handlers : .cancelling ∉ s.frames

theorem kept_start (call : Call) : Kept call (start call) where
  onTrack := .waiting (k := 0) (one_le_attempts call)
  notCancelled := rfl
  owned := Or.inr rfl
  handlers := by simp [start]

theorem Kept.isAlive (h : Kept call s) : s.isAlive = true := by
  rcases h.owned with hheld | hlast
  · simp [State.isAlive, hheld]
  · have hne : s.frames ≠ [] := by
      rintro hnil
      simp [hnil] at hlast
    simp [State.isAlive, hne]

/-- **Step.** Nothing but a cancellation or the loss of the token leaves the track. -/
theorem Kept.step (h : Kept call s) (hcancel : event ≠ .cancel) (hdiscard : event ≠ .discard)
    (hstep : OlpClient.step call s event = some s') : Kept call s' := by
  have htrack := h.onTrack
  cases moved_step hstep with
  | answered hcontrol hinside hlast =>
    rw [hcontrol] at htrack
    obtain ⟨k, hk, rfl, -, hinvocations, hwaits, hdelivered⟩ := htrack.of_waiting
    have hn := (isLast_iff hk).mp hlast
    have hk' : k = attempts call - 1 := by omega
    rw [hk'] at hwaits
    refine ⟨?_, h.notCancelled, h.owned, h.handlers⟩
    simp only [hinvocations, hwaits, hdelivered, List.nil_append, hn]
    exact .done
  | slept hcontrol hinside hlast =>
    rw [hcontrol] at htrack
    obtain ⟨k, hk, rfl, rfl, hinvocations, hwaits, hdelivered⟩ := htrack.of_waiting
    have hn : k + 1 ≠ attempts call := by
      intro heq
      rw [(isLast_iff hk).mpr heq] at hlast
      cases hlast
    refine ⟨?_, h.notCancelled, h.owned, h.handlers⟩
    simp only [hinvocations, hwaits, hdelivered, ← backdownPeriods_succ]
    exact .sleeping (by omega)
  | locked hcontrol halive =>
    rw [hcontrol] at htrack
    obtain ⟨k, hk, rfl, rfl, hinvocations, hwaits, hdelivered⟩ := htrack.of_sleeping
    refine ⟨?_, h.notCancelled, h.owned, h.handlers⟩
    simp only [hinvocations, hwaits, hdelivered]
    exact .locked hk
  | orphaned hcontrol hdead =>
    rw [h.isAlive] at hdead
    cases hdead
  | retried hcontrol hfree hflag =>
    rw [hcontrol] at htrack
    obtain ⟨k, hk, rfl, rfl, hinvocations, hwaits, hdelivered⟩ := htrack.of_locked
    refine ⟨?_, h.notCancelled, ?_, by simpa using h.handlers⟩
    · simp only [hinvocations, hwaits, hdelivered, backdownPeriod_succ, ← List.replicate_succ']
      exact .waiting hk
    · rcases h.owned with hheld | hlast
      · exact Or.inl hheld
      · refine Or.inr ?_
        rw [List.getLast?_cons, hlast]
        rfl
  | refused hcontrol hfree hflag =>
    rw [h.notCancelled] at hflag
    cases hflag
  | returned hframes hidle =>
    rename_i attempt frames
    have howned := h.owned
    have hhandlers := h.handlers
    rw [hframes] at howned hhandlers
    refine ⟨htrack, h.notCancelled, ?_, fun hmem => hhandlers (List.mem_cons_of_mem _ hmem)⟩
    rcases howned with hheld | hlast
    · exact Or.inl (by simp [hheld])
    · cases frames with
      | nil =>
        obtain rfl : attempt = 1 := by simpa using hlast
        exact Or.inl (by simp)
      | cons frame frames => exact Or.inr (by simpa using hlast)
  | ignored | cancelStarted => exact absurd rfl hcancel
  | cancelEnded hframes =>
    refine absurd ?_ h.handlers
    rw [hframes]
    exact List.mem_cons_self
  | discarded => exact absurd rfl hdiscard

/-- How many events are left at most. -/
def eventsLeft (call : Call) (s : State) : ℕ :=
  s.frames.length + (match s.control with
    | .waiting attempt _ => 4 * (attempts call - attempt) + 1
    | .sleeping attempt _ _ => 4 * (attempts call - attempt)
    | .locked attempt _ _ => 4 * (attempts call - attempt) - 1
    | .done => 0)

theorem Kept.eventsLeft_step (h : Kept call s) (hcancel : event ≠ .cancel)
    (hdiscard : event ≠ .discard) (hstep : OlpClient.step call s event = some s') :
    eventsLeft call s' + 1 ≤ eventsLeft call s := by
  have htrack := h.onTrack
  cases moved_step hstep with
  | answered hcontrol hinside hlast =>
    simp only [eventsLeft, hcontrol]
    omega
  | slept hcontrol hinside hlast =>
    simp only [eventsLeft, hcontrol]
    omega
  | locked hcontrol halive =>
    rw [hcontrol] at htrack
    obtain ⟨k, hk, rfl, -⟩ := htrack.of_sleeping
    simp only [eventsLeft, hcontrol]
    omega
  | orphaned hcontrol hdead =>
    rw [h.isAlive] at hdead
    cases hdead
  | retried hcontrol hfree hflag =>
    rw [hcontrol] at htrack
    obtain ⟨k, hk, rfl, -⟩ := htrack.of_locked
    simp only [eventsLeft, hcontrol, List.length_cons]
    omega
  | refused hcontrol hfree hflag =>
    rw [h.notCancelled] at hflag
    cases hflag
  | returned hframes hidle =>
    simp only [eventsLeft, hframes, List.length_cons]
    omega
  | ignored | cancelStarted => exact absurd rfl hcancel
  | cancelEnded hframes =>
    refine absurd ?_ h.handlers
    rw [hframes]
    exact List.mem_cons_self
  | discarded => exact absurd rfl hdiscard

/-- **Run.** -/
theorem Kept.run (h : Kept call s) {events : List Event}
    (hevents : ∀ event ∈ events, event ≠ .cancel ∧ event ≠ .discard)
    (hrun : runFrom (OlpClient.step call) s events = some s') :
    Kept call s' ∧ events.length + eventsLeft call s' ≤ eventsLeft call s := by
  induction events generalizing s with
  | nil =>
    cases hrun
    exact ⟨h, by simp⟩
  | cons event events ih =>
    obtain ⟨m, hm, hrest⟩ := runFrom_cons.mp hrun
    obtain ⟨hcancel, hdiscard⟩ := hevents event List.mem_cons_self
    obtain ⟨hkept, hlength⟩ := ih (h.step hcancel hdiscard hm)
      (fun event' hmem => hevents event' (List.mem_cons_of_mem _ hmem)) hrest
    have hless := h.eventsLeft_step hcancel hdiscard hm
    refine ⟨hkept, ?_⟩
    rw [List.length_cons]
    omega

/-- The outcome of a kept call that has settled. -/
theorem Kept.outcome (h : Kept call s) (hsettled : Settled call s) :
    s.invocations = List.replicate (attempts call) (call.request, call.config) ∧
      s.waits = backdownPeriods call (attempts call - 1) ∧
      s.delivered = [call.responses (attempts call)] := by
  have htrack := h.onTrack
  rw [(settled_iff.mp hsettled).1] at htrack
  exact htrack.of_done

/-- What is true at any point: at most the attempts that are asked for, all alike, and nothing
but the last response for the caller. -/
theorem Kept.bounded (h : Kept call s) :
    (∃ k ≤ attempts call, s.invocations = List.replicate k (call.request, call.config)) ∧
      (s.delivered = [] ∨ s.delivered = [call.responses (attempts call)]) := by
  have htrack := h.onTrack
  cases hcontrol : s.control with
  | waiting attempt period =>
    rw [hcontrol] at htrack
    obtain ⟨k, hk, -, -, hinvocations, -, hdelivered⟩ := htrack.of_waiting
    exact ⟨⟨k + 1, hk, hinvocations⟩, Or.inl hdelivered⟩
  | sleeping attempt period inside =>
    rw [hcontrol] at htrack
    obtain ⟨k, hk, -, -, hinvocations, -, hdelivered⟩ := htrack.of_sleeping
    exact ⟨⟨k + 1, hk.le, hinvocations⟩, Or.inl hdelivered⟩
  | locked attempt period inside =>
    rw [hcontrol] at htrack
    obtain ⟨k, hk, -, -, hinvocations, -, hdelivered⟩ := htrack.of_locked
    exact ⟨⟨k + 1, hk.le, hinvocations⟩, Or.inl hdelivered⟩
  | done =>
    rw [hcontrol] at htrack
    obtain ⟨hinvocations, -, hdelivered⟩ := htrack.of_done
    exact ⟨⟨_, le_rfl, hinvocations⟩, Or.inr hdelivered⟩

/-- **The law of retries.** For every client, call and sequence of responses, and for every way
the handler answers, inside the call or later: a run without a cancellation in which the caller
keeps the token is at most `4 n` events long, for `n` the number of attempts; up to any point the
handler was invoked at most `n` times, always with the same request and configuration, and the
caller got at most the response to the last attempt; and when nothing is left to happen, there
were exactly `n` invocations, the caller was answered once, and the wait before each retry was
the next iterate of the backdown policy.
SOURCE: OlpClient.cpp:146-230, CancellationContext.inl:28-60 -/
theorem retry_law (c : OlpClient) (sdkUserAgent path method : List Char)
    (queryParams headerParams : List (List Char × List Char)) (postBody : Option (List Char))
    (contentType : List Char) (responses : ℕ → HttpResponse) (events : List Event) (s : State)
    (hevents : ∀ event ∈ events, event ≠ .cancel ∧ event ≠ .discard) :
    let call := c.callApi sdkUserAgent path method queryParams headerParams postBody contentType
      responses
    let request := c.createRequest sdkUserAgent path method queryParams headerParams postBody
      contentType
    runFrom (step call) (start call) events = some s →
      events.length ≤ 4 * attempts call ∧
      (∃ k ≤ attempts call, s.invocations = List.replicate k (request, c.config)) ∧
      (s.delivered = [] ∨ s.delivered = [responses (attempts call)]) ∧
      (Settled call s →
        s.invocations = List.replicate (attempts call) (request, c.config) ∧
          s.delivered = [responses (attempts call)] ∧
          s.waits = (List.range (attempts call - 1)).map fun i =>
            c.retrySettings.backdownPolicy^[i] c.retrySettings.initialBackdownPeriod) := by
  intro call request hrun
  obtain ⟨hkept, hlength⟩ := (kept_start call).run hevents hrun
  obtain ⟨hinvocations, hdelivered⟩ := hkept.bounded
  have hleft : eventsLeft call (start call) = 1 + (4 * (attempts call - 1) + 1) := rfl
  have hone := one_le_attempts call
  refine ⟨by omega, hinvocations, hdelivered, fun hsettled => ?_⟩
  obtain ⟨hall, hwaits, hlast⟩ := hkept.outcome hsettled
  exact ⟨hall, hlast, hwaits⟩

/-- A client that makes up to three attempts, doubles its waits and retries what is not a
success. -/
def exampleClient : OlpClient where
  baseUrl := "http://a".toList
  defaultHeaders := []
  retrySettings := ⟨3, 60, 200, fun period => 2 * period, fun r => r.status != 200⟩
  proxySettings := none
  bearer := none

/-- The first response is a failure and comes from inside the call, the second one is a success
and comes later: two invocations, one wait, one answer. -/
theorem second_attempt_answers :
    let responses : ℕ → HttpResponse := fun i => ⟨if i = 1 then 500 else 200, []⟩
    let call := exampleClient.callApi "sdk".toList "/p".toList "GET".toList [] [] none [] responses
    ∃ s, runFrom (step call) (start call) [.answer true, .lockContext, .enter, .handlerReturns,
        .handlerReturns, .answer false] = some s ∧
      s.invocations.length = 2 ∧ s.delivered = [⟨200, []⟩] ∧ s.waits = [200] := by
  intro responses call
  have hrun : runFrom (step call) (start call) [.answer true, .lockContext, .enter,
      .handlerReturns, .handlerReturns, .answer false] = some _ := rfl
  obtain ⟨-, -, -, hsettled⟩ := retry_law exampleClient "sdk".toList "/p".toList "GET".toList [] []
    none [] responses _ _ (by decide) hrun
  obtain ⟨hinvocations, hdelivered, hwaits⟩ := hsettled (settled_iff.mpr ⟨rfl, rfl⟩)
  have hattempts : attempts call = 2 := rfl
  refine ⟨_, hrun, ?_, ?_, ?_⟩
  · rw [hinvocations, List.length_replicate]
    exact hattempts
  · rw [hdelivered]
    rfl
  · rw [hwaits]
    rfl

/-! ## Without the token -/

/-- A call whose token was dropped when `CallApi` returned: one attempt, and then its response or
an error. -/
structure Dropped (call : Call) (s : State) : Prop where
  held : s.held = false
  frames : s.frames = []
  invocations : s.invocations = [(call.request, call.config)]
  control : (∃ period, s.control = .waiting 1 period ∧ s.delivered = []) ∨
    (call.isLast 1 = false ∧ ∃ period, s.control = .sleeping 1 period false ∧
      s.delivered = []) ∨
    (s.control = .done ∧ s.delivered = [if call.isLast 1 then call.responses 1
      else HttpResponse.unknownError])

/-- **Step.** -/
theorem Dropped.step (h : Dropped call s) (hstep : OlpClient.step call s event = some s') :
    Dropped call s' := by
  cases moved_step hstep with
  | answered hcontrol hinside hlast =>
    refine ⟨h.held, h.frames, h.invocations, Or.inr (Or.inr ⟨rfl, ?_⟩)⟩
    rcases h.control with ⟨period, hwaiting, hnone⟩ | ⟨-, period, hsleeping, -⟩ | ⟨hdone, -⟩
    · obtain ⟨rfl, -⟩ := Control.waiting.inj (hcontrol.symm.trans hwaiting)
      simp [hnone, hlast]
    · cases hcontrol.symm.trans hsleeping
    · cases hcontrol.symm.trans hdone
  | slept hcontrol hinside hlast =>
    rename_i attempt period inside
    have houtside : inside = false := Bool.eq_false_iff.mpr fun htrue => hinside htrue h.frames
    refine ⟨h.held, h.frames, h.invocations, Or.inr (Or.inl ?_)⟩
    rcases h.control with ⟨period', hwaiting, hnone⟩ | ⟨-, period', hsleeping, -⟩ | ⟨hdone, -⟩
    · obtain ⟨rfl, -⟩ := Control.waiting.inj (hcontrol.symm.trans hwaiting)
      exact ⟨hlast, period, by rw [houtside], hnone⟩
    · cases hcontrol.symm.trans hsleeping
    · cases hcontrol.symm.trans hdone
  | locked hcontrol halive =>
    simp [State.isAlive, h.held, h.frames] at halive
  | orphaned hcontrol hdead =>
    refine ⟨h.held, h.frames, h.invocations, Or.inr (Or.inr ⟨rfl, ?_⟩)⟩
    rcases h.control with ⟨period', hwaiting, -⟩ | ⟨hlast, period', -, hnone⟩ | ⟨hdone, -⟩
    · cases hcontrol.symm.trans hwaiting
    · simp [hnone, hlast]
    · cases hcontrol.symm.trans hdone
  | retried hcontrol hfree hflag | refused hcontrol hfree hflag =>
    rcases h.control with ⟨period', hwaiting, -⟩ | ⟨-, period', hsleeping, -⟩ | ⟨hdone, -⟩
    · cases hcontrol.symm.trans hwaiting
    · cases hcontrol.symm.trans hsleeping
    · cases hcontrol.symm.trans hdone
  | returned hframes hidle | cancelEnded hframes hidle =>
    rw [h.frames] at hframes
    cases hframes
  | ignored hflag hidle hheld | cancelStarted hflag hidle hheld | discarded hheld =>
    rw [h.held] at hheld
    cases hheld

/-- **When the outcome does not depend on the token.** For every call and sequence of responses
that come after `CallApi` has returned: a call whose token is kept and one whose token is
dropped at once end with the same number of invocations and the same answer, iff the first
response is not retried.
SOURCE: OlpClient.cpp:146-230 -/
theorem same_outcome_iff (call : Call) (kept dropped : List Event) (s s' : State)
    (hkept : runFrom (step call) (start call) (.handlerReturns :: kept) = some s)
    (hevents : ∀ event ∈ kept, event ≠ .cancel ∧ event ≠ .discard) (hsettled : Settled call s)
    (hdropped : runFrom (step call) (start call) (.handlerReturns :: .discard :: dropped) =
      some s') (hsettled' : Settled call s') :
    (s.invocations.length = s'.invocations.length ∧ s.delivered = s'.delivered) ↔
      call.settings.maxAttempts ≤ 1 ∨ call.settings.retryCondition (call.responses 1) = false := by
  have hevents' : ∀ event ∈ .handlerReturns :: kept, event ≠ .cancel ∧ event ≠ .discard := by
    intro event hmem
    rcases List.mem_cons.mp hmem with rfl | hmem
    · exact ⟨by decide, by decide⟩
    · exact hevents event hmem
  obtain ⟨hinvocations, -, hdelivered⟩ :=
    ((kept_start call).run hevents' hkept).1.outcome hsettled
  obtain ⟨m, hm, hrest⟩ := runFrom_cons.mp hdropped
  obtain ⟨m', hm', hrest⟩ := runFrom_cons.mp hrest
  have hstart : Dropped call m' := by
    obtain rfl := Option.some.inj hm
    obtain rfl := Option.some.inj hm'
    exact ⟨rfl, rfl, rfl, Or.inl ⟨_, rfl, rfl⟩⟩
  have hend := invariant_of_steps (Dropped call) (fun _ _ _ h hstep => h.step hstep) hrest hstart
  have hlast : call.isLast 1 = true ↔ call.settings.maxAttempts ≤ 1 ∨
      call.settings.retryCondition (call.responses 1) = false := by
    simp [Call.isLast]
  have hone := isLast_iff (one_le_attempts call)
  have hanswer : s'.delivered = [if call.isLast 1 then call.responses 1
      else HttpResponse.unknownError] := by
    rcases hend.control with ⟨period, hwaiting, -⟩ | ⟨-, period, hsleeping, -⟩ | ⟨-, hanswer⟩
    · cases (settled_iff.mp hsettled').1.symm.trans hwaiting
    · cases (settled_iff.mp hsettled').1.symm.trans hsleeping
    · exact hanswer
  rw [← hlast, hinvocations, hdelivered, hend.invocations, hanswer, List.length_replicate,
    List.length_singleton]
  constructor
  · rintro ⟨hlength, -⟩
    exact hone.mpr hlength.symm
  · intro hfirst
    rw [← hone.mp hfirst, hfirst]
    exact ⟨rfl, rfl⟩

/-- A call that is not retried ends alike. -/
theorem single_attempt_ends_alike :
    let call := exampleClient.callApi "sdk".toList "/p".toList "GET".toList [] [] none []
      fun _ => ⟨200, []⟩
    ∃ s s', runFrom (step call) (start call) [.handlerReturns, .answer false] = some s ∧
      runFrom (step call) (start call) [.handlerReturns, .discard, .answer false] = some s' ∧
      s.invocations.length = s'.invocations.length ∧ s.delivered = s'.delivered := by
  intro call
  exact ⟨_, _, rfl, rfl, (same_outcome_iff call [.answer false] [.answer false] _ _ rfl
    (by decide) (settled_iff.mpr ⟨rfl, rfl⟩) rfl (settled_iff.mpr ⟨rfl, rfl⟩)).mpr
    (Or.inr rfl)⟩

/-- A failure and then a success, both after `CallApi` has returned: with the token the caller
gets the success, without it an unknown error after a single attempt. -/
theorem dropped_token_loses_retry :
    let responses : ℕ → HttpResponse := fun i => ⟨if i = 1 then 500 else 200, []⟩
    let call := exampleClient.callApi "sdk".toList "/p".toList "GET".toList [] [] none [] responses
    ∃ s s', runFrom (step call) (start call) [.handlerReturns, .answer false, .lockContext,
        .enter, .handlerReturns, .answer false] = some s ∧ Settled call s ∧
      runFrom (step call) (start call) [.handlerReturns, .discard, .answer false,
        .lockContext] = some s' ∧ Settled call s' ∧
      s.invocations.length = 2 ∧ s.delivered = [⟨200, []⟩] ∧
      s'.invocations.length = 1 ∧ s'.delivered = [HttpResponse.unknownError] := by
  intro responses call
  exact ⟨_, _, rfl, settled_iff.mpr ⟨rfl, rfl⟩, rfl, settled_iff.mpr ⟨rfl, rfl⟩, rfl, rfl, rfl,
    rfl⟩

end OlpEdgeSdk.Analysis.OlpClient

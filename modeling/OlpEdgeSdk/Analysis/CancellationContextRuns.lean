import OlpEdgeSdk.Model.CancellationContext

/-!
# What a cancellation reaches

`CancelOperation` should cancel the token of the `execute_fn` that was started last, and none
should be started after it. `cancels_newest_iff` says for every run, nested to any depth, when
both hold.

The token is assigned when an `execute_fn` returns, so of nested calls the outermost one wins:
the token that is held is that of the last one to return, which is the newest iff exactly one
has returned since the newest was started. And the flag is set only after the token was
cancelled, and asked for only if there is a `cancel_fn`: what is called from inside the token,
or without a `cancel_fn`, still runs.
-/

set_option autoImplicit false

namespace OlpEdgeSdk.Analysis.CancellationContext

open OlpEdgeSdk.Base OlpEdgeSdk.Model OlpEdgeSdk.Model.CancellationContext

/-! ## What one event can do -/

/-- What an event can do, guards included. -/
inductive Moved (s : State) : Event → State → Prop where
  | refused {hasExecuteFn : Bool} (h : s.context.isCancelled = true) :
      Moved s (.executeOrCancelled hasExecuteFn true) { s with frames := .notifying :: s.frames }
  | begun {hasCancelFn : Bool} (h : ¬ (s.context.isCancelled = true ∧ hasCancelFn = true)) :
      Moved s (.executeOrCancelled true hasCancelFn)
        { s with frames := .executing s.started :: s.frames, started := s.started + 1 }
  | skipped {hasCancelFn : Bool} (h : ¬ (s.context.isCancelled = true ∧ hasCancelFn = true)) :
      Moved s (.executeOrCancelled false hasCancelFn) s
  | returned {id : ℕ} {frames : List Frame} (h : s.frames = .executing id :: frames) :
      Moved s .executeFnReturns
        { s with context := s.context.assign (some id), frames := frames }
  | notified {frames : List Frame} (h : s.frames = .notifying :: frames) :
      Moved s .cancelFnReturns { s with frames := frames }
  | ignored (h : s.context.isCancelled = true) : Moved s .cancelOperation s
  | cancelled (h : s.context.isCancelled = false) :
      Moved s .cancelOperation { s with
        frames := .cancelling :: s.frames,
        cancelled := s.cancelled ++ [s.context.subOperationCancelToken] }
  | finished {frames : List Frame} (h : s.frames = .cancelling :: frames) :
      Moved s .cancelReturns { s with context := s.context.finishCancel, frames := frames }

theorem moved_step {s s' : State} {event : Event} (h : step s event = some s') :
    Moved s event s' := by
  cases event with
  | executeOrCancelled hasExecuteFn hasCancelFn =>
    by_cases hrefused : s.context.isCancelled = true ∧ hasCancelFn = true
    · obtain ⟨hcancelled, rfl⟩ := hrefused
      simp only [step, branch, hcancelled, Bool.and_self, if_true, Option.some.injEq] at h
      subst h
      exact .refused hcancelled
    · have hbranch : (s.context.isCancelled && hasCancelFn) = false := by
        rw [Bool.eq_false_iff, ne_eq, Bool.and_eq_true]
        exact hrefused
      cases hasExecuteFn with
      | true =>
        simp only [step, branch, hbranch, Bool.false_eq_true, if_false, if_true,
          Option.some.injEq] at h
        subst h
        exact .begun hrefused
      | false =>
        simp only [step, branch, hbranch, Bool.false_eq_true, if_false, Option.some.injEq] at h
        subst h
        exact .skipped hrefused
  | executeFnReturns =>
    simp only [step] at h
    split at h
    · rename_i id frames hframes
      cases h
      exact .returned hframes
    · cases h
  | cancelFnReturns =>
    simp only [step] at h
    split at h
    · rename_i frames hframes
      cases h
      exact .notified hframes
    · cases h
  | cancelOperation =>
    simp only [step] at h
    split at h
    · rename_i hcancelled
      cases h
      exact .ignored hcancelled
    · rename_i hcancelled
      cases h
      exact .cancelled (Bool.eq_false_iff.mpr hcancelled)
  | cancelReturns =>
    simp only [step] at h
    split at h
    · rename_i frames hframes
      cases h
      exact .finished hframes
    · cases h

/-! ## After the cancellation -/

/-- A call with an `execute_fn` is refused. -/
def Refuses (s : State) : Event → Prop
  | .executeOrCancelled true hasCancelFn => s.context.isCancelled = true ∧ hasCancelFn = true
  | _ => True

/-- **Step.** An `execute_fn` is started iff the event is a call with one that is not
refused. -/
theorem started_step {s s' : State} {event : Event} (h : step s event = some s') :
    s.started ≤ s'.started ∧ (s'.started = s.started ↔ Refuses s event) := by
  cases moved_step h with
  | refused hcancelled =>
    rename_i hasExecuteFn
    cases hasExecuteFn with
    | true => exact ⟨le_rfl, iff_of_true rfl ⟨hcancelled, rfl⟩⟩
    | false => exact ⟨le_rfl, iff_of_true rfl trivial⟩
  | begun hnot => exact ⟨Nat.le_succ _, iff_of_false (Nat.succ_ne_self _) hnot⟩
  | skipped | returned | notified | ignored | cancelled | finished =>
    exact ⟨le_rfl, iff_of_true rfl trivial⟩

/-- **Run.** No `execute_fn` is started in a run iff every call with one is refused. -/
theorem started_run {s s' : State} {events : List Event}
    (h : runFrom step s events = some s') :
    s.started ≤ s'.started ∧ (s'.started = s.started ↔ Along step Refuses s events) := by
  induction events generalizing s with
  | nil =>
    cases h
    exact ⟨le_rfl, iff_of_true rfl trivial⟩
  | cons event events ih =>
    obtain ⟨m, hm, hrest⟩ := runFrom_cons.mp h
    obtain ⟨hle, hiff⟩ := started_step hm
    obtain ⟨hle', hiff'⟩ := ih hrest
    refine ⟨Nat.le_trans hle hle', ?_⟩
    constructor
    · intro heq
      refine ⟨hiff.mp (by omega), fun m' hm' => ?_⟩
      obtain rfl := Option.some.inj (hm.symm.trans hm')
      exact hiff'.mp (by omega)
    · rintro ⟨hrefuses, halong⟩
      rw [hiff'.mpr (halong m hm), hiff.mpr hrefuses]

/-- The flag is set by the return of a cancelled token, and stays. -/
theorem isCancelled_run {s s' : State} {events : List Event}
    (h : runFrom step s events = some s') :
    s'.context.isCancelled = true ↔ s.context.isCancelled = true ∨ .cancelReturns ∈ events := by
  induction events generalizing s with
  | nil =>
    cases h
    simp
  | cons event events ih =>
    obtain ⟨m, hm, hrest⟩ := runFrom_cons.mp h
    have hstep : m.context.isCancelled = true ↔
        s.context.isCancelled = true ∨ .cancelReturns = event := by
      cases moved_step hm with
      | finished => simp [finishCancel]
      | refused | begun | skipped | returned | notified | ignored | cancelled => simp [assign]
    rw [ih hrest, hstep, List.mem_cons, or_assoc]

/-- Every call with an `execute_fn` has a `cancel_fn` and is made after the cancelled token has
returned. -/
def CallsAfterCancel (after : List Event) : Prop :=
  ∀ earlier hasCancelFn later, after = earlier ++ .executeOrCancelled true hasCancelFn :: later →
    hasCancelFn = true ∧ .cancelReturns ∈ earlier

theorem started_eq_iff {s s' : State} {after : List Event} (hs : s.context.isCancelled = false)
    (h : runFrom step s after = some s') :
    s'.started = s.started ↔ CallsAfterCancel after := by
  have hcancelled : ∀ {earlier : List Event} {t : State}, runFrom step s earlier = some t →
      (t.context.isCancelled = true ↔ .cancelReturns ∈ earlier) := by
    intro earlier t hrun
    rw [isCancelled_run hrun, hs]
    simp
  rw [(started_run h).2, along_iff_forall_split]
  constructor
  · rintro halong earlier hasCancelFn later rfl
    rw [runFrom_append] at h
    obtain ⟨t, ht, -⟩ := Option.bind_eq_some_iff.mp h
    obtain ⟨hflag, hfn⟩ := halong earlier _ later rfl t ht
    exact ⟨hfn, (hcancelled ht).mp hflag⟩
  · intro hcalls earlier event later heq t ht
    unfold Refuses
    split
    · obtain ⟨hfn, hreturned⟩ := hcalls earlier _ later heq
      exact ⟨(hcancelled ht).mpr hreturned, hfn⟩
    · trivial

/-! ## The token that is held -/

/-- How many `execute_fn`s have returned since the newest was started, if one was. -/
def countReturns (n : Option ℕ) : Event → Option ℕ
  | .executeOrCancelled true _ => some 0
  | .executeFnReturns => n.map (· + 1)
  | _ => n

/-- The same, for a run without a cancellation. -/
def returnsSinceNewest (before : List Event) : Option ℕ := before.foldl countReturns none

/-- What is known of the newest `execute_fn` when `n` have returned since it was started: it is
the innermost one as long as none has, and its token is held iff one has. -/
def NewestAfter (s : State) (ids : List ℕ) : Option ℕ → Prop
  | none => s.started = 0 ∧ ids = []
  | some 0 => ∃ newest outer, s.started = newest + 1 ∧ ids = newest :: outer ∧
      (∀ id ∈ outer, id < newest) ∧ s.context.subOperationCancelToken ≠ some newest
  | some (n + 1) => ∃ newest, s.started = newest + 1 ∧ (∀ id ∈ ids, id < newest) ∧
      (s.context.subOperationCancelToken = some newest ↔ n = 0)

/-- A state before the cancellation: every frame is an `execute_fn` that has not returned. -/
structure Uncancelled (s : State) (n : Option ℕ) : Prop where
  isCancelled : s.context.isCancelled = false
  cancelled : s.cancelled = []
  executing : ∃ ids : List ℕ, s.frames = ids.map Frame.executing ∧
    (∀ id ∈ ids, id < s.started) ∧
    (∀ id, s.context.subOperationCancelToken = some id → id < s.started) ∧ NewestAfter s ids n

theorem uncancelled_initial : Uncancelled initial none where
  isCancelled := rfl
  cancelled := rfl
  executing := ⟨[], rfl, by simp, by simp [initial, new], rfl, rfl⟩

/-- **Step.** -/
theorem Uncancelled.step {s s' : State} {n : Option ℕ} (h : Uncancelled s n) {event : Event}
    (hevent : event ≠ .cancelOperation) (hstep : CancellationContext.step s event = some s') :
    Uncancelled s' (countReturns n event) := by
  obtain ⟨hflag, hlog, ids, hframes, hids, htoken, hnewest⟩ := h
  cases moved_step hstep with
  | refused hcancelled =>
    rw [hflag] at hcancelled
    cases hcancelled
  | begun =>
    refine ⟨hflag, hlog, s.started :: ids, by simp [hframes], ?_, ?_, s.started, ids, rfl, rfl,
      hids, ?_⟩
    · intro id hid
      rcases List.mem_cons.mp hid with rfl | hid
      · exact Nat.lt_succ_self _
      · exact Nat.lt_succ_of_lt (hids id hid)
    · intro id hid
      exact Nat.lt_succ_of_lt (htoken id hid)
    · intro hheld
      exact absurd (htoken _ hheld) (Nat.lt_irrefl _)
  | skipped => exact ⟨hflag, hlog, ids, hframes, hids, htoken, hnewest⟩
  | returned hreturned =>
    rename_i id frames
    cases ids with
    | nil =>
      rw [hframes] at hreturned
      cases hreturned
    | cons top outer =>
      rw [hframes, List.map_cons, List.cons.injEq] at hreturned
      obtain ⟨htop, rfl⟩ := hreturned
      obtain rfl := Frame.executing.inj htop
      refine ⟨hflag, hlog, outer, rfl, fun id hid => hids id (List.mem_cons_of_mem _ hid), ?_, ?_⟩
      · intro id hid
        obtain rfl := Option.some.inj hid
        exact hids top List.mem_cons_self
      · cases n with
        | none => exact absurd hnewest.2 (List.cons_ne_nil _ _)
        | some n =>
          cases n with
          | zero =>
            obtain ⟨newest, outer', hstarted, heq, houter, -⟩ := hnewest
            obtain ⟨rfl, rfl⟩ := List.cons.inj heq
            exact ⟨top, hstarted, houter, iff_of_true rfl rfl⟩
          | succ n =>
            obtain ⟨newest, hstarted, hall, -⟩ := hnewest
            refine ⟨newest, hstarted, fun id hid => hall id (List.mem_cons_of_mem _ hid), ?_⟩
            refine iff_of_false (fun hheld => ?_) (Nat.succ_ne_zero n)
            have hlt := hall top List.mem_cons_self
            obtain rfl := Option.some.inj hheld
            exact absurd hlt (Nat.lt_irrefl _)
  | notified hnotified =>
    rw [hframes] at hnotified
    cases ids with
    | nil => cases hnotified
    | cons top outer => cases hnotified
  | ignored | cancelled => exact absurd rfl hevent
  | finished hfinished =>
    rw [hframes] at hfinished
    cases ids with
    | nil => cases hfinished
    | cons top outer => cases hfinished

/-- **Run.** -/
theorem Uncancelled.run {s s' : State} {n : Option ℕ} (h : Uncancelled s n)
    {events : List Event} (hevents : .cancelOperation ∉ events)
    (hrun : runFrom CancellationContext.step s events = some s') :
    Uncancelled s' (events.foldl countReturns n) := by
  induction events generalizing s n with
  | nil =>
    cases hrun
    exact h
  | cons event events ih =>
    obtain ⟨m, hm, hrest⟩ := runFrom_cons.mp hrun
    have hevent : event ≠ .cancelOperation := fun heq => hevents (heq ▸ List.mem_cons_self)
    exact ih (h.step hevent hm) (fun hmem => hevents (List.mem_cons_of_mem _ hmem)) hrest

/-- The token that is held is that of the newest `execute_fn` iff exactly one has returned since
it was started. -/
theorem Uncancelled.token_iff {s : State} {n : Option ℕ} (h : Uncancelled s n) :
    (∀ id, newest s = some id → s.context.subOperationCancelToken = some id) ↔
      ∀ k, n = some k → k = 1 := by
  obtain ⟨-, -, ids, -, -, -, hnewest⟩ := h
  cases n with
  | none => simp [newest, hnewest.1]
  | some k =>
    cases k with
    | zero =>
      obtain ⟨id, outer, hstarted, -, -, hne⟩ := hnewest
      have hid : newest s = some id := by simp [newest, hstarted]
      refine iff_of_false (fun hall => hne (hall id hid)) fun hone => ?_
      exact absurd (hone 0 rfl) (by decide)
    | succ k =>
      obtain ⟨id, hstarted, -, hiff⟩ := hnewest
      have hid : newest s = some id := by simp [newest, hstarted]
      simp only [hid, Option.some.injEq, forall_eq', hiff]
      omega

/-! ## The cancellation -/

/-- **What one cancellation reaches.** For every run of calls, nested to any depth, with one
`CancelOperation`: it cancels the token of the `execute_fn` that was started last and none is
started after it, iff exactly one `execute_fn` has returned since the last one was started, and
every later call with an `execute_fn` has a `cancel_fn` and is made after the token has
returned.
SOURCE: CancellationContext.inl:28-62 -/
theorem cancels_newest_iff (before after : List Event) (s s' s'' : State)
    (hbefore : runFrom step initial before = some s) (hone : .cancelOperation ∉ before)
    (hcancel : step s .cancelOperation = some s') (hafter : runFrom step s' after = some s'') :
    ((∀ id, newest s = some id → s'.cancelled = [some id]) ∧ s''.started = s.started) ↔
      (∀ n, returnsSinceNewest before = some n → n = 1) ∧ CallsAfterCancel after := by
  have huncancelled := uncancelled_initial.run hone hbefore
  have hs' : s' = { s with
      frames := .cancelling :: s.frames,
      cancelled := s.cancelled ++ [s.context.subOperationCancelToken] } := by
    cases moved_step hcancel with
    | ignored h =>
      rw [huncancelled.isCancelled] at h
      cases h
    | cancelled => rfl
  have hlog : s'.cancelled = [s.context.subOperationCancelToken] := by
    rw [hs']
    simp [huncancelled.cancelled]
  have hflag : s'.context.isCancelled = false := by
    rw [hs']
    exact huncancelled.isCancelled
  have hstarted : s'.started = s.started := by rw [hs']
  have htoken := huncancelled.token_iff
  rw [← hstarted, started_eq_iff hflag hafter, hlog]
  simp only [List.cons.injEq, and_true, htoken]
  rfl

/-- One `execute_fn` after the other: the second token is cancelled, and a later call is
refused. -/
theorem sequential_calls_cancelled :
    ∃ s s' s'', runFrom step initial [.executeOrCancelled true true, .executeFnReturns,
        .executeOrCancelled true true, .executeFnReturns] = some s ∧
      step s .cancelOperation = some s' ∧
      runFrom step s' [.cancelReturns, .executeOrCancelled true true, .cancelFnReturns] =
        some s'' ∧
      s'.cancelled = [some 1] ∧ s''.started = 2 := by
  obtain ⟨hnewest, hstarted⟩ := (cancels_newest_iff
    [.executeOrCancelled true true, .executeFnReturns, .executeOrCancelled true true,
      .executeFnReturns]
    [.cancelReturns, .executeOrCancelled true true, .cancelFnReturns] _ _ _ rfl (by decide) rfl
    rfl).mpr ⟨by
      intro n hn
      exact (Option.some.inj hn).symm, by
      intro earlier hasCancelFn later heq
      match earlier, heq with
      | [_], heq =>
        simp only [List.cons_append, List.nil_append, List.cons.injEq,
          Event.executeOrCancelled.injEq] at heq
        obtain ⟨rfl, ⟨-, rfl⟩, -⟩ := heq
        exact ⟨rfl, by simp⟩
      | [_, _], heq => simp at heq
      | _ :: _ :: _ :: _, heq => simp at heq⟩
  exact ⟨_, _, _, rfl, rfl, rfl, hnewest 1 rfl, hstarted⟩

/-- Of nested calls the token of the outer `execute_fn` is cancelled, and a call from inside the
cancelled token runs. -/
theorem nested_call_not_cancelled :
    ∃ s s' s'', runFrom step initial [.executeOrCancelled true true,
        .executeOrCancelled true true, .executeFnReturns, .executeFnReturns] = some s ∧
      newest s = some 1 ∧ step s .cancelOperation = some s' ∧ s'.cancelled = [some 0] ∧
      runFrom step s' [.executeOrCancelled true true, .executeFnReturns, .cancelReturns] =
        some s'' ∧
      s''.started = s.started + 1 :=
  ⟨_, _, _, rfl, rfl, rfl, rfl, rfl, rfl⟩

end OlpEdgeSdk.Analysis.CancellationContext

import OlpEdgeSdk.Analysis.RepositoryCallbacks
import OlpEdgeSdk.Model.ContextDestruction

/-!
# When the destructor of a `MultiRequestContext` ends

An iteration of the loop erases the first active request if and only if that request answers
inside the cancellation of its token: its execution waits for a request whose token it holds,
and that one answers when it is cancelled. The programs of the repositories then reply at once
(`FailsAtOnce`). A request that is cancelled and does not answer stays: its context is
cancelled, so that the following iterations do nothing, and the threads that could answer wait
for the mutex (`Stuck`).

SOURCE: MultiRequestContext.h:54-66, MultiRequestContext.h:138-164, ExecuteOrSchedule.inl:33-40
-/

set_option autoImplicit false

namespace OlpEdgeSdk.Analysis.ContextDestruction

open OlpEdgeSdk.Base OlpEdgeSdk.Model OlpEdgeSdk.Model.Repository
open OlpEdgeSdk.Model.Repository.State
open OlpEdgeSdk.Analysis.Repository (of_stepRequests execution_setExecution advance_of_cancelled
  requestsEvent transition_of_step)
open OlpEdgeSdk.Analysis.RepositoryPatterns

variable {Call Op : Type} {Answer : Op → Type} {Reply : Type}

/-! ## Programs whose requests fail -/

/-- A program that replies without asking for anything more. -/
def RepliesNow : Program Op Answer Store Reply → Prop
  | .reply _ => True
  | .write _ next => RepliesNow next
  | _ => False

/-- After a request that has failed, the program replies at once. -/
def FailsAtOnce (failed : (op : Op) → ApiError → Answer op) :
    Program Op Answer Store Reply → Prop
  | .reply _ => True
  | .replyCaller _ => True
  | .read next => ∀ s, FailsAtOnce failed (next s)
  | .write _ next => FailsAtOnce failed next
  | .request op next =>
    (∀ error, RepliesNow (next (failed op error))) ∧ ∀ answer, FailsAtOnce failed (next answer)
  | .schedule task => FailsAtOnce failed task
  | .executeOrCancelled body onCancel => FailsAtOnce failed body ∧ FailsAtOnce failed onCancel

theorem structural_failsAtOnce (failed : (op : Op) → ApiError → Answer op) :
    Program.Structural (FailsAtOnce failed : Program Op Answer Store Reply → Prop) :=
  ⟨fun _ h => h, fun _ _ h => h, fun _ h => h⟩

/-- The same of what an execution goes on with. -/
def ControlFails (failed : (op : Op) → ApiError → Answer op) : Control Op Answer Reply → Prop
  | .ready program => FailsAtOnce failed program
  | .waiting _ op callback =>
    (∀ error, RepliesNow (callback (failed op error))) ∧
      ∀ answer, FailsAtOnce failed (callback answer)
  | .finished => True

theorem runInline_of_repliesNow {program : Program Op Answer Store Reply}
    (h : RepliesNow program) (outside : Outside Op Answer) (cache : Store)
    (x : Execution Op Answer Reply) :
    ∃ r, runInline outside cache x program = ({ x with control := .finished }, .replied r) := by
  induction program with
  | reply r => exact ⟨r, rfl⟩
  | write change next ih => exact ih h
  | replyCaller r => cases h
  | read next => cases h
  | request op next => cases h
  | schedule task => cases h
  | executeOrCancelled body onCancel => cases h

theorem failsAtOnce_cancelBranch {failed : (op : Op) → ApiError → Answer op}
    {program : Program Op Answer Store Reply} (h : FailsAtOnce failed program) :
    FailsAtOnce failed program.cancelBranch := by
  induction program with
  | executeOrCancelled body onCancel _ ih => exact ih h.2
  | _ => exact h

/-! ## What an event can do -/

/-- An event of `MultiRequestContext` that needs no mutex. -/
def Local : MultiRequestContext.Event (List Char) Reply → Prop
  | .associate _ _ => False
  | .complete _ _ => False
  | .cancel _ => False
  | _ => True

/-- What can become of an execution. -/
def Continues (repository : Repository Call Op Answer Reply) (started : Prop)
    (old new : Option (Execution Op Answer Reply)) : Prop :=
  new = old ∨ (¬ started ∧ ∃ c, new = some (Execution.start (repository.program c))) ∨
    ∃ x x', old = some x ∧ new = some x' ∧ (x.isCancelled = true → x'.isCancelled = true) ∧
      (ControlFails repository.failed x.control → ControlFails repository.failed x'.control)

/-- What an event can do to a state. -/
structure Evolves (repository : Repository Call Op Answer Reply) (s : State Call Op Answer Reply)
    (event : Event Call Op Answer) (s' : State Call Op Answer Reply) : Prop where
  requests : s'.requests = s.requests ∨
    ∃ e, s.requests.step e = some s'.requests ∧ (s.needsMutex event = false → Local e)
  executions : ∀ owner, Continues repository (owner ∈ s.requests.started) (s.execution owner)
    (s'.execution owner)

section Inversion

variable {repository : Repository Call Op Answer Reply} {s s' : State Call Op Answer Reply}
  {event : Event Call Op Answer}

/-- An execution goes on; the others stay. -/
theorem continues_setExecution {owner : ℕ} {x x' : Execution Op Answer Reply}
    (hx : s.execution owner = some x) (hcancelled : x.isCancelled = true → x'.isCancelled = true)
    (hcontrol : ControlFails repository.failed x.control →
      ControlFails repository.failed x'.control) (other : ℕ) :
    Continues repository (other ∈ s.requests.started) (s.execution other)
      ((s.setExecution owner x').execution other) := by
  rw [execution_setExecution]
  split
  · rename_i heq
    subst heq
    exact Or.inr (Or.inr ⟨x, x', hx, rfl, hcancelled, hcontrol⟩)
  · exact Or.inl rfl

theorem evolves_setExecution {owner : ℕ} {x x' : Execution Op Answer Reply}
    (hx : s.execution owner = some x) (hcancelled : x.isCancelled = true → x'.isCancelled = true)
    (hcontrol : ControlFails repository.failed x.control →
      ControlFails repository.failed x'.control) :
    Evolves repository s event (s.setExecution owner x') :=
  ⟨Or.inl rfl, continues_setExecution hx hcancelled hcontrol⟩

theorem evolves_setExecution_stepRequests {owner : ℕ} {x x' : Execution Op Answer Reply}
    {e : MultiRequestContext.Event (List Char) Reply} (hx : s.execution owner = some x)
    (h : (s.setExecution owner x').stepRequests e = some s')
    (hcancelled : x.isCancelled = true → x'.isCancelled = true)
    (hcontrol : ControlFails repository.failed x.control →
      ControlFails repository.failed x'.control)
    (hlocal : s.needsMutex event = false → Local e) : Evolves repository s event s' := by
  obtain ⟨requests, hstep, rfl⟩ := of_stepRequests h
  exact ⟨Or.inr ⟨e, hstep, hlocal⟩, continues_setExecution hx hcancelled hcontrol⟩

/-- The step of a node. -/
theorem evolves_node {owner : ℕ} {x : Execution Op Answer Reply} {cache : Store}
    {program node : Program Op Answer Store Reply} (hx : s.execution owner = some x)
    (hready : x.control = .ready program)
    (hnode : node = if x.isCancelled then program.cancelBranch else program)
    (h : s.advance owner x cache node = some s') :
    Evolves repository s (.advance owner cache) s' := by
  have hfails : ControlFails repository.failed x.control → FailsAtOnce repository.failed node := by
    intro hcontrol
    rw [hready] at hcontrol
    rw [hnode]
    split
    · exact failsAtOnce_cancelBranch hcontrol
    · exact hcontrol
  cases node with
  | reply r =>
    refine evolves_setExecution_stepRequests hx h id (fun _ => trivial) ?_
    -- a reply needs the mutex
    intro hmutex
    replace hmutex : (s.execution owner).any aboutToReply = false := hmutex
    rw [hx, Option.any_some] at hmutex
    unfold aboutToReply at hmutex
    simp only [hready, ← hnode] at hmutex
    cases hmutex
  | replyCaller r =>
    cases h
    have hfinished : ControlFails repository.failed x.control →
        ControlFails repository.failed (Control.finished : Control Op Answer Reply) :=
      fun _ => trivial
    exact ⟨Or.inl rfl, continues_setExecution hx id hfinished⟩
  | read next =>
    cases h
    exact evolves_setExecution hx id fun hcontrol => hfails hcontrol cache
  | write change next =>
    cases h
    exact evolves_setExecution hx id fun hcontrol => hfails hcontrol
  | request op callback =>
    cases h
    exact evolves_setExecution hx id fun hcontrol => hfails hcontrol
  | schedule task =>
    cases h
    exact evolves_setExecution hx id fun hcontrol => hfails hcontrol
  | executeOrCancelled body onCancel =>
    unfold State.advance at h
    split at h
    · rename_i hcancelled
      rw [if_pos hcancelled] at hnode
      exact absurd hnode.symm (Program.cancelBranch_ne_executeOrCancelled _ _ _)
    · cases h
      exact evolves_setExecution hx id fun hcontrol => (hfails hcontrol).1

theorem evolves_advance {owner : ℕ} {x : Execution Op Answer Reply} {cache : Store}
    {program : Program Op Answer Store Reply} (hx : s.execution owner = some x)
    (hready : x.control = .ready program) (h : s.advance owner x cache program = some s') :
    Evolves repository s (.advance owner cache) s' := by
  by_cases hcancelled : x.isCancelled = true
  · rw [advance_of_cancelled hcancelled] at h
    exact evolves_node hx hready (by rw [if_pos hcancelled]) h
  · exact evolves_node hx hready (by rw [if_neg hcancelled]) h

theorem evolves_answer {owner request : ℕ} {op : Op}
    {callback : Answer op → Program Op Answer Store Reply} {x : Execution Op Answer Reply}
    (hx : s.execution owner = some x) (hwaiting : x.control = .waiting request op callback)
    (answer : Answer op) :
    Evolves repository s event
      (s.setExecution owner { x with control := .ready (callback answer) }) := by
  refine evolves_setExecution hx id fun hcontrol => ?_
  rw [hwaiting] at hcontrol
  exact hcontrol.2 answer

/-- An execution is started once. -/
theorem evolves_execute {owner : ℕ} {c : Call}
    {requests : MultiRequestContext.State (List Char) Reply}
    (hstep : s.requests.step (.execute owner) = some requests) :
    Evolves repository s (.execute owner)
      { s.setExecution owner (Execution.start (repository.program c)) with
        requests := requests } := by
  refine ⟨Or.inr ⟨.execute owner, hstep, fun _ => trivial⟩, fun other => ?_⟩
  show Continues repository (other ∈ s.requests.started) (s.execution other)
    ((s.setExecution owner (Execution.start (repository.program c))).execution other)
  rw [execution_setExecution]
  split
  · rename_i heq
    subst heq
    refine Or.inr (Or.inl ⟨fun hstarted => ?_, c, rfl⟩)
    unfold MultiRequestContext.State.step at hstep
    dsimp only at hstep
    split at hstep
    · rw [if_neg (fun hq => hq.2 hstarted)] at hstep
      cases hstep
    · cases hstep
  · exact Or.inl rfl

/-- What `MultiRequestContext` does alone needs no mutex, but for a cancelled request. -/
theorem evolves_passes {e : MultiRequestContext.Event (List Char) Reply}
    {requests : MultiRequestContext.State (List Char) Reply}
    (hevent : requestsEvent event = some e) (hstep : s.requests.step e = some requests) :
    Evolves repository s event { s with requests := requests } := by
  refine ⟨Or.inr ⟨e, hstep, fun hmutex => ?_⟩, fun _ => Or.inl rfl⟩
  cases event with
  | cancel id => cases hmutex
  | assignToken owner =>
    cases hevent
    trivial
  | cancelOperation id =>
    cases hevent
    trivial
  | invoke id =>
    cases hevent
    trivial
  | _ => cases hevent

/-- **Step.** -/
theorem evolves_of_step (h : step repository s event = some s') :
    Evolves repository s event s' := by
  cases transition_of_step h with
  | rejected hnew => exact ⟨Or.inl rfl, fun _ => Or.inl rfl⟩
  | associated hnew hstep =>
    refine ⟨Or.inr ⟨_, hstep, fun hmutex => ?_⟩, fun _ => Or.inl rfl⟩
    cases hmutex
  | executes hstep => exact evolves_execute hstep
  | passes hevent hstep => exact evolves_passes hevent hstep
  | advances hx hready hadvance => exact evolves_advance hx hready hadvance
  | keeps hx hcontrol hcancelled =>
    apply evolves_setExecution hx
    · exact fun h => hcancelled.trans h
    · intro hfails
      rw [hcontrol]
      exact hfails
  | answers hx hwaiting answer => exact evolves_answer hx hwaiting answer
  | cancels hcancelling hx hstep =>
    exact ⟨Or.inr ⟨_, hstep, fun _ => trivial⟩,
      continues_setExecution hx (fun _ => rfl) fun hcontrol => hcontrol⟩

end Inversion

/-! ## The invariant -/

/-- What holds in every state, while the destructor runs too. -/
structure Inv (repository : Repository Call Op Answer Reply) (s : State Call Op Answer Reply) :
    Prop where
  requests : MultiRequestContext.Inv s.requests
  /-- An `execute_fn` returns after it was called. -/
  started : s.requests.returned ⊆ s.requests.started
  /-- After a request that has failed, a program replies at once. -/
  fails : ∀ owner x, s.execution owner = some x → ControlFails repository.failed x.control

section Invariant

variable {repository : Repository Call Op Answer Reply} {s s' : State Call Op Answer Reply}
  {event : Event Call Op Answer}

theorem inv_init : Inv repository (init : State Call Op Answer Reply) where
  requests := MultiRequestContext.inv_init
  started := List.nil_subset _
  fails _ _ h := by cases h

theorem started_step {requests requests' : MultiRequestContext.State (List Char) Reply}
    {e : MultiRequestContext.Event (List Char) Reply} (h : requests.step e = some requests')
    (hstarted : requests.returned ⊆ requests.started) :
    requests'.returned ⊆ requests'.started := by
  cases e with
  | assignToken owner =>
    unfold MultiRequestContext.State.step at h
    dsimp only at h
    split at h
    · rename_i hcan
      cases h
      exact List.append_subset.mpr
        ⟨hstarted, List.cons_subset.mpr ⟨hcan.1, List.nil_subset _⟩⟩
    · cases h
  | execute owner =>
    cases MultiRequestContext.moves_of_step h with
    | executed => exact List.Subset.trans hstarted (List.subset_append_left _ _)
  | associate key id =>
    cases MultiRequestContext.moves_of_step h with
    | joined => exact hstarted
    | opened => exact hstarted
  | complete owner response =>
    cases MultiRequestContext.moves_of_step h with
    | completed => exact hstarted
    | completedLate => exact hstarted
  | cancel id =>
    cases MultiRequestContext.moves_of_step h with
    | cancelledLast => exact hstarted
    | cancelledShared => exact hstarted
    | cancelledForeign => exact hstarted
    | cancelledLate => exact hstarted
  | cancelProvider id =>
    cases MultiRequestContext.moves_of_step h with
    | providerCancelled => exact hstarted
  | invoke id =>
    cases MultiRequestContext.moves_of_step h with
    | invoked => exact hstarted

/-- **Step.** -/
theorem inv_evolves
    (hprogram : ∀ c, FailsAtOnce repository.failed (repository.program c))
    (hinv : Inv repository s) (h : Evolves repository s event s') : Inv repository s' := by
  have hrequests : MultiRequestContext.Inv s'.requests ∧
      s'.requests.returned ⊆ s'.requests.started := by
    rcases h.requests with heq | ⟨e, hstep, -⟩
    · rw [heq]
      exact ⟨hinv.requests, hinv.started⟩
    · exact ⟨MultiRequestContext.inv_step hinv.requests hstep, started_step hstep hinv.started⟩
  refine ⟨hrequests.1, hrequests.2, fun owner x hx => ?_⟩
  rcases h.executions owner with hsame | ⟨-, c, hstart⟩ | ⟨old, new, hold, hnew, -, hfails⟩
  · exact hinv.fails owner x (hsame.symm.trans hx)
  · rw [hstart] at hx
    cases hx
    exact hprogram c
  · rw [hnew] at hx
    cases hx
    exact hfails (hinv.fails owner old hold)

theorem inv_run (hprogram : ∀ c, FailsAtOnce repository.failed (repository.program c))
    {events : List (Event Call Op Answer)} (h : run repository events = some s) :
    Inv repository s :=
  invariant_of_steps (Inv repository)
    (fun _ _ _ hinv hstep => inv_evolves hprogram hinv (evolves_of_step hstep)) h inv_init

end Invariant

/-! ## An iteration -/

/-- The requests that are active. -/
def active (s : State Call Op Answer Reply) : ℕ := s.requests.activeReqs.entries.length

/-- The first active request has a token, and the execution it cancels. -/
def First (s : State Call Op Answer Reply) (owner : ℕ) (x : Execution Op Answer Reply) : Prop :=
  ∃ key context, s.requests.activeReqs.entries.head? = some (key, context) ∧
    context.owner = owner ∧ owner ∈ s.requests.returned ∧ s.execution owner = some x

/-- An execution that is cancelled for the first time waits for a request whose token it holds,
and this one answers inside the cancellation. -/
def AnswersInside (outside : Outside Op Answer) (x : Execution Op Answer Reply) : Prop :=
  x.isCancelled = false ∧ ∃ request op callback error,
    x.subOperationCancelToken = some request ∧ x.control = .waiting request op callback ∧
      outside.onCancel op = some error

/-- An iteration finds a request that answers inside its cancellation. -/
def CancelAnswers (s : State Call Op Answer Reply) : DestructorEvent Call Op Answer → Prop
  | .iterate outside _ => ∃ owner x, First s owner x ∧ AnswersInside outside x
  | .other _ => True

/-- An iteration finds a request whose token is not assigned yet, or one that answers inside its
cancellation. -/
def CancelAnswersOrEarly (s : State Call Op Answer Reply) :
    DestructorEvent Call Op Answer → Prop
  | .iterate outside _ => ∀ owner x, First s owner x → AnswersInside outside x
  | .other _ => True

/-- What an iteration can do. -/
inductive Iterates (repository : Repository Call Op Answer Reply) (outside : Outside Op Answer)
    (s : State Call Op Answer Reply) : State Call Op Answer Reply → Prop where
  | answered {owner : ℕ} {x x' : Execution Op Answer Reply} {r : Reply}
      {s' : State Call Op Answer Reply} (hfirst : First s owner x)
      (hanswers : AnswersInside outside x) (hfinished : x'.control = .finished)
      (h : (s.setExecution owner x').stepRequests (.complete owner r) = some s') :
      Iterates repository outside s s'
  | kept {owner : ℕ} {x x' : Execution Op Answer Reply} (hfirst : First s owner x)
      (hnot : ¬ AnswersInside outside x) (hcancelled : x'.isCancelled = true)
      (hcontrol : x'.control = x.control) :
      Iterates repository outside s (s.setExecution owner x')
  | early (hnone : ∀ owner x, ¬ First s owner x) : Iterates repository outside s s

section Iteration

variable {repository : Repository Call Op Answer Reply} {outside : Outside Op Answer}
  {cache : Store} {s s' : State Call Op Answer Reply}

theorem First.unique {owner owner' : ℕ} {x x' : Execution Op Answer Reply}
    (h : First s owner x) (h' : First s owner' x') : owner' = owner ∧ x' = x := by
  obtain ⟨key, context, hhead, rfl, -, hx⟩ := h
  obtain ⟨key', context', hhead', rfl, -, hx'⟩ := h'
  rw [hhead] at hhead'
  cases hhead'
  rw [hx] at hx'
  cases hx'
  exact ⟨rfl, rfl⟩

/-- A request that answers replies, and its execution is over. -/
theorem cancelOperation_of_answers (repository : Repository Call Op Answer Reply)
    (cache : Store) {x : Execution Op Answer Reply}
    (hcontrol : ControlFails repository.failed x.control) (h : AnswersInside outside x) :
    ∃ x' r, cancelOperation repository outside cache x = (x', .replied r) ∧
      x'.control = .finished := by
  obtain ⟨hcancelled, request, op, callback, error, htoken, hwaiting, hanswer⟩ := h
  rw [hwaiting] at hcontrol
  obtain ⟨r, hr⟩ := runInline_of_repliesNow (hcontrol.1 error) outside cache
    { x with cancelled := x.cancelled ++ [request] }
  have hrequest : cancelRequest repository outside cache x request =
      ({ x with control := .finished, cancelled := x.cancelled ++ [request] }, .replied r) := by
    unfold cancelRequest
    simp only [hwaiting, hanswer, if_true]
    rw [← hwaiting]
    exact hr
  refine ⟨{ x with
    control := .finished
    subOperationCancelToken := none
    isCancelled := true
    cancelled := x.cancelled ++ [request] }, r, ?_, rfl⟩
  unfold cancelOperation
  rw [hcancelled, htoken]
  simp only [hrequest]
  rfl

/-- A request that does not answer leaves its execution cancelled. -/
theorem cancelOperation_of_not (repository : Repository Call Op Answer Reply) (cache : Store)
    {x : Execution Op Answer Reply}
    (h : ¬ AnswersInside outside x) :
    ∃ x', cancelOperation repository outside cache x = (x', .left) ∧ x'.isCancelled = true ∧
      x'.control = x.control := by
  unfold cancelOperation
  split
  · rename_i hcancelled
    exact ⟨x, rfl, hcancelled, rfl⟩
  · rename_i hcancelled
    have hfalse : x.isCancelled = false := by simpa using hcancelled
    cases htoken : x.subOperationCancelToken with
    | none => exact ⟨_, rfl, rfl, rfl⟩
    | some request =>
      have hleft : cancelRequest repository outside cache x request =
          ({ x with cancelled := x.cancelled ++ [request] }, .left) := by
        unfold cancelRequest
        dsimp only
        split
        · rename_i awaited op callback hwaiting
          split
          · rename_i heq
            subst heq
            split
            · rename_i error hanswer
              exact absurd ⟨hfalse, awaited, op, callback, error, htoken, hwaiting, hanswer⟩ h
            · rfl
          · rfl
        · rfl
      dsimp only
      rw [hleft]
      exact ⟨_, rfl, rfl, rfl⟩

theorem iterates_of_iterate (hinv : Inv repository s)
    (h : s.iterate repository outside cache = some s') : Iterates repository outside s s' := by
  unfold iterate at h
  cases hentries : s.requests.activeReqs.entries with
  | nil =>
    rw [hentries] at h
    cases h
  | cons entry entries =>
    obtain ⟨key, context⟩ := entry
    have hhead : s.requests.activeReqs.entries.head? = some (key, context) := by
      rw [hentries]
      rfl
    rw [hentries] at h
    dsimp only at h
    split at h
    · rename_i hreturned
      cases hx : s.execution context.owner with
      | none =>
        rw [hx] at h
        cases h
        refine Iterates.early ?_
        rintro owner x ⟨key', context', hhead', rfl, -, hx'⟩
        rw [hhead] at hhead'
        cases hhead'
        rw [hx] at hx'
        cases hx'
      | some x =>
        have hfirst : First s context.owner x := ⟨key, context, hhead, rfl, hreturned, hx⟩
        rw [hx] at h
        dsimp only at h
        by_cases hanswers : AnswersInside outside x
        · obtain ⟨x', r, hcancel, hfinished⟩ :=
            cancelOperation_of_answers repository cache (hinv.fails _ x hx) hanswers
          rw [hcancel] at h
          exact Iterates.answered hfirst hanswers hfinished h
        · obtain ⟨x', hcancel, hcancelled, hcontrol⟩ :=
            cancelOperation_of_not repository cache hanswers
          rw [hcancel] at h
          cases h
          exact Iterates.kept hfirst hanswers hcancelled hcontrol
    · rename_i hnot
      cases h
      refine Iterates.early ?_
      rintro owner x ⟨key', context', hhead', rfl, hreturned, -⟩
      rw [hhead] at hhead'
      cases hhead'
      exact hnot hreturned

/-- The entry of the first active request is erased by its answer. -/
theorem active_of_complete (hinv : Inv repository s) {owner : ℕ} {x x' : Execution Op Answer Reply}
    {r : Reply} (hfirst : First s owner x)
    (h : (s.setExecution owner x').stepRequests (.complete owner r) = some s') :
    active s = active s' + 1 := by
  obtain ⟨key, context, hhead, rfl, -, -⟩ := hfirst
  obtain ⟨requests, hstep, rfl⟩ := of_stepRequests h
  have hfind : s.requests.activeReqs.find key = some context :=
    SortedMap.find_of_mem (List.mem_of_mem_head? (Option.mem_def.mpr hhead))
  have howner := hinv.requests.owner key context hfind
  have hkey : ∀ q, s.requests.request context.owner = some q → q.key = key := by
    intro q hq
    have hsame := hinv.requests.eq_of_id_eq
      (MultiRequestContext.mem_of_request hq) howner (MultiRequestContext.id_of_request hq)
    rw [hsame]
  cases MultiRequestContext.moves_of_step hstep with
  | completed hq hfound =>
    rw [hkey _ hq] at hfound ⊢
    exact (SortedMap.entries_perm_of_find hfind).length_eq
  | completedLate hq hmissing =>
    replace hq : s.requests.request context.owner = some _ := hq
    rw [hkey _ hq] at hmissing
    exact absurd (hfind.symm.trans hmissing) (by simp)

theorem inv_setExecution (hinv : Inv repository s) {owner : ℕ} {x : Execution Op Answer Reply}
    (hcontrol : ControlFails repository.failed x.control) :
    Inv repository (s.setExecution owner x) := by
  refine ⟨hinv.requests, hinv.started, fun other y hy => ?_⟩
  rw [execution_setExecution] at hy
  split at hy
  · cases hy
    exact hcontrol
  · exact hinv.fails other y hy

theorem inv_iterates (hinv : Inv repository s) (h : Iterates repository outside s s') :
    Inv repository s' := by
  cases h with
  | @answered owner x x' r s' hfirst hanswers hfinished h =>
    have hcontrol : ControlFails repository.failed x'.control := by
      rw [hfinished]
      trivial
    have hset : Inv repository (s.setExecution owner x') := inv_setExecution hinv hcontrol
    obtain ⟨requests, hstep, rfl⟩ := of_stepRequests h
    exact ⟨MultiRequestContext.inv_step hinv.requests hstep,
      started_step hstep hinv.started, hset.fails⟩
  | kept hfirst hnot hcancelled hcontrol =>
    obtain ⟨key, context, hhead, rfl, -, hx⟩ := hfirst
    apply inv_setExecution hinv
    rw [hcontrol]
    exact hinv.fails _ _ hx
  | early hnone => exact hinv

end Iteration

/-! ## The run of the loop -/

section Loop

variable {repository : Repository Call Op Answer Reply} {s s' : State Call Op Answer Reply}
  {event : DestructorEvent Call Op Answer}

/-- How many iterations there are. -/
def iterations (events : List (DestructorEvent Call Op Answer)) : ℕ :=
  events.countP fun event => match event with
    | .iterate _ _ => true
    | .other _ => false

/-- Threads that do not get the mutex leave the active requests. -/
theorem activeReqs_of_local {requests requests' : MultiRequestContext.State (List Char) Reply}
    {e : MultiRequestContext.Event (List Char) Reply} (hlocal : Local e)
    (h : requests.step e = some requests') :
    requests'.activeReqs = requests.activeReqs ∧ requests.returned ⊆ requests'.returned := by
  cases MultiRequestContext.moves_of_step h with
  | executed => exact ⟨rfl, List.Subset.refl _⟩
  | assigned => exact ⟨rfl, List.subset_append_left _ _⟩
  | providerCancelled => exact ⟨rfl, List.Subset.refl _⟩
  | invoked => exact ⟨rfl, List.Subset.refl _⟩
  | joined | opened | completed | completedLate | cancelledLast | cancelledShared
  | cancelledForeign | cancelledLate => cases hlocal

theorem activeReqs_of_other {event : Event Call Op Answer}
    (hmutex : s.needsMutex event = false) (h : Evolves repository s event s') :
    s'.requests.activeReqs = s.requests.activeReqs ∧
      s.requests.returned ⊆ s'.requests.returned := by
  rcases h.requests with heq | ⟨e, hstep, hlocal⟩
  · rw [heq]
    exact ⟨rfl, List.Subset.refl _⟩
  · exact activeReqs_of_local (hlocal hmutex) hstep

theorem stepDestructor_other {event : Event Call Op Answer}
    (h : s.stepDestructor repository (.other event) = some s') :
    s.needsMutex event = false ∧ Evolves repository s event s' := by
  unfold stepDestructor at h
  dsimp only at h
  split at h
  · cases h
  · rename_i hmutex
    exact ⟨by simpa using hmutex, evolves_of_step h⟩

theorem inv_stepDestructor
    (hprogram : ∀ c, FailsAtOnce repository.failed (repository.program c))
    (hinv : Inv repository s) (h : s.stepDestructor repository event = some s') :
    Inv repository s' := by
  cases event with
  | iterate outside cache => exact inv_iterates hinv (iterates_of_iterate hinv h)
  | other event => exact inv_evolves hprogram hinv (stepDestructor_other h).2

/-- **Step.** An iteration erases a request or none, and one if and only if the request it finds
answers; nothing else erases any. -/
theorem active_stepDestructor (hinv : Inv repository s)
    (h : s.stepDestructor repository event = some s') :
    active s ≤ iterations [event] + active s' ∧
      (active s = iterations [event] + active s' ↔ CancelAnswers s event) := by
  cases event with
  | iterate outside cache =>
    show active s ≤ 1 + active s' ∧ (active s = 1 + active s' ↔ _)
    cases iterates_of_iterate hinv h with
    | @answered owner x x' r s' hfirst hanswers hfinished hcomplete =>
      have hactive := active_of_complete hinv hfirst hcomplete
      refine ⟨by omega, iff_of_true (by omega) ⟨owner, x, hfirst, hanswers⟩⟩
    | @kept owner x x' hfirst hnot hcancelled hcontrol =>
      have hactive : active (s.setExecution owner x') = active s := rfl
      refine ⟨by omega, iff_of_false (by omega) ?_⟩
      rintro ⟨other, y, hother, hanswers⟩
      obtain ⟨-, rfl⟩ := hfirst.unique hother
      exact hnot hanswers
    | early hnone =>
      refine ⟨by omega, iff_of_false (by omega) ?_⟩
      rintro ⟨other, y, hother, -⟩
      exact hnone other y hother
  | other event =>
    obtain ⟨hmutex, hevolves⟩ := stepDestructor_other h
    have hactive : active s' = active s := by
      unfold active
      rw [(activeReqs_of_other hmutex hevolves).1]
    show active s ≤ 0 + active s' ∧ (active s = 0 + active s' ↔ True)
    exact ⟨by omega, iff_of_true (by omega) trivial⟩

theorem iterations_cons (event : DestructorEvent Call Op Answer)
    (events : List (DestructorEvent Call Op Answer)) :
    iterations (event :: events) = iterations [event] + iterations events := by
  unfold iterations
  rw [← List.singleton_append, List.countP_append]

/-- **Run.** -/
theorem active_runDestructor
    (hprogram : ∀ c, FailsAtOnce repository.failed (repository.program c))
    {events : List (DestructorEvent Call Op Answer)} (hinv : Inv repository s)
    (h : runFrom (stepDestructor repository) s events = some s') :
    active s ≤ iterations events + active s' ∧
      (active s = iterations events + active s' ↔
        Along (stepDestructor repository) CancelAnswers s events) := by
  induction events generalizing s with
  | nil =>
    cases h
    exact ⟨Nat.le_add_left _ _, iff_of_true (Nat.zero_add _).symm trivial⟩
  | cons event events ih =>
    obtain ⟨m, hm, hrest⟩ := runFrom_cons.mp h
    obtain ⟨hle, hiff⟩ := active_stepDestructor hinv hm
    obtain ⟨hrestLe, hrestIff⟩ := ih (inv_stepDestructor hprogram hinv hm) hrest
    rw [iterations_cons]
    refine ⟨by omega, ?_⟩
    unfold Along
    rw [← hiff]
    constructor
    · intro heq
      refine ⟨by omega, fun m' hm' => ?_⟩
      rw [hm] at hm'
      cases hm'
      exact hrestIff.mp (by omega)
    · rintro ⟨heq, halong⟩
      have hrestEq := hrestIff.mpr (halong m hm)
      omega

/-- The first active request was cancelled and has not answered. -/
def Stuck (s : State Call Op Answer Reply) : Prop :=
  ∃ owner x, First s owner x ∧ x.isCancelled = true

theorem Stuck.active_ne_zero (h : Stuck s) : active s ≠ 0 := by
  obtain ⟨owner, x, ⟨key, context, hhead, -⟩, -⟩ := h
  unfold active
  cases hentries : s.requests.activeReqs.entries with
  | nil =>
    rw [hentries] at hhead
    cases hhead
  | cons => simp

/-- **Step.** A destructor that is stuck stays so. -/
theorem stuck_stepDestructor (hinv : Inv repository s) (hstuck : Stuck s)
    (h : s.stepDestructor repository event = some s') : Stuck s' := by
  obtain ⟨owner, x, hfirst, hcancelled⟩ := hstuck
  cases event with
  | iterate outside cache =>
    cases iterates_of_iterate hinv h with
    | @answered other y y' r s' hother hanswers hfinished hcomplete =>
      obtain ⟨-, rfl⟩ := hfirst.unique hother
      rw [hanswers.1] at hcancelled
      cases hcancelled
    | @kept other y y' hother hnot hy hcontrol =>
      obtain ⟨rfl, -⟩ := hfirst.unique hother
      obtain ⟨key, context, hhead, hcontext, hreturned, -⟩ := hfirst
      refine ⟨other, y', ⟨key, context, hhead, hcontext, hreturned, ?_⟩, hy⟩
      rw [execution_setExecution, if_pos rfl]
    | early hnone => exact absurd hfirst (hnone owner x)
  | other event =>
    obtain ⟨hmutex, hevolves⟩ := stepDestructor_other h
    obtain ⟨hsame, hsubset⟩ := activeReqs_of_other hmutex hevolves
    obtain ⟨key, context, hhead, hcontext, hreturned, hx⟩ := hfirst
    have hfirst' : ∀ y, s'.execution owner = some y → First s' owner y := by
      intro y hy
      refine ⟨key, context, ?_, hcontext, hsubset hreturned, hy⟩
      rw [hsame]
      exact hhead
    rcases hevolves.executions owner with heq | ⟨hnot, -⟩ | ⟨y, y', hy, hy', hkeeps, -⟩
    · exact ⟨owner, x, hfirst' x (heq.trans hx), hcancelled⟩
    · exact absurd (hinv.started hreturned) hnot
    · rw [hx] at hy
      cases hy
      exact ⟨owner, y', hfirst' y' hy', hkeeps hcancelled⟩

theorem stuck_runDestructor
    (hprogram : ∀ c, FailsAtOnce repository.failed (repository.program c))
    {events : List (DestructorEvent Call Op Answer)} (hinv : Inv repository s) (hstuck : Stuck s)
    (h : runFrom (stepDestructor repository) s events = some s') : Stuck s' := by
  have hboth : Inv repository s' ∧ Stuck s' :=
    invariant_of_steps (fun s => Inv repository s ∧ Stuck s)
      (fun _ _ _ hs hstep => ⟨inv_stepDestructor hprogram hs.1 hstep,
        stuck_stepDestructor hs.1 hs.2 hstep⟩) h ⟨hinv, hstuck⟩
  exact hboth.2

/-- A request that is cancelled and does not answer gets the destructor stuck. -/
theorem stuck_of_not_answers (hinv : Inv repository s)
    (hnot : ¬ CancelAnswersOrEarly s event)
    (h : s.stepDestructor repository event = some s') : Stuck s' := by
  cases event with
  | other event => exact absurd trivial hnot
  | iterate outside cache =>
    cases iterates_of_iterate hinv h with
    | @answered owner x x' r s' hfirst hanswers hfinished hcomplete =>
      refine absurd (fun other y hother => ?_) hnot
      obtain ⟨-, rfl⟩ := hfirst.unique hother
      exact hanswers
    | @kept owner x x' hfirst hnotInside hcancelled hcontrol =>
      obtain ⟨key, context, hhead, hcontext, hreturned, -⟩ := hfirst
      refine ⟨owner, x', ⟨key, context, hhead, hcontext, hreturned, ?_⟩, hcancelled⟩
      rw [execution_setExecution, if_pos rfl]
    | early hnone => exact absurd (fun owner x hfirst => absurd hfirst (hnone owner x)) hnot

theorem stuck_of_not_along
    (hprogram : ∀ c, FailsAtOnce repository.failed (repository.program c))
    {events : List (DestructorEvent Call Op Answer)} (hinv : Inv repository s)
    (hnot : ¬ Along (stepDestructor repository) CancelAnswersOrEarly s events)
    (h : runFrom (stepDestructor repository) s events = some s') : Stuck s' := by
  induction events generalizing s with
  | nil => exact absurd trivial hnot
  | cons event events ih =>
    obtain ⟨m, hm, hrest⟩ := runFrom_cons.mp h
    have hinvm := inv_stepDestructor hprogram hinv hm
    by_cases hevent : CancelAnswersOrEarly s event
    · apply ih hinvm _ hrest
      intro halong
      refine hnot ⟨hevent, fun m' hm' => ?_⟩
      rw [hm] at hm'
      cases hm'
      exact halong
    · exact stuck_runDestructor hprogram hinvm (stuck_of_not_answers hinv hevent hm) hrest

end Loop

/-! ## The programs of the repositories -/

section Patterns

variable {α : Type} {failed : (op : Op) → ApiError → Answer op}
  {callback : Response α → Program Op Answer Store Reply}

theorem checkCache_fails {fetchOption : FetchOptions} {get : Store → Option α}
    {notFound : List Char} {online : Program Op Answer Store Reply}
    (hcallback : ∀ response, FailsAtOnce failed (callback response))
    (honline : FailsAtOnce failed online) :
    FailsAtOnce failed (checkCache fetchOption get notFound callback online) :=
  structural_checkCache (structural_failsAtOnce failed) hcallback honline

theorem cacheResponseCallback_fails {put : α → Store → Store} {clear : Store → Store}
    (hcallback : ∀ response, FailsAtOnce failed (callback response)) (response : Response α) :
    FailsAtOnce failed (cacheResponseCallback put clear callback response) :=
  structural_cacheResponseCallback (structural_failsAtOnce failed) hcallback response

theorem cacheResponseCallback_repliesNow {put : α → Store → Store} {clear : Store → Store}
    (hcallback : ∀ error, RepliesNow (callback (.error error))) (error : ApiError) :
    RepliesNow (cacheResponseCallback put clear callback (.error error)) := by
  unfold cacheResponseCallback
  dsimp only
  split
  · exact hcallback error
  · exact hcallback error

end Patterns

section Catalogs

variable (hrn : List Char)

theorem catalogRepository_fails (r : CatalogRequest) :
    FailsAtOnce (catalogRepository hrn).failed ((catalogRepository hrn).program r) := by
  refine ⟨checkCache_fails (fun _ => trivial) ⟨fun _ => trivial, fun response => ?_⟩, trivial⟩
  cases response with
  | error error => trivial
  | ok url =>
    exact ⟨⟨cacheResponseCallback_repliesNow fun _ => trivial,
      cacheResponseCallback_fails fun _ => trivial⟩, trivial⟩

theorem apiRepository_fails (c : List Char × List Char) :
    FailsAtOnce (apiRepository hrn).failed ((apiRepository hrn).program c) := by
  refine ⟨⟨fun _ => trivial, fun response => ?_⟩, trivial⟩
  cases response with
  | error error => trivial
  | ok url => trivial

end Catalogs

section Partitions

open PartitionsRepository

variable (hrn : List Char) (r : PartitionsRequest)

/-- What the requests of partitions fail with. -/
abbrev partitionsFailed : (op : PartitionsRepository.Op) → ApiError → op.Answer :=
  (partitionsRepository []).failed

theorem layerVersionsCallback_fails {callback : Response ℤ → PartitionsProgram}
    (hcallback : ∀ response, FailsAtOnce partitionsFailed (callback response))
    (layerVersions : List LayerVersion) :
    FailsAtOnce partitionsFailed (layerVersionsCallback r callback layerVersions) := by
  unfold layerVersionsCallback
  split
  · exact hcallback _
  · exact hcallback _

theorem getLayerVersion_fails {url : List Char} {version : ℤ}
    {callback : Response ℤ → PartitionsProgram}
    (hcallback : ∀ response, FailsAtOnce partitionsFailed (callback response))
    (herror : ∀ error, RepliesNow (callback (.error error))) :
    FailsAtOnce partitionsFailed (getLayerVersion hrn url r version callback) := by
  refine ⟨fun s => ?_, hcallback _⟩
  dsimp only
  split
  · exact layerVersionsCallback_fails r hcallback _
  · refine ⟨herror, fun response => ?_⟩
    cases response with
    | error error => exact hcallback _
    | ok layerVersions => exact layerVersionsCallback_fails r hcallback _

theorem appendPartitionsRequest_fails
    {fetchPartitions : PartitionsRequest → Option ℤ → PartitionsProgram}
    (hfetch : ∀ appended expiry, FailsAtOnce partitionsFailed (fetchPartitions appended expiry)) :
    FailsAtOnce partitionsFailed (appendPartitionsRequest r fetchPartitions) := by
  apply appendPartitionsRequest_of_requests (fun _ => trivial) _ _ hfetch
  · intro next herror hnext
    refine ⟨⟨fun error => ?_, hnext⟩, trivial⟩
    show RepliesNow (next (.error error))
    rw [herror]
    trivial
  · intro next herror hnext
    refine ⟨⟨fun error => ?_, hnext⟩, trivial⟩
    show RepliesNow (next (.error error))
    rw [herror]
    trivial

theorem getPartitionsInternal_fails {url : List Char} {expiry version : Option ℤ} :
    FailsAtOnce partitionsFailed (getPartitionsInternal hrn url r expiry version) :=
  ⟨⟨cacheResponseCallback_repliesNow fun _ => trivial,
    cacheResponseCallback_fails fun _ => trivial⟩, trivial⟩

theorem layerVersionCallback_repliesNow {url : List Char} {expiry : Option ℤ} (error : ApiError) :
    RepliesNow (layerVersionCallback hrn url r expiry (.error error)) := by
  unfold layerVersionCallback
  dsimp only
  split
  · trivial
  · trivial

theorem layerVersionCallback_fails {url : List Char} {expiry : Option ℤ}
    (layerVersion : Response ℤ) :
    FailsAtOnce partitionsFailed (layerVersionCallback hrn url r expiry layerVersion) := by
  unfold layerVersionCallback
  split
  · split
    · trivial
    · trivial
  · exact getPartitionsInternal_fails hrn r

theorem fetchPartitions_fails {fetchOption : FetchOptions} {expiry : Option ℤ} :
    FailsAtOnce partitionsFailed (fetchPartitions hrn fetchOption r expiry) := by
  refine ⟨checkCache_fails (fun _ => trivial) ⟨fun _ => trivial, fun response => ?_⟩, trivial⟩
  cases response with
  | error error => trivial
  | ok url =>
    dsimp only
    split
    · exact getLayerVersion_fails hrn r (layerVersionCallback_fails hrn r)
        (layerVersionCallback_repliesNow hrn r)
    · exact getPartitionsInternal_fails hrn r

theorem fetchPartitionsById_fails {fetchOption : FetchOptions} {expiry : Option ℤ}
    (partitions : List (List Char)) :
    FailsAtOnce partitionsFailed (fetchPartitionsById hrn fetchOption partitions r expiry) := by
  refine ⟨checkCache_fails (fun _ => trivial) ⟨fun _ => trivial, fun response => ?_⟩, trivial⟩
  cases response with
  | error error => trivial
  | ok url =>
    exact ⟨⟨cacheResponseCallback_repliesNow fun _ => trivial,
      cacheResponseCallback_fails fun _ => trivial⟩, trivial⟩

theorem partitionsRepository_fails (c : PartitionsCall) :
    FailsAtOnce (partitionsRepository hrn).failed ((partitionsRepository hrn).program c) := by
  cases c with
  | getPartitions r =>
    exact appendPartitionsRequest_fails r fun appended _ => fetchPartitions_fails hrn appended
  | getPartitionsById r partitions =>
    exact appendPartitionsRequest_fails r fun appended _ =>
      fetchPartitionsById_fails hrn appended partitions

end Partitions

section Data

open DataRepository

variable (hrn : List Char) (r : DataRequest)

/-- What the requests of data fail with. -/
abbrev dataFailed : (op : DataRepository.Op) → ApiError → op.Answer := (dataRepository []).failed

theorem getDataInternal_fails {layerType : List Char} {callback : Response Data → DataProgram}
    (hcallback : ∀ response, FailsAtOnce dataFailed (callback response))
    (herror : ∀ error, RepliesNow (callback (.error error))) :
    FailsAtOnce dataFailed (getDataInternal hrn layerType r callback) := by
  unfold getDataInternal
  dsimp only
  split
  · exact hcallback _
  · refine ⟨checkCache_fails hcallback ⟨herror, fun response => ?_⟩, hcallback _⟩
    cases response with
    | error error => exact hcallback _
    | ok url =>
      exact ⟨⟨cacheResponseCallback_repliesNow herror,
        cacheResponseCallback_fails fun _ => hcallback _⟩, hcallback _⟩

theorem verifyResponseCallback_repliesNow {partitionId : List Char} (error : ApiError) :
    RepliesNow (verifyResponseCallback hrn r partitionId (.error error)) := by
  unfold verifyResponseCallback
  dsimp only
  split
  · trivial
  · trivial

theorem verifyResponseCallback_fails {partitionId : List Char} (response : Response Data) :
    FailsAtOnce dataFailed (verifyResponseCallback hrn r partitionId response) := by
  unfold verifyResponseCallback
  split
  · split
    · trivial
    · trivial
  · trivial

theorem getPartitionsCallback_fails {layerType partitionId : List Char}
    (response : Response (List Partition)) :
    FailsAtOnce dataFailed (getPartitionsCallback hrn layerType r partitionId response) := by
  unfold getPartitionsCallback
  split
  · trivial
  · split
    · trivial
    · exact getDataInternal_fails hrn _ (verifyResponseCallback_fails hrn _)
        (verifyResponseCallback_repliesNow hrn _)
  · trivial

theorem dataRepository_fails :
    FailsAtOnce (dataRepository hrn).failed ((dataRepository hrn).program r) := by
  refine ⟨⟨fun _ => trivial, fun response => ?_⟩, trivial⟩
  cases response with
  | error error => trivial
  | ok catalog =>
    dsimp only
    split
    · trivial
    · split
      · exact getDataInternal_fails hrn r (fun _ => trivial) fun _ => trivial
      · exact ⟨⟨fun _ => trivial, getPartitionsCallback_fails hrn r⟩, trivial⟩

end Data

/-! ## Main result -/

/-- From any state that the calls of a repository can reach, however the threads interleave: the
iterations of the destructor erase one active request each, so that there are as many of them
as requests, if and only if each finds a request that answers inside its cancellation; and once
one has cancelled a request that does not, there is always a request left. -/
def EndsExactlyIfAnswered (repository : Repository Call Op Answer Reply) : Prop :=
  ∀ events s, run repository events = some s →
    ∀ during s', runFrom (stepDestructor repository) s during = some s' →
      (active s = iterations during + active s' ↔
        Along (stepDestructor repository) CancelAnswers s during) ∧
      (¬ Along (stepDestructor repository) CancelAnswersOrEarly s during →
        ∀ later s'', runFrom (stepDestructor repository) s' later = some s'' → active s'' ≠ 0)

theorem endsExactlyIfAnswered_of_fails {repository : Repository Call Op Answer Reply}
    (hprogram : ∀ c, FailsAtOnce repository.failed (repository.program c)) :
    EndsExactlyIfAnswered repository := by
  intro events s hrun during s' hduring
  have hinv := inv_run hprogram hrun
  refine ⟨(active_runDestructor hprogram hinv hduring).2, fun hnot later s'' hlater => ?_⟩
  have hstuck := stuck_of_not_along hprogram hinv hnot hduring
  have hinv' : Inv repository s' :=
    invariant_of_steps (Inv repository)
      (fun _ _ _ hs hstep => inv_stepDestructor hprogram hs hstep) hduring hinv
  exact (stuck_runDestructor hprogram hinv' hstuck hlater).active_ne_zero

/-- **When the destructor ends**, for the contexts of the four repositories of any catalog.
SOURCE: MultiRequestContext.h:54-66, ExecuteOrSchedule.inl:33-40, ApiRepository.cpp:52-100,
CatalogRepository.cpp:57-156, PartitionsRepository.cpp:139-471, DataRepository.cpp:47-330 -/
theorem destructor_ends_iff (hrn : List Char) :
    EndsExactlyIfAnswered (apiRepository hrn) ∧ EndsExactlyIfAnswered (catalogRepository hrn) ∧
      EndsExactlyIfAnswered (partitionsRepository hrn) ∧
      EndsExactlyIfAnswered (dataRepository hrn) :=
  ⟨endsExactlyIfAnswered_of_fails (apiRepository_fails hrn),
    endsExactlyIfAnswered_of_fails (catalogRepository_fails hrn),
    endsExactlyIfAnswered_of_fails (partitionsRepository_fails hrn),
    endsExactlyIfAnswered_of_fails (dataRepository_fails hrn)⟩

/-- A catalog is cached, and a task scheduler has the answer as a task for another thread: the
token of the request is empty, and every iteration leaves the request. -/
theorem scheduled_answer_keeps_destructor :
    let repository := catalogRepository "hrn".toList
    let cache := CatalogCacheRepository.put "hrn".toList ⟨[], []⟩ SortedMap.empty
    let outside : Outside CatalogRepository.Op CatalogRepository.Op.Answer :=
      ⟨true, fun _ => none, fun _ => none⟩
    ∃ s s', run repository [.call 0 ⟨none, .onlineIfNotFound⟩, .execute 0, .advance 0 cache,
        .advance 0 cache, .advance 0 cache, .executeFnReturns 0, .assignToken 0] = some s ∧
      ∀ n, runFrom (stepDestructor repository) s
        (List.replicate (n + 1) (.iterate outside cache)) = some s' ∧ active s' = 1 := by
  intro repository cache outside
  have hfirst : ∃ s s', run repository [.call 0 ⟨none, .onlineIfNotFound⟩, .execute 0,
      .advance 0 cache, .advance 0 cache, .advance 0 cache, .executeFnReturns 0,
      .assignToken 0] = some s ∧ stepDestructor repository s (.iterate outside cache) = some s' ∧
      stepDestructor repository s' (.iterate outside cache) = some s' ∧ active s' = 1 :=
    ⟨_, _, rfl, rfl, rfl, rfl⟩
  obtain ⟨s, s', hrun, hfirst, hstays, hactive⟩ := hfirst
  refine ⟨s, s', hrun, fun n => ⟨?_, hactive⟩⟩
  induction n with
  | zero => exact runFrom_cons.mpr ⟨s', hfirst, rfl⟩
  | succ n ih =>
    rw [List.replicate_succ', runFrom_append, ih]
    exact runFrom_cons.mpr ⟨s', hstays, rfl⟩

end OlpEdgeSdk.Analysis.ContextDestruction

import OlpEdgeSdk.Analysis.MultiRequestContextCallbacks
import OlpEdgeSdk.Analysis.RepositoryPatterns
import OlpEdgeSdk.Model.RepositoryCalls

/-!
# How often a callback of a repository is invoked

The callback of a call is invoked by `MultiRequestContext`, at most once. The
`cancel_callback` of `GetPartitions`, `GetPartitionsById` and `GetData` invokes it too: if a
program reaches an `ExecuteOrCancelled` with that cancel function after its operation was
cancelled, the callback is invoked a second time. It is invoked once in all other runs.

SOURCE: PartitionsRepository.cpp, DataRepository.cpp, MultiRequestContext.h,
CancellationContext.inl
-/

set_option autoImplicit false

namespace OlpEdgeSdk.Analysis.Repository

open OlpEdgeSdk.Base OlpEdgeSdk.Model OlpEdgeSdk.Model.Repository
open OlpEdgeSdk.Model.Repository.State
open OlpEdgeSdk.Analysis.RepositoryPatterns

variable {Call Op : Type} {Answer : Op → Type} {Reply : Type}

/-! ## What an event does -/

/-- What an event asks of `MultiRequestContext`, where nothing else happens. -/
def requestsEvent : Event Call Op Answer → Option (MultiRequestContext.Event (List Char) Reply)
  | .assignToken owner => some (.assignToken owner)
  | .cancel id => some (.cancel id)
  | .cancelOperation id => some (.cancelProvider id)
  | .invoke id => some (.invoke id)
  | _ => none

/-- What an event does to a state, with one constructor for each thing that can happen. -/
inductive Transition (repository : Repository Call Op Answer Reply)
    (s : State Call Op Answer Reply) :
    Event Call Op Answer → State Call Op Answer Reply → Prop where
  | rejected {id : ℕ} {c : Call} (hnew : Assoc.valueOf s.calls id = none) :
      Transition repository s (.call id c)
        { s with calls := s.calls ++ [(id, c)], direct := s.direct ++ [id] }
  | associated {id : ℕ} {c : Call} {requests : MultiRequestContext.State (List Char) Reply}
      (hnew : Assoc.valueOf s.calls id = none)
      (hstep : s.requests.step (.associate (repository.requestKey c) id) = some requests) :
      Transition repository s (.call id c)
        { s with calls := s.calls ++ [(id, c)], requests := requests }
  | executes {owner : ℕ} {c : Call} {requests : MultiRequestContext.State (List Char) Reply}
      (hstep : s.requests.step (.execute owner) = some requests) :
      Transition repository s (.execute owner)
        { s.setExecution owner (Execution.start (repository.program c)) with
          requests := requests }
  | passes {event : Event Call Op Answer} {e : MultiRequestContext.Event (List Char) Reply}
      {requests : MultiRequestContext.State (List Char) Reply}
      (hevent : requestsEvent event = some e) (hstep : s.requests.step e = some requests) :
      Transition repository s event { s with requests := requests }
  | advances {owner : ℕ} {cache : Store} {x : Execution Op Answer Reply}
      {program : Program Op Answer Store Reply} {s' : State Call Op Answer Reply}
      (hx : s.execution owner = some x) (hready : x.control = .ready program)
      (hadvance : s.advance owner x cache program = some s') :
      Transition repository s (.advance owner cache) s'
  /-- An execution changes, but not where its program is. -/
  | keeps {event : Event Call Op Answer} {owner : ℕ} {x x' : Execution Op Answer Reply}
      (hx : s.execution owner = some x) (hcontrol : x'.control = x.control)
      (hcancelled : x'.isCancelled = x.isCancelled) :
      Transition repository s event (s.setExecution owner x')
  | answers {event : Event Call Op Answer} {owner request : ℕ} {x : Execution Op Answer Reply}
      {op : Op} {callback : Answer op → Program Op Answer Store Reply}
      (hx : s.execution owner = some x) (hwaiting : x.control = .waiting request op callback)
      (answer : Answer op) :
      Transition repository s event
        (s.setExecution owner { x with control := .ready (callback answer) })
  /-- The context of the operation of a request is cancelled. -/
  | cancels {id owner : ℕ} {x : Execution Op Answer Reply}
      {requests : MultiRequestContext.State (List Char) Reply}
      (hcancelling : (id, owner) ∈ s.requests.cancelling) (hx : s.execution owner = some x)
      (hstep : s.requests.step (.cancelProvider id) = some requests) :
      Transition repository s (.cancelOperation id)
        { s.setExecution owner { x with isCancelled := true } with requests := requests }

section Transitions

variable {repository : Repository Call Op Answer Reply} {s s' : State Call Op Answer Reply}

theorem of_stepRequests {event : MultiRequestContext.Event (List Char) Reply}
    (h : s.stepRequests event = some s') :
    ∃ requests, s.requests.step event = some requests ∧ s' = { s with requests := requests } := by
  obtain ⟨requests, hstep, rfl⟩ := Option.map_eq_some_iff.mp h
  exact ⟨requests, hstep, rfl⟩

theorem transition_passes {event : Event Call Op Answer}
    {e : MultiRequestContext.Event (List Char) Reply} (hevent : requestsEvent event = some e)
    (h : s.stepRequests e = some s') : Transition repository s event s' := by
  obtain ⟨requests, hstep, rfl⟩ := of_stepRequests h
  exact .passes hevent hstep

/-- What `CancelOperation` and the rest of `onRequestCancelled` do. -/
theorem transition_cancelOperation {id : ℕ}
    (h : step repository s (.cancelOperation id) = some s') :
    Transition repository s (.cancelOperation id) s' := by
  unfold step at h
  dsimp only at h
  split at h
  · rename_i c hfind
    obtain rfl : c.1 = id := by simpa using List.find?_some hfind
    split at h
    · rename_i x hx
      split at h
      · split at h
        · obtain ⟨requests, hstep, rfl⟩ := of_stepRequests h
          exact .cancels (List.mem_of_find?_eq_some hfind) hx hstep
        · cases h
      · exact transition_passes rfl h
    · exact transition_passes rfl h
  · cases h

/-- **There is nothing else.** -/
theorem transition_of_step {event : Event Call Op Answer}
    (h : step repository s event = some s') : Transition repository s event s' := by
  cases event with
  | call id c =>
    unfold step at h
    dsimp only at h
    split at h
    · cases h
    · rename_i hnew
      split at h
      · cases h
        exact .rejected hnew
      · obtain ⟨requests, hstep, rfl⟩ := of_stepRequests h
        exact .associated hnew hstep
  | execute owner =>
    unfold step at h
    dsimp only at h
    split at h
    · obtain ⟨requests, hstep, rfl⟩ := of_stepRequests h
      exact .executes hstep
    · cases h
  | assignToken owner =>
    unfold step at h
    dsimp only at h
    split at h
    · split at h
      · exact transition_passes rfl h
      · cases h
    · cases h
  | advance owner cache =>
    unfold step at h
    dsimp only at h
    split at h
    · rename_i x hx
      split at h
      · rename_i program hready
        exact .advances hx hready h
      · cases h
    · cases h
  | executeFnReturns owner =>
    unfold step at h
    dsimp only at h
    split at h
    · rename_i x hx
      split at h
      · cases h
        exact .keeps hx rfl rfl
      · cases h
    · cases h
  | answer owner answers =>
    unfold step at h
    dsimp only at h
    split at h
    · rename_i x hx
      split at h
      · rename_i hwaiting
        split at h
        · cases h
        · cases h
          exact .answers hx hwaiting _
      · cases h
    · cases h
  | answerCancelled owner error =>
    unfold step at h
    dsimp only at h
    split at h
    · rename_i x hx
      split at h
      · rename_i hwaiting
        split at h
        · cases h
          exact .answers hx hwaiting _
        · cases h
      · cases h
    · cases h
  | cancel id => exact transition_passes rfl h
  | cancelSubOperation owner =>
    unfold step at h
    dsimp only at h
    split at h
    · rename_i x hx
      split at h
      · cases h
        exact .keeps hx rfl rfl
      · cases h
    · cases h
  | cancelOperation id => exact transition_cancelOperation h
  | invoke id => exact transition_passes rfl h

end Transitions

/-! ## What it means for the callbacks -/

/-- The programs a control leads to call the callback of the caller only in cancel
functions. -/
def ControlReplies : Control Op Answer Reply → Prop
  | .ready program => program.RepliesUnlessCancelled
  | .waiting _ _ callback => ∀ answer, (callback answer).RepliesUnlessCancelled
  | .finished => True

/-- `MultiRequestContext` did nothing, or something other than to register a request. -/
def RequestsMove (requests requests' : MultiRequestContext.State (List Char) Reply) : Prop :=
  requests' = requests ∨
    ∃ event, requests.step event = some requests' ∧ ∀ key id, event ≠ .associate key id

/-- What an event can do to a state. -/
inductive Moves (s : State Call Op Answer Reply) :
    Event Call Op Answer → State Call Op Answer Reply → Prop where
  | rejected {id : ℕ} {c : Call} (hnew : Assoc.valueOf s.calls id = none) :
      Moves s (.call id c) { s with calls := s.calls ++ [(id, c)], direct := s.direct ++ [id] }
  | associated {id : ℕ} {c : Call} {key : List Char}
      {requests : MultiRequestContext.State (List Char) Reply}
      (hnew : Assoc.valueOf s.calls id = none)
      (hstep : s.requests.step (.associate key id) = some requests) :
      Moves s (.call id c) { s with calls := s.calls ++ [(id, c)], requests := requests }
  | passed {event : Event Call Op Answer}
      {requests : MultiRequestContext.State (List Char) Reply}
      (hrequests : RequestsMove s.requests requests) :
      Moves s event { s with requests := requests }
  | wentOn {event : Event Call Op Answer} {owner : ℕ} {x : Execution Op Answer Reply}
      {requests : MultiRequestContext.State (List Char) Reply}
      (hrequests : RequestsMove s.requests requests)
      (hreplies : (∀ old, s.execution owner = some old → ControlReplies old.control) →
        ControlReplies x.control)
      (hcancelled : x.isCancelled = true →
        (∃ old, s.execution owner = some old ∧ old.isCancelled = true) ∨
          ∃ id, (id, owner) ∈ s.requests.cancelling ∧ (id, .cancelled) ∈ requests.due) :
      Moves s event { s.setExecution owner x with requests := requests }
  | bypassed {owner : ℕ} {cache : Store} {x : Execution Op Answer Reply}
      {program : Program Op Answer Store Reply} {r : Reply}
      (hx : s.execution owner = some x) (hready : x.control = .ready program)
      (hprogram : program = .replyCaller r ∨
        x.isCancelled = true ∧ program.cancelBranch = .replyCaller r) :
      Moves s (.advance owner cache)
        { s.setExecution owner { x with control := .finished } with
          direct := s.direct ++ [owner] }

section Inversion

variable {s s' : State Call Op Answer Reply}

/-- In a cancelled context a program goes on with its cancel branch. -/
theorem advance_of_cancelled {owner : ℕ} {x : Execution Op Answer Reply} {cache : Store}
    (hcancelled : x.isCancelled = true) (program : Program Op Answer Store Reply) :
    s.advance owner x cache program = s.advance owner x cache program.cancelBranch := by
  induction program with
  | executeOrCancelled body onCancel _ ih =>
    rw [State.advance, if_pos hcancelled]
    exact ih
  | _ => rfl

/-- The step of a node that is no guard of a cancelled context. -/
theorem moves_node {owner : ℕ} {x : Execution Op Answer Reply} {cache : Store}
    {program node : Program Op Answer Store Reply} (hx : s.execution owner = some x)
    (hready : x.control = .ready program)
    (hnode : node = program ∨ x.isCancelled = true ∧ node = program.cancelBranch)
    (hguard : x.isCancelled = true → ∀ body onCancel, node ≠ .executeOrCancelled body onCancel)
    (hreplies : program.RepliesUnlessCancelled →
      node.RepliesUnlessCancelled ∨ ∃ r, node = .replyCaller r)
    (h : s.advance owner x cache node = some s') : Moves s (.advance owner cache) s' := by
  have hsame : ∀ x' : Execution Op Answer Reply, x'.isCancelled = x.isCancelled →
      x'.isCancelled = true →
      (∃ old, s.execution owner = some old ∧ old.isCancelled = true) ∨
        ∃ id, (id, owner) ∈ s.requests.cancelling ∧ (id, .cancelled) ∈ s.requests.due := by
    intro x' heq hcancelled
    exact Or.inl ⟨x, hx, heq ▸ hcancelled⟩
  have hnext : (∀ r, node ≠ .replyCaller r) →
      (∀ old, s.execution owner = some old → ControlReplies old.control) →
      node.RepliesUnlessCancelled := by
    intro hne hold
    have hprogram := hold x hx
    rw [hready] at hprogram
    rcases hreplies hprogram with h | ⟨r, hr⟩
    · exact h
    · exact absurd hr (hne r)
  cases node with
  | reply r =>
    obtain ⟨requests, hstep, rfl⟩ := of_stepRequests h
    refine Moves.wentOn (Or.inr ⟨_, hstep, nofun⟩) (fun _ => trivial) fun hcancelled => ?_
    exact Or.inl ⟨x, hx, hcancelled⟩
  | replyCaller r =>
    cases h
    refine Moves.bypassed (r := r) hx hready ?_
    exact hnode.imp Eq.symm fun h => ⟨h.1, h.2.symm⟩
  | read next =>
    cases h
    exact Moves.wentOn (Or.inl rfl) (fun hold => hnext nofun hold cache) (hsame _ rfl)
  | write change next =>
    cases h
    exact Moves.wentOn (Or.inl rfl) (fun hold => hnext nofun hold) (hsame _ rfl)
  | request op callback =>
    cases h
    exact Moves.wentOn (Or.inl rfl) (fun hold => hnext nofun hold) (hsame _ rfl)
  | schedule task =>
    cases h
    exact Moves.wentOn (Or.inl rfl) (fun hold => hnext nofun hold) (hsame _ rfl)
  | executeOrCancelled body onCancel =>
    unfold State.advance at h
    split at h
    · rename_i hcancelled
      exact absurd rfl (hguard hcancelled body onCancel)
    · cases h
      exact Moves.wentOn (Or.inl rfl) (fun hold => (hnext nofun hold).1) (hsame _ rfl)

theorem moves_advance {owner : ℕ} {x : Execution Op Answer Reply} {cache : Store}
    {program : Program Op Answer Store Reply} (hx : s.execution owner = some x)
    (hready : x.control = .ready program) (h : s.advance owner x cache program = some s') :
    Moves s (.advance owner cache) s' := by
  by_cases hcancelled : x.isCancelled = true
  · rw [advance_of_cancelled hcancelled] at h
    exact moves_node hx hready (Or.inr ⟨hcancelled, rfl⟩)
      (fun _ => Program.cancelBranch_ne_executeOrCancelled program) Program.cancelBranch_cases h
  · exact moves_node hx hready (Or.inl rfl) (fun hc => absurd hc hcancelled) Or.inl h

theorem moves_answer {event : Event Call Op Answer} {owner : ℕ}
    {x : Execution Op Answer Reply} {request : ℕ} {op : Op}
    {callback : Answer op → Program Op Answer Store Reply} (hx : s.execution owner = some x)
    (hwaiting : x.control = .waiting request op callback) (answer : Answer op) :
    Moves s event (s.setExecution owner { x with control := .ready (callback answer) }) := by
  have hsame : RequestsMove s.requests s.requests := Or.inl rfl
  refine Moves.wentOn hsame (fun hold => ?_) (fun hcancelled => Or.inl ⟨x, hx, hcancelled⟩)
  have hreplies := hold x hx
  rw [hwaiting] at hreplies
  exact hreplies answer

/-- An execution changes, but not where its program is. -/
theorem moves_kept {event : Event Call Op Answer} {owner : ℕ}
    {x x' : Execution Op Answer Reply} (hx : s.execution owner = some x)
    (hcontrol : x'.control = x.control) (hcancelled : x'.isCancelled = x.isCancelled) :
    Moves s event (s.setExecution owner x') := by
  have hsame : RequestsMove s.requests s.requests := Or.inl rfl
  refine Moves.wentOn hsame (fun hold => ?_) (fun h => ?_)
  · rw [hcontrol]
    exact hold x hx
  · exact Or.inl ⟨x, hx, hcancelled ▸ h⟩

/-- What `MultiRequestContext` does alone is to register no request. -/
theorem moves_passes {event : Event Call Op Answer}
    {e : MultiRequestContext.Event (List Char) Reply}
    {requests : MultiRequestContext.State (List Char) Reply}
    (hevent : requestsEvent event = some e) (hstep : s.requests.step e = some requests) :
    Moves s event { s with requests := requests } := by
  refine Moves.passed (Or.inr ⟨e, hstep, ?_⟩)
  rintro key id rfl
  cases event <;> cases hevent

theorem moves_of_step {repository : Repository Call Op Answer Reply}
    (hprogram : ∀ c, (repository.program c).RepliesUnlessCancelled)
    {event : Event Call Op Answer} (h : step repository s event = some s') :
    Moves s event s' := by
  cases transition_of_step h with
  | rejected hnew => exact Moves.rejected hnew
  | associated hnew hstep => exact Moves.associated hnew hstep
  | executes hstep => exact Moves.wentOn (Or.inr ⟨_, hstep, nofun⟩) (fun _ => hprogram _) nofun
  | passes hevent hstep => exact moves_passes hevent hstep
  | advances hx hready hadvance => exact moves_advance hx hready hadvance
  | keeps hx hcontrol hcancelled => exact moves_kept hx hcontrol hcancelled
  | answers hx hwaiting answer => exact moves_answer hx hwaiting answer
  | @cancels id owner x requests hcancelling hx hstep =>
    refine Moves.wentOn (Or.inr ⟨_, hstep, nofun⟩) (fun hold => hold x hx) fun _ => ?_
    refine Or.inr ⟨_, hcancelling, ?_⟩
    cases MultiRequestContext.moves_of_step hstep with
    | providerCancelled => exact List.mem_append_right _ (List.mem_singleton_self _)

end Inversion

/-! ## The invariant -/

/-- The calls that `MultiRequestContext` knows of. -/
def requestIds (requests : MultiRequestContext.State (List Char) Reply) : List ℕ :=
  requests.requests.map MultiRequestContext.Request.id

/-- The calls whose callback `MultiRequestContext` has invoked or is about to. -/
def delivered (requests : MultiRequestContext.State (List Char) Reply) : List ℕ :=
  (MultiRequestContext.deliveries requests).map Prod.fst

/-- What holds in every state of every run. -/
structure Inv (s : State Call Op Answer Reply) : Prop where
  requests : MultiRequestContext.Inv s.requests
  /-- `MultiRequestContext` knows calls of the repository. -/
  called : requestIds s.requests ⊆ Assoc.keys s.calls
  /-- Programs call the callback of the caller only in cancel functions. -/
  replies : ∀ owner x, s.execution owner = some x → ControlReplies x.control
  /-- The call that started a cancelled execution has been told. -/
  told : ∀ owner x, s.execution owner = some x → x.isCancelled = true →
    owner ∈ delivered s.requests

theorem inv_init : Inv (init : State Call Op Answer Reply) where
  requests := MultiRequestContext.inv_init
  called := List.nil_subset _
  replies _ _ h := nomatch h
  told _ _ h := nomatch h

theorem execution_setExecution (s : State Call Op Answer Reply) (owner other : ℕ)
    (x : Execution Op Answer Reply) :
    (s.setExecution owner x).execution other =
      if owner = other then some x else s.execution other :=
  Assoc.valueOf_put _ _ _ _

section Requests

variable {requests requests' : MultiRequestContext.State (List Char) Reply}

theorem delivered_subset {event : MultiRequestContext.Event (List Char) Reply}
    (h : requests.step event = some requests') : delivered requests ⊆ delivered requests' :=
  List.map_subset _ (MultiRequestContext.deliveries_subset (MultiRequestContext.moves_of_step h))

theorem RequestsMove.delivered_subset (h : RequestsMove requests requests') :
    delivered requests ⊆ delivered requests' := by
  rcases h with rfl | ⟨event, hstep, -⟩
  · exact List.Subset.refl _
  · exact Repository.delivered_subset hstep

theorem RequestsMove.inv (h : RequestsMove requests requests')
    (hinv : MultiRequestContext.Inv requests) : MultiRequestContext.Inv requests' := by
  rcases h with rfl | ⟨event, hstep, -⟩
  · exact hinv
  · exact MultiRequestContext.inv_step hinv hstep

theorem RequestsMove.requestIds_eq (h : RequestsMove requests requests') :
    requestIds requests' = requestIds requests := by
  rcases h with rfl | ⟨event, hstep, hne⟩
  · rfl
  · cases MultiRequestContext.moves_of_step hstep with
    | joined => exact absurd rfl (hne _ _)
    | opened => exact absurd rfl (hne _ _)
    | _ => rfl

theorem requestIds_associate {key : List Char} {id : ℕ}
    (h : requests.step (.associate key id) = some requests') :
    requestIds requests' = requestIds requests ++ [id] := by
  cases MultiRequestContext.moves_of_step h with
  | joined => simp [requestIds]
  | opened => simp [requestIds]

end Requests

section Steps

variable {s s' : State Call Op Answer Reply} {event : Event Call Op Answer}

theorem inv_wentOn {owner : ℕ} {x : Execution Op Answer Reply}
    {requests : MultiRequestContext.State (List Char) Reply} (hinv : Inv s)
    (hrequests : RequestsMove s.requests requests) (hreplies : ControlReplies x.control)
    (htold : x.isCancelled = true → owner ∈ delivered requests) :
    Inv { s.setExecution owner x with requests := requests } := by
  refine ⟨hrequests.inv hinv.requests, ?_, fun other y hy => ?_, fun other y hy hcancelled => ?_⟩
  · show requestIds requests ⊆ _
    rw [hrequests.requestIds_eq]
    exact hinv.called
  · replace hy := (execution_setExecution s owner other x).symm.trans hy
    split at hy
    · cases hy
      exact hreplies
    · exact hinv.replies other y hy
  · replace hy := (execution_setExecution s owner other x).symm.trans hy
    split at hy
    · rename_i heq
      cases hy
      exact heq ▸ htold hcancelled
    · exact hrequests.delivered_subset (hinv.told other y hy hcancelled)

theorem inv_moves (hinv : Inv s) (h : Moves s event s') : Inv s' := by
  cases h with
  | rejected =>
    refine ⟨hinv.requests, fun id hid => ?_, hinv.replies, hinv.told⟩
    rw [Assoc.keys_append]
    exact List.mem_append_left _ (hinv.called hid)
  | associated hnew hstep =>
    refine ⟨MultiRequestContext.inv_step hinv.requests hstep, ?_, hinv.replies, ?_⟩
    · show requestIds _ ⊆ _
      rw [requestIds_associate hstep, Assoc.keys_append]
      intro id hid
      rcases List.mem_append.mp hid with hid | hid
      · exact List.mem_append_left _ (hinv.called hid)
      · exact List.mem_append_right _ hid
    · exact fun owner x hx hcancelled =>
        delivered_subset hstep (hinv.told owner x hx hcancelled)
  | passed hrequests =>
    refine ⟨hrequests.inv hinv.requests, ?_, hinv.replies, ?_⟩
    · show requestIds _ ⊆ _
      rw [hrequests.requestIds_eq]
      exact hinv.called
    · exact fun owner x hx hcancelled =>
        hrequests.delivered_subset (hinv.told owner x hx hcancelled)
  | wentOn hrequests hreplies hcancelled =>
    refine inv_wentOn hinv hrequests (hreplies (hinv.replies _)) fun hx => ?_
    rcases hcancelled hx with ⟨old, hold, holdCancelled⟩ | ⟨id, hid, hdue⟩
    · exact hrequests.delivered_subset (hinv.told _ old hold holdCancelled)
    · -- the provider is cancelled by the call that started it
      obtain rfl : id = _ := hinv.requests.cancelling _ hid
      exact List.mem_map_of_mem (List.mem_append_left _ hdue)
  | bypassed hx hready hprogram =>
    rename_i owner cache x program r
    have hfinished : Inv { s.setExecution owner { x with control := .finished } with
        requests := s.requests } :=
      inv_wentOn hinv (Or.inl rfl) trivial (hinv.told owner x hx)
    exact ⟨hfinished.requests, hfinished.called, hfinished.replies, hfinished.told⟩

theorem inv_step {repository : Repository Call Op Answer Reply}
    (hprogram : ∀ c, (repository.program c).RepliesUnlessCancelled) (hinv : Inv s)
    (h : step repository s event = some s') : Inv s' :=
  inv_moves hinv (moves_of_step hprogram h)

/-! ## How often a callback is invoked -/

/-- How often the callback of a call has been invoked. -/
def invocations (s : State Call Op Answer Reply) (id : ℕ) : ℕ :=
  s.direct.count id + (s.requests.invoked.map Prod.fst).count id

/-- A program that goes on in a cancelled context does not call the callback of the caller. -/
def NotBypassing (s : State Call Op Answer Reply) : Event Call Op Answer → Prop
  | .advance owner _ => ∀ x program r, s.execution owner = some x →
      x.control = .ready program → x.isCancelled = true → program.cancelBranch ≠ .replyCaller r
  | _ => True

/-- Only rejected calls have been answered other than by `MultiRequestContext`. -/
structure Once (s : State Call Op Answer Reply) : Prop where
  inv : Inv s
  nodup : s.direct.Nodup
  called : s.direct ⊆ Assoc.keys s.calls
  apart : ∀ id ∈ s.direct, id ∉ requestIds s.requests

theorem Once.fresh (honce : Once s) {id : ℕ} (hnew : Assoc.valueOf s.calls id = none) :
    id ∉ s.direct ∧ id ∉ requestIds s.requests := by
  have hkeys := (Assoc.valueOf_eq_none s.calls id).mp hnew
  exact ⟨fun h => hkeys (honce.called h), fun h => hkeys (honce.inv.called h)⟩

/-- A step that does not bypass `MultiRequestContext` answers no call but a rejected one. -/
theorem once_moves (honce : Once s) (hnot : NotBypassing s event) (h : Moves s event s') :
    Once s' := by
  have hinv' := inv_moves honce.inv h
  cases h with
  | rejected hnew =>
    obtain ⟨hdirect, hrequest⟩ := honce.fresh hnew
    refine ⟨hinv', ?_, ?_, ?_⟩
    · exact honce.nodup.append (List.nodup_singleton _) (by simpa using hdirect)
    · rw [Assoc.keys_append]
      intro id hid
      rcases List.mem_append.mp hid with hid | hid
      · exact List.mem_append_left _ (honce.called hid)
      · exact List.mem_append_right _ hid
    · intro id hid
      rcases List.mem_append.mp hid with hid | hid
      · exact honce.apart id hid
      · rw [List.mem_singleton.mp hid]
        exact hrequest
  | associated hnew hstep =>
    obtain ⟨hdirect, -⟩ := honce.fresh hnew
    refine ⟨hinv', honce.nodup, ?_, ?_⟩
    · rw [Assoc.keys_append]
      exact fun id hid => List.mem_append_left _ (honce.called hid)
    · intro id hid
      show id ∉ requestIds _
      rw [requestIds_associate hstep, List.mem_append, List.mem_singleton, not_or]
      refine ⟨honce.apart id hid, ?_⟩
      rintro rfl
      exact hdirect hid
  | passed hrequests =>
    refine ⟨hinv', honce.nodup, honce.called, fun id hid => ?_⟩
    show id ∉ requestIds _
    rw [hrequests.requestIds_eq]
    exact honce.apart id hid
  | wentOn hrequests hreplies hcancelled =>
    refine ⟨hinv', honce.nodup, honce.called, fun id hid => ?_⟩
    show id ∉ requestIds _
    rw [hrequests.requestIds_eq]
    exact honce.apart id hid
  | bypassed hx hready hprogram =>
    rcases hprogram with rfl | ⟨hcancelled, hbranch⟩
    · have hreplies := honce.inv.replies _ _ hx
      rw [hready] at hreplies
      exact hreplies.elim
    · exact absurd hbranch (hnot _ _ _ hx hready hcancelled)

/-- In such a state every callback was invoked at most once. -/
theorem Once.invocations_le_one (honce : Once s) (id : ℕ) : invocations s id ≤ 1 := by
  have hinvoked := List.nodup_iff_count_le_one.mp honce.inv.requests.nodup_invoked id
  have hdirect := List.nodup_iff_count_le_one.mp honce.nodup id
  by_cases hid : id ∈ s.direct
  · have hnone : (s.requests.invoked.map Prod.fst).count id = 0 := by
      refine List.count_eq_zero_of_not_mem fun hmem => honce.apart id hid ?_
      obtain ⟨d, hd, rfl⟩ := List.mem_map.mp hmem
      exact MultiRequestContext.mem_ids_of_mem_deliveries honce.inv.requests
        (List.mem_append_right _ hd)
    unfold invocations
    omega
  · have hnone : s.direct.count id = 0 := List.count_eq_zero_of_not_mem hid
    unfold invocations
    omega

theorem direct_subset (h : Moves s event s') : s.direct ⊆ s'.direct := by
  cases h with
  | rejected => exact List.subset_append_left _ _
  | bypassed => exact List.subset_append_left _ _
  | _ => exact List.Subset.refl _

theorem moves_delivered_subset (h : Moves s event s') :
    delivered s.requests ⊆ delivered s'.requests := by
  cases h with
  | associated hnew hstep => exact delivered_subset hstep
  | passed hrequests => exact hrequests.delivered_subset
  | wentOn hrequests => exact hrequests.delivered_subset
  | _ => exact List.Subset.refl _

/-- A program that bypasses `MultiRequestContext` in a cancelled context answers a call that
has been told already. -/
theorem told_twice (hinv : Inv s) {repository : Repository Call Op Answer Reply}
    (hnot : ¬ NotBypassing s event) (h : step repository s event = some s') :
    ∃ id, id ∈ s'.direct ∧ id ∈ delivered s'.requests := by
  cases event with
  | advance owner cache =>
    simp only [NotBypassing, not_forall, not_not] at hnot
    obtain ⟨x, program, r, hx, hready, hcancelled, hbranch⟩ := hnot
    simp only [step, hx, hready] at h
    rw [advance_of_cancelled hcancelled, hbranch] at h
    cases h
    exact ⟨owner, List.mem_append_right _ (List.mem_singleton_self _),
      hinv.told owner x hx hcancelled⟩
  | _ => exact absurd trivial hnot

end Steps

section Runs

variable {repository : Repository Call Op Answer Reply}
  (hprogram : ∀ c, (repository.program c).RepliesUnlessCancelled)
include hprogram

theorem told_twice_of_run {s s' : State Call Op Answer Reply}
    {events : List (Event Call Op Answer)} (hrun : runFrom (step repository) s events = some s')
    {id : ℕ} (h : id ∈ s.direct ∧ id ∈ delivered s.requests) :
    id ∈ s'.direct ∧ id ∈ delivered s'.requests :=
  invariant_of_steps (fun s => id ∈ s.direct ∧ id ∈ delivered s.requests)
    (fun _ _ _ hold hstep =>
      have hmoves := moves_of_step hprogram hstep
      ⟨direct_subset hmoves hold.1, moves_delivered_subset hmoves hold.2⟩) hrun h

/-- A run without a call that is answered twice does not bypass `MultiRequestContext`. -/
theorem along_of_not_told_twice {s s' : State Call Op Answer Reply}
    {events : List (Event Call Op Answer)} (hrun : runFrom (step repository) s events = some s')
    (hinv : Inv s) (h : ∀ id ∈ s'.direct, id ∉ delivered s'.requests) :
    Along (step repository) NotBypassing s events := by
  induction events generalizing s with
  | nil => trivial
  | cons event events ih =>
    obtain ⟨m, hm, hrest⟩ := runFrom_cons.mp hrun
    refine ⟨?_, fun m' hm' => ?_⟩
    · by_contra hnot
      obtain ⟨id, hid⟩ := told_twice hinv hnot hm
      have hend := told_twice_of_run hprogram hrest hid
      exact h id hend.1 hend.2
    · obtain rfl := Option.some.inj (hm.symm.trans hm')
      exact ih hrest (inv_step hprogram hinv hm)

/-- **In every run that does not bypass `MultiRequestContext` in a cancelled context, every
callback is invoked at most once; and in a run that does, one is invoked twice once no
callback is due.** -/
theorem invocations_le_one_iff {events : List (Event Call Op Answer)}
    {s : State Call Op Answer Reply} (h : run repository events = some s) :
    (Along (step repository) NotBypassing init events → ∀ id, invocations s id ≤ 1) ∧
      (s.requests.due = [] → (∀ id, invocations s id ≤ 1) →
        Along (step repository) NotBypassing init events) := by
  constructor
  · intro halong
    have honce : Once s := invariant_along Once
      (fun _ _ _ honce hnot hstep => once_moves honce hnot (moves_of_step hprogram hstep)) h halong
      ⟨inv_init, List.nodup_nil, List.nil_subset _, fun _ hid => absurd hid List.not_mem_nil⟩
    exact honce.invocations_le_one
  · intro hdue honce
    refine along_of_not_told_twice hprogram h inv_init fun id hdirect hdelivered => ?_
    have hinvoked : id ∈ s.requests.invoked.map Prod.fst := by
      simpa [delivered, MultiRequestContext.deliveries, hdue] using hdelivered
    have hcount := honce id
    have hone := List.count_pos_iff.mpr hdirect
    have htwo := List.count_pos_iff.mpr hinvoked
    unfold invocations at hcount
    omega

end Runs

/-! ## The programs of the repositories -/

theorem reply_replies (r : Reply) :
    (.reply r : Program Op Answer Store Reply).RepliesUnlessCancelled :=
  trivial

section Patterns

variable {α : Type} {callback : Response α → Program Op Answer Store Reply}
  (hcallback : ∀ response, (callback response).RepliesUnlessCancelled)
include hcallback

theorem checkCache_replies {fetchOption : FetchOptions} {get : Store → Option α}
    {notFound : List Char} {online : Program Op Answer Store Reply}
    (honline : online.RepliesUnlessCancelled) :
    (checkCache fetchOption get notFound callback online).RepliesUnlessCancelled :=
  structural_checkCache Program.structural_repliesUnlessCancelled hcallback honline

theorem cacheResponseCallback_replies {put : α → Store → Store} {clear : Store → Store}
    (response : Response α) :
    (cacheResponseCallback put clear callback response).RepliesUnlessCancelled :=
  structural_cacheResponseCallback Program.structural_repliesUnlessCancelled hcallback response

end Patterns

section Partitions

open PartitionsRepository

variable (hrn : List Char) (r : PartitionsRequest)

theorem cancelCallback_allowed : PartitionsRepository.cancelCallback.RepliesUnlessCancelled ∨
    ∃ reply, PartitionsRepository.cancelCallback = .replyCaller reply :=
  Or.inr ⟨_, rfl⟩

theorem layerVersionsCallback_replies {callback : Response ℤ → PartitionsProgram}
    (hcallback : ∀ response, (callback response).RepliesUnlessCancelled)
    (layerVersions : List LayerVersion) :
    (layerVersionsCallback r callback layerVersions).RepliesUnlessCancelled := by
  unfold layerVersionsCallback
  split
  · exact hcallback _
  · exact hcallback _

theorem getLayerVersion_replies {url : List Char} {version : ℤ}
    {callback : Response ℤ → PartitionsProgram}
    (hcallback : ∀ response, (callback response).RepliesUnlessCancelled) :
    (getLayerVersion hrn url r version callback).RepliesUnlessCancelled := by
  refine ⟨fun s => ?_, Or.inl (hcallback _)⟩
  dsimp only
  split
  · exact layerVersionsCallback_replies r hcallback _
  · intro response
    dsimp only
    split
    · exact hcallback _
    · exact layerVersionsCallback_replies r hcallback _

theorem appendPartitionsRequest_replies
    {fetchPartitions : PartitionsRequest → Option ℤ → PartitionsProgram}
    (hfetch : ∀ appended expiry, (fetchPartitions appended expiry).RepliesUnlessCancelled) :
    (appendPartitionsRequest r fetchPartitions).RepliesUnlessCancelled := by
  apply appendPartitionsRequest_of_requests reply_replies _ _ hfetch
  · intro next _ hnext
    exact ⟨hnext, cancelCallback_allowed⟩
  · intro next _ hnext
    exact ⟨hnext, cancelCallback_allowed⟩

theorem getPartitionsInternal_replies {url : List Char} {expiry version : Option ℤ} :
    (getPartitionsInternal hrn url r expiry version).RepliesUnlessCancelled := by
  exact ⟨cacheResponseCallback_replies reply_replies, cancelCallback_allowed⟩

theorem layerVersionCallback_replies {url : List Char} {expiry : Option ℤ}
    (layerVersion : Response ℤ) :
    (layerVersionCallback hrn url r expiry layerVersion).RepliesUnlessCancelled := by
  unfold layerVersionCallback
  split
  · split
    · trivial
    · trivial
  · exact getPartitionsInternal_replies hrn r

theorem fetchPartitions_replies {fetchOption : FetchOptions} {expiry : Option ℤ} :
    (fetchPartitions hrn fetchOption r expiry).RepliesUnlessCancelled := by
  refine ⟨checkCache_replies reply_replies fun response => ?_, cancelCallback_allowed⟩
  dsimp only
  split
  · trivial
  · split
    · exact getLayerVersion_replies hrn r (layerVersionCallback_replies hrn r)
    · exact getPartitionsInternal_replies hrn r

theorem fetchPartitionsById_replies {fetchOption : FetchOptions} {expiry : Option ℤ}
    (partitions : List (List Char)) :
    (fetchPartitionsById hrn fetchOption partitions r expiry).RepliesUnlessCancelled := by
  refine ⟨checkCache_replies reply_replies fun response => ?_, cancelCallback_allowed⟩
  dsimp only
  split
  · trivial
  · exact ⟨cacheResponseCallback_replies reply_replies, cancelCallback_allowed⟩

theorem partitionsRepository_replies (c : PartitionsCall) :
    ((partitionsRepository hrn).program c).RepliesUnlessCancelled := by
  cases c with
  | getPartitions r =>
    exact appendPartitionsRequest_replies r fun appended _ => fetchPartitions_replies hrn appended
  | getPartitionsById r partitions =>
    exact appendPartitionsRequest_replies r fun appended _ =>
      fetchPartitionsById_replies hrn appended partitions

end Partitions

section Data

open DataRepository

variable (hrn : List Char) (r : DataRequest)

theorem getDataInternal_replies {layerType : List Char} {callback : Response Data → DataProgram}
    (hcallback : ∀ response, (callback response).RepliesUnlessCancelled) :
    (getDataInternal hrn layerType r callback).RepliesUnlessCancelled := by
  unfold getDataInternal
  dsimp only
  split
  · exact hcallback _
  · refine ⟨checkCache_replies hcallback fun response => ?_, Or.inl (hcallback _)⟩
    dsimp only
    split
    · exact hcallback _
    · exact ⟨cacheResponseCallback_replies fun _ => hcallback _, Or.inl (hcallback _)⟩

theorem verifyResponseCallback_replies {partitionId : List Char} (response : Response Data) :
    (verifyResponseCallback hrn r partitionId response).RepliesUnlessCancelled := by
  unfold verifyResponseCallback
  split
  · split
    · trivial
    · trivial
  · trivial

theorem getPartitionsCallback_replies {layerType partitionId : List Char}
    (response : Response (List Partition)) :
    (getPartitionsCallback hrn layerType r partitionId response).RepliesUnlessCancelled := by
  unfold getPartitionsCallback
  split
  · trivial
  · split
    · trivial
    · exact getDataInternal_replies hrn _ (verifyResponseCallback_replies hrn _)
  · trivial

theorem dataRepository_replies : ((dataRepository hrn).program r).RepliesUnlessCancelled := by
  refine ⟨fun response => ?_, Or.inr ⟨_, rfl⟩⟩
  dsimp only
  split
  · trivial
  · split
    · trivial
    · split
      · exact getDataInternal_replies hrn r reply_replies
      · exact ⟨getPartitionsCallback_replies hrn r, Or.inr ⟨_, rfl⟩⟩

end Data

/-! ## Main result -/

/-- **In every run of `GetPartitions` and `GetPartitionsById` calls, and of `GetData` calls, the
callback of every call is invoked at most once if no program reaches an `ExecuteOrCancelled`
with the `cancel_callback` of its call after it was cancelled; and if one does, a callback is
invoked twice once none is due.**
SOURCE: PartitionsRepository.cpp:139-471, DataRepository.cpp:179-330,
MultiRequestContext.h:69-208, CancellationContext.inl:28-62 -/
theorem callback_at_most_once_iff (hrn : List Char) :
    (∀ events s, run (partitionsRepository hrn) events = some s →
      (Along (step (partitionsRepository hrn)) NotBypassing init events →
        ∀ id, invocations s id ≤ 1) ∧
      (s.requests.due = [] → (∀ id, invocations s id ≤ 1) →
        Along (step (partitionsRepository hrn)) NotBypassing init events)) ∧
    ∀ events s, run (dataRepository hrn) events = some s →
      (Along (step (dataRepository hrn)) NotBypassing init events →
        ∀ id, invocations s id ≤ 1) ∧
      (s.requests.due = [] → (∀ id, invocations s id ≤ 1) →
        Along (step (dataRepository hrn)) NotBypassing init events) :=
  ⟨fun _ _ h => invocations_le_one_iff (partitionsRepository_replies hrn) h,
    fun _ _ h => invocations_le_one_iff (dataRepository_replies hrn) h⟩

/-- Every request fails. -/
def failing : (op : PartitionsRepository.Op) → op.Answer :=
  fun op => (partitionsRepository []).failed op (.ofCode .notFound [])

/-- A `GetPartitions` call whose request for the catalog fails, and a `GetData` call that names
no data: their callbacks are invoked once. -/
theorem callback_invoked_once :
    (∃ s, run (partitionsRepository []) [.call 0 (.getPartitions {}), .execute 0,
        .advance 0 SortedMap.empty, .advance 0 SortedMap.empty, .answer 0 failing,
        .advance 0 SortedMap.empty, .invoke 0] = some s ∧
      invocations s 0 = 1 ∧ ∀ id, invocations s id ≤ 1) ∧
    ∃ s, run (dataRepository []) [.call 0 {}] = some s ∧
      invocations s 0 = 1 ∧ ∀ id, invocations s id ≤ 1 := by
  constructor
  · refine ⟨_, rfl, rfl, ?_⟩
    refine ((callback_at_most_once_iff []).1 [.call 0 (.getPartitions {}), .execute 0,
      .advance 0 SortedMap.empty, .advance 0 SortedMap.empty, .answer 0 failing,
      .advance 0 SortedMap.empty, .invoke 0] _ rfl).1 ?_
    refine ⟨trivial, fun s₁ h₁ => ⟨trivial, fun s₂ h₂ => ⟨?_, fun s₃ h₃ => ⟨?_, fun s₄ h₄ =>
      ⟨trivial, fun s₅ h₅ => ⟨?_, fun s₆ _ => ⟨trivial, fun s₇ _ => trivial⟩⟩⟩⟩⟩⟩⟩
    all_goals
      cases h₁
      cases h₂
    · intro x program r hx _ hcancelled
      cases hx
      cases hcancelled
    · cases h₃
      intro x program r hx _ hcancelled
      cases hx
      cases hcancelled
    · cases h₃
      cases h₄
      cases h₅
      intro x program r hx _ hcancelled
      cases hx
      cases hcancelled
  · exact ⟨_, rfl, rfl, ((callback_at_most_once_iff []).2 [.call 0 {}] _ rfl).1
      ⟨trivial, fun _ _ => trivial⟩⟩

/-- A catalog with one versioned layer, and a latest version. -/
def versionedCatalog : (op : PartitionsRepository.Op) → op.Answer
  | .getCatalog _ => .ok ⟨[⟨['l'], "versioned".toList, none⟩], []⟩
  | .getLatestCatalogVersion _ => .ok 7
  | op => failing op

/-- The catalog is answered from inside its `execute_fn`, so that its token is kept instead of
that of the version request. The call is cancelled and told so; the version request is not
cancelled and answers, and the callback is invoked again. -/
theorem callback_invoked_twice :
    ∃ s, run (partitionsRepository []) [.call 0 (.getPartitions { layerId := ['l'] }),
        .execute 0, .advance 0 SortedMap.empty, .advance 0 SortedMap.empty,
        .answer 0 versionedCatalog, .advance 0 SortedMap.empty, .advance 0 SortedMap.empty,
        .executeFnReturns 0, .executeFnReturns 0, .assignToken 0, .cancel 0,
        .cancelSubOperation 0, .cancelOperation 0, .invoke 0, .answer 0 versionedCatalog,
        .advance 0 SortedMap.empty] = some s ∧
      invocations s 0 = 2 :=
  ⟨_, rfl, rfl⟩

end OlpEdgeSdk.Analysis.Repository

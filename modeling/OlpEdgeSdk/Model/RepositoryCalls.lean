import OlpEdgeSdk.Model.MultiRequestContext
import OlpEdgeSdk.Model.Repositories

/-!
# Calls of a repository side by side

The calls of one repository share its `MultiRequestContext`. The call that makes a context runs
its program, guarded by a `CancellationContext` of its own. The requests the program starts
are outside code: one that is not cancelled answers once, at any time after it was started,
and one that is cancelled answers with an error.

`ExecuteOrCancelled` keeps the token its `execute_fn` returns when that returns. A request
that is answered before, from inside `execute_fn`, runs its callback inside too, so that the
token of a later request can be overwritten by that of an earlier one; `frames` are the calls
of `execute_fn` that have not returned.

What a program reads from the cache is given by the event, since others write to it too.

SOURCE: CancellationContext.inl, MultiRequestContext.h, PartitionsRepository.cpp,
DataRepository.cpp
-/

set_option autoImplicit false

namespace OlpEdgeSdk.Model

open OlpEdgeSdk.Base

/-- A repository: the key and the program of a call, the calls it answers at once, and how the
failure of a request looks. -/
structure Repository (Call Op : Type) (Answer : Op → Type) (Reply : Type) where
  requestKey : Call → List Char
  program : Call → Program Op Answer Store Reply
  rejected : Call → Option ApiError
  failed : (op : Op) → ApiError → Answer op

/-- `GetPartitions` and `GetPartitionsById` of one `PartitionsRepository`. -/
def partitionsRepository (hrn : List Char) :
    Repository PartitionsCall PartitionsRepository.Op PartitionsRepository.Op.Answer
      (Response (List Partition)) where
  requestKey := PartitionsCall.requestKey
  program
    | .getPartitions r => PartitionsRepository.getPartitions hrn r
    | .getPartitionsById r partitions => PartitionsRepository.getPartitionsById hrn r partitions
  rejected _ := none
  failed
    | .getCatalog _, error => .error error
    | .getLatestCatalogVersion _, error => .error error
    | .getApiClient _ _, error => .error error
    | .network (.lookupApiClient _ _), error => .error error
    | .network (.getCatalog _ _), error => .error error
    | .network (.getLatestCatalogVersion _ _ _), error => .error error
    | .network (.getLayerVersions _ _ _), error => .error error
    | .network (.getPartitions _ _ _ _), error => .error error
    | .network (.getPartitionsbyId _ _ _ _ _), error => .error error
    | .network (.getBlob _ _ _ _ _), error => .error error

/-- `GetData` of one `DataRepository`. -/
def dataRepository (hrn : List Char) :
    Repository DataRequest DataRepository.Op DataRepository.Op.Answer (Response Data) where
  requestKey := DataRequest.createKey
  program := DataRepository.getData hrn
  rejected := DataRepository.rejected
  failed
    | .getCatalog _, error => .error error
    | .getPartitionsById _ _, error => .error error
    | .getApiClient _ _, error => .error error
    | .network (.lookupApiClient _ _), error => .error error
    | .network (.getCatalog _ _), error => .error error
    | .network (.getLatestCatalogVersion _ _ _), error => .error error
    | .network (.getLayerVersions _ _ _), error => .error error
    | .network (.getPartitions _ _ _ _), error => .error error
    | .network (.getPartitionsbyId _ _ _ _ _), error => .error error
    | .network (.getBlob _ _ _ _ _), error => .error error

namespace Repository

/-- Where a program is. -/
inductive Control (Op : Type) (Answer : Op → Type) (Reply : Type) where
  /-- A callback or a task is about to go on with `program`. -/
  | ready (program : Program Op Answer Store Reply)
  /-- The answer of a request is awaited. -/
  | waiting (request : ℕ) (op : Op) (callback : Answer op → Program Op Answer Store Reply)
  | finished

/-- An execution and its `CancellationContext`.
* `frames`: the token that each open `execute_fn` is going to return, innermost first, or none
  if it has not got that far; a token is the number of a request or empty;
* `subOperationCancelToken`: `sub_operation_cancel_token_`;
* `cancelled`: the requests whose token was cancelled;
* `nextRequest`: the number of the next request. -/
structure Execution (Op : Type) (Answer : Op → Type) (Reply : Type) where
  control : Control Op Answer Reply
  frames : List (Option (Option ℕ))
  subOperationCancelToken : Option ℕ
  isCancelled : Bool
  cancelled : List ℕ
  nextRequest : ℕ

/-- The execution of a program, with a new `CancellationContext`. -/
def Execution.start {Op : Type} {Answer : Op → Type} {Reply : Type}
    (program : Program Op Answer Store Reply) : Execution Op Answer Reply :=
  ⟨.ready program, [], none, false, [], 0⟩

/-- The state of a repository.
* `requests`: its `MultiRequestContext`;
* `calls`: the calls so far, by id;
* `executions`: the executions, by the id of the call that started them;
* `direct`: the callbacks of callers that were invoked other than by `MultiRequestContext`. -/
structure State (Call Op : Type) (Answer : Op → Type) (Reply : Type) where
  requests : MultiRequestContext.State (List Char) Reply
  calls : List (ℕ × Call)
  executions : List (ℕ × Execution Op Answer Reply)
  direct : List ℕ

/-- The events. -/
inductive Event (Call Op : Type) (Answer : Op → Type) where
  /-- A call of the repository, up to the end of the locked part of `ExecuteOrAssociate`. -/
  | call (id : ℕ) (c : Call)
  /-- `executeFn` is called. -/
  | execute (owner : ℕ)
  /-- `executeFn` returns. -/
  | assignToken (owner : ℕ)
  /-- A program goes on by one node, with what it reads from the cache. -/
  | advance (owner : ℕ) (cache : Store)
  /-- The innermost open `execute_fn` returns. -/
  | executeFnReturns (owner : ℕ)
  /-- The request that is awaited answers. -/
  | answer (owner : ℕ) (answers : (op : Op) → Answer op)
  /-- The request that is awaited was cancelled and answers. -/
  | answerCancelled (owner : ℕ) (error : ApiError)
  /-- The locked part of `onRequestCancelled`, called by the token of a call. -/
  | cancel (id : ℕ)
  /-- The first part of `CancelOperation`: the token of the request is cancelled. -/
  | cancelSubOperation (owner : ℕ)
  /-- The rest of `CancelOperation`, and `onRequestCancelled` goes on. -/
  | cancelOperation (id : ℕ)
  /-- A callback is invoked by `MultiRequestContext`. -/
  | invoke (id : ℕ)

variable {Call Op : Type} {Answer : Op → Type} {Reply : Type}

namespace State

def init : State Call Op Answer Reply := ⟨MultiRequestContext.State.init, [], [], []⟩

/-- The execution started by a call. -/
def execution (s : State Call Op Answer Reply) (owner : ℕ) :
    Option (Execution Op Answer Reply) :=
  Assoc.valueOf s.executions owner

/-- The execution of `owner` becomes `x`. -/
def setExecution (s : State Call Op Answer Reply) (owner : ℕ) (x : Execution Op Answer Reply) :
    State Call Op Answer Reply :=
  { s with executions := Assoc.put s.executions owner x }

/-- The next step of `MultiRequestContext`. -/
def stepRequests (s : State Call Op Answer Reply)
    (event : MultiRequestContext.Event (List Char) Reply) : Option (State Call Op Answer Reply) :=
  (s.requests.step event).map fun requests => { s with requests := requests }

/-- A program goes on by one node. In a cancelled context `ExecuteOrCancelled` runs its
`cancel_fn`.
SOURCE: CancellationContext.inl:28-45 -/
def advance (s : State Call Op Answer Reply) (owner : ℕ) (x : Execution Op Answer Reply)
    (cache : Store) : Program Op Answer Store Reply → Option (State Call Op Answer Reply)
  | .reply r =>
    (s.setExecution owner { x with control := .finished }).stepRequests (.complete owner r)
  | .replyCaller _ =>
    some { s.setExecution owner { x with control := .finished } with direct := s.direct ++ [owner] }
  | .read next => some (s.setExecution owner { x with control := .ready (next cache) })
  | .write _ next => some (s.setExecution owner { x with control := .ready next })
  | .request op callback => some (s.setExecution owner { x with
      control := .waiting x.nextRequest op callback
      frames := some (some x.nextRequest) :: x.frames.tail
      nextRequest := x.nextRequest + 1 })
  | .schedule task => some (s.setExecution owner { x with
      control := .ready task
      frames := some none :: x.frames.tail })
  | .executeOrCancelled body onCancel =>
    if x.isCancelled then s.advance owner x cache onCancel
    else some (s.setExecution owner { x with control := .ready body, frames := none :: x.frames })

/-- What an event does to the state, if it can happen. -/
def step (repository : Repository Call Op Answer Reply) (s : State Call Op Answer Reply) :
    Event Call Op Answer → Option (State Call Op Answer Reply)
  | .call id c =>
    match Assoc.valueOf s.calls id with
    | some _ => none
    | none =>
      match repository.rejected c with
      | some _ => some { s with calls := s.calls ++ [(id, c)], direct := s.direct ++ [id] }
      | none =>
        { s with calls := s.calls ++ [(id, c)] }.stepRequests
          (.associate (repository.requestKey c) id)
  | .execute owner =>
    match Assoc.valueOf s.calls owner with
    | some c =>
      (s.setExecution owner (Execution.start (repository.program c))).stepRequests (.execute owner)
    | none => none
  | .assignToken owner =>
    match s.execution owner with
    | some x => if x.frames = [] then s.stepRequests (.assignToken owner) else none
    | none => none
  | .advance owner cache =>
    match s.execution owner with
    | some x =>
      match x.control with
      | .ready program => s.advance owner x cache program
      | _ => none
    | none => none
  | .executeFnReturns owner =>
    match s.execution owner with
    | some x =>
      match x.frames with
      | some token :: frames =>
        some (s.setExecution owner { x with frames := frames, subOperationCancelToken := token })
      | _ => none
    | none => none
  | .answer owner answers =>
    match s.execution owner with
    | some x =>
      match x.control with
      | .waiting request op callback =>
        if request ∈ x.cancelled then none
        else some (s.setExecution owner { x with control := .ready (callback (answers op)) })
      | _ => none
    | none => none
  | .answerCancelled owner error =>
    match s.execution owner with
    | some x =>
      match x.control with
      | .waiting request op callback =>
        if request ∈ x.cancelled then
          some (s.setExecution owner
            { x with control := .ready (callback (repository.failed op error)) })
        else none
      | _ => none
    | none => none
  | .cancel id => s.stepRequests (.cancel id)
  | .cancelSubOperation owner =>
    match s.execution owner with
    | some x =>
      if owner ∈ s.requests.cancelling.map Prod.snd ∧ owner ∈ s.requests.returned then
        some (s.setExecution owner { x with
          subOperationCancelToken := none
          cancelled := x.cancelled ++ x.subOperationCancelToken.toList })
      else none
    | none => none
  | .cancelOperation id =>
    match s.requests.cancelling.find? fun c => c.1 = id with
    | some c =>
      match s.execution c.2 with
      | some x =>
        -- a token that is not assigned yet cancels nothing
        if c.2 ∈ s.requests.returned then
          if x.subOperationCancelToken = none then
            (s.setExecution c.2 { x with isCancelled := true }).stepRequests (.cancelProvider id)
          else none
        else s.stepRequests (.cancelProvider id)
      | none => s.stepRequests (.cancelProvider id)
    | none => none
  | .invoke id => s.stepRequests (.invoke id)

/-- The state after a run of events from the beginning. -/
def run (repository : Repository Call Op Answer Reply) (events : List (Event Call Op Answer)) :
    Option (State Call Op Answer Reply) :=
  runFrom (step repository) init events

end State

end Repository

end OlpEdgeSdk.Model

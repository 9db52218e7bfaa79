import OlpEdgeSdk.Model.RepositoryCalls

/-!
# The destructor of a `MultiRequestContext`

The destructor locks the mutex and cancels the first active request until none is left. The
mutex is recursive: a request that answers inside the cancellation of its token erases itself.
The other threads go on while the loop runs, up to where they need the mutex; they cannot
answer. What code outside of a repository does inside a call is given: whether a request
answers before the function that starts it returns, whether it answers inside the cancellation
of its token, and whether a task scheduler leaves tasks to another thread.

The callbacks that an answer makes due are invoked by events of their own, as elsewhere; a
callback that calls the repository again is left out, and so are new calls.

SOURCE: MultiRequestContext.h, CancellationContext.inl, ExecuteOrSchedule.inl,
CatalogRepository.cpp, ApiRepository.cpp, OlpClient.cpp
-/

set_option autoImplicit false

namespace OlpEdgeSdk.Model

open OlpEdgeSdk.Base

/-! ## The other two repositories -/

/-- `getCatalog` of one `CatalogRepository`. -/
def catalogRepository (hrn : List Char) :
    Repository CatalogRequest CatalogRepository.Op CatalogRepository.Op.Answer
      (Response Catalog) where
  requestKey := CatalogRequest.createKey
  program := CatalogRepository.getCatalog hrn
  rejected _ := none
  failed
    | .getApiClient _ _, error => .error error
    | .network (.lookupApiClient _ _), error => .error error
    | .network (.getCatalog _ _), error => .error error
    | .network (.getLatestCatalogVersion _ _ _), error => .error error
    | .network (.getLayerVersions _ _ _), error => .error error
    | .network (.getPartitions _ _ _ _), error => .error error
    | .network (.getPartitionsbyId _ _ _ _ _), error => .error error
    | .network (.getBlob _ _ _ _ _), error => .error error

/-- What a request of an `OlpClient` whose context is cancelled answers.
SOURCE: OlpClient.cpp:223-226, PlatformApi.cpp:44-49 -/
def clientCancelled : ApiError := ⟨.cancelled, -5, "Operation Cancelled.".toList, false⟩

/-- The calls of `getApiClient` of one `ApiRepository` for services whose URL is not cached, by
service and version. The token they keep is that of `CallApi`, which has a cancellation context.
SOURCE: ApiRepository.cpp:67-100, OlpClient.cpp:188-230 -/
def apiRepository (hrn : List Char) :
    Repository (List Char × List Char) NetworkCall NetworkCall.Answer (Response (List Char)) where
  requestKey c := c.1 ++ '@' :: c.2
  program c := .executeOrCancelled
    (.request (.lookupApiClient c.1 c.2) fun response =>
      match response with
      | .ok url => .write (ApiCacheRepository.put hrn c.1 c.2 url) (.reply response)
      | .error _ => .reply response)
    (.reply (.error clientCancelled))
  rejected _ := none
  failed
    | .lookupApiClient _ _, error => .error error
    | .getCatalog _ _, error => .error error
    | .getLatestCatalogVersion _ _ _, error => .error error
    | .getLayerVersions _ _ _, error => .error error
    | .getPartitions _ _ _ _, error => .error error
    | .getPartitionsbyId _ _ _ _ _, error => .error error
    | .getBlob _ _ _ _ _, error => .error error

namespace Repository

variable {Call Op : Type} {Answer : Op → Type} {Reply : Type}

/-! ## Inside a call -/

/-- What code outside of a repository does inside a call of the thread of the destructor.
* `queuesTasks`: a task scheduler leaves tasks to another thread;
* `atOnce`: what a request answers before the function that starts it returns;
* `onCancel`: the error a request answers inside the cancellation of its token. -/
structure Outside (Op : Type) (Answer : Op → Type) where
  queuesTasks : Bool
  atOnce : (op : Op) → Option (Answer op)
  onCancel : Op → Option ApiError

/-- Where a program has got inside a call: it has called a callback, or waits for another
thread. -/
inductive Inline (Reply : Type) where
  | replied (r : Reply)
  | repliedCaller
  | left

/-- A program goes on inside a call as far as it can. Its cancellation context is not cancelled
yet: `is_cancelled_` is set when the call is over.
SOURCE: CancellationContext.inl:28-62, ExecuteOrSchedule.inl:33-40 -/
def runInline (outside : Outside Op Answer) (cache : Store) (x : Execution Op Answer Reply) :
    Program Op Answer Store Reply → Execution Op Answer Reply × Inline Reply
  | .reply r => ({ x with control := .finished }, .replied r)
  | .replyCaller _ => ({ x with control := .finished }, .repliedCaller)
  | .read next => runInline outside cache x (next cache)
  | .write _ next => runInline outside cache x next
  | .request op callback =>
    let x := { x with
      control := .waiting x.nextRequest op callback
      nextRequest := x.nextRequest + 1 }
    match outside.atOnce op with
    | some answer => runInline outside cache x (callback answer)
    | none => (x, .left)
  | .schedule task =>
    if outside.queuesTasks then ({ x with control := .ready task }, .left)
    else runInline outside cache x task
  | .executeOrCancelled body _ => runInline outside cache x body

/-- A request is cancelled, and answers or does not.
SOURCE: CancellationToken.cpp:30-34 -/
def cancelRequest (repository : Repository Call Op Answer Reply) (outside : Outside Op Answer)
    (cache : Store) (x : Execution Op Answer Reply) (request : ℕ) :
    Execution Op Answer Reply × Inline Reply :=
  let x := { x with cancelled := x.cancelled ++ [request] }
  match x.control with
  | .waiting awaited op callback =>
    if awaited = request then
      match outside.onCancel op with
      | some error => runInline outside cache x (callback (repository.failed op error))
      | none => (x, .left)
    else (x, .left)
  | _ => (x, .left)

/-- `CancelOperation`, which does nothing the second time.
SOURCE: CancellationContext.inl:48-62 -/
def cancelOperation (repository : Repository Call Op Answer Reply) (outside : Outside Op Answer)
    (cache : Store) (x : Execution Op Answer Reply) :
    Execution Op Answer Reply × Inline Reply :=
  if x.isCancelled then (x, .left)
  else
    let (x, inline) :=
      match x.subOperationCancelToken with
      | some request => cancelRequest repository outside cache x request
      | none => (x, .left)
    ({ x with subOperationCancelToken := none, isCancelled := true }, inline)

/-! ## The loop -/

namespace State

/-- One iteration of the loop, if there is an active request. A token that is not assigned yet
cancels nothing.
SOURCE: MultiRequestContext.h:54-66 -/
def iterate (repository : Repository Call Op Answer Reply) (s : State Call Op Answer Reply)
    (outside : Outside Op Answer) (cache : Store) : Option (State Call Op Answer Reply) :=
  match s.requests.activeReqs.entries with
  | [] => none
  | (_, context) :: _ =>
    if context.owner ∈ s.requests.returned then
      match s.execution context.owner with
      | some x =>
        let (x, inline) := cancelOperation repository outside cache x
        let s := s.setExecution context.owner x
        match inline with
        | .replied r => s.stepRequests (.complete context.owner r)
        | .repliedCaller => some { s with direct := s.direct ++ [context.owner] }
        | .left => some s
      | none => some s
    else some s

/-- An execution is about to call the callback that `MultiRequestContext` has given it. -/
def aboutToReply (x : Execution Op Answer Reply) : Bool :=
  match x.control with
  | .ready program =>
    match if x.isCancelled then program.cancelBranch else program with
    | .reply _ => true
    | _ => false
  | _ => false

/-- An event of another thread that needs the mutex, or a new call. -/
def needsMutex (s : State Call Op Answer Reply) : Event Call Op Answer → Bool
  | .call _ _ => true
  | .cancel _ => true
  | .advance owner _ => (s.execution owner).any aboutToReply
  | _ => false

end State

/-- What can happen while the destructor runs: an iteration, or an event of another thread. -/
inductive DestructorEvent (Call Op : Type) (Answer : Op → Type) where
  | iterate (outside : Outside Op Answer) (cache : Store)
  | other (event : Event Call Op Answer)

/-- What an event does while the destructor runs, if it can happen. -/
def State.stepDestructor (repository : Repository Call Op Answer Reply)
    (s : State Call Op Answer Reply) :
    DestructorEvent Call Op Answer → Option (State Call Op Answer Reply)
  | .iterate outside cache => s.iterate repository outside cache
  | .other event => if s.needsMutex event then none else s.step repository event

end Repository

end OlpEdgeSdk.Model

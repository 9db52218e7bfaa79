import OlpEdgeSdk.Model.CancellationContext

/-!
# The parallel requests of a prefetch

`GetSubTiles` starts one task for each sub-quad, and when all have answered,
`QueryDataForEachSubTile` one for each tile found. Every task looks up an API client and then
sends its request, each by `ExecuteOrCancelled` on the cancellation context of the prefetch. A
task calls into the context from its own thread, so not while another thread is inside; the
callback of a lookup may run on the thread that is inside.

The token that the context holds at the start belongs to the request for the catalog version,
which has answered; it stands as the token of no request.

SOURCE: PrefetchTilesRepository.cpp, PrefetchTilesProvider.cpp, DataRepository.cpp
-/

set_option autoImplicit false

namespace OlpEdgeSdk.Model

open OlpEdgeSdk.Base

namespace PrefetchTiles

/-- How far a task is: not inside the context yet, waiting for the API client, told of it,
waiting for the answer to its request, finished. A request is known by the number of those that
were started on the context before it. -/
inductive Branch where
  | waiting
  | lookup (id : ℕ)
  | found
  | request (id : ℕ)
  | done
deriving DecidableEq, Repr

/-- The request that a task has started and that has not answered. -/
def Branch.pending : Branch → Option ℕ
  | .lookup id | .request id => some id
  | .waiting | .found | .done => none

/-- `queried` says that the tasks of `QueryDataForEachSubTile` are there; `returned` are the
requests whose `execute_fn` has returned, the last one first. -/
structure State where
  context : CancellationContext.State
  branches : List Branch
  queried : Bool
  returned : List ℕ
deriving DecidableEq

/-- What can happen next: a step of a task, or the return of what the thread inside the context
has called. -/
inductive Event where
  | queryDataForEachSubTile (count : ℕ)
  | executeLookup (i : ℕ)
  | withoutRequest (i : ℕ)
  | lookupAnswers (i : ℕ) (isSuccessful : Bool)
  | executeRequest (i : ℕ)
  | requestAnswers (i : ℕ)
  | executeFnReturns
  | cancelFnReturns
  | cancelOperation
  | cancelReturns
deriving DecidableEq

/-- `GetSubTiles` for so many sub-quads.
SOURCE: PrefetchTilesRepository.cpp:150-164 -/
def initial (count : ℕ) : State :=
  ⟨CancellationContext.initial, .replicate count .waiting, false, []⟩

/-- A task calls `ExecuteOrCancelled`: its request is started, or its `cancel_fn` gives it the
answer that it was cancelled. -/
def executeOrCancelled (s : State) (i : ℕ) (start : ℕ → Branch) : Option State :=
  (CancellationContext.step s.context (.executeOrCancelled true true)).map fun context =>
    { s with
      context := context
      branches := s.branches.set i
        (if s.context.context.isCancelled then .done else start s.context.started) }

/-- A tile whose data is embedded, or of a layer that is not supported, needs no request. Data
that is in the cache ends the task like a lookup that fails.
SOURCE: PrefetchTilesRepository.cpp:141-272, PrefetchTilesProvider.cpp:207-259,
DataRepository.cpp:92-144 -/
def step (s : State) : Event → Option State
  | .queryDataForEachSubTile count =>
    if s.queried = false ∧ ∀ branch ∈ s.branches, branch = .done then
      some { s with queried := true, branches := s.branches ++ .replicate count .waiting }
    else none
  | .executeLookup i =>
    if s.branches[i]? = some .waiting ∧ s.context.frames = [] then
      executeOrCancelled s i .lookup
    else none
  | .withoutRequest i =>
    if s.branches[i]? = some .waiting ∧ s.queried = true then
      some { s with branches := s.branches.set i .done }
    else none
  | .lookupAnswers i isSuccessful =>
    match s.branches[i]? with
    | some (.lookup _) =>
      some { s with branches := s.branches.set i (if isSuccessful then .found else .done) }
    | _ => none
  | .executeRequest i =>
    if s.branches[i]? = some .found then executeOrCancelled s i .request else none
  | .requestAnswers i =>
    match s.branches[i]? with
    | some (.request _) => some { s with branches := s.branches.set i .done }
    | _ => none
  | .executeFnReturns =>
    match s.context.frames with
    | .executing id :: _ =>
      (CancellationContext.step s.context .executeFnReturns).map fun context =>
        { s with context := context, returned := id :: s.returned }
    | _ => none
  | .cancelFnReturns =>
    (CancellationContext.step s.context .cancelFnReturns).map ({ s with context := · })
  | .cancelOperation =>
    (CancellationContext.step s.context .cancelOperation).map ({ s with context := · })
  | .cancelReturns =>
    (CancellationContext.step s.context .cancelReturns).map ({ s with context := · })

end PrefetchTiles

end OlpEdgeSdk.Model

import OlpEdgeSdk.Base.Runs
import OlpEdgeSdk.Base.SortedMap

/-!
# Coalesced requests

`MultiRequestContext` lets callers that ask for the same key share one execution. It is used
from several threads, and its mutex is held only while `active_reqs_` is looked up and
changed. The model is a step function at that granularity: a call of `ExecuteOrAssociate`, of
a provider's callback or of a token is split into the events between which other threads can
run.

A request id stands for the callback it was drawn for; ids are never drawn twice. The
execution started for a context is named by the request that made the context. The providers
are outside code: one can call its callback at any time after it was started, any number of
times, inside `execute_fn` or inside the cancellation of its token too.

The last two fields of the state record what has happened and are read by no event.

SOURCE: MultiRequestContext.h
-/

set_option autoImplicit false

namespace OlpEdgeSdk.Model.MultiRequestContext

open OlpEdgeSdk.Base

/-- A call of `ExecuteOrAssociate`: its id, its key and the execution it is associated with. -/
structure Request (Key : Type) where
  id : ℕ
  key : Key
  owner : ℕ
deriving DecidableEq, Repr

/-- The ids of the callbacks that wait for an execution.
SOURCE: MultiRequestContext.h:128-131 -/
structure RequestContext where
  owner : ℕ
  callbacks : List ℕ
deriving DecidableEq, Repr

/-- What a callback is invoked with: the response of an execution, or `cancelled_`. -/
inductive Outcome (Response : Type) where
  | completed (owner : ℕ) (response : Response)
  | cancelled
deriving DecidableEq, Repr

/-- The state of one `MultiRequestContext` and of the calls that are under way.
* `activeReqs`: the contexts in the map;
* `requests`: every call of `ExecuteOrAssociate` so far;
* `started`, `returned`: the executions whose `execute_fn` was called, and has returned the
  token that cancels the provider;
* `cancelling`: requests whose cancellation is about to cancel the provider of an execution;
* `due`: callbacks that are about to be invoked;
* `invoked`: the invocations so far;
* `answered`: the executions whose provider has called its callback;
* `dropped`: requests taken out of the map by the cancellation of another one. -/
structure State (Key Response : Type) [LinearOrder Key] where
  activeReqs : SortedMap Key RequestContext
  requests : List (Request Key)
  started : List ℕ
  returned : List ℕ
  cancelling : List (ℕ × ℕ)
  providersCancelled : List ℕ
  due : List (ℕ × Outcome Response)
  invoked : List (ℕ × Outcome Response)
  answered : List ℕ
  dropped : List (ℕ × ℕ)

/-- The events. -/
inductive Event (Key Response : Type) where
  /-- The locked part of `ExecuteOrAssociate`, with the id drawn for it. -/
  | associate (key : Key) (id : ℕ)
  /-- `execute_fn(callback)` is called. -/
  | execute (owner : ℕ)
  /-- `execute_fn` returns, and its token is assigned to the context. -/
  | assignToken (owner : ℕ)
  /-- The locked part of `onRequestCompleted`, called by the provider of an execution. -/
  | complete (owner : ℕ) (response : Response)
  /-- The locked part of `onRequestCancelled`, called by the token of a request, and its
  search for the callback. -/
  | cancel (id : ℕ)
  /-- `context->cancellation_token_.cancel()` in the cancellation of a request. -/
  | cancelProvider (id : ℕ)
  /-- A callback is invoked. -/
  | invoke (id : ℕ)

variable {Key Response : Type} [LinearOrder Key]

namespace State

/-- No request yet. -/
def init : State Key Response :=
  ⟨SortedMap.empty, [], [], [], [], [], [], [], [], []⟩

/-- The call of `ExecuteOrAssociate` with a given id. -/
def request (s : State Key Response) (id : ℕ) : Option (Request Key) :=
  s.requests.find? fun q => q.id = id

/-- SOURCE: MultiRequestContext.h:81-101 -/
def associate (s : State Key Response) (key : Key) (id : ℕ) : State Key Response :=
  match s.activeReqs.find key with
  | some context => { s with
      activeReqs := s.activeReqs.insert key { context with callbacks := context.callbacks ++ [id] }
      requests := s.requests ++ [⟨id, key, context.owner⟩] }
  | none => { s with
      activeReqs := s.activeReqs.insert key ⟨id, [id]⟩
      requests := s.requests ++ [⟨id, key, id⟩] }

/-- The context is looked up by key, whichever execution it belongs to; it is erased and its
callbacks are invoked with the response.
SOURCE: MultiRequestContext.h:138-164 -/
def onRequestCompleted (s : State Key Response) (key : Key) (owner : ℕ) (response : Response) :
    State Key Response :=
  match s.activeReqs.find key with
  | some context => { s with
      activeReqs := s.activeReqs.erase key
      due := s.due ++ context.callbacks.map fun id => (id, .completed owner response) }
  | none => s

/-- The context is looked up by key and erased, whether or not it holds the request; of its
callbacks only that of the request is invoked.
SOURCE: MultiRequestContext.h:166-208 -/
def onRequestCancelled (s : State Key Response) (key : Key) (id : ℕ) : State Key Response :=
  match s.activeReqs.find key with
  | some context =>
    let s := { s with
      activeReqs := s.activeReqs.erase key
      dropped := s.dropped ++ (context.callbacks.erase id).map fun other => (other, id) }
    if id ∈ context.callbacks then
      if context.callbacks.length ≤ 1 then
        -- this is the last callback: cancel the underlying request
        { s with cancelling := s.cancelling ++ [(id, context.owner)] }
      else { s with due := s.due ++ [(id, .cancelled)] }
    else s
  | none => s

/-- What an event does to the state, if it can happen. -/
def step (s : State Key Response) : Event Key Response → Option (State Key Response)
  | .associate key id =>
    match s.request id with
    | some _ => none
    | none => some (s.associate key id)
  | .execute owner =>
    match s.request owner with
    | some q =>
      if q.owner = owner ∧ owner ∉ s.started then
        some { s with started := s.started ++ [owner] }
      else none
    | none => none
  | .assignToken owner =>
    if owner ∈ s.started ∧ owner ∉ s.returned then
      some { s with returned := s.returned ++ [owner] }
    else none
  | .complete owner response =>
    match s.request owner with
    | some q =>
      if owner ∈ s.started then
        some ({ s with answered := s.answered ++ [owner] }.onRequestCompleted q.key owner response)
      else none
    | none => none
  | .cancel id =>
    match s.request id with
    | some q =>
      -- the token of a request that started an execution exists once `execute_fn` returned
      if q.owner = id → id ∈ s.returned then some (s.onRequestCancelled q.key id) else none
    | none => none
  | .cancelProvider id =>
    match s.cancelling.find? fun c => c.1 = id with
    | some c => some { s with
        cancelling := s.cancelling.eraseP fun c => c.1 = id
        -- a token that is not assigned yet cancels nothing
        providersCancelled := if c.2 ∈ s.returned then s.providersCancelled ++ [c.2]
          else s.providersCancelled
        due := s.due ++ [(id, .cancelled)] }
    | none => none
  | .invoke id =>
    match s.due.find? fun d => d.1 = id with
    | some d => some { s with
        due := s.due.eraseP fun d => d.1 = id
        invoked := s.invoked ++ [d] }
    | none => none

/-- The state after a run of events from the beginning. -/
def run (events : List (Event Key Response)) : Option (State Key Response) :=
  runFrom step init events

end State

end OlpEdgeSdk.Model.MultiRequestContext

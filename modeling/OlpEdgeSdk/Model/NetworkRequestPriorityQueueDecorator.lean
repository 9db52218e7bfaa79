import OlpEdgeSdk.Base.Runs
import OlpEdgeSdk.Model.NetworkRequestPriorityQueue

/-!
# The queue in front of a protocol

The decorator keeps requests in the queue of a quota group until its thread, the dispatcher,
hands them to the protocol. The counter of a group says how many of its requests the protocol
has; a group whose counter has reached its quota is passed over.

A run is a list of events: calls of `Send` and `Cancel`, steps of the dispatcher, and what the
protocol does. Every lock is modelled: an operation on a queue is one step, and the mutex
`cancel_mutex_` is held from the moment the dispatcher starts to send until it is done with the
request, and by a cancellation while it is in the protocol. `Signal::Set` is the last thing a
call, a callback or a report of an error does, and stands in one step with what comes before it.

The protocol is under no obligation but its contract. Inside `protocol_->Send` it may accept the
request; then it calls the callback once, at any time from then on (the call of `Send` need not
have returned), and `Send` returns `ErrorNone`. Or it does not accept it, never calls the
callback, and `Send` returns another code.

`AmountPending`, `Initialize` and the recording of network events read and change nothing here.

SOURCE: NetworkRequestPriorityQueueDecorator.h, NetworkRequestPriorityQueueDecorator.cpp
-/

set_option autoImplicit false

namespace OlpEdgeSdk.Model

open OlpEdgeSdk.Base NetworkProtocol

/-- A quota group. The type `size_t` has 64 bits.
SOURCE: NetworkRequestPriorityQueueDecorator.h:132-140 -/
structure QuotaQueue where
  queue : NetworkRequestPriorityQueue
  quota : UInt64
  selector : NetworkRequest → Bool
  counter : UInt64

namespace QuotaQueue

/-- SOURCE: NetworkRequestPriorityQueueDecorator.cpp:202-208 -/
def new (quota : UInt64) (selector : NetworkRequest → Bool) : QuotaQueue :=
  ⟨.empty, quota, selector, 0⟩

/-- SOURCE: NetworkRequestPriorityQueueDecorator.cpp:62-67 -/
def isExceeded (group : QuotaQueue) : Bool := group.quota ≤ group.counter

def push (context : RequestContext) (group : QuotaQueue) : QuotaQueue :=
  { group with queue := group.queue.push context }

/-- SOURCE: NetworkRequestPriorityQueueDecorator.cpp:219 -/
def raise (group : QuotaQueue) : QuotaQueue := { group with counter := group.counter + 1 }

/-- SOURCE: NetworkRequestPriorityQueueDecorator.cpp:244, 255 -/
def lower (group : QuotaQueue) : QuotaQueue := { group with counter := group.counter - 1 }

end QuotaQueue

namespace NetworkRequestPriorityQueueDecorator

/-- Where the dispatcher is: at the head of its loop, before it looks at a group, before it pops
from the queue of the group, with a request in its hand, inside `protocol_->Send` (`accepted`
says that the protocol has accepted the request), inside the callback that it tells an error,
waiting for the signal, or at its end.
SOURCE: NetworkRequestPriorityQueueDecorator.cpp:57-97, 210-258 -/
inductive Dispatcher where
  | looping
  | visiting (i : ℕ)
  | popping (i : ℕ)
  | holding (i : ℕ) (context : RequestContext)
  | sending (i : ℕ) (context : RequestContext) (accepted : Bool)
  | reporting (i : ℕ) (context : RequestContext)
  | waiting
  | stopped
deriving DecidableEq, Repr

/-- Where a call of `Cancel` or `CancelIfPending` is: before it looks into the queue of a group,
before it takes the mutex, or inside `protocol_->Cancel`. -/
inductive CancelPosition where
  | looking (i : ℕ)
  | locking
  | inProtocol
deriving DecidableEq, Repr

/-- A call of `Cancel`, or with `pendingOnly` one of `CancelIfPending`. -/
structure CancelCall where
  id : ℤ
  pendingOnly : Bool
  position : CancelPosition
deriving DecidableEq, Repr

/-- A request that the protocol has accepted and whose callback has not finished. -/
structure Accepted where
  group : ℕ
  context : RequestContext
  calledBack : Bool
deriving DecidableEq, Repr

/-- `answers` keeps what `protocol_->Send` has returned, with the group it was called for, and
`delivered` what the callbacks of the requests were given. -/
structure State where
  queues : List QuotaQueue
  dispatcher : Dispatcher
  isSatisfied : Bool
  stopThread : Bool
  cancels : List CancelCall
  accepted : List Accepted
  answers : List (ℕ × ErrorCode)
  delivered : List (RequestContext × NetworkResponse)

inductive Event where
  | send (request : NetworkRequest) (id : ℤ) (hasCallback : Bool)
  | cancel (id : ℤ) (pendingOnly : Bool)
  | cancelLooks (k : ℕ)
  | cancelLocks (k : ℕ)
  | cancelReturns (k : ℕ) (result : Bool)
  | loop
  | visit (ready : Bool)
  | pop
  | startSend
  | accept
  | sendReturns (code : ErrorCode)
  | errorReported
  | wake
  | callback (k : ℕ) (response : NetworkResponse)
  | callbackReturns (k : ℕ)
  | destroy

/-- The default group comes first.
SOURCE: NetworkRequestPriorityQueueDecorator.cpp:43-53, 196-208 -/
def new (defaultQuotaGroupSize : UInt64)
    (queueConfigs : List (UInt64 × (NetworkRequest → Bool))) : State where
  queues := .new defaultQuotaGroupSize (fun _ => true) ::
    queueConfigs.map fun config => .new config.1 config.2
  dispatcher := .looping
  isSatisfied := false
  stopThread := false
  cancels := []
  accepted := []
  answers := []
  delivered := []

/-- The group a request goes to: the last one whose selector takes it.
SOURCE: NetworkRequestPriorityQueueDecorator.cpp:138-145 -/
def select (queues : List QuotaQueue) (request : NetworkRequest) : Option ℕ :=
  (queues.zipIdx.reverse.find? fun group => group.1.selector request).map Prod.snd

/-- The callbacks of the requests that have one are given a response. -/
def deliver (s : State) (contexts : List RequestContext)
    (response : RequestContext → NetworkResponse) : State :=
  { s with delivered := s.delivered ++
      (contexts.filter RequestContext.hasCallback).map fun context => (context, response context) }

/-- SOURCE: NetworkRequestPriorityQueueDecorator.cpp:129-154 -/
def send (s : State) (context : RequestContext) : ErrorCode × State :=
  match select s.queues context.request with
  | some i =>
    (.errorNone, { s with
      queues := s.queues.modify i (.push context), isSatisfied := true })
  | none => (.errorNetworkOverload, s)

/-- SOURCE: NetworkRequestPriorityQueueDecorator.cpp:182-184 -/
def cancelledResponse (context : RequestContext) : NetworkResponse :=
  ⟨context.id, true, -5, "Cancelled".toList, 0, -1, [], [], 0, 0⟩

/-- A call of `Cancel` looks into the queue of the group `i`, or has looked into all of them.
SOURCE: NetworkRequestPriorityQueueDecorator.cpp:156-190 -/
def cancelLooks (s : State) (k : ℕ) (call : CancelCall) (i : ℕ) : State :=
  match s.queues[i]? with
  | some group =>
    let result := group.queue.removeIf fun context => context.id = call.id
    deliver { s with
      queues := s.queues.set i { group with queue := result.2 },
      cancels :=
        if result.1.isEmpty then s.cancels.set k { call with position := .looking (i + 1) }
        else s.cancels.eraseIdx k } result.1 cancelledResponse
  | none =>
    if call.pendingOnly then { s with cancels := s.cancels.eraseIdx k }
    else { s with cancels := s.cancels.set k { call with position := .locking } }

/-- The dispatcher is not in the middle of `SendRequest`. -/
def State.isBetweenSteps (s : State) : Bool :=
  match s.dispatcher with
  | .sending _ _ _ => false
  | .reporting _ _ => false
  | _ => true

/-- Nobody holds `cancel_mutex_`. -/
def State.isFree (s : State) : Bool :=
  s.isBetweenSteps && s.cancels.all fun call => call.position ≠ .inProtocol

/-- Where the dispatcher goes on after a group with nothing to send.
SOURCE: NetworkRequestPriorityQueueDecorator.cpp:59, 91-95 -/
def State.next (s : State) (i : ℕ) : Dispatcher :=
  if i + 1 < s.queues.length then .visiting (i + 1) else .waiting

/-- SOURCE: NetworkRequestPriorityQueueDecorator.cpp:59-89 -/
def visit (s : State) (i : ℕ) (group : QuotaQueue) (ready : Bool) : State :=
  if !ready then { s with dispatcher := .waiting }
  else if group.isExceeded then { s with dispatcher := s.next i }
  else { s with dispatcher := .popping i }

/-- SOURCE: NetworkRequestPriorityQueueDecorator.cpp:69-82 -/
def pop (s : State) (i : ℕ) (group : QuotaQueue) : State :=
  match group.queue.pop with
  | some (context, queue) =>
    { s with
      queues := s.queues.set i { group with queue := queue }, dispatcher := .holding i context }
  | none => { s with dispatcher := s.next i }

/-- What `SendRequest` does with the code `protocol_->Send` has returned.
SOURCE: NetworkRequestPriorityQueueDecorator.cpp:247-257 -/
def sendReturns (s : State) (i : ℕ) (context : RequestContext) (code : ErrorCode) : State :=
  let s := { s with answers := s.answers ++ [(i, code)] }
  match code with
  | .errorNone => { s with dispatcher := .looping }
  | .errorNotReady =>
    { s with queues := s.queues.modify i (.push context), dispatcher := .looping }
  | code =>
    deliver { s with dispatcher := .reporting i context } [context]
      fun context => handleSynchronousNetworkErrors code context.id

/-- SOURCE: NetworkRequestPriorityQueueDecorator.cpp:57-109, 129-190, 210-258 -/
def step (s : State) : Event → Option State
  | .send request id hasCallback =>
    if s.stopThread then none else some (send s ⟨request, id, hasCallback⟩).2
  | .cancel id pendingOnly =>
    if s.stopThread then none
    else some { s with cancels := s.cancels ++ [⟨id, pendingOnly, .looking 0⟩] }
  | .cancelLooks k =>
    match s.cancels[k]? with
    | some ⟨id, pendingOnly, .looking i⟩ => some (cancelLooks s k ⟨id, pendingOnly, .looking i⟩ i)
    | _ => none
  | .cancelLocks k =>
    match s.cancels[k]? with
    | some ⟨id, pendingOnly, .locking⟩ =>
      if s.isFree then some { s with cancels := s.cancels.set k ⟨id, pendingOnly, .inProtocol⟩ }
      else none
    | _ => none
  | .cancelReturns k result =>
    match s.cancels[k]? with
    | some ⟨_, _, .inProtocol⟩ =>
      some { s with
        cancels := s.cancels.eraseIdx k, isSatisfied := result || s.isSatisfied }
    | _ => none
  | .loop =>
    match s.dispatcher with
    | .looping =>
      some { s with dispatcher := if s.stopThread then .stopped else .visiting 0 }
    | _ => none
  | .visit ready =>
    match s.dispatcher with
    | .visiting i => s.queues[i]?.map fun group => visit s i group ready
    | _ => none
  | .pop =>
    match s.dispatcher with
    | .popping i => s.queues[i]?.map fun group => pop s i group
    | _ => none
  | .startSend =>
    match s.dispatcher with
    | .holding i context =>
      if s.isFree then
        some { s with
          queues := s.queues.modify i .raise, dispatcher := .sending i context false }
      else none
    | _ => none
  | .accept =>
    match s.dispatcher with
    | .sending i context false =>
      some { s with
        dispatcher := .sending i context true, accepted := s.accepted ++ [⟨i, context, false⟩] }
    | _ => none
  | .sendReturns code =>
    match s.dispatcher with
    | .sending i context accepted =>
      -- the contract of the protocol
      if accepted = decide (code = .errorNone) then some (sendReturns s i context code) else none
    | _ => none
  | .errorReported =>
    match s.dispatcher with
    | .reporting i _ =>
      some { s with
        queues := s.queues.modify i .lower, isSatisfied := true, dispatcher := .looping }
    | _ => none
  | .wake =>
    match s.dispatcher with
    | .waiting =>
      if s.isSatisfied then some { s with isSatisfied := false, dispatcher := .looping } else none
    | _ => none
  | .callback k response =>
    match s.accepted[k]? with
    | some ⟨i, context, false⟩ =>
      some (deliver { s with accepted := s.accepted.set k ⟨i, context, true⟩ } [context]
        fun _ => response)
    | _ => none
  | .callbackReturns k =>
    match s.accepted[k]? with
    | some ⟨i, _, true⟩ =>
      some { s with
        queues := s.queues.modify i .lower, isSatisfied := true,
        accepted := s.accepted.eraseIdx k }
    | _ => none
  | .destroy =>
    if s.stopThread then none else some { s with stopThread := true, isSatisfied := true }

/-- How many requests of a group the protocol has accepted whose callbacks have not finished. -/
def State.inFlight (s : State) (i : ℕ) : ℕ := s.accepted.countP fun request => request.group == i

end NetworkRequestPriorityQueueDecorator

end OlpEdgeSdk.Model

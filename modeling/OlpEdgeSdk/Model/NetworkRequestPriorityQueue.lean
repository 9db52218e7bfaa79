import Mathlib.Logic.Function.Basic
import Mathlib.Data.List.FinRange
import OlpEdgeSdk.Model.Network

/-!
# The queue of requests

Requests wait in one queue for each priority. Each operation holds the lock of the queue for its
whole body.

SOURCE: NetworkRequestPriorityQueue.h, NetworkRequestPriorityQueue.cpp, RequestContext.h
-/

set_option autoImplicit false

namespace OlpEdgeSdk.Model

/-- A request with its id. `hasCallback` says that `callback_` is not null; what is only handed
on to the protocol (the payload, the configuration, the other callbacks) is left out.
SOURCE: RequestContext.h:35-84 -/
structure RequestContext where
  request : NetworkRequest
  id : ℤ
  hasCallback : Bool
deriving DecidableEq, Repr

/-- SOURCE: NetworkRequestPriorityQueue.h:88-91 -/
structure NetworkRequestPriorityQueue where
  requests : Priority → List RequestContext

namespace NetworkRequestPriorityQueue

def empty : NetworkRequestPriorityQueue := ⟨fun _ => []⟩

/-- SOURCE: NetworkRequestPriorityQueue.cpp:26-29 -/
def push (q : NetworkRequestPriorityQueue) (context : RequestContext) :
    NetworkRequestPriorityQueue :=
  ⟨Function.update q.requests context.request.priority
    (q.requests context.request.priority ++ [context])⟩

/-- The loop of `Pop` over the priorities that are left. -/
def popFrom (q : NetworkRequestPriorityQueue) :
    List Priority → Option (RequestContext × NetworkRequestPriorityQueue)
  | [] => none
  | i :: rest =>
    match q.requests i with
    | [] => popFrom q rest
    | context :: contexts => some (context, ⟨Function.update q.requests i contexts⟩)

/-- From `PriorityMax` down to `PriorityMin`.
SOURCE: NetworkRequestPriorityQueue.cpp:31-44 -/
def pop (q : NetworkRequestPriorityQueue) :
    Option (RequestContext × NetworkRequestPriorityQueue) :=
  q.popFrom (List.finRange 6).reverse

/-- The requests that were removed, and the queue that is left.
SOURCE: NetworkRequestPriorityQueue.h:63-79 -/
def removeIf (q : NetworkRequestPriorityQueue) (f : RequestContext → Bool) :
    List RequestContext × NetworkRequestPriorityQueue :=
  ((List.finRange 6).flatMap fun i => (q.requests i).filter f,
    ⟨fun i => (q.requests i).filter fun context => !f context⟩)

/-- SOURCE: NetworkRequestPriorityQueue.cpp:46-54 -/
def size (q : NetworkRequestPriorityQueue) : ℕ :=
  (List.finRange 6).foldl (fun count i => count + (q.requests i).length) 0

end NetworkRequestPriorityQueue

end OlpEdgeSdk.Model
